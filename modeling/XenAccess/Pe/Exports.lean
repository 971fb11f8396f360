import XenAccess.Maps.Physical
import XenAccess.Model.Image
import XenAccess.Model.PeParse

/-!
# Exports of the Windows kernel

`windows_export_to_rva` reads every header and every entry of a table through the mapping of
the page it starts in. It compares each name with as much of the symbol as the name is long, and
reads a name only up to the last byte of its page. So the first name of which a non-empty part is
read and this part starts the symbol is taken for it (`windowsExportToRva_eq_some_iff`), which is
right exactly when the RVA that is read for that export is the one of the export with the name of
the symbol (`windowsExportToRva_exact_iff`).
-/

namespace XenAccess

variable {h : Host} {p : XaParams} {memory : Page} {a : U32}

/-! ## Strings -/

/-- What `rva_to_string` reads of a string at an address: it stops before the last byte of the
page. -/
def visiblePart (a : U32) (s : CStr) : CStr := s.take (4095 - a.toNat % 4096)

/-- The bound that `rva_to_string` computes. -/
theorem maxLength_toNat (hsize : p.pageSize = 4096) {o : Nat} (ho : o < 4096) :
    (p.pageSize - BitVec.ofNat 32 o - 1).toNat = 4095 - o := by
  rw [hsize]
  bv_omega

theorem rvaToString_eq (hsize : p.pageSize = 4096) {rva : U32} {s : CStr}
    (hmap : MapsPa h p memory (p.os.ntoskrnl + rva))
    (hs : StringAt memory (p.os.ntoskrnl + rva) s) :
    rvaToString h p rva =
      if visiblePart (p.os.ntoskrnl + rva) s = [] then none
      else some (visiblePart (p.os.ntoskrnl + rva) s) := by
  obtain ⟨acc, hacc, hbytes⟩ := hmap
  have hoffset : acc.offset = BitVec.ofNat 32 ((p.os.ntoskrnl + rva).toNat % 4096) := by
    obtain ⟨m, -, rfl⟩ := Option.map_eq_some_iff.mp hacc
    exact offset_eq_ofNat hsize _
  have hmax : (p.pageSize - acc.offset - 1).toNat = 4095 - (p.os.ntoskrnl + rva).toNat % 4096 := by
    rw [hoffset]
    exact maxLength_toNat hsize (Nat.mod_lt _ (by decide))
  have hread : acc.memory.cstr acc.offset (p.pageSize - acc.offset - 1).toNat =
      visiblePart (p.os.ntoskrnl + rva) s := by
    rw [hmax, cstr_of_bytes_eq (fun d hd => hbytes d (by omega)) (by omega), hs.cstr_eq]
    rfl
  unfold rvaToString
  rw [hacc]
  simp only [hread]
  cases visiblePart (p.os.ntoskrnl + rva) s with
  | nil => rfl
  | cons c s => rfl

/-! ## What is read -/

/-- The export directory through an access to its page. -/
def tableAt (acc : Access) : ExportTable where
  name := acc.memory.u32 (acc.offset + 12)
  numberOfNames := acc.memory.u32 (acc.offset + 24)
  addressOfFunctions := acc.memory.u32 (acc.offset + 28)
  addressOfNames := acc.memory.u32 (acc.offset + 32)
  addressOfNameOrdinals := acc.memory.u32 (acc.offset + 36)

/-- The headers of the kernel lead to this export directory, each read through the mapping of
the page it starts in. -/
def SeesTable (h : Host) (p : XaParams) (et : ExportTable) : Prop :=
  ∃ e, xaReadLongPhys h p (p.os.ntoskrnl + 60) = some e ∧
    ∃ oh, xaAccessPa h p (p.os.ntoskrnl + e + 4 + 20) protRead = some oh ∧
      ∃ acc, xaAccessPa h p (p.os.ntoskrnl + oh.memory.u32 (oh.offset + 96)) protRead = some acc ∧
        et = tableAt acc

namespace ExportTable

variable (h : Host) (p : XaParams) (et : ExportTable)

/-- What is read of the name `i`; a name at RVA `0` is passed over. -/
def seenName (i : Nat) : Option CStr :=
  (xaReadLongPhys h p (p.os.ntoskrnl + et.addressOfNames + BitVec.ofNat 32 i * 4)).bind fun rva =>
    if rva = 0 then none else rvaToString h p rva

/-- The RVA that is read for the export with the name `i`. -/
def seenRva (i : Nat) : Option U32 :=
  (xaReadLongPhys h p
    (p.os.ntoskrnl + et.addressOfNameOrdinals + BitVec.ofNat 32 i * 2)).bind fun ordinal =>
      xaReadLongPhys h p (p.os.ntoskrnl + et.addressOfFunctions + (ordinal &&& 0xffff) * 4)

/-- What is read of the name `i` starts the symbol. -/
def Starts (symbol : CStr) (i : Nat) : Prop := ∃ name ∈ et.seenName h p i, name <+: symbol

instance (symbol : CStr) : DecidablePred (et.Starts h p symbol) :=
  fun i => inferInstanceAs (Decidable (∃ name ∈ et.seenName h p i, name <+: symbol))

/-- The first name of which what is read starts the symbol. -/
def FirstStarts (symbol : CStr) (i : Nat) : Prop :=
  i < et.numberOfNames.toNat ∧ et.Starts h p symbol i ∧ ∀ j < i, ¬et.Starts h p symbol j

end ExportTable

variable {et : ExportTable} {symbol : CStr}

theorem strncmpEq_length_iff (name : CStr) :
    strncmpEq name symbol name.length = true ↔ name <+: symbol := by
  unfold strncmpEq
  rw [beq_iff_eq, List.take_length, List.prefix_iff_eq_take]

/-- One round of `get_aon_index`. -/
theorem aonLoop_succ (n i : Nat) :
    aonLoop h p symbol et (n + 1) (BitVec.ofNat 32 i) =
      if et.Starts h p symbol i then some (BitVec.ofNat 32 i)
      else aonLoop h p symbol et n (BitVec.ofNat 32 (i + 1)) := by
  rw [aonLoop, BitVec.ofNat_add]
  by_cases hstarts : et.Starts h p symbol i
  · rw [if_pos hstarts]
    obtain ⟨name, hname, hstart⟩ := hstarts
    obtain ⟨rva, hread, hname⟩ := Option.bind_eq_some_iff.mp hname
    have hzero : rva ≠ 0 := fun hzero => by simp [hzero] at hname
    rw [if_neg hzero] at hname
    simp only [hread, Option.getD_some, bne_iff_ne, ne_eq, hzero, not_false_eq_true, if_true, hname,
      (strncmpEq_length_iff name).mpr hstart]
  · rw [if_neg hstarts]
    unfold ExportTable.Starts ExportTable.seenName at hstarts
    cases hread : xaReadLongPhys h p (p.os.ntoskrnl + et.addressOfNames + BitVec.ofNat 32 i * 4) with
    | none => rfl
    | some rva =>
      rw [hread, Option.bind_some] at hstarts
      by_cases hzero : rva = 0
      · subst hzero
        rfl
      · rw [if_neg hzero] at hstarts
        rw [Option.getD_some, if_pos (bne_iff_ne.mpr hzero)]
        cases hname : rvaToString h p rva with
        | none => rfl
        | some name =>
          have hnot : ¬strncmpEq name symbol name.length := fun hstart =>
            hstarts ⟨name, hname, (strncmpEq_length_iff name).mp hstart⟩
          exact if_neg hnot

/-- `get_aon_index` takes the first name that starts the symbol. -/
theorem aonLoop_eq (n i : Nat) :
    aonLoop h p symbol et n (BitVec.ofNat 32 i) =
      ((List.range' i n).find? fun j => et.Starts h p symbol j).map (BitVec.ofNat 32) := by
  induction n generalizing i with
  | zero => rfl
  | succ n ih =>
    rw [aonLoop_succ, List.range'_succ, List.find?_cons, ih]
    by_cases hstarts : et.Starts h p symbol i
    · rw [if_pos hstarts, decide_eq_true hstarts]
      rfl
    · rw [if_neg hstarts, decide_eq_false hstarts]

theorem getAonIndex_eq_some_iff {index : U32} :
    getAonIndex h p symbol et = some index ↔
      ∃ i, et.FirstStarts h p symbol i ∧ index = BitVec.ofNat 32 i := by
  unfold getAonIndex
  rw [show (0 : U32) = BitVec.ofNat 32 0 from rfl, aonLoop_eq, ← List.range_eq_range',
    Option.map_eq_some_iff]
  refine exists_congr fun i => and_congr ?_ eq_comm
  rw [List.find?_range_eq_some]
  simp only [decide_eq_true_eq, List.mem_range, Bool.not_eq_true', decide_eq_false_iff_not,
    ExportTable.FirstStarts]
  exact ⟨fun ⟨hstarts, hi, hbefore⟩ => ⟨hi, hstarts, hbefore⟩,
    fun ⟨hi, hstarts, hbefore⟩ => ⟨hstarts, hi, hbefore⟩⟩

theorem getExportTable_eq_some_iff {e : U32}
    (he : xaReadLongPhys h p (p.os.ntoskrnl + 60) = some e) :
    getExportTable h p p.os.ntoskrnl = some et ↔ SeesTable h p et := by
  have hrun : getExportTable h p p.os.ntoskrnl =
      (xaAccessPa h p (p.os.ntoskrnl + e + 4 + 20) protRead).bind fun oh =>
        (xaAccessPa h p (p.os.ntoskrnl + oh.memory.u32 (oh.offset + 96)) protRead).bind fun acc =>
          some (tableAt acc) := by
    unfold getExportTable
    rw [he]
    rfl
  rw [hrun, SeesTable]
  simp only [Option.bind_eq_some_iff, Option.some_inj, he, exists_eq_left']
  exact exists_congr fun oh => and_congr_right fun _ => exists_congr fun acc =>
    and_congr_right fun _ => eq_comm

/-- What is returned: the RVA that is read for the first name of which what is read starts the
symbol. -/
theorem windowsExportToRva_eq_some_iff {e rva : U32}
    (he : xaReadLongPhys h p (p.os.ntoskrnl + 60) = some e) :
    windowsExportToRva h p symbol = some rva ↔
      ∃ et, SeesTable h p et ∧
        ∃ i, et.FirstStarts h p symbol i ∧ et.seenRva h p i = some rva := by
  have hrva (et : ExportTable) (i : Nat) :
      ((getAofIndex h p (BitVec.ofNat 32 i) et).bind fun aofIndex =>
        getExportRva h p aofIndex et) = et.seenRva h p i := by
    rw [getAofIndex, Option.bind_map]
    rfl
  show ((getExportTable h p p.os.ntoskrnl).bind fun et => (getAonIndex h p symbol et).bind
    fun index => (getAofIndex h p index et).bind fun aofIndex => getExportRva h p aofIndex et) =
      some rva ↔ _
  rw [Option.bind_eq_some_iff]
  refine exists_congr fun et => and_congr (getExportTable_eq_some_iff he) ?_
  rw [Option.bind_eq_some_iff]
  constructor
  · rintro ⟨index, hindex, hrun⟩
    obtain ⟨i, hfirst, rfl⟩ := getAonIndex_eq_some_iff.mp hindex
    exact ⟨i, hfirst, (hrva et i).symm.trans hrun⟩
  · rintro ⟨i, hfirst, hrun⟩
    exact ⟨_, getAonIndex_eq_some_iff.mpr ⟨i, hfirst, rfl⟩, (hrva et i).trans hrun⟩

/-! ## Images -/

/-- A PE image: physical memory and the address of the image in it. -/
structure PeImage where
  memory : Page
  base : U32

namespace PeImage

variable (g : PeImage)

/-- The optional header, behind the signature and `struct file_header`. -/
def optionalHeader : U32 := g.base + g.memory.u32 (g.base + 60) + 4 + 20

/-- The export directory. -/
def directory : U32 := g.base + g.memory.u32 (g.optionalHeader + 96)

/-- The export directory's contents. -/
def exportTable : ExportTable where
  name := g.memory.u32 (g.directory + 12)
  numberOfNames := g.memory.u32 (g.directory + 24)
  addressOfFunctions := g.memory.u32 (g.directory + 28)
  addressOfNames := g.memory.u32 (g.directory + 32)
  addressOfNameOrdinals := g.memory.u32 (g.directory + 36)

/-- Where `AddressOfNames[i]` is. -/
def nameEntry (i : Nat) : U32 := g.base + g.exportTable.addressOfNames + BitVec.ofNat 32 i * 4

/-- Where the name `i` is. -/
def nameAddress (i : Nat) : U32 := g.base + g.memory.u32 (g.nameEntry i)

/-- Where `AddressOfNameOrdinals[i]` is. -/
def ordinalEntry (i : Nat) : U32 :=
  g.base + g.exportTable.addressOfNameOrdinals + BitVec.ofNat 32 i * 2

/-- Where `AddressOfFunctions[AddressOfNameOrdinals[i]]` is. -/
def functionEntry (i : Nat) : U32 :=
  g.base + g.exportTable.addressOfFunctions + (g.memory.u16 (g.ordinalEntry i)).setWidth 32 * 4

/-- `AddressOfFunctions[AddressOfNameOrdinals[i]]`. -/
def exportRva (i : Nat) : U32 := g.memory.u32 (g.functionEntry i)

/-- The names that the image exports. -/
structure Exports (names : List CStr) : Prop where
  count : g.exportTable.numberOfNames.toNat = names.length
  strings : ∀ i (hi : i < names.length), StringAt g.memory (g.nameAddress i) names[i]
  nonempty : [] ∉ names
  distinct : names.Nodup

/-- The image is in the physical memory of the guest where the instance has its kernel: every
byte of a header, of a table entry and of a string is in a mapped page. -/
structure MappedBy (h : Host) (p : XaParams) (names : List CStr) : Prop where
  base : p.os.ntoskrnl = g.base
  pageSize : p.pageSize = 4096
  dosHeader : MapsBytes h p g.memory (g.base + 60) 4
  optionalHeader : MapsBytes h p g.memory g.optionalHeader 224
  directory : MapsBytes h p g.memory g.directory 40
  nameEntry : ∀ i < names.length, MapsBytes h p g.memory (g.nameEntry i) 4
  name : ∀ i (hi : i < names.length),
    MapsBytes h p g.memory (g.nameAddress i) (names[i].length + 1)
  ordinalEntry : ∀ i < names.length, MapsBytes h p g.memory (g.ordinalEntry i) 2
  functionEntry : ∀ i < names.length, MapsBytes h p g.memory (g.functionEntry i) 4

/-- Each header and each table entry lies in one page. A string may go on in the next page. -/
structure Placed (names : List CStr) : Prop where
  dosHeader : InPage (g.base + 60) 4
  optionalHeader : InPage g.optionalHeader 224
  directory : InPage g.directory 40
  nameEntry : ∀ i < names.length, InPage (g.nameEntry i) 4
  ordinalEntry : ∀ i < names.length, InPage (g.ordinalEntry i) 2
  functionEntry : ∀ i < names.length, InPage (g.functionEntry i) 4

/-- What can be read of the name `i` in its first page; a name at RVA `0` is passed over. -/
def seenName (names : List CStr) (i : Nat) : CStr :=
  if g.memory.u32 (g.nameEntry i) = 0 then [] else visiblePart (g.nameAddress i) (names.getD i [])

/-- The part of the name `i` that is seen is not empty and starts the symbol. -/
def Starts (names : List CStr) (symbol : CStr) (i : Nat) : Prop :=
  g.seenName names i ≠ [] ∧ g.seenName names i <+: symbol

instance (names : List CStr) (symbol : CStr) : DecidablePred (g.Starts names symbol) :=
  fun _ => inferInstanceAs (Decidable (_ ∧ _))

/-- The first export whose name, as far as it can be read, starts the symbol. -/
def FirstStarts (names : List CStr) (symbol : CStr) (i : Nat) : Prop :=
  i < names.length ∧ g.Starts names symbol i ∧ ∀ j < i, ¬g.Starts names symbol j

/-- The first export whose name starts the symbol has the RVA of an export with that very
name, and there is one if the symbol is exported. -/
structure FirstIsExact (names : List CStr) (symbol : CStr) : Prop where
  first : ∀ i, g.FirstStarts names symbol i →
    ∃ k, names[k]? = some symbol ∧ g.exportRva k = g.exportRva i
  found : symbol ∈ names → ∃ i < names.length, g.Starts names symbol i

end PeImage

variable {g : PeImage} {names : List CStr}

namespace PeImage.MappedBy

variable (hg : g.MappedBy h p names)
include hg

theorem offset_read : ∃ e, xaReadLongPhys h p (p.os.ntoskrnl + 60) = some e := by
  obtain ⟨acc, hacc, -⟩ := hg.dosHeader.first (by decide)
  exact ⟨acc.long, by rw [xaReadLongPhys, hg.base, hacc]; rfl⟩

section

variable (hplaced : g.Placed names)
include hplaced

/-- The headers are seen as they are. -/
theorem seesTable_iff : SeesTable h p et ↔ et = g.exportTable := by
  obtain ⟨oh, hoh, hohField⟩ :=
    (hg.optionalHeader.first (by decide)).field hplaced.optionalHeader
  obtain ⟨acc, hacc, haccField⟩ := (hg.directory.first (by decide)).field hplaced.directory
  have hdirectory : g.base + oh.memory.u32 (oh.offset + 96) = g.directory := by
    rw [hohField 96 (by decide)]
    rfl
  have htable : tableAt acc = g.exportTable := by
    rw [tableAt, haccField 12 (by decide), haccField 24 (by decide), haccField 28 (by decide),
      haccField 32 (by decide), haccField 36 (by decide)]
    rfl
  have he : xaReadLongPhys h p (g.base + 60) = some (g.memory.u32 (g.base + 60)) :=
    (hg.dosHeader.first (by decide)).readLong hplaced.dosHeader
  have hheader : xaAccessPa h p (g.base + g.memory.u32 (g.base + 60) + 4 + 20) protRead = some oh :=
    hoh
  simp only [SeesTable, hg.base, he, Option.some_inj, exists_eq_left', hheader, hdirectory, hacc,
    htable]

/-- So is each name, as far as it is read. -/
theorem starts_iff (hnames : g.Exports names) {i : Nat} (hi : i < names.length) :
    g.exportTable.Starts h p symbol i ↔ g.Starts names symbol i := by
  have hentry : xaReadLongPhys h p (p.os.ntoskrnl + g.exportTable.addressOfNames +
      BitVec.ofNat 32 i * 4) = some (g.memory.u32 (g.nameEntry i)) := by
    rw [hg.base]
    exact ((hg.nameEntry i hi).first (by decide)).readLong (hplaced.nameEntry i hi)
  have hstring := (hg.name i hi).first (Nat.succ_pos _)
  have hat := hnames.strings i hi
  unfold PeImage.nameAddress at hstring hat
  rw [← hg.base] at hstring hat
  have hread := rvaToString_eq hg.pageSize hstring hat
  unfold ExportTable.Starts ExportTable.seenName PeImage.Starts PeImage.seenName PeImage.nameAddress
  rw [hentry, Option.bind_some, hread, List.getD_eq_getElem _ _ hi, ← hg.base]
  by_cases hzero : g.memory.u32 (g.nameEntry i) = 0
  · simp [hzero]
  · simp only [if_neg hzero]
    generalize visiblePart (p.os.ntoskrnl + g.memory.u32 (g.nameEntry i)) names[i] = seen
    cases seen with
    | nil => simp
    | cons c seen => simp

/-- So is the RVA. -/
theorem seenRva_eq {i : Nat} (hi : i < names.length) :
    g.exportTable.seenRva h p i = some (g.exportRva i) := by
  have hordinal := ((hg.ordinalEntry i hi).first (by decide)).readOrdinal
    (hplaced.ordinalEntry i hi)
  have hfunction := ((hg.functionEntry i hi).first (by decide)).readLong
    (hplaced.functionEntry i hi)
  obtain ⟨ordinal, hread, hvalue⟩ := Option.map_eq_some_iff.mp hordinal
  unfold PeImage.ordinalEntry at hread
  rw [ExportTable.seenRva, hg.base, hread, Option.bind_some, hvalue]
  exact hfunction

theorem firstStarts_iff (hnames : g.Exports names) {i : Nat} :
    g.exportTable.FirstStarts h p symbol i ↔ g.FirstStarts names symbol i := by
  unfold ExportTable.FirstStarts PeImage.FirstStarts
  rw [hnames.count]
  refine and_congr_right fun hi => and_congr (hg.starts_iff hplaced hnames hi) ?_
  refine forall_congr' fun j => forall_congr' fun hj => not_congr ?_
  exact hg.starts_iff hplaced hnames (hj.trans hi)

end

end PeImage.MappedBy

/-! ## Exactness -/

/-- The lookup succeeds for the names of the exports only, with the RVA of the export. -/
def ExactLookup (h : Host) (p : XaParams) (g : PeImage) (names : List CStr) (symbol : CStr) : Prop :=
  ∀ rva, windowsExportToRva h p symbol = some rva ↔
    ∃ i, names[i]? = some symbol ∧ rva = g.exportRva i

/-- The RVA that is read for the first name of which what is read starts the symbol is the one of
the export with that very name, and there is one if the symbol is exported. -/
structure SeenIsExact (h : Host) (p : XaParams) (g : PeImage) (names : List CStr) (symbol : CStr) :
    Prop where
  first : ∀ et i rva, SeesTable h p et → et.FirstStarts h p symbol i →
    et.seenRva h p i = some rva → ∃ k, names[k]? = some symbol ∧ g.exportRva k = rva
  found : symbol ∈ names → ∃ et i rva, SeesTable h p et ∧ et.FirstStarts h p symbol i ∧
    et.seenRva h p i = some rva

theorem names_index_unique (hnames : names.Nodup) {i k : Nat} (hi : names[i]? = some symbol)
    (hk : names[k]? = some symbol) : i = k := by
  obtain ⟨hlt, -⟩ := List.getElem?_eq_some_iff.mp hi
  exact (List.getElem?_inj hlt hnames).mp (hi.trans hk.symm)

theorem exactLookup_iff (hg : g.MappedBy h p names) (hnames : g.Exports names) :
    ExactLookup h p g names symbol ↔ SeenIsExact h p g names symbol := by
  obtain ⟨e, he⟩ := hg.offset_read
  unfold ExactLookup
  simp only [windowsExportToRva_eq_some_iff he]
  constructor
  · intro hexact
    refine ⟨fun et i rva het hi hrva => ?_, fun hmem => ?_⟩
    · obtain ⟨k, hk, rfl⟩ := (hexact rva).mp ⟨et, het, i, hi, hrva⟩
      exact ⟨k, hk, rfl⟩
    · obtain ⟨k, hk⟩ := List.mem_iff_getElem?.mp hmem
      obtain ⟨et, het, i, hi, hrva⟩ := (hexact (g.exportRva k)).mpr ⟨k, hk, rfl⟩
      exact ⟨et, i, _, het, hi, hrva⟩
  · intro hseen rva
    constructor
    · rintro ⟨et, het, i, hi, hrva⟩
      obtain ⟨k, hk, rfl⟩ := hseen.first et i rva het hi hrva
      exact ⟨k, hk, rfl⟩
    · rintro ⟨k, hk, rfl⟩
      obtain ⟨et, i, rva, het, hi, hrva⟩ := hseen.found (List.mem_of_getElem? hk)
      obtain ⟨k', hk', rfl⟩ := hseen.first et i rva het hi hrva
      -- the names are distinct
      obtain rfl : k = k' := names_index_unique hnames.distinct hk hk'
      exact ⟨et, het, i, hi, hrva⟩

theorem exists_firstStarts {i : Nat} (hi : i < names.length) (hstarts : g.Starts names symbol i) :
    ∃ j, g.FirstStarts names symbol j := by
  have hsome : ∃ i, i < names.length ∧ g.Starts names symbol i := ⟨i, hi, hstarts⟩
  have hfind := Nat.find_spec hsome
  refine ⟨Nat.find hsome, hfind.1, hfind.2, fun j hj hbefore => ?_⟩
  exact Nat.find_min hsome hj ⟨hj.trans hfind.1, hbefore⟩

/-- With each header and each table entry in one page, it is read as it is. -/
theorem seenIsExact_iff (hg : g.MappedBy h p names) (hnames : g.Exports names)
    (hplaced : g.Placed names) :
    SeenIsExact h p g names symbol ↔ g.FirstIsExact names symbol := by
  have htable : SeesTable h p g.exportTable := (hg.seesTable_iff hplaced).mpr rfl
  constructor
  · intro hseen
    refine ⟨fun i hi => ?_, fun hmem => ?_⟩
    · exact hseen.first _ i _ htable ((hg.firstStarts_iff hplaced hnames).mpr hi)
        (hg.seenRva_eq hplaced hi.1)
    · obtain ⟨et, i, rva, het, hi, -⟩ := hseen.found hmem
      obtain rfl := (hg.seesTable_iff hplaced).mp het
      obtain ⟨hlt, hstarts, -⟩ := (hg.firstStarts_iff hplaced hnames).mp hi
      exact ⟨i, hlt, hstarts⟩
  · intro hfirst
    refine ⟨fun et i rva het hi hrva => ?_, fun hmem => ?_⟩
    · obtain rfl := (hg.seesTable_iff hplaced).mp het
      have hi' := (hg.firstStarts_iff hplaced hnames).mp hi
      obtain ⟨k, hk, heq⟩ := hfirst.first i hi'
      rw [hg.seenRva_eq hplaced hi'.1] at hrva
      exact ⟨k, hk, heq.trans (Option.some.inj hrva)⟩
    · obtain ⟨i, hi, hstarts⟩ := hfirst.found hmem
      obtain ⟨j, hj⟩ := exists_firstStarts hi hstarts
      exact ⟨_, j, _, htable, (hg.firstStarts_iff hplaced hnames).mpr hj,
        hg.seenRva_eq hplaced hj.1⟩

/-- **When the lookup is exact.** For a symbol, exactly when the RVA that is read for the first
name of which what is read starts it is the one of the export with that very name. Where each
header and each table entry lies in one page, this is a matter of the names and their pages. -/
theorem windowsExportToRva_exact_iff (hg : g.MappedBy h p names) (hnames : g.Exports names)
    (symbol : CStr) :
    (ExactLookup h p g names symbol ↔ SeenIsExact h p g names symbol) ∧
      (g.Placed names → (SeenIsExact h p g names symbol ↔ g.FirstIsExact names symbol)) :=
  ⟨exactLookup_iff hg hnames, seenIsExact_iff hg hnames⟩

/-! ## A kernel with two exports -/

/-- Every page of an image file is mapped. -/
theorem mapsPa_image {words : Words} (hmode : p.mode = .file) (hsize : p.pageSize = 4096)
    (hshift : p.pageShift = 12) (ha : a < p.size) :
    MapsPa (windowsHost words) p (imageByte words) a := by
  have hlt := a.isLt
  have hpage : ((a >>> p.pageShift) <<< p.pageShift).toNat = a.toNat / 4096 * 4096 := by
    rw [frame_eq_ofNat hshift, hshift]
    simp [Nat.shiftLeft_eq]
    omega
  have hinside : ¬p.size ≤ (a >>> p.pageShift) <<< p.pageShift := by
    rw [BitVec.lt_def] at ha
    rw [BitVec.le_def, hpage]
    omega
  have haddress : (a >>> p.pageShift) <<< p.pageShift + (p.pageSize - 1 &&& a) = a := by
    apply BitVec.eq_of_toNat_eq
    rw [offset_eq_ofNat hsize, BitVec.toNat_add, hpage, BitVec.toNat_ofNat]
    omega
  have hfile : a >>> p.pageShift ≠ -1 := by
    rw [frame_eq_ofNat hshift]
    intro heq
    have hframe := congrArg BitVec.toNat heq
    rw [BitVec.toNat_ofNat] at hframe
    have hall : (-1 : U32).toNat = 2 ^ 32 - 1 := by decide
    omega
  refine ⟨⟨a >>> p.pageShift, protRead, imagePage words ((a >>> p.pageShift) <<< p.pageShift),
    p.pageSize - 1 &&& a⟩, ?_, fun d _ => ?_⟩
  · unfold xaAccessPa xaMmapPfn xaMapPage xaMapFileRange
    simp only [hmode, if_neg hfile, if_neg hinside]
    rfl
  · show imageByte words
      ((a >>> p.pageShift) <<< p.pageShift + ((p.pageSize - 1 &&& a) + d)) = _
    rw [← BitVec.add_assoc, haddress]

/-- A kernel that exports two names, one of which starts the other. -/
def poolWords : Words :=
  [(0x40003C, 0x80), (0x4000F8, 0x1000), (0x401018, 2), (0x40101C, 0x1040), (0x401020, 0x1050),
    (0x401024, 0x1060), (0x401040, 0x5000), (0x401044, 0x6000), (0x401050, 0x1080),
    (0x401054, 0x10A0), (0x401060, 0x10000), (0x401080, 0x6C417845), (0x401084, 0x61636F6C),
    (0x401088, 0x6F506574), (0x40108C, 0x6C6F), (0x4010A0, 0x6C417845), (0x4010A4, 0x61636F6C),
    (0x4010A8, 0x6F506574), (0x4010AC, 0x69576C6F), (0x4010B0, 0x61546874), (0x4010B4, 0x67)]

def poolImage : PeImage := ⟨imageByte poolWords, 0x400000⟩

def poolNames : List CStr := [cstr "ExAllocatePool", cstr "ExAllocatePoolWithTag"]

def poolParams : XaParams :=
  (imageState .windows 0x80000000 0x39000 0 windowsEntry.offsets).toXaParams

theorem poolImage_exports : poolImage.Exports poolNames where
  count := by decide
  strings := by decide
  nonempty := by decide
  distinct := by decide

theorem poolImage_mapsBytes {a : U32} {n : Nat} (ha : a.toNat + n ≤ 0x1000000) :
    MapsBytes (windowsHost poolWords) poolParams (imageByte poolWords) a n := by
  intro j hj
  apply mapsPa_image rfl rfl rfl
  rw [BitVec.lt_def, BitVec.toNat_add, BitVec.toNat_ofNat]
  show (a.toNat + j % 2 ^ 32) % 2 ^ 32 < 0x1000000
  omega

theorem poolImage_mappedBy : poolImage.MappedBy (windowsHost poolWords) poolParams poolNames where
  base := rfl
  pageSize := rfl
  dosHeader := poolImage_mapsBytes (by decide)
  optionalHeader := poolImage_mapsBytes (by decide)
  directory := poolImage_mapsBytes (by decide)
  nameEntry i hi := by
    have hall : ∀ i < poolNames.length, (poolImage.nameEntry i).toNat + 4 ≤ 0x1000000 := by decide
    exact poolImage_mapsBytes (hall i hi)
  name i hi := by
    have hall : ∀ i (hi : i < poolNames.length),
        (poolImage.nameAddress i).toNat + (poolNames[i].length + 1) ≤ 0x1000000 := by decide
    exact poolImage_mapsBytes (hall i hi)
  ordinalEntry i hi := by
    have hall : ∀ i < poolNames.length, (poolImage.ordinalEntry i).toNat + 2 ≤ 0x1000000 := by decide
    exact poolImage_mapsBytes (hall i hi)
  functionEntry i hi := by
    have hall : ∀ i < poolNames.length, (poolImage.functionEntry i).toNat + 4 ≤ 0x1000000 := by
      decide
    exact poolImage_mapsBytes (hall i hi)

theorem poolImage_placed : poolImage.Placed poolNames where
  dosHeader := by decide
  optionalHeader := by decide
  directory := by decide
  nameEntry := by decide
  ordinalEntry := by decide
  functionEntry := by decide

/-- The shorter name is found. -/
theorem poolImage_exact :
    ExactLookup (windowsHost poolWords) poolParams poolImage poolNames (cstr "ExAllocatePool") := by
  obtain ⟨hseen, himage⟩ := windowsExportToRva_exact_iff poolImage_mappedBy poolImage_exports
    (cstr "ExAllocatePool")
  rw [hseen, himage poolImage_placed]
  have hzero : poolImage.Starts poolNames (cstr "ExAllocatePool") 0 := by decide
  refine ⟨fun i hi => ?_, fun _ => ⟨0, by decide, hzero⟩⟩
  obtain rfl : i = 0 := by
    by_contra hne
    exact hi.2.2 0 (by omega) hzero
  exact ⟨0, rfl, rfl⟩

/-- The longer name gives the RVA of the shorter one. -/
theorem poolImage_not_exact :
    poolImage.MappedBy (windowsHost poolWords) poolParams poolNames ∧ poolImage.Exports poolNames ∧
      ¬ExactLookup (windowsHost poolWords) poolParams poolImage poolNames
        (cstr "ExAllocatePoolWithTag") := by
  refine ⟨poolImage_mappedBy, poolImage_exports, fun hexact => ?_⟩
  have hrun : windowsExportToRva (windowsHost poolWords) poolParams
      (cstr "ExAllocatePoolWithTag") = some 0x5000 := by decide
  obtain ⟨i, hi, hrva⟩ := (hexact 0x5000).mp hrun
  have hone : poolNames[1]? = some (cstr "ExAllocatePoolWithTag") := rfl
  obtain rfl : i = 1 := names_index_unique poolImage_exports.distinct hi hone
  revert hrva
  decide

end XenAccess
