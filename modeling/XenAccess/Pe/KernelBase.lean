import XenAccess.Pe.Exports

/-!
# The search for the base of the kernel image

`valid_ntoskrnl_start` reads each header, and the name of the image, through the mapping of the
page it starts in. On page-aligned addresses its failed reads do no harm
(`validNtoskrnlStart_iff`). What is left of the difference to `KernelImage` are headers and
names that go on in the next page, and addresses that wrap; without those there is none
(`seemsKernel_iff`).
-/

namespace XenAccess

variable {h : Host} {p : XaParams}

/-! ## Kernel images -/

/-- At the address there is a kernel image: a DOS header, the PE signature and an export
directory that names the image `ntoskrnl.exe`. -/
structure KernelImage (h : Host) (p : XaParams) (a : Nat) : Prop where
  dos : physByte h p a = some 0x4D ∧ physByte h p (a + 1) = some 0x5A
  headers : ∃ e, physU32 h p (a + 60) = some e ∧ physU32 h p (a + e.toNat) = some imageNtSignature ∧
    ∃ rva, physU32 h p (a + e.toNat + 24 + 96) = some rva ∧
      ∃ r, physU32 h p (a + rva.toNat + 12) = some r ∧
        PhysString h p (a + r.toNat) (cstr "ntoskrnl.exe")

/-- To `valid_ntoskrnl_start` the address seems to be the start of a kernel image. -/
structure SeemsKernel (h : Host) (p : XaParams) (a : U32) : Prop where
  dos : ∃ value, xaReadLongPhys h p a = some value ∧ value &&& 0xffff = imageDosHeader
  headers : ∃ e, xaReadLongPhys h p (a + 60) = some e ∧
    xaReadLongPhys h p (a + e) = some imageNtSignature ∧
    ∃ oh, xaAccessPa h p (a + e + 4 + 20) protRead = some oh ∧
      ∃ et, xaAccessPa h p (a + oh.memory.u32 (oh.offset + 96)) protRead = some et ∧
        rvaToString h p (et.memory.u32 (et.offset + 12) + a) = some (cstr "ntoskrnl.exe")

/-- The addresses that `get_ntoskrnl_base` looks at, in this order. -/
def searchOrder : List Nat :=
  baseAddresses.map BitVec.toNat ++ (List.range' 1 0x3FFFF).map (4096 * ·)

/-- One of the addresses known from versions of Windows, or a page below `0x40000000`. -/
def IsCandidate (a : Nat) : Prop :=
  (∃ b ∈ baseAddresses, a = b.toNat) ∨ (a % 4096 = 0 ∧ 0x1000 ≤ a ∧ a < 0x40000000)

/-- `get_ntoskrnl_base` ends, since more rounds do not change its result, and gives a kernel
image, or `0` exactly if there is none. -/
structure FindsKernel (h : Host) (p : XaParams) : Prop where
  ends : ∀ n, 0x3FFFF ≤ n → ntoskrnlSearch h p n p.pageSize = ntoskrnlSearch h p 0x3FFFF p.pageSize
  zero : getNtoskrnlBase h p = 0 ↔ ∀ a, IsCandidate a → ¬KernelImage h p a
  image : getNtoskrnlBase h p ≠ 0 → KernelImage h p (getNtoskrnlBase h p).toNat

/-! ## One address -/

theorem getExportTable_eq (a : U32) :
    getExportTable h p a =
      (xaAccessPa h p (a + (xaReadLongPhys h p (a + 60)).getD 0 + 4 + 20) protRead).bind fun oh =>
        (xaAccessPa h p (a + oh.memory.u32 (oh.offset + 96)) protRead).bind fun et =>
          some {
            name := et.memory.u32 (et.offset + 12)
            numberOfNames := et.memory.u32 (et.offset + 24)
            addressOfFunctions := et.memory.u32 (et.offset + 28)
            addressOfNames := et.memory.u32 (et.offset + 32)
            addressOfNameOrdinals := et.memory.u32 (et.offset + 36) } := rfl

/-- The name that the export directory gives. -/
theorem exportName_iff {a e : U32} (he : xaReadLongPhys h p (a + 60) = some e) {name : CStr} :
    (∃ et, getExportTable h p a = some et ∧ rvaToString h p (et.name + a) = some name) ↔
      ∃ oh, xaAccessPa h p (a + e + 4 + 20) protRead = some oh ∧
        ∃ et, xaAccessPa h p (a + oh.memory.u32 (oh.offset + 96)) protRead = some et ∧
          rvaToString h p (et.memory.u32 (et.offset + 12) + a) = some name := by
  rw [getExportTable_eq, he, Option.getD_some]
  constructor
  · rintro ⟨et, het, hname⟩
    obtain ⟨oh, hoh, het⟩ := Option.bind_eq_some_iff.mp het
    obtain ⟨acc, hacc, het⟩ := Option.bind_eq_some_iff.mp het
    cases het
    exact ⟨oh, hoh, acc, hacc, hname⟩
  · rintro ⟨oh, hoh, acc, hacc, hname⟩
    rw [hoh, Option.bind_some, hacc, Option.bind_some]
    exact ⟨_, rfl, hname⟩

section

variable (hshift : p.pageShift = 12) {a : U32}
include hshift

/-- A failed read at the signature leaves the offset of the signature, which can be the
signature itself. Then the optional header is in the same page. -/
theorem getExportTable_none (haligned : a.toNat % 4096 = 0)
    (he : xaReadLongPhys h p (a + 60) = some imageNtSignature)
    (hnone : xaReadLongPhys h p (a + imageNtSignature) = none) : getExportTable h p a = none := by
  have hpage : (a + imageNtSignature).toNat / 4096 =
      (a + imageNtSignature + 4 + 20).toNat / 4096 := by
    have hlt := a.isLt
    unfold imageNtSignature
    bv_omega
  have hheader := xaAccessPa_none_samePage hshift hpage (Option.map_eq_none_iff.mp hnone)
  rw [getExportTable_eq, he, Option.getD_some, hheader]
  rfl

omit hshift in
/-- An address where the value and the offset of the signature can be read. -/
theorem seemsKernel_read_iff {value e : U32} (hvalue : xaReadLongPhys h p a = some value)
    (he : xaReadLongPhys h p (a + 60) = some e) :
    SeemsKernel h p a ↔ value &&& 0xffff = imageDosHeader ∧
      xaReadLongPhys h p (a + e) = some imageNtSignature ∧
      ∃ et, getExportTable h p a = some et ∧
        rvaToString h p (et.name + a) = some (cstr "ntoskrnl.exe") := by
  rw [exportName_iff he]
  constructor
  · rintro ⟨⟨value', hvalue', hmz⟩, e', he', hrest⟩
    cases hvalue.symm.trans hvalue'
    cases he.symm.trans he'
    exact ⟨hmz, hrest⟩
  · rintro ⟨hmz, hrest⟩
    exact ⟨⟨value, hvalue, hmz⟩, e, he, hrest⟩

theorem validNtoskrnlStart_iff (haligned : a.toNat % 4096 = 0) :
    validNtoskrnlStart h p a = true ↔ SeemsKernel h p a := by
  unfold validNtoskrnlStart
  cases hdos : xaReadLongPhys h p a with
  | none =>
    refine iff_of_false Bool.false_ne_true ?_
    rintro ⟨⟨value, hvalue, -⟩, -⟩
    cases hdos.symm.trans hvalue
  | some value =>
    -- the offset of the signature is in the page of the DOS header
    obtain ⟨e, he⟩ : ∃ e, xaReadLongPhys h p (a + 60) = some e := by
      obtain ⟨acc, hacc, -⟩ := Option.map_eq_some_iff.mp hdos
      have hpage : a.toNat / 4096 = (a + 60).toNat / 4096 := by bv_omega
      exact ⟨_, congrArg (Option.map Access.long) (xaAccessPa_samePage hshift hpage hacc)⟩
    rw [seemsKernel_read_iff hdos he, he, Option.getD_some]
    by_cases hmz : value &&& 0xffff = imageDosHeader
    · simp only [hmz, bne_self_eq_false, Bool.false_eq_true, if_false, Option.getD_some, true_and]
      rcases Option.eq_none_or_eq_some (xaReadLongPhys h p (a + e)) with hsig | ⟨w, hsig⟩
      · refine iff_of_false ?_ (by simp [hsig])
        simp only [hsig, Option.getD_none]
        by_cases heq : e = imageNtSignature
        · subst heq
          rw [getExportTable_none hshift haligned he hsig]
          simp
        · rw [if_pos (bne_iff_ne.mpr heq)]
          exact Bool.false_ne_true
      · simp only [hsig, Option.getD_some, Option.some_inj]
        by_cases heq : w = imageNtSignature
        · subst heq
          cases getExportTable h p a with
          | none => simp
          | some et => simp
        · simp [heq]
    · rw [if_pos (bne_iff_ne.mpr hmz)]
      exact iff_of_false Bool.false_ne_true fun hseems => hmz hseems.1

end

/-! ## Headers in their pages -/

/-- Each header lies in the page it starts in, the name of the image ends before the last byte
of its page, and no address wraps. -/
structure PlainHeaders (h : Host) (p : XaParams) (a : Nat) : Prop where
  signature : ∀ e, physU32 h p (a + 60) = some e →
    a + e.toNat + 124 ≤ 2 ^ 32 ∧ (a + e.toNat) % 4096 + 4 ≤ 4096 ∧
      (a + e.toNat + 24) % 4096 + 100 ≤ 4096
  directory : ∀ e rva, physU32 h p (a + 60) = some e →
    physU32 h p (a + e.toNat + 24 + 96) = some rva →
    a + rva.toNat + 16 ≤ 2 ^ 32 ∧ (a + rva.toNat) % 4096 + 16 ≤ 4096
  name : ∀ e rva r, physU32 h p (a + 60) = some e →
    physU32 h p (a + e.toNat + 24 + 96) = some rva → physU32 h p (a + rva.toNat + 12) = some r →
    a + r.toNat + 13 ≤ 2 ^ 32 ∧ (a + r.toNat) % 4096 + 13 < 4096

theorem ofNat_add_self (a : Nat) (e : U32) :
    BitVec.ofNat 32 a + e = BitVec.ofNat 32 (a + e.toNat) := by
  rw [BitVec.ofNat_add, BitVec.ofNat_toNat, BitVec.setWidth_eq]

section

variable (hsize : p.pageSize = 4096) (hshift : p.pageShift = 12) {n : Nat}
include hsize hshift

/-- A field of a header, in the page where the header starts. -/
theorem header_exists (hn : n < 2 ^ 32) {i : Nat} (hpage : n % 4096 + i + 4 ≤ 4096)
    {P : U32 → Prop} :
    (∃ acc, xaAccessPa h p (BitVec.ofNat 32 n) protRead = some acc ∧
      P (acc.memory.u32 (acc.offset + BitVec.ofNat 32 i))) ↔
      ∃ value, physU32 h p (n + i) = some value ∧ P value := by
  cases hacc : xaAccessPa h p (BitVec.ofNat 32 n) protRead with
  | none => simp [physU32_field_none hshift hn hacc (show n % 4096 + i < 4096 by omega)]
  | some acc => simp [physU32_field hsize hshift hn hacc hpage]

theorem dosHeader_iff (hn : n < 2 ^ 32) (hpage : n % 4096 + 4 ≤ 4096) :
    (∃ value, xaReadLongPhys h p (BitVec.ofNat 32 n) = some value ∧
      value &&& 0xffff = imageDosHeader) ↔
      physByte h p n = some 0x4D ∧ physByte h p (n + 1) = some 0x5A := by
  unfold xaReadLongPhys
  cases hacc : xaAccessPa h p (BitVec.ofNat 32 n) protRead with
  | none => simp [physByte_none hacc]
  | some acc =>
    have hfirst := physByte_add hsize hshift hn hacc (i := 0) (by omega)
    rw [Nat.add_zero, BitVec.add_zero] at hfirst
    have hsecond := physByte_add hsize hshift hn hacc (i := 1) (by omega)
    have hword : acc.memory.u32 acc.offset &&& 0xffff = imageDosHeader ↔
        acc.memory acc.offset = 0x4D ∧ acc.memory (acc.offset + 1) = 0x5A := by
      rw [u32_and_ffff]
      unfold Page.u16 imageDosHeader
      generalize acc.memory acc.offset = b0
      generalize acc.memory (acc.offset + 1) = b1
      have hsum : ((b1 ++ b0).setWidth 32).toNat = b1.toNat * 256 + b0.toNat := by
        have hlow := b0.isLt
        have hhigh := b1.isLt
        rw [BitVec.toNat_setWidth, BitVec.toNat_append, ← Nat.shiftLeft_add_eq_or_of_lt hlow,
          Nat.shiftLeft_eq]
        omega
      constructor
      · intro heq
        rw [heq] at hsum
        have hlow := b0.isLt
        have hvalue : (0x5A4D : U32).toNat = 0x5A * 256 + 0x4D := rfl
        refine ⟨BitVec.eq_of_toNat_eq ?_, BitVec.eq_of_toNat_eq ?_⟩
        · show b0.toNat = 0x4D
          omega
        · show b1.toNat = 0x5A
          omega
      · rintro ⟨rfl, rfl⟩
        rfl
    rw [hfirst, hsecond, Option.some_inj, Option.some_inj]
    show (∃ value, some (acc.memory.u32 acc.offset) = some value ∧ _) ↔ _
    simp only [Option.some_inj, exists_eq_left']
    exact hword

/-- The name of the image, up to the byte before the last one of its page. -/
theorem imageName_iff {rva : U32} (hn : n < 2 ^ 32) (hrva : p.os.ntoskrnl + rva = BitVec.ofNat 32 n)
    {s : CStr} (hne : s ≠ []) (hpage : n % 4096 + s.length + 1 < 4096) :
    rvaToString h p rva = some s ↔ PhysString h p n s := by
  unfold rvaToString
  rw [hrva]
  cases hacc : xaAccessPa h p (BitVec.ofNat 32 n) protRead with
  | none => exact iff_of_false (by simp) (not_physString (physByte_none hacc) s)
  | some acc =>
    have hmax : (p.pageSize - acc.offset - 1).toNat = 4095 - n % 4096 := by
      rw [xaAccessPa_offset_eq hsize hn hacc]
      exact maxLength_toNat hsize (Nat.mod_lt _ (by decide))
    rw [physString_mapped hsize hshift hn hacc (by omega),
      ← cstr_eq_iff (n := 4095 - n % 4096) (by omega)]
    simp only [hmax]
    cases acc.memory.cstr acc.offset (4095 - n % 4096) with
    | nil => simpa using hne.symm
    | cons c str => simp

end

/-- With plain headers an address seems to be a kernel image exactly if it is one. -/
theorem seemsKernel_iff (hsize : p.pageSize = 4096) (hshift : p.pageShift = 12)
    (hnone : p.os.ntoskrnl = 0) {a : Nat} (ha : a < 2 ^ 32) (haligned : a % 4096 = 0)
    (hplain : PlainHeaders h p a) :
    SeemsKernel h p (BitVec.ofNat 32 a) ↔ KernelImage h p a := by
  have hdos := dosHeader_iff (h := h) hsize hshift ha (by omega)
  have hoffset : xaReadLongPhys h p (BitVec.ofNat 32 a + 60) = physU32 h p (a + 60) := by
    rw [physU32_eq hsize hshift (by omega) (by omega), BitVec.ofNat_add]
    rfl
  have hheaders (e : U32) (he : physU32 h p (a + 60) = some e) :
      (xaReadLongPhys h p (BitVec.ofNat 32 a + e) = some imageNtSignature ∧
        ∃ oh, xaAccessPa h p (BitVec.ofNat 32 a + e + 4 + 20) protRead = some oh ∧
          ∃ et, xaAccessPa h p (BitVec.ofNat 32 a + oh.memory.u32 (oh.offset + 96)) protRead =
              some et ∧
            rvaToString h p (et.memory.u32 (et.offset + 12) + BitVec.ofNat 32 a) =
              some (cstr "ntoskrnl.exe")) ↔
      physU32 h p (a + e.toNat) = some imageNtSignature ∧
        ∃ rva, physU32 h p (a + e.toNat + 24 + 96) = some rva ∧
          ∃ r, physU32 h p (a + rva.toNat + 12) = some r ∧
            PhysString h p (a + r.toNat) (cstr "ntoskrnl.exe") := by
    obtain ⟨hfit, hsigPage, hheaderPage⟩ := hplain.signature e he
    have hheader : BitVec.ofNat 32 a + e + 4 + 20 = BitVec.ofNat 32 (a + e.toNat + 24) := by
      rw [ofNat_add_self, BitVec.ofNat_add (a + e.toNat) 24, BitVec.add_assoc]
      rfl
    rw [ofNat_add_self, physU32_eq hsize hshift (by omega) hsigPage]
    refine and_congr_right fun _ => ?_
    rw [← ofNat_add_self, hheader]
    -- the optional header, the export directory and the name, each in its page
    refine (header_exists hsize hshift (by omega) (i := 96) hheaderPage (P := fun rva =>
      ∃ et, xaAccessPa h p (BitVec.ofNat 32 a + rva) protRead = some et ∧
        rvaToString h p (et.memory.u32 (et.offset + 12) + BitVec.ofNat 32 a) =
          some (cstr "ntoskrnl.exe"))).trans ?_
    refine exists_congr fun rva => and_congr_right fun hrva => ?_
    obtain ⟨hfit', hdirectoryPage⟩ := hplain.directory e rva he hrva
    rw [ofNat_add_self]
    refine (header_exists hsize hshift (by omega) (i := 12) hdirectoryPage (P := fun r =>
      rvaToString h p (r + BitVec.ofNat 32 a) = some (cstr "ntoskrnl.exe"))).trans ?_
    refine exists_congr fun r => and_congr_right fun hr => ?_
    obtain ⟨hfit'', hnamePage⟩ := hplain.name e rva r he hrva hr
    apply imageName_iff hsize hshift (by omega) _ (by decide) hnamePage
    rw [hnone, ← ofNat_add_self, BitVec.add_comm r]
    exact BitVec.zero_add _
  constructor
  · rintro ⟨hdosHeader, e, he, hrest⟩
    rw [hoffset] at he
    exact ⟨hdos.mp hdosHeader, e, he, (hheaders e he).mp hrest⟩
  · rintro ⟨hdosHeader, e, he, hrest⟩
    exact ⟨hdos.mpr hdosHeader, e, hoffset.trans he, (hheaders e he).mpr hrest⟩

/-! ## The search -/

/-- The address is accepted as the start of the kernel image. -/
def accepts (h : Host) (p : XaParams) (a : Nat) : Bool :=
  validNtoskrnlStart h p (BitVec.ofNat 32 a)

theorem mem_searchOrder (a : Nat) : a ∈ searchOrder ↔ IsCandidate a := by
  unfold searchOrder IsCandidate
  rw [List.mem_append, List.mem_map, List.mem_map]
  refine or_congr ⟨?_, ?_⟩ ⟨?_, ?_⟩
  · rintro ⟨b, hb, rfl⟩
    exact ⟨b, hb, rfl⟩
  · rintro ⟨b, hb, rfl⟩
    exact ⟨b, hb, rfl⟩
  · rintro ⟨k, hk, rfl⟩
    rw [List.mem_range'_1] at hk
    omega
  · rintro ⟨haligned, hge, hlt⟩
    refine ⟨a / 4096, ?_, Nat.mul_div_cancel' (Nat.dvd_of_mod_eq_zero haligned)⟩
    rw [List.mem_range'_1]
    omega

/-- All candidates are pages below `0x40000000`, but not the first page. -/
theorem candidate_bounds {a : Nat} (ha : IsCandidate a) :
    a % 4096 = 0 ∧ 0 < a ∧ a < 0x40000000 := by
  rcases ha with ⟨b, hb, rfl⟩ | ⟨haligned, hge, hlt⟩
  · have hall : ∀ b ∈ baseAddresses, b &&& 0xFFF = 0 ∧ 0 < b ∧ b < 0x40000000 := by
      simp [baseAddresses]
    obtain ⟨haligned, hpos, hlt⟩ := hall b hb
    rw [← toNat_and_fff, haligned]
    exact ⟨rfl, BitVec.lt_def.mp hpos, BitVec.lt_def.mp hlt⟩
  · exact ⟨haligned, by omega, hlt⟩

/-- The search through memory looks at each page in turn, and makes no more rounds. -/
theorem ntoskrnlSearch_eq (hsize : p.pageSize = 4096) {n k : Nat} (hk : 0 < k)
    (hkn : k + (n + 1) = 0x40000) (extra : Nat) :
    ntoskrnlSearch h p (n + 1 + extra) (BitVec.ofNat 32 (4096 * k)) =
      ((((List.range' k (n + 1)).map (4096 * ·)).find? (accepts h p)).map
        (BitVec.ofNat 32)).getD 0 := by
  induction n generalizing k with
  | zero =>
    obtain rfl : k = 0x3FFFF := by omega
    have hlast : BitVec.ofNat 32 (4096 * 0x3FFFF) + 4096 = (0x40000000 : U32) := by decide
    rw [show 0 + 1 + extra = extra + 1 by omega, ntoskrnlSearch, hsize, hlast]
    show _ = (([4096 * 0x3FFFF].find? (accepts h p)).map (BitVec.ofNat 32)).getD 0
    rw [List.find?_cons, accepts]
    cases validNtoskrnlStart h p (BitVec.ofNat 32 (4096 * 0x3FFFF)) with
    | true => rfl
    | false => rfl
  | succ n ih =>
    have hnext : BitVec.ofNat 32 (4096 * k) + 4096 = BitVec.ofNat 32 (4096 * (k + 1)) := by
      rw [Nat.mul_succ, BitVec.ofNat_add]
      rfl
    have hinside : ¬(BitVec.ofNat 32 (4096 * (k + 1)) = 0 ∨
        0x40000000 ≤ BitVec.ofNat 32 (4096 * (k + 1))) := by
      have htoNat : (BitVec.ofNat 32 (4096 * (k + 1))).toNat = 4096 * (k + 1) := by
        rw [BitVec.toNat_ofNat, Nat.mod_eq_of_lt (by omega)]
      rintro (hzero | hge)
      · rw [hzero] at htoNat
        have : (0 : U32).toNat = 0 := rfl
        omega
      · rw [BitVec.le_def, htoNat] at hge
        have : (0x40000000 : U32).toNat = 0x40000000 := rfl
        omega
    rw [show n + 1 + 1 + extra = n + 1 + extra + 1 by omega, ntoskrnlSearch, hsize, hnext,
      List.range'_succ, List.map_cons, List.find?_cons, accepts]
    cases validNtoskrnlStart h p (BitVec.ofNat 32 (4096 * k)) with
    | true => rfl
    | false =>
      dsimp only
      rw [if_neg hinside]
      exact ih (by omega) (by omega)

/-- `get_ntoskrnl_base` gives the first candidate that is accepted. -/
theorem getNtoskrnlBase_eq (hsize : p.pageSize = 4096) :
    getNtoskrnlBase h p =
      ((searchOrder.find? (accepts h p)).map (BitVec.ofNat 32)).getD 0 := by
  have hbases : ∀ l : List U32, (l.map BitVec.toNat).find? (accepts h p) =
      (l.find? (validNtoskrnlStart h p)).map BitVec.toNat := by
    intro l
    rw [List.find?_map]
    congr 2
    funext a
    show validNtoskrnlStart h p (BitVec.ofNat 32 a.toNat) = _
    rw [BitVec.ofNat_toNat, BitVec.setWidth_eq]
  have hsearch : ntoskrnlSearch h p 0x40000 p.pageSize =
      ((((List.range' 1 0x3FFFF).map (4096 * ·)).find? (accepts h p)).map
        (BitVec.ofNat 32)).getD 0 := by
    rw [hsize]
    exact ntoskrnlSearch_eq hsize (k := 1) (n := 0x3FFFE) (by decide) (by decide) 1
  unfold getNtoskrnlBase searchOrder
  rw [List.find?_append, hbases, hsearch]
  cases baseAddresses.find? (validNtoskrnlStart h p) with
  | none => rfl
  | some b =>
    show b = BitVec.ofNat 32 b.toNat
    rw [BitVec.ofNat_toNat, BitVec.setWidth_eq]

theorem ntoskrnlSearch_ends (hsize : p.pageSize = 4096) {n : Nat} (hn : 0x3FFFF ≤ n) :
    ntoskrnlSearch h p n p.pageSize = ntoskrnlSearch h p 0x3FFFF p.pageSize := by
  obtain ⟨extra, rfl⟩ := Nat.exists_eq_add_of_le hn
  have hsearch (extra : Nat) :=
    ntoskrnlSearch_eq (h := h) hsize (k := 1) (n := 0x3FFFE) (by decide) (by decide) extra
  rw [hsize]
  exact (hsearch extra).trans (hsearch 0).symm

/-- A search finds something right exactly if something right that it accepts comes before
everything wrong that it accepts. -/
theorem find?_right_iff {α : Type} {l : List α} {accepts : α → Bool} {Right : α → Prop} :
    (∃ a, l.find? accepts = some a ∧ Right a) ↔
      ∃ l₁ a l₂, l = l₁ ++ a :: l₂ ∧ Right a ∧ accepts a = true ∧
        ∀ b ∈ l₁, accepts b = true → Right b := by
  constructor
  · rintro ⟨a, hfind, hright⟩
    obtain ⟨haccepted, l₁, l₂, hl, hbefore⟩ := List.find?_eq_some_iff_append.mp hfind
    refine ⟨l₁, a, l₂, hl, hright, haccepted, fun b hb haccepted' => ?_⟩
    have hrejected := hbefore b hb
    rw [haccepted'] at hrejected
    cases hrejected
  · rintro ⟨l₁, a, l₂, rfl, hright, haccepted, hbefore⟩
    rw [List.find?_append]
    cases hfind : l₁.find? accepts with
    | none => exact ⟨a, List.find?_cons_of_pos haccepted, hright⟩
    | some b =>
      exact ⟨b, rfl, hbefore b (List.mem_of_find?_eq_some hfind) (List.find?_some hfind)⟩

theorem accepts_iff (hshift : p.pageShift = 12) {a : Nat} (ha : a ∈ searchOrder) :
    accepts h p a = true ↔ SeemsKernel h p (BitVec.ofNat 32 a) := by
  obtain ⟨haligned, -, hlt⟩ := candidate_bounds ((mem_searchOrder a).mp ha)
  have htoNat : (BitVec.ofNat 32 a).toNat = a := by
    rw [BitVec.toNat_ofNat, Nat.mod_eq_of_lt (by omega)]
  apply validNtoskrnlStart_iff hshift
  rw [htoNat]
  exact haligned

/-- When no candidate is accepted, the search is right if there is no kernel image. -/
theorem findsKernel_of_none (hsize : p.pageSize = 4096)
    (hfind : searchOrder.find? (accepts h p) = none) :
    FindsKernel h p ↔ ∀ a, IsCandidate a → ¬KernelImage h p a := by
  have hresult : getNtoskrnlBase h p = 0 := by
    rw [getNtoskrnlBase_eq hsize, hfind]
    rfl
  constructor
  · exact fun hfinds => hfinds.zero.mp hresult
  · intro hnone
    exact ⟨fun n hn => ntoskrnlSearch_ends hsize hn, iff_of_true hresult hnone,
      fun hne => absurd hresult hne⟩

/-- The first candidate that is accepted decides. -/
theorem findsKernel_of_some (hsize : p.pageSize = 4096) {a : Nat}
    (hfind : searchOrder.find? (accepts h p) = some a) : FindsKernel h p ↔ KernelImage h p a := by
  have ha := (mem_searchOrder a).mp (List.mem_of_find?_eq_some hfind)
  obtain ⟨-, hpos, hlt⟩ := candidate_bounds ha
  have htoNat : (getNtoskrnlBase h p).toNat = a := by
    rw [getNtoskrnlBase_eq hsize, hfind]
    show (BitVec.ofNat 32 a).toNat = a
    rw [BitVec.toNat_ofNat, Nat.mod_eq_of_lt (by omega)]
  have hresult : getNtoskrnlBase h p ≠ 0 := by
    intro hzero
    rw [hzero] at htoNat
    exact absurd htoNat.symm hpos.ne'
  constructor
  · intro hfinds
    rw [← htoNat]
    exact hfinds.image hresult
  · intro himage
    exact ⟨fun n hn => ntoskrnlSearch_ends hsize hn,
      iff_of_false hresult fun hall => hall a ha himage, fun _ => htoNat.symm ▸ himage⟩

/-- **When the search for the kernel base is sound and complete.** Either a kernel image that
seems to be one comes before every address that only seems to be one, in the order of the
search; or no candidate is or seems to be a kernel image. -/
theorem findsKernel_iff (h : Host) (p : XaParams) (hsize : p.pageSize = 4096)
    (hshift : p.pageShift = 12) :
    FindsKernel h p ↔
      (∃ l a r, searchOrder = l ++ a :: r ∧ KernelImage h p a ∧
        SeemsKernel h p (BitVec.ofNat 32 a) ∧
        ∀ b ∈ l, SeemsKernel h p (BitVec.ofNat 32 b) → KernelImage h p b) ∨
      ∀ a, IsCandidate a → ¬KernelImage h p a ∧ ¬SeemsKernel h p (BitVec.ofNat 32 a) := by
  have hfirst : (∃ a, searchOrder.find? (accepts h p) = some a ∧ KernelImage h p a) ↔
      ∃ l a r, searchOrder = l ++ a :: r ∧ KernelImage h p a ∧
        SeemsKernel h p (BitVec.ofNat 32 a) ∧
        ∀ b ∈ l, SeemsKernel h p (BitVec.ofNat 32 b) → KernelImage h p b := by
    rw [find?_right_iff]
    refine exists_congr fun l => exists_congr fun a => exists_congr fun r =>
      and_congr_right fun horder => and_congr_right fun _ => ?_
    have ha : a ∈ searchOrder := horder ▸ List.mem_append_right l List.mem_cons_self
    have hl (b : Nat) (hb : b ∈ l) : b ∈ searchOrder := horder ▸ List.mem_append_left _ hb
    rw [accepts_iff hshift ha]
    exact and_congr_right fun _ => forall₂_congr fun b hb => by rw [accepts_iff hshift (hl b hb)]
  rw [← hfirst]
  cases hfind : searchOrder.find? (accepts h p) with
  | none =>
    have hnone (a : Nat) (ha : IsCandidate a) : ¬SeemsKernel h p (BitVec.ofNat 32 a) := by
      rw [← accepts_iff hshift ((mem_searchOrder a).mpr ha)]
      exact List.find?_eq_none.mp hfind a ((mem_searchOrder a).mpr ha)
    rw [findsKernel_of_none hsize hfind]
    constructor
    · exact fun hall => Or.inr fun a ha => ⟨hall a ha, hnone a ha⟩
    · rintro (⟨a, ha, -⟩ | hall)
      · cases ha
      · exact fun a ha => (hall a ha).1
  | some a =>
    have ha := List.mem_of_find?_eq_some hfind
    have hseems := (accepts_iff hshift ha).mp (List.find?_some hfind)
    rw [findsKernel_of_some hsize hfind]
    constructor
    · exact fun himage => Or.inl ⟨a, rfl, himage⟩
    · rintro (⟨b, hb, himage⟩ | hall)
      · cases hb
        exact himage
      · exact absurd hseems (hall a ((mem_searchOrder a).mp ha)).2

/-! ## Two guests -/

/-- A guest with a kernel image at `0x100000`, whose name is at a displacement. -/
def kernelWords (nameRva : U32) (name : Words) : Words :=
  [(0x100000, 0x5A4D), (0x10003C, 0x80), (0x100080, 0x4550), (0x1000F8, 0x200),
    (0x10020C, nameRva)] ++ name

/-- The name in the middle of the first page. -/
def namedWords : Words :=
  kernelWords 0x240 [(0x100240, 0x736F746E), (0x100244, 0x6C6E726B), (0x100248, 0x6578652E)]

/-- A longer name, whose thirteenth byte is the last one of the first page. -/
def longNameWords : Words :=
  kernelWords 0xFF3 [(0x100FF0, 0x6E000000), (0x100FF4, 0x6B736F74), (0x100FF8, 0x2E6C6E72),
    (0x100FFC, 0x58657865)]

/-- An instance without a configured kernel base. -/
def kernelParams : XaParams :=
  (imageState .windows 0x80000000 0 0 ⟨0, 0x88, 0x18, 0x84, 0x1B0, 0x8, 0x18⟩).toXaParams

theorem namedWords_finds : FindsKernel (imageHost namedWords) kernelParams := by
  rw [findsKernel_iff _ _ rfl rfl]
  have hseems : SeemsKernel (imageHost namedWords) kernelParams (BitVec.ofNat 32 0x100000) :=
    (validNtoskrnlStart_iff rfl rfl).mp (by decide)
  have himage : KernelImage (imageHost namedWords) kernelParams 0x100000 := by
    refine (seemsKernel_iff rfl rfl rfl (by decide) (by decide) ?_).mp hseems
    have he : physU32 (imageHost namedWords) kernelParams (0x100000 + 60) = some 0x80 := by decide
    have hrva : physU32 (imageHost namedWords) kernelParams (0x100000 + 0x80 + 24 + 96) =
      some 0x200 := by decide
    have hr : physU32 (imageHost namedWords) kernelParams (0x100000 + 0x200 + 12) =
      some 0x240 := by decide
    refine ⟨fun e he' => ?_, fun e rva he' hrva' => ?_, fun e rva r he' hrva' hr' => ?_⟩
    · cases he.symm.trans he'
      decide
    · cases he.symm.trans he'
      cases hrva.symm.trans hrva'
      decide
    · cases he.symm.trans he'
      cases hrva.symm.trans hrva'
      cases hr.symm.trans hr'
      decide
  exact Or.inl ⟨[], 0x100000, _, rfl, himage, hseems, fun b hb => nomatch hb⟩

/-- The search gives an address where the name of the image is longer. -/
theorem longNameWords_not_finds : ¬FindsKernel (imageHost longNameWords) kernelParams := by
  have hbase : getNtoskrnlBase (imageHost longNameWords) kernelParams = 0x100000 := by
    have hvalid : validNtoskrnlStart (imageHost longNameWords) kernelParams 0x100000 = true := by
      decide
    rw [getNtoskrnlBase, baseAddresses, List.find?_cons, hvalid]
  intro hfinds
  have himage := hfinds.image (by rw [hbase]; decide)
  rw [hbase] at himage
  obtain ⟨-, e, he, -, rva, hrva, r, hr, hstring⟩ := himage
  have he' : physU32 (imageHost longNameWords) kernelParams (0x100000 + 60) = some 0x80 := by
    decide
  cases he'.symm.trans he
  have hrva' : physU32 (imageHost longNameWords) kernelParams (0x100000 + 0x80 + 24 + 96) =
    some 0x200 := by decide
  cases hrva'.symm.trans hrva
  have hr' : physU32 (imageHost longNameWords) kernelParams (0x100000 + 0x200 + 12) =
    some 0xFF3 := by decide
  cases hr'.symm.trans hr
  have hend : physByte (imageHost longNameWords) kernelParams (0x100000 + 0xFF3 + 12) =
    some 0x58 := by decide
  cases hend.symm.trans hstring.terminator

end XenAccess
