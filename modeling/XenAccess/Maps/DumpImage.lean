import XenAccess.Maps.Dump
import XenAccess.Maps.FileImage
import XenAccess.Maps.KernelPage
import XenAccess.Walk.Nopae

/-!
# A dump as an image

The file that `dump-memory` writes can be opened as an image. An instance for it reads every byte
that the dump has, with zeros for the pages that were not mapped, and nothing behind them
(`dump_readBack`). Page tables that lie in the dump are walked in the same way as in the guest, so
the kernel memory of the guest can be read from the dump too (`dump_kernelMemory`).
-/

namespace XenAccess

open Prog Window

variable {h h' : Host} {p p' : XaParams} {file : List U8} {fuel : Nat}

/-! ## Images -/

/-- The image file of the host has these bytes; `mmap` fills the rest of the last page with
zeros. -/
structure HoldsFile (h : Host) (file : List U8) : Prop where
  fstat : h.fstat = some (BitVec.ofNat 64 file.length)
  mmap : ∀ prot address, address.toNat % 4096 = 0 → address.toNat < file.length →
    ∃ memory, h.mmap prot address = some memory ∧
      ∀ i < 4096, memory (BitVec.ofNat 32 i) = file.getD (address.toNat + i) 0

/-- The physical memory that an instance for an image sees. -/
theorem physByte_image (hfile : HoldsFile h file) (hlen : file.length < 2 ^ 32)
    (hp : FileLayout (BitVec.ofNat 32 file.length) p) (a : Nat) :
    physByte h p a = if a / 4096 * 4096 < file.length then some (file.getD a 0) else none := by
  have hsize : (BitVec.ofNat 32 file.length).toNat = file.length := by
    rw [BitVec.toNat_ofNat, Nat.mod_eq_of_lt hlen]
  by_cases ha : a < 2 ^ 32
  · have hnat : (BitVec.ofNat 32 a).toNat = a := by
      rw [BitVec.toNat_ofNat, Nat.mod_eq_of_lt ha]
    rw [physByte, if_pos ha, xaAccessPa_file hp, hsize, pageStart, hnat]
    by_cases hpage : a / 4096 * 4096 < file.length
    · have hstart : (BitVec.ofNat 32 (a / 4096 * 4096)).toNat = a / 4096 * 4096 := by
        rw [BitVec.toNat_ofNat, Nat.mod_eq_of_lt (by omega)]
      obtain ⟨memory, hmemory, hbytes⟩ := hfile.mmap protRead (BitVec.ofNat 32 (a / 4096 * 4096))
        (by omega) (by rwa [hstart])
      have hoffset : (4095 : U32) &&& BitVec.ofNat 32 a = BitVec.ofNat 32 (a % 4096) := by
        have hmask := offset_eq_ofNat hp.pageSize (BitVec.ofNat 32 a)
        rw [hp.pageSize, hnat] at hmask
        exact hmask
      have hbyte := hbytes (a % 4096) (Nat.mod_lt a (by decide))
      rw [hstart, Nat.div_add_mod'] at hbyte
      rw [if_pos hpage, if_pos hpage, hmemory, Option.map_some, Option.map_some, hoffset]
      exact congrArg some hbyte
    · rw [if_neg hpage, if_neg hpage, Option.map_none]
  · rw [physByte, if_neg ha, if_neg]
    omega

/-- The file of a whole dump. -/
def dumpFile (h : Host) (p : XaParams) : List U8 := window (flatByte h p) 0 (4096 * pageCount p.size)

@[simp] theorem length_dumpFile : (dumpFile h p).length = 4096 * pageCount p.size := length_window _ _ _

theorem dumpFile_lt (hsmall : p.size ≤ 0xFFFFF000) : 4096 * pageCount p.size < 2 ^ 32 := by
  have hle : p.size.toNat ≤ 0xFFFFF000 := BitVec.le_def.mp hsmall
  rw [pageCount]
  omega

theorem getD_dumpFile {a : Nat} (ha : a < 4096 * pageCount p.size) :
    (dumpFile h p).getD a 0 = flatByte h p a := by
  rw [dumpFile, window, List.getD_eq_getElem?_getD, List.getElem?_map, List.getElem?_range ha,
    Option.map_some, Option.getD_some, Nat.zero_add]

/-- What an instance for a dump sees. -/
theorem physByte_dump (hsmall : p.size ≤ 0xFFFFF000) (hfile : HoldsFile h' (dumpFile h p))
    (hp : FileLayout (BitVec.ofNat 32 (dumpFile h p).length) p') (a : Nat) :
    physByte h' p' a = if a < 4096 * pageCount p.size then some (flatByte h p a) else none := by
  have hlen := dumpFile_lt hsmall
  have hpage : a / 4096 * 4096 < 4096 * pageCount p.size ↔ a < 4096 * pageCount p.size := by omega
  rw [physByte_image hfile (by rwa [length_dumpFile]) hp, length_dumpFile]
  by_cases ha : a < 4096 * pageCount p.size
  · rw [if_pos (hpage.mpr ha), if_pos ha, getD_dumpFile ha]
  · rw [if_neg (mt hpage.mp ha), if_neg ha]

/-- The instance after an initialisation from a dump. -/
theorem dump_layout (hsmall : p.size ≤ 0xFFFFF000) (hfile : HoldsFile h' (dumpFile h p))
    {filename imageType : CStr} {m : ErrorMode} {s t : XaState}
    (hrun : xaInitFilePrivate h' fuel filename imageType m s = .ok (.success, t)) :
    FileLayout (BitVec.ofNat 32 (dumpFile h p).length) t.toXaParams := by
  have hlayout := xaInitFilePrivate_layout hfile.fstat hrun
  have hlen := dumpFile_lt hsmall
  have hsize : (BitVec.ofNat 64 (dumpFile h p).length).setWidth 32 =
      BitVec.ofNat 32 (dumpFile h p).length := by
    apply BitVec.eq_of_toNat_eq
    rw [BitVec.toNat_setWidth, BitVec.toNat_ofNat, BitVec.toNat_ofNat, length_dumpFile]
    omega
  rwa [hsize] at hlayout

/-- **A dump reads back.** When `dump-memory` has written all pages of a guest and its file is opened
as an image, the library reads every byte of the memory up to the last page, zeros where the
guest had none mapped, and it can map nothing behind that. -/
theorem dump_readBack (h h' : Host) (p : XaParams) (fwrite : Nat → Nat) (file : List U8)
    (fuel fuel' : Nat) (hps : p.pageSize = 4096) (hshift : p.pageShift = 12)
    (hfull : ∀ k, 4096 * k < p.size.toNat → 4096 ≤ fwrite k) (hsmall : p.size ≤ 0xFFFFF000)
    (hdump : dumpMemory h p fwrite fuel = .ok file) (hfile : HoldsFile h' file)
    (filename imageType : CStr) (m : ErrorMode) (s t : XaState)
    (hinit : xaInitFilePrivate h' fuel' filename imageType m s = .ok (.success, t)) (a : Nat) :
    physByte h' t.toXaParams a =
      if a < 4096 * pageCount p.size then some ((physByte h p a).getD 0) else none := by
  have heq : file = dumpFile h p :=
    (dumpMemory_full_iff hps hshift (fun k hk => hfull k (lt_pageCount.mp hk)) hsmall).mp
      ⟨fuel, hdump⟩
  rw [heq] at hfile
  exact physByte_dump hsmall hfile (dump_layout hsmall hfile hinit) a

/-- A host with an image file. -/
def fileHost (file : List U8) : Host :=
  { imageHost [] with
    fstat := some (BitVec.ofNat 64 file.length)
    mmap := fun _ address =>
      if address.toNat < file.length then some fun d => file.getD (address.toNat + d.toNat) 0
      else none
    configFile := false }

theorem fileHost_holds (file : List U8) : HoldsFile (fileHost file) file where
  fstat := rfl
  mmap _ address _ hlt := by
    refine ⟨fun d => file.getD (address.toNat + d.toNat) 0, if_pos hlt, fun i hi => ?_⟩
    have hnat : (BitVec.ofNat 32 i).toNat = i := by
      rw [BitVec.toNat_ofNat, Nat.mod_eq_of_lt (by omega)]
    exact congrArg (fun d => file.getD (address.toNat + d) 0) hnat

theorem fileHost_init (file : List U8) :
    xaInitFilePrivate (fileHost file) 0 [] [] .failsoft (zeroState 0) =
      .ok (.success, sizedState (BitVec.ofNat 64 file.length)) := rfl

/-- A byte of a guest, read from its dump. -/
theorem oneWord_readBack : ∃ fuel file,
    dumpMemory (imageHost [(0x1000, 0x41)]) { pyxaParams with size := 0x1800 } (fun _ => 4096)
      fuel = .ok file ∧
    physByte (fileHost file) (sizedState (BitVec.ofNat 64 file.length)).toXaParams 0x1000 =
      some 0x41 := by
  have hends : ∃ fuel, dumpMemory (imageHost [(0x1000, 0x41)])
      { pyxaParams with size := 0x1800 } (fun _ => 4096) fuel =
        .ok (dumpFile (imageHost [(0x1000, 0x41)]) { pyxaParams with size := 0x1800 }) :=
    (dumpMemory_full_iff rfl rfl (fun _ _ => le_rfl) (by decide)).mpr rfl
  obtain ⟨fuel, hdump⟩ := hends
  refine ⟨fuel, _, hdump, ?_⟩
  refine (dump_readBack (imageHost [(0x1000, 0x41)]) _ { pyxaParams with size := 0x1800 }
    (fun _ => 4096) _ fuel 0 rfl rfl (fun _ _ => le_rfl) (by decide) hdump (fileHost_holds _) [] []
    .failsoft (zeroState 0) _ (fileHost_init _) 0x1000).trans ?_
  decide

/-! ## Values of a memory that is extended -/

/-- The library sees all that it sees of one guest, and perhaps more, in another one. -/
def Extends (h : Host) (p : XaParams) (h' : Host) (p' : XaParams) : Prop :=
  ∀ a b, physByte h p a = some b → physByte h' p' a = some b

/-- Machine addresses are physical addresses: the guest is an image or fully virtualised. -/
def Flat (p : XaParams) : Prop := p.mode = .file ∨ p.hvm = true

section

variable (hps : p.pageSize = 4096) (hshift : p.pageShift = 12)
include hps hshift

theorem machByte_eq (hflat : Flat p) (a : U32) :
    Traced.machByte h p a = physByte h p a.toNat := by
  have hnat : BitVec.ofNat 32 a.toNat = a := by
    rw [BitVec.ofNat_toNat, BitVec.setWidth_eq]
  have hne : a >>> (12 : U32) ≠ -1 := by
    intro heq
    have hval := congrArg BitVec.toNat heq
    have hlt := a.isLt
    rw [BitVec.ushiftRight_eq', BitVec.toNat_ushiftRight, Nat.shiftRight_eq_div_pow] at hval
    change a.toNat / 4096 = 4294967295 at hval
    omega
  have hframe : xaMmapPfn h p protRead (a >>> (12 : U32)) =
      (xaMapPage h p protRead (a >>> (12 : U32))).map fun memory => (a >>> (12 : U32), memory) := by
    rw [xaMmapPfn]
    rcases hflat with hmode | hhvm
    · rw [hmode]
      exact if_neg hne
    · cases hmode : p.mode with
      | file => exact if_neg hne
      | xen =>
        simp only [helperPfnToMfn, hhvm, if_true]
        exact if_neg hne
  rw [physByte, if_pos a.isLt, hnat, xaAccessPa, hshift, hps, hframe, Option.map_map, Option.map_map,
    Traced.machByte, Traced.frameByte_eq]
  rfl

variable (hps' : p'.pageSize = 4096) (hshift' : p'.pageShift = 12) (hflat : Flat p)
  (hflat' : Flat p') (hext : Extends h p h' p')
include hps' hshift' hflat hflat' hext

theorem machByte_extends {a : U32} {b : U8} (hb : Traced.machByte h p a = some b) :
    Traced.machByte h' p' a = some b := by
  rw [machByte_eq hps' hshift' hflat']
  apply hext
  rwa [← machByte_eq hps hshift hflat]

theorem readMach_extends {n : Nat} {value : Page → U32 → BitVec (8 * n)} (hn : 0 < n)
    (hvalue : Traced.LittleEndian n value) {a : U32} (hpage : a.toNat % 4096 + n ≤ 4096)
    {x : BitVec (8 * n)}
    (hx : ((xaAccessMa h p a protRead).map fun b => value b.memory b.offset) = some x) :
    ((xaAccessMa h' p' a protRead).map fun b => value b.memory b.offset) = some x := by
  obtain ⟨acc, hacc, rfl⟩ := Option.map_eq_some_iff.mp hx
  have hbytes (i : Nat) (hi : i < n) := machByte_extends hps hshift hps' hshift' hflat hflat' hext
    (readMach_bytes hps hshift hvalue hpage hacc hi)
  have hfirst := hbytes 0 hn
  rw [BitVec.add_zero, Traced.machByte, Traced.frameByte_eq] at hfirst
  obtain ⟨memory, hmemory, -⟩ := Option.map_eq_some_iff.mp hfirst
  have hacc' : xaAccessMa h' p' a protRead =
      some ⟨a >>> p'.pageShift, protRead, memory, (p'.pageSize - 1) &&& a⟩ := by
    rw [xaAccessMa, hshift']
    show (xaMmapMfn h' p' protRead (a >>> (12 : U32))).map _ = _
    rw [hmemory]
    rfl
  rw [hacc', Option.map_some]
  apply congrArg some
  apply eq_of_bytes
  intro i hi
  have hsame := (readMach_bytes hps' hshift' hvalue hpage hacc' hi).symm.trans (hbytes i hi)
  exact Option.some.inj hsame

/-! ## Walks -/

theorem machWord_extends {a : Nat} (ha : a < 2 ^ 32) (haligned : a % 4 = 0) {w : U32}
    (hw : machWord h p a = some w) : machWord h' p' a = some w := by
  have hnat : (BitVec.ofNat 32 a).toNat = a := by
    rw [BitVec.toNat_ofNat, Nat.mod_eq_of_lt ha]
  have hread := readMach_extends (n := 4) hps hshift hps' hshift' hflat hflat' hext (by decide)
    Traced.long_littleEndian (a := BitVec.ofNat 32 a) (by omega) (x := w)
  have hword := xaReadLongMach_eq (h := h) hps hshift (BitVec.ofNat 32 a)
  have hword' := xaReadLongMach_eq (h := h') hps' hshift' (BitVec.ofNat 32 a)
  rw [hnat] at hword hword'
  rw [← hword']
  exact hread (hword.trans hw)

end

/-- The 64-bit value at an aligned address of the machine memory. -/
def machLongLong (h : Host) (p : XaParams) (a : Nat) : Option U64 :=
  xaReadLongLongMach h p (BitVec.ofNat 32 a)

theorem guestMemory_machLongLong : GuestMemory h p (machLongLong h p) := by
  intro a _
  rw [machLongLong, BitVec.ofNat_toNat, BitVec.setWidth_eq]

/-- A walk without PAE over a memory that is extended. -/
theorem nopaeWalk_mono {mem mem' : Nat → Option U32} {cr3 v target : Nat}
    (hmem : ∀ a < 2 ^ 32, a % 4 = 0 → ∀ w, mem a = some w → mem' a = some w)
    (hcr3 : cr3 < 2 ^ 32) (hv : v < 2 ^ 32) (hwalk : nopaeWalk mem cr3 v = some target) :
    nopaeWalk mem' cr3 v = some target := by
  obtain ⟨pde, hpde, hrest⟩ := Option.bind_eq_some_iff.mp hwalk
  have hpde' := hmem _ (by omega) (by omega) pde hpde
  refine Option.bind_eq_some_iff.mpr ⟨pde, hpde', ?_⟩
  split_ifs at hrest ⊢
  · exact hrest
  · obtain ⟨pte, hpte, hlast⟩ := Option.bind_eq_some_iff.mp hrest
    have hlt := pde.isLt
    exact Option.bind_eq_some_iff.mpr ⟨pte, hmem _ (by omega) (by omega) pte hpte, hlast⟩
  · exact hrest

/-- A walk with PAE over a memory that is extended, when the tables lie below 4 GiB. -/
theorem paeWalk_mono {mem mem' : Nat → Option U64} {root v : Nat} {tables : List Nat}
    {target : Option Nat} (hmem : ∀ a < 2 ^ 32, a % 8 = 0 → ∀ w, mem a = some w → mem' a = some w)
    (hroot : root % 32 = 0) (hroot' : root < 2 ^ 32) (hv : v < 2 ^ 32)
    (hwalk : paeWalk mem root v = some (tables, target)) (hlow : ∀ t ∈ tables, t < 2 ^ 32) :
    paeWalk mem' root v = some (tables, target) := by
  have hentry (entry : U64) (i : Nat) (hi : i < 512) (hbase : paeBase entry < 2 ^ 32) (w : U64)
      (hw : mem (paeBase entry + i * 8) = some w) : mem' (paeBase entry + i * 8) = some w := by
    have hmod := paeBase_mod entry
    exact hmem _ (by omega) (by omega) w hw
  obtain ⟨pdpe, hpdpe, hrest⟩ := Option.bind_eq_some_iff.mp hwalk
  refine Option.bind_eq_some_iff.mpr ⟨pdpe, hmem _ (by omega) (by omega) pdpe hpdpe, ?_⟩
  split_ifs at hrest ⊢
  · obtain ⟨pde, hpde, hlast⟩ := Option.bind_eq_some_iff.mp hrest
    -- the page directory is among the tables however the walk goes on
    have hpd : paeBase pdpe ∈ tables := by
      split_ifs at hlast
      · rw [← (Prod.mk.inj (Option.some.inj hlast)).1]
        simp
      · obtain ⟨pte, -, hlast⟩ := Option.bind_eq_some_iff.mp hlast
        rw [← (Prod.mk.inj (Option.some.inj hlast)).1]
        simp
      · rw [← (Prod.mk.inj (Option.some.inj hlast)).1]
        simp
    refine Option.bind_eq_some_iff.mpr
      ⟨pde, hentry pdpe _ (Nat.mod_lt _ (by decide)) (hlow _ hpd) pde hpde, ?_⟩
    split_ifs at hlast ⊢
    · exact hlast
    · obtain ⟨pte, hpte, hend⟩ := Option.bind_eq_some_iff.mp hlast
      have hpt : paeBase pde ∈ tables := by
        rw [← (Prod.mk.inj (Option.some.inj hend)).1]
        simp
      exact Option.bind_eq_some_iff.mpr
        ⟨pte, hentry pde _ (Nat.mod_lt _ (by decide)) (hlow _ hpt) pte hpte, hend⟩
    · exact hlast
  · exact hrest

theorem kernelByte_eq (v : U32) : kernelByte h p v =
    if xaTranslateKv2p h p v = 0 then none else Traced.machByte h p (xaTranslateKv2p h p v) := rfl

/-- The tables on the walk for an address can be mapped, and lie below 4 GiB. -/
def TablesMapped (h : Host) (p : XaParams) (cr3 v : U32) : Prop :=
  if p.pae then
    ∃ tables target, paeWalk (machLongLong h p) (cr3.toNat / 32 * 32) v.toNat =
      some (tables, target) ∧ ∀ t ∈ tables, t < 2 ^ 32
  else (nopaeWalk (machWord h p) cr3.toNat v.toNat).isSome

section

variable (hps : p.pageSize = 4096) (hshift : p.pageShift = 12) (hps' : p'.pageSize = 4096)
  (hshift' : p'.pageShift = 12) (hflat : Flat p) (hflat' : Flat p') (hext : Extends h p h' p')
include hps hshift hps' hshift' hflat hflat' hext

/-- A walk through mapped tables gives the same address in the larger memory. -/
theorem xaPagetableLookup_extends (hpae : p'.pae = p.pae) {cr3 v : U32}
    (htables : TablesMapped h p cr3 v) :
    xaPagetableLookup h' p' cr3 v = xaPagetableLookup h p cr3 v := by
  rw [TablesMapped] at htables
  cases hp : p.pae with
  | true =>
    rw [if_pos hp] at htables
    obtain ⟨tables, target, hwalk, hlow⟩ := htables
    have hmem : ∀ a < 2 ^ 32, a % 8 = 0 → ∀ w, machLongLong h p a = some w →
        machLongLong h' p' a = some w := by
      intro a ha haligned w hw
      have hnat : (BitVec.ofNat 32 a).toNat = a := by
        rw [BitVec.toNat_ofNat, Nat.mod_eq_of_lt ha]
      exact readMach_extends (n := 8) hps hshift hps' hshift' hflat hflat' hext (by decide)
        Traced.longLong_littleEndian (a := BitVec.ofNat 32 a) (by omega) (x := w) hw
    have hlt := cr3.isLt
    have hwalk' := paeWalk_mono hmem (by omega) (by omega) v.isLt hwalk hlow
    rw [xaPagetableLookup_eq_paeWalk guestMemory_machLongLong hp hwalk hlow,
      xaPagetableLookup_eq_paeWalk guestMemory_machLongLong (hpae.trans hp) hwalk' hlow]
  | false =>
    rw [if_neg (by simp [hp])] at htables
    obtain ⟨target, hwalk⟩ := Option.isSome_iff_exists.mp htables
    have hmem : ∀ a < 2 ^ 32, a % 4 = 0 → ∀ w, machWord h p a = some w →
        machWord h' p' a = some w := fun a ha haligned w hw =>
      machWord_extends hps hshift hps' hshift' hflat hflat' hext ha haligned hw
    have hwalk' := nopaeWalk_mono hmem cr3.isLt v.isLt hwalk
    apply BitVec.eq_of_toNat_eq
    rw [xaPagetableLookup, xaPagetableLookup, hpae, hp]
    exact (v2pNopae_eq_nopaeWalk (hpae.trans hp) hps' hshift' hwalk').trans
      (v2pNopae_eq_nopaeWalk hp hps hshift hwalk).symm

/-- A byte of the kernel is the same in the larger memory. -/
theorem kernelByte_extends (hpae : p'.pae = p.pae)
    (hroot : xaCurrentCr3 h' p' 0 = xaCurrentCr3 h p 0) {v : U32} {b : U8}
    (htables : TablesMapped h p (xaCurrentCr3 h p 0) v) (hb : kernelByte h p v = some b) :
    kernelByte h' p' v = some b := by
  have hlookup : xaTranslateKv2p h' p' v = xaTranslateKv2p h p v := by
    rw [xaTranslateKv2p, hroot]
    exact xaPagetableLookup_extends hps hshift hps' hshift' hflat hflat' hext hpae htables
  rw [kernelByte_eq] at hb ⊢
  rw [hlookup]
  split_ifs at hb ⊢
  exact machByte_extends hps hshift hps' hshift' hflat hflat' hext hb

end

/-! ## The kernel memory of a dump -/

/-- An instance for the dump of a fully virtualised guest that uses the page tables of the
guest. -/
structure OfDump (h : Host) (p : XaParams) (h' : Host) (p' : XaParams) : Prop where
  pageSize : p.pageSize = 4096
  pageShift : p.pageShift = 12
  hvm : p.hvm = true
  small : p.size ≤ 0xFFFFF000
  file : HoldsFile h' (dumpFile h p)
  layout : FileLayout (BitVec.ofNat 32 (dumpFile h p).length) p'
  pae : p'.pae = p.pae
  root : xaCurrentCr3 h' p' 0 = xaCurrentCr3 h p 0
  /-- no memory behind the size -/
  inside : ∀ a, (physByte h p a).isSome → a < 4096 * pageCount p.size
  /-- what can be read is not found through tables that cannot be mapped -/
  walks : ∀ v, (kernelByte h p v).isSome → TablesMapped h p (xaCurrentCr3 h p 0) v

namespace OfDump

variable (D : OfDump h p h' p')
include D

theorem physExtends : Extends h p h' p' := by
  intro a b hb
  rw [physByte_dump D.small D.file D.layout, if_pos (D.inside a (Option.isSome_iff_exists.mpr ⟨b, hb⟩)),
    flatByte, hb]
  rfl

theorem kernelByte_eq {v : U32} {b : U8} (hb : kernelByte h p v = some b) :
    kernelByte h' p' v = some b :=
  kernelByte_extends D.pageSize D.pageShift D.layout.pageSize D.layout.pageShift (Or.inr D.hvm)
    (Or.inl D.layout.mode) D.physExtends D.pae D.root
    (D.walks v (Option.isSome_iff_exists.mpr ⟨b, hb⟩)) hb

theorem kernelU32 {v value : U32} (hv : KernelU32 h p v value) : KernelU32 h' p' v value :=
  fun i hi => D.kernelByte_eq (hv i hi)

theorem kernelString {v : U32} {s : CStr} (hs : KernelString h p v s) : KernelString h' p' v s := by
  induction s generalizing v with
  | nil => exact D.kernelByte_eq hs
  | cons c s ih => exact ⟨D.kernelByte_eq hs.1, hs.2.1, ih hs.2.2⟩

end OfDump

end XenAccess
