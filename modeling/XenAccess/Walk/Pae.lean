import XenAccess.Model.Image
import XenAccess.Walk.PageMap

/-!
# The PAE walk against the 36-bit format

`paeWalk` is the walk of a three-level hierarchy as the format defines it, over a physical
memory of 36 bits and with numbers of any size. The walk of the library carries the
addresses of the page directory, of the page table and of the page in 32 bits.
`v2pPae_eq_paeWalk` says what comes out when the tables lie below 4 GiB: the address of the
format, cut to 32 bits. The result is then the one the format asks for unless the page lies
above 4 GiB and not at a multiple of it.
-/

namespace XenAccess

variable {h : Host} {p : XaParams} {mem : Nat → Option U64}

/-! ## The format -/

/-- The physical address in an entry for a table or a page of 4 KiB. -/
def paeBase (entry : U64) : Nat := entry.toNat / 2 ^ 12 % 2 ^ 24 * 2 ^ 12

/-- The physical address in an entry for a page of 2 MiB. -/
def paeLargeBase (entry : U64) : Nat := entry.toNat / 2 ^ 21 % 2 ^ 15 * 2 ^ 21

/-- The walk of the hierarchy at `root` for the address `v`: the tables it goes through and
the physical address it maps `v` to. There is no result when a table cannot be read. -/
def paeWalk (mem : Nat → Option U64) (root v : Nat) : Option (List Nat × Option Nat) := do
  let pdpe ← mem (root + v / 2 ^ 30 * 8)
  if pdpe.getLsbD 0 then
    let pd := paeBase pdpe
    let pde ← mem (pd + v / 2 ^ 21 % 512 * 8)
    if pde.getLsbD 0 then
      if pde.getLsbD 7 then return ([root, pd], some (paeLargeBase pde + v % 2 ^ 21))
      else
        let pt := paeBase pde
        let pte ← mem (pt + v / 2 ^ 12 % 512 * 8)
        return ([root, pd, pt], if pte.getLsbD 0 then some (paeBase pte + v % 2 ^ 12) else none)
    else return ([root, pd], none)
  else return ([root], none)

/-- A walk that ends at the first table. -/
theorem paeWalk_absent {root v : Nat} {pdpe : U64} (hread : mem (root + v / 2 ^ 30 * 8) = some pdpe)
    (hpdpe : pdpe.getLsbD 0 = false) : paeWalk mem root v = some ([root], none) := by
  simp only [paeWalk, Option.bind_eq_bind, hread, Option.bind_some, hpdpe, Bool.false_eq_true,
    if_false]
  rfl

/-- A walk that ends at a page of 2 MiB. -/
theorem paeWalk_large {root v : Nat} {pdpe pde : U64}
    (hread : mem (root + v / 2 ^ 30 * 8) = some pdpe) (hpdpe : pdpe.getLsbD 0 = true)
    (hread' : mem (paeBase pdpe + v / 2 ^ 21 % 512 * 8) = some pde) (hpde : pde.getLsbD 0 = true)
    (hlarge : pde.getLsbD 7 = true) :
    paeWalk mem root v = some ([root, paeBase pdpe], some (paeLargeBase pde + v % 2 ^ 21)) := by
  simp only [paeWalk, Option.bind_eq_bind, hread, Option.bind_some, hpdpe, if_true, hread', hpde,
    hlarge]
  rfl

/-- What a lookup with a 32-bit result has to give for the target of a walk: `0` when the
address is not mapped, and when the target does not fit. -/
def expectedLookup : Option Nat → Nat
  | none => 0
  | some address => if address < 2 ^ 32 then address else 0

/-- `mem` is the physical memory of the guest: its part below 4 GiB is what the library
reads. -/
def GuestMemory (h : Host) (p : XaParams) (mem : Nat → Option U64) : Prop :=
  ∀ a : U32, a.toNat % 8 = 0 → xaReadLongLongMach h p a = mem a.toNat

/-- The physical memory of a Xen domain. -/
def xenMemory (h : Host) (address : Nat) : Option U64 :=
  (h.xcMapForeignRange protRead (BitVec.ofNat 32 (address / 4096))).map fun memory =>
    memory.u64 (BitVec.ofNat 32 (address % 4096))

theorem guestMemory_xen (hmode : p.mode = .xen) (hshift : p.pageShift = 12)
    (hsize : p.pageSize = 4096) : GuestMemory h p (xenMemory h) := by
  intro a _
  simp only [xaReadLongLongMach, xaAccessMa, xaMmapMfn, xaMapPage, hmode, xenMemory,
    frame_eq_ofNat hshift, offset_eq_ofNat hsize, Option.map_map]
  rfl

/-! ## Entries -/

theorem xaGetBit_eq (reg : U32) (bit : Nat) (hbit : bit < 32) :
    xaGetBit reg bit = reg.getLsbD bit := by
  have htwo : (1 : U32) <<< bit = BitVec.twoPow 32 bit := rfl
  rw [xaGetBit, htwo, BitVec.and_twoPow]
  cases hr : reg.getLsbD bit with
  | false => rfl
  | true =>
    have hne : BitVec.twoPow 32 bit ≠ 0 := by
      intro hzero
      have := congrArg (fun x => x.getLsbD bit) hzero
      simp [hbit] at this
    simpa using hne

theorem entryPresent_setWidth (entry : U64) :
    entryPresent (entry.setWidth 32) = entry.getLsbD 0 := by
  rw [entryPresent, xaGetBit_eq _ 0 (by omega)]
  simp

theorem pageSizeFlag_setWidth (entry : U64) :
    pageSizeFlag (entry.setWidth 32) = entry.getLsbD 7 := by
  rw [pageSizeFlag, xaGetBit_eq _ 7 (by omega)]
  simp

theorem paeBase_mod (entry : U64) : paeBase entry % 4096 = 0 := by
  rw [paeBase]
  omega

/-- The address of an entry, of which the code keeps 32 bits, when the table lies below
4 GiB. -/
theorem entryAddress_toNat (base : U64) (index : U32) (hmod : base.toNat % 4096 = 0)
    (hlow : base.toNat < 2 ^ 32) (hindex : index.toNat < 4096) :
    ((base + index.setWidth 64).setWidth 32).toNat = base.toNat + index.toNat := by
  rw [BitVec.toNat_setWidth, BitVec.toNat_add, BitVec.toNat_setWidth]
  omega

/-- The displacement of an entry in a table of 512 entries. -/
theorem tableIndex_toNat (v : U32) (k : Nat) :
    (((v >>> k) &&& 0x1FF) * 8).toNat = v.toNat / 2 ^ k % 512 * 8 := by
  have hmask : (v >>> k &&& 0x1FF).toNat = (v >>> k).toNat % 2 ^ 9 :=
    Bits.toNat_and_low (v >>> k) (k := 9) (by omega)
  rw [BitVec.toNat_mul, hmask, BitVec.toNat_ushiftRight, Nat.shiftRight_eq_div_pow]
  show v.toNat / 2 ^ k % 2 ^ 9 * 8 % 2 ^ 32 = _
  omega

theorem pgdIndex_toNat (hpae : p.pae = true) (v : U32) :
    (pgdIndex p v).toNat = v.toNat / 2 ^ 21 % 512 * 8 := by
  simp only [pgdIndex, hpae, Bool.not_true, Bool.false_eq_true, if_false]
  exact tableIndex_toNat v 21

theorem pteIndex_toNat (hpae : p.pae = true) (v : U32) :
    (pteIndex p v).toNat = v.toNat / 2 ^ 12 % 512 * 8 := by
  simp only [pteIndex, hpae, Bool.not_true, Bool.false_eq_true, if_false]
  exact tableIndex_toNat v 12

theorem pdpiEntry_toNat (cr3 v : U32) :
    (getPdptb cr3 + pdpiIndex v).toNat = cr3.toNat / 32 * 32 + v.toNat / 2 ^ 30 * 8 := by
  have hcr3 : (getPdptb cr3).toNat = cr3.toNat / 32 * 32 := toNat_and_ffffffe0 cr3
  have hindex : (pdpiIndex v).toNat = v.toNat / 2 ^ 30 * 8 := by
    rw [pdpiIndex, BitVec.toNat_mul, BitVec.toNat_ushiftRight, Nat.shiftRight_eq_div_pow]
    show v.toNat / 2 ^ 30 * 8 % 2 ^ 32 = _
    omega
  rw [BitVec.toNat_add, hcr3, hindex]
  omega

/-! ## The tables of the library's walk -/

theorem getPdpi_of_mem (hmem : GuestMemory h p mem) {cr3 v : U32} {pdpe : U64}
    (hread : mem (cr3.toNat / 32 * 32 + v.toNat / 2 ^ 30 * 8) = some pdpe) :
    getPdpi h p v cr3 = pdpe := by
  have haddr := pdpiEntry_toNat cr3 v
  rw [getPdpi, hmem _ (by rw [haddr]; omega), haddr, hread]
  rfl

theorem getPgdPae_of_mem (hmem : GuestMemory h p mem) (hpae : p.pae = true) {v : U32}
    {pdpe pde : U64} (hlow : paeBase pdpe < 2 ^ 32)
    (hread : mem (paeBase pdpe + v.toNat / 2 ^ 21 % 512 * 8) = some pde) :
    getPgdPae h p v pdpe = pde := by
  have hbase : (pdbaBasePae pdpe).toNat = paeBase pdpe := toNat_and_ffffff000 pdpe
  have hmod := paeBase_mod pdpe
  have hindex := pgdIndex_toNat hpae v
  have haddr : ((pdbaBasePae pdpe + (pgdIndex p v).setWidth 64).setWidth 32).toNat =
      paeBase pdpe + v.toNat / 2 ^ 21 % 512 * 8 := by
    rw [entryAddress_toNat _ _ (by omega) (by omega) (by omega), hbase, hindex]
  rw [getPgdPae, hmem _ (by rw [haddr]; omega), haddr, hread]
  rfl

theorem getPtePae_of_mem (hmem : GuestMemory h p mem) (hpae : p.pae = true) {v : U32}
    {pde pte : U64} (hlow : paeBase pde < 2 ^ 32)
    (hread : mem (paeBase pde + v.toNat / 2 ^ 12 % 512 * 8) = some pte) :
    getPtePae h p v pde = pte := by
  have hbase : (ptbaBasePae pde).toNat = paeBase pde := toNat_and_ffffff000 pde
  have hmod := paeBase_mod pde
  have hindex := pteIndex_toNat hpae v
  have haddr : ((ptbaBasePae pde + (pteIndex p v).setWidth 64).setWidth 32).toNat =
      paeBase pde + v.toNat / 2 ^ 12 % 512 * 8 := by
    rw [entryAddress_toNat _ _ (by omega) (by omega) (by omega), hbase, hindex]
  rw [getPtePae, hmem _ (by rw [haddr]; omega), haddr, hread]
  rfl

/-! ## The address of the page -/

theorem getLargePaddr_eq (hpae : p.pae = true) (v : U32) (pde : U64) :
    getLargePaddr p v (pde.setWidth 32) =
      BitVec.ofNat 32 (paeLargeBase pde + v.toNat % 2 ^ 21) := by
  apply BitVec.eq_of_toNat_eq
  rw [getLargePaddr_toNat_pae p hpae, BitVec.toNat_setWidth, BitVec.toNat_ofNat, paeLargeBase]
  omega

theorem getPaddrPae_eq (v : U32) (pte : U64) :
    (getPaddrPae v pte).setWidth 32 = BitVec.ofNat 32 (paeBase pte + v.toNat % 2 ^ 12) := by
  apply BitVec.eq_of_toNat_eq
  rw [BitVec.toNat_setWidth, getPaddrPae_toNat, BitVec.toNat_ofNat, paeBase]
  omega

/-- With all tables below 4 GiB, the walk of the library gives the target of the format cut
to 32 bits. -/
theorem v2pPae_eq_paeWalk (hmem : GuestMemory h p mem) (hpae : p.pae = true) {cr3 v : U32}
    {tables : List Nat} {target : Option Nat}
    (hwalk : paeWalk mem (cr3.toNat / 32 * 32) v.toNat = some (tables, target))
    (hlow : ∀ t ∈ tables, t < 2 ^ 32) :
    v2pPae h p cr3 v = BitVec.ofNat 32 (target.getD 0) := by
  obtain ⟨pdpe, hpdpe, hrest⟩ := Option.bind_eq_some_iff.mp hwalk
  simp only [v2pPae, v2pPaeBody, getPdpi_of_mem hmem hpdpe, entryPresent_setWidth]
  cases hp : pdpe.getLsbD 0 with
  | false =>
    simp only [hp] at hrest
    cases hrest
    rfl
  | true =>
    simp only [hp, if_true] at hrest
    obtain ⟨pde, hpde, hrest⟩ := Option.bind_eq_some_iff.mp hrest
    have hpd : paeBase pdpe ∈ tables := by
      split at hrest
      · split at hrest
        · cases hrest
          simp
        · obtain ⟨pte, -, hrest⟩ := Option.bind_eq_some_iff.mp hrest
          cases hrest
          simp
      · cases hrest
        simp
    simp only [getPgdPae_of_mem hmem hpae (hlow _ hpd) hpde, Bool.not_true, Bool.false_eq_true,
      if_false]
    cases hd : pde.getLsbD 0 with
    | false =>
      simp only [hd] at hrest
      cases hrest
      rfl
    | true =>
      cases hl : pde.getLsbD 7 with
      | true =>
        simp only [hd, hl, if_true] at hrest
        cases hrest
        simp only [pageSizeFlag_setWidth, hl, if_true]
        exact getLargePaddr_eq hpae v pde
      | false =>
        simp only [hd, hl, if_true] at hrest
        obtain ⟨pte, hpte, hrest⟩ := Option.bind_eq_some_iff.mp hrest
        cases hrest
        simp only [pageSizeFlag_setWidth, hl,
          getPtePae_of_mem hmem hpae (hlow _ (by simp)) hpte, if_true]
        cases ht : pte.getLsbD 0 with
        | false => rfl
        | true => exact getPaddrPae_eq v pte

theorem xaPagetableLookup_eq_paeWalk (hmem : GuestMemory h p mem) (hpae : p.pae = true)
    {cr3 v : U32} {tables : List Nat} {target : Option Nat}
    (hwalk : paeWalk mem (cr3.toNat / 32 * 32) v.toNat = some (tables, target))
    (hlow : ∀ t ∈ tables, t < 2 ^ 32) :
    xaPagetableLookup h p cr3 v = BitVec.ofNat 32 (target.getD 0) := by
  rw [xaPagetableLookup, if_pos hpae]
  exact v2pPae_eq_paeWalk hmem hpae hwalk hlow

/-! ## Exactness -/

/-- The target is one that 32 bits can hold: below 4 GiB, or at a multiple of 4 GiB, which
they cut to `0`. -/
def FitsLookup (target : Option Nat) : Prop :=
  ∀ address ∈ target, address < 2 ^ 32 ∨ address % 2 ^ 32 = 0

theorem toNat_eq_expectedLookup_iff (target : Option Nat) :
    (BitVec.ofNat 32 (target.getD 0)).toNat = expectedLookup target ↔ FitsLookup target := by
  rw [BitVec.toNat_ofNat]
  cases target with
  | none => simp [expectedLookup, FitsLookup]
  | some address =>
    simp only [expectedLookup, FitsLookup, Option.getD_some, Option.mem_def, Option.some.injEq,
      forall_eq']
    split
    · omega
    · omega

/-- **When the lookup is exact.** For a hierarchy whose tables can be read, the lookup gives
what the format asks for if the tables of the walk and the page fit below 4 GiB, and with
such tables it does so only if the page fits. -/
theorem xaPagetableLookup_pae_exact (h : Host) (p : XaParams) (hpae : p.pae = true)
    (mem : Nat → Option U64) (hmem : GuestMemory h p mem) (cr3 v : U32) (tables : List Nat)
    (target : Option Nat)
    (hwalk : paeWalk mem (cr3.toNat / 32 * 32) v.toNat = some (tables, target)) :
    ((∀ t ∈ tables, t < 2 ^ 32) ∧ FitsLookup target →
      (xaPagetableLookup h p cr3 v).toNat = expectedLookup target) ∧
    ((∀ t ∈ tables, t < 2 ^ 32) →
      (xaPagetableLookup h p cr3 v).toNat = expectedLookup target → FitsLookup target) := by
  constructor
  · rintro ⟨hlow, hfits⟩
    rw [xaPagetableLookup_eq_paeWalk hmem hpae hwalk hlow]
    exact (toNat_eq_expectedLookup_iff target).mpr hfits
  · intro hlow hexact
    rw [xaPagetableLookup_eq_paeWalk hmem hpae hwalk hlow] at hexact
    exact (toNat_eq_expectedLookup_iff target).mp hexact

/-- A Xen domain with a PAE hierarchy at `0x1000`: a page of 4 KiB at address `0x1000`, and
at address `0x40000000` a page of 2 MiB that lies above 4 GiB. -/
def paeWords : Words :=
  [(0x1000, 0x2001), (0x1008, 0x4001), (0x2000, 0x3001), (0x3008, 0x7001),
    (0x4000, 0x00200083), (0x4004, 0x1)]

def paeParams : XaParams :=
  { (zeroState 0).toXaParams with mode := .xen, pae := true, pageShift := 12, pageSize := 4096 }

theorem paeParams_exact :
    (xaPagetableLookup (imageHost paeWords) paeParams 0x1000 0x1234).toNat =
      expectedLookup (some 0x7234) :=
  (xaPagetableLookup_pae_exact (imageHost paeWords) paeParams rfl (xenMemory (imageHost paeWords))
    (guestMemory_xen rfl rfl rfl) 0x1000 0x1234 [0x1000, 0x2000, 0x3000] (some 0x7234)
    (by decide)).1 ⟨by decide, by simp [FitsLookup]⟩

/-- The page of 2 MiB at `0x100200000` is reported at `0x200000`. -/
theorem xaPagetableLookup_pae_not_exact :
    GuestMemory (imageHost paeWords) paeParams (xenMemory (imageHost paeWords)) ∧
      paeWalk (xenMemory (imageHost paeWords)) 0x1000 0x40000000 =
        some ([0x1000, 0x4000], some 0x100200000) ∧
      (xaPagetableLookup (imageHost paeWords) paeParams 0x1000 0x40000000).toNat ≠
        expectedLookup (some 0x100200000) :=
  ⟨guestMemory_xen rfl rfl rfl, by decide, by decide⟩

end XenAccess
