import XenAccess.Maps.Tables
import XenAccess.Walk.Pae

/-!
# The walk without PAE against the two-level format

`nopaeWalk` is the walk of a two-level hierarchy written with division and remainder, over
the words of the guest's machine memory. The walk of the library, with its masks and shifts,
computes the same address whenever the tables on the way can be mapped
(`xaPagetableLookup_eq_nopaeWalk`). The entries it reads are aligned, so no read leaves the
frame it starts in; that is taken from the ledger of the walk.
-/

namespace XenAccess

open Audit Prog

variable {h : Host} {p : XaParams}

/-! ## The format -/

/-- The word at an address of the machine memory, if its frame can be mapped. -/
def machWord (h : Host) (p : XaParams) (address : Nat) : Option U32 :=
  (xaMapPage h p protRead (BitVec.ofNat 32 (address / 4096))).map fun memory =>
    memory.u32 (BitVec.ofNat 32 (address % 4096))

/-- The walk of the hierarchy at `cr3` for the address `v`, with `0` for an address that is
not mapped. There is no result when a table cannot be read. -/
def nopaeWalk (mem : Nat → Option U32) (cr3 v : Nat) : Option Nat := do
  let pde ← mem (4096 * (cr3 / 4096) + 4 * (v / 2 ^ 22))
  if pde.getLsbD 0 then
    if pde.getLsbD 7 then return 2 ^ 22 * (pde.toNat / 2 ^ 22) + v % 2 ^ 22
    else
      let pte ← mem (4096 * (pde.toNat / 4096) + 4 * (v / 4096 % 1024))
      return if pte.getLsbD 0 then 4096 * (pte.toNat / 4096) + v % 4096 else 0
  else return 0

/-! ## Entries -/

theorem xaReadLongMach_eq (hsize : p.pageSize = 4096) (hshift : p.pageShift = 12) (a : U32) :
    xaReadLongMach h p a = machWord h p a.toNat := by
  unfold xaReadLongMach xaAccessMa xaMmapMfn machWord
  rw [frame_eq_ofNat hshift, offset_eq_ofNat hsize, Option.map_map]
  rfl

theorem entryPresent_eq (entry : U32) : entryPresent entry = entry.getLsbD 0 :=
  xaGetBit_eq entry 0 (by omega)

theorem pageSizeFlag_eq (entry : U32) : pageSizeFlag entry = entry.getLsbD 7 :=
  xaGetBit_eq entry 7 (by omega)

/-- The displacement of an entry in a table of 1024 entries. -/
theorem tableIndexNopae_toNat (v : U32) (k : Nat) :
    (((v >>> k) &&& 0x3FF) * 4).toNat = v.toNat / 2 ^ k % 1024 * 4 := by
  have hmask : (v >>> k &&& 0x3FF).toNat = (v >>> k).toNat % 2 ^ 10 :=
    Bits.toNat_and_low (v >>> k) (k := 10) (by omega)
  rw [BitVec.toNat_mul, hmask, BitVec.toNat_ushiftRight, Nat.shiftRight_eq_div_pow]
  show v.toNat / 2 ^ k % 2 ^ 10 * 4 % 2 ^ 32 = _
  omega

/-- The address of an entry of a table. -/
theorem entryAddressNopae_toNat (table v : U32) (k : Nat) :
    ((table &&& 0xFFFFF000) + ((v >>> k) &&& 0x3FF) * 4).toNat =
      4096 * (table.toNat / 4096) + 4 * (v.toNat / 2 ^ k % 1024) := by
  have hlt := table.isLt
  rw [BitVec.toNat_add, toNat_and_fffff000, tableIndexNopae_toNat]
  omega

/-- The four bytes at an address lie in the frame of a table. -/
def InFrameOf (table address : U32) : Prop :=
  address.toNat / 4096 = table.toNat / 4096 ∧ address.toNat % 4096 + 4 ≤ 4096

theorem inFrameOf_entry {table address : U32} {i : Nat} (hi : i < 1024)
    (haddress : address.toNat = 4096 * (table.toNat / 4096) + 4 * i) : InFrameOf table address := by
  unfold InFrameOf
  omega

/-- The address at which `get_pgd_nopae` reads. -/
theorem pgdAddress_toNat (hpae : p.pae = false) (cr3 v : U32) :
    (pdbaBaseNopae cr3 + pgdIndex p v).toNat =
      4096 * (cr3.toNat / 4096) + 4 * (v.toNat / 2 ^ 22) := by
  have hlt := v.isLt
  have haddr := entryAddressNopae_toNat cr3 v 22
  have htop : v.toNat / 2 ^ 22 % 1024 = v.toNat / 2 ^ 22 := by omega
  rw [htop] at haddr
  unfold pgdIndex
  simp only [hpae, Bool.not_false, if_true]
  exact haddr

/-- The address at which `get_pte_nopae` reads. -/
theorem pteAddress_toNat (hpae : p.pae = false) (pde v : U32) :
    (ptbaBaseNopae pde + pteIndex p v).toNat =
      4096 * (pde.toNat / 4096) + 4 * (v.toNat / 4096 % 1024) := by
  unfold pteIndex
  simp only [hpae, Bool.not_false, if_true]
  exact entryAddressNopae_toNat pde v 12

/-- The entry of the page directory, when its table can be mapped. -/
theorem getPgdNopae_of_word (hpae : p.pae = false) (hsize : p.pageSize = 4096)
    (hshift : p.pageShift = 12) {cr3 v pde : U32}
    (hread : machWord h p (4096 * (cr3.toNat / 4096) + 4 * (v.toNat / 2 ^ 22)) = some pde) :
    getPgdNopae h p v cr3 = pde := by
  rw [getPgdNopae, xaReadLongMach_eq hsize hshift, pgdAddress_toNat hpae, hread]
  rfl

/-- The entry of the page table, when its table can be mapped. -/
theorem getPteNopae_of_word (hpae : p.pae = false) (hsize : p.pageSize = 4096)
    (hshift : p.pageShift = 12) {pde v pte : U32}
    (hread : machWord h p (4096 * (pde.toNat / 4096) + 4 * (v.toNat / 4096 % 1024)) = some pte) :
    getPteNopae h p v pde = pte := by
  rw [getPteNopae, xaReadLongMach_eq hsize hshift, pteAddress_toNat hpae, hread]
  rfl

/-! ## The walk -/

theorem v2pNopae_eq_nopaeWalk (hpae : p.pae = false) (hsize : p.pageSize = 4096)
    (hshift : p.pageShift = 12) {cr3 v : U32} {target : Nat}
    (hwalk : nopaeWalk (machWord h p) cr3.toNat v.toNat = some target) :
    (v2pNopae h p cr3 v).toNat = target := by
  obtain ⟨pde, hpde, hrest⟩ := Option.bind_eq_some_iff.mp hwalk
  unfold v2pNopae v2pNopaeBody
  simp only [getPgdNopae_of_word hpae hsize hshift hpde, entryPresent_eq, pageSizeFlag_eq]
  cases hp : pde.getLsbD 0 with
  | false =>
    simp only [hp] at hrest
    cases hrest
    rfl
  | true =>
    cases hl : pde.getLsbD 7 with
    | true =>
      simp only [hp, hl, if_true] at hrest
      cases hrest
      simp only [if_true]
      rw [getLargePaddr_toNat_nopae p hpae]
      omega
    | false =>
      simp only [hp, hl, if_true] at hrest
      obtain ⟨pte, hpte, hrest⟩ := Option.bind_eq_some_iff.mp hrest
      cases hrest
      simp only [getPteNopae_of_word hpae hsize hshift hpte, if_true]
      cases ht : pte.getLsbD 0 with
      | false => rfl
      | true =>
        simp only [Bool.false_eq_true, if_false, if_true]
        rw [getPaddrNopae_toNat]
        omega

/-- Rules that rely on nothing. -/
def freeRules : Rules XaState (Option Traced.SavedTable) := ⟨fun _ => True, fun _ => True,
  fun _ => True, fun _ => True⟩

/-- **The walk without PAE is the walk of the format.** For every cr3 and every address, if
the frames of the tables on the walk can be mapped, the lookup gives the address that
division and remainder give, and every load of the walk stays in the frame it reads from: the
entry of the page directory in that of cr3, the entry of a page table in that of the table. -/
theorem xaPagetableLookup_eq_nopaeWalk (h : Host) (p : XaParams) (hpae : p.pae = false)
    (hsize : p.pageSize = 4096) (hshift : p.pageShift = 12) (cr3 v : U32) (target : Nat)
    (hwalk : nopaeWalk (machWord h p) cr3.toNat v.toNat = some target) :
    (xaPagetableLookup h p cr3 v).toNat = target ∧
      (∀ (s : XaState) (L : Ledger (Option Traced.SavedTable)), L.WF →
        (Traced.xaPagetableLookup h p cr3 v s L).1 = .ok (xaPagetableLookup h p cr3 v, s) ∧
        (Traced.xaPagetableLookup h p cr3 v s L).2.strayLoads = L.strayLoads) ∧
      InFrameOf cr3 (pdbaBaseNopae cr3 + pgdIndex p v) ∧
      ∀ pde, InFrameOf pde (ptbaBaseNopae pde + pteIndex p v) := by
  refine ⟨?_, ?_, ?_, fun pde => ?_⟩
  · unfold xaPagetableLookup
    rw [hpae]
    exact v2pNopae_eq_nopaeWalk hpae hsize hshift hwalk
  · intro s L hL
    have htracks : Tracks freeRules s 0 (fun _ => 0) id .skip
        (Traced.xaPagetableLookup h p cr3 v) (pure (xaPagetableLookup h p cr3 v)) :=
      Traced.xaPagetableLookup_tracks hsize cr3 v
    refine ⟨htracks.outcome_eq hL trivial trivial, ?_⟩
    exact (htracks.strayLoads_iff hL trivial trivial).mpr ⟨trivial, fun _ => trivial⟩
  · have hlt := v.isLt
    exact inFrameOf_entry (by omega) (pgdAddress_toNat hpae cr3 v)
  · exact inFrameOf_entry (Nat.mod_lt _ (by decide)) (pteAddress_toNat hpae pde v)

/-- A Xen domain with a hierarchy at `0x1000` that maps the page at `0x401000`. -/
def nopaeWords : Words := [(0x1004, 0x2067), (0x2004, 0x7067)]

def nopaeParams : XaParams := { paeParams with pae := false }

theorem nopaeParams_lookup :
    (xaPagetableLookup (imageHost nopaeWords) nopaeParams 0x1018 0x401234).toNat = 0x7234 :=
  (xaPagetableLookup_eq_nopaeWalk (imageHost nopaeWords) nopaeParams rfl rfl rfl 0x1018 0x401234
    0x7234 (by decide)).1

end XenAccess
