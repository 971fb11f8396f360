import XenAccess.Lib.Sweep
import XenAccess.Maps.FileImage
import XenAccess.Model.KernelPd
import XenAccess.Process.Termination

/-!
# Scans of physical memory that end

The loop of `xa_find_kernel_pd` over the pages and the loop of `windows_find_eprocess` over the
slots of 8 bytes move a cursor of 32 bits up to the memory size. Both are sweeps. The first one
ends exactly if the last page of the address space is not below the size; the second one also
ends when it finds a process.
-/

namespace XenAccess

open Orbit Sweep

variable {h : Host} {p : XaParams} {malloc : Nat → Candidate} {name : CStr}

/-! ## Pages -/

/-- The page that the loop of `xa_find_kernel_pd` goes on to. -/
def pageNext (p : XaParams) (address : U32) : Option U32 :=
  if address < p.size then some (address + p.pageSize) else none

theorem pageNext_sweeps : Sweeps (pageNext p) id p.pageSize p.size where
  moves x y hxy := by
    unfold pageNext at hxy
    split at hxy
    · exact (Option.some.inj hxy).symm
    · cases hxy
  stops _ hx := if_neg hx

/-- The loop goes along these pages, whatever they hold. -/
theorem pageLoop_goesAlong : GoesAlong (pageNext p) Prod.fst
    (fun n (s : U32 × List Candidate × Candidate) => pageLoop h p malloc n s.1 s.2.1 s.2.2) where
  late s r hr := by cases hr
  stop s hend := by
    refine ⟨s.2.1 ++ [s.2.2], fun n => ?_⟩
    rw [pageLoop, if_neg]
    intro hlt
    rw [pageNext, if_pos hlt] at hend
    cases hend
  step n s x hnext := by
    unfold pageNext at hnext
    split at hnext
    · rename_i hlt
      rw [← Option.some.inj hnext, pageLoop, if_pos hlt]
      dsimp only
      split
      · exact ⟨(_, _, _), rfl, rfl⟩
      · exact ⟨(_, _, _), rfl, rfl⟩
    · cases hnext

/-- The loop over the pages ends, and visits each page below the size at most once. -/
structure PageScan (h : Host) (p : XaParams) (malloc : Nat → Candidate) : Prop where
  ends : ∃ fuel l, pdCandidates h p malloc fuel = .ok l
  once : ∀ i j x, nth (pageNext p) 0 i = some x → nth (pageNext p) 0 j = some x → x < p.size →
    i = j

theorem pageScan_iff (h : Host) (malloc : Nat → Candidate) (hps : p.pageSize = 4096) :
    PageScan h p malloc ↔ p.size ≤ 0xFFFFF000 := by
  have hstep : p.pageSize.toNat = 4096 := by
    rw [hps]
    rfl
  have hends : (∃ fuel l, pdCandidates h p malloc fuel = .ok l) ↔ Ends (pageNext p) 0 :=
    exists_congr fun n => pageLoop_goesAlong.ends_iff n (0, [], malloc 0)
  have hroom : p.size ≤ 0xFFFFF000 ↔ p.size.toNat + p.pageSize.toNat ≤ 2 ^ 32 := by
    rw [BitVec.le_def, hstep]
    show p.size.toNat ≤ 0xFFFFF000 ↔ _
    omega
  rw [hroom]
  constructor
  · intro hscan
    by_contra hwrap
    refine pageNext_sweeps.not_ends (a := 0) rfl ?_ (Nat.lt_of_not_le hwrap) ?_
      (hends.mp hscan.ends)
    · rw [hstep]
      exact ⟨2 ^ 20, rfl⟩
    · intro n x _ (hlt : x < p.size)
      rw [pageNext, if_pos hlt]
      rfl
  · intro hle
    have hpos : 0 < p.pageSize.toNat := by omega
    refine ⟨hends.mpr (pageNext_sweeps.ends rfl hle hpos), fun i j x hi hj _ => ?_⟩
    exact pageNext_sweeps.once rfl hle hpos hi hj rfl

/-! ## Slots -/

/-- The value that a round of `windows_find_eprocess` looks at. -/
def slotValue (h : Host) (p : XaParams) (x : U32 × U32) : U32 := (xaReadLongPhys h p x.1).getD x.2

/-- The round finds the process. -/
def slotFound (h : Host) (p : XaParams) (name : CStr) (x : U32 × U32) : Bool :=
  if slotValue h p x = 0x001b0003 ∨ slotValue h p x = 0x00200003 then
    match windowsGetEprocessName h p x.1 with
    | some procname => strncmpEq procname name 50
    | none => false
  else false

/-- The offset and the value with which `windows_find_eprocess` goes on. -/
def slotNext (h : Host) (p : XaParams) (name : CStr) (x : U32 × U32) : Option (U32 × U32) :=
  if x.1 < p.size then
    if slotFound h p name x then none else some (x.1 + 8, slotValue h p x)
  else none

theorem eprocessLoop_succ (n : Nat) (x : U32 × U32) :
    eprocessLoop h p name (n + 1) x.1 x.2 =
      if x.1 < p.size then
        if slotFound h p name x then .ok x.1
        else eprocessLoop h p name n (x.1 + 8) (slotValue h p x)
      else .ok 0 := rfl

theorem slotNext_sweeps : Sweeps (slotNext h p name) Prod.fst 8 p.size where
  moves x y hxy := by
    unfold slotNext at hxy
    split at hxy
    · split at hxy
      · cases hxy
      · rw [← Option.some.inj hxy]
    · cases hxy
  stops _ hx := if_neg hx

/-- The result of the scan at the state it stops in. -/
def slotResult (p : XaParams) (x : U32 × U32) : U32 := if x.1 < p.size then x.1 else 0

theorem eprocessLoop_stop {x : U32 × U32} (hend : slotNext h p name x = none) (n : Nat) :
    eprocessLoop h p name (n + 1) x.1 x.2 = .ok (slotResult p x) := by
  unfold slotNext at hend
  rw [eprocessLoop_succ, slotResult]
  split at hend
  · rename_i hlt
    split at hend
    · rename_i hfound
      rw [if_pos hlt, if_pos hlt, if_pos hfound]
    · cases hend
  · rename_i hlt
    rw [if_neg hlt, if_neg hlt]

theorem eprocessLoop_goesAlong : GoesAlong (slotNext h p name) id
    (fun n x => eprocessLoop h p name n x.1 x.2) where
  late x r hr := by cases hr
  stop x hend := ⟨slotResult p x, eprocessLoop_stop hend⟩
  step n x y hnext := by
    rw [id_eq, slotNext] at hnext
    rw [eprocessLoop_succ]
    split at hnext
    · rename_i hlt
      split at hnext
      · cases hnext
      · rename_i hlost
        rw [if_pos hlt, if_neg hlost]
        exact ⟨y, rfl, Option.some.inj hnext ▸ rfl⟩
    · cases hnext

/-- The loop over the slots ends, and visits each slot below the size at most once. -/
structure SlotScan (h : Host) (p : XaParams) (name : CStr) : Prop where
  ends : ∃ fuel r, windowsFindEprocess h p fuel name = .ok r
  once : ∀ i j x y, nth (slotNext h p name) (0, 0) i = some x →
    nth (slotNext h p name) (0, 0) j = some y → x.1 = y.1 → x.1 < p.size → i = j

theorem windowsFindEprocess_ends_iff :
    (∃ fuel r, windowsFindEprocess h p fuel name = .ok r) ↔ Ends (slotNext h p name) (0, 0) :=
  exists_congr fun n => eprocessLoop_goesAlong.ends_iff n (0, 0)

theorem slotScan_of_le (h : Host) (name : CStr) (hle : p.size ≤ 0xFFFFFFF8) :
    SlotScan h p name := by
  have hroom : p.size.toNat + (8 : U32).toNat ≤ 2 ^ 32 := by
    rw [BitVec.le_def] at hle
    show p.size.toNat + 8 ≤ 2 ^ 32
    have : (0xFFFFFFF8 : U32).toNat = 0xFFFFFFF8 := rfl
    omega
  refine ⟨windowsFindEprocess_ends_iff.mpr (slotNext_sweeps.ends rfl hroom (by decide)), ?_⟩
  intro i j x y hi hj hxy _
  exact slotNext_sweeps.once rfl hroom (by decide) hi hj hxy

/-! ## Both scans -/

/-- **When the scans of physical memory end**, each page and each slot visited at most once: if
the last page of the address space starts at the memory size or above. -/
theorem scans_end_iff (h : Host) (p : XaParams) (malloc : Nat → Candidate) (name : CStr)
    (hps : p.pageSize = 4096) :
    PageScan h p malloc ∧ SlotScan h p name ↔ p.size ≤ 0xFFFFF000 := by
  rw [pageScan_iff h malloc hps]
  constructor
  · exact And.left
  · intro hle
    refine ⟨hle, slotScan_of_le h name ?_⟩
    exact BitVec.le_trans hle (by decide)

theorem sizedHost_scans_end :
    PageScan (sizedHost 0x1800) (sizedState 0x1800).toXaParams (fun _ => ⟨7, 7, 7, 7, 7⟩) ∧
      SlotScan (sizedHost 0x1800) (sizedState 0x1800).toXaParams (cstr "System") :=
  (scans_end_iff (sizedHost 0x1800) (sizedState 0x1800).toXaParams (fun _ => ⟨7, 7, 7, 7, 7⟩)
    (cstr "System") rfl).mpr (by decide)

/-- On an image one byte longer than the start of the last page the search for a page directory
never ends. -/
theorem sizedHost_scan_endless :
    xaInitFilePrivate (sizedHost 0xFFFFF001) 0 [] [] .failsoft (zeroState 0) =
        .ok (.success, sizedState 0xFFFFF001) ∧
      ∀ malloc, ¬PageScan (sizedHost 0xFFFFF001) (sizedState 0xFFFFF001).toXaParams malloc := by
  refine ⟨sizedHost_init _, fun malloc hscan => ?_⟩
  have hle := (pageScan_iff _ malloc rfl).mp hscan
  revert hle
  decide

end XenAccess
