import Mathlib.Data.BitVec
import XenAccess.Model.DiskMonitor

/-!
# The hash table as a stack of nodes for each block

`nodesOf block ht` is the list of the nodes of a block, the one inserted last in front. On the
tables the program can build (`Reachable`), which have sorted buckets (`Valid`), an insertion
pushes onto one of these stacks, a removal pops one, a lookup reads the top of one, and all
leave the stacks of the other blocks alone.
-/

namespace XenAccess.Disk

variable {ht : HashTable} {b q : BlockNode} {block k : U32} {l : List BlockNode}

/-- The nodes of a block, in the order of their bucket. -/
def nodesOf (block : U32) (ht : HashTable) : List BlockNode :=
  (ht (hashBlock block)).list.filter fun b => b.block = block

/-- A node is in the table. -/
def InTable (b : BlockNode) (ht : HashTable) : Prop := ∃ i < hashSize, b ∈ (ht i).list

/-- What every table has that is built by the functions of `xadisk_hash.c`. -/
structure Valid (ht : HashTable) : Prop where
  sorted : ∀ i, (ht i).list.Pairwise fun a b => a.block ≤ b.block
  home : ∀ i, ∀ b ∈ (ht i).list, hashBlock b.block = i
  active : ∀ i, (ht i).active = 0 ↔ (ht i).list = []

/-- The tables the program can build. -/
inductive Reachable : HashTable → Prop
  | init : Reachable initHash
  | insert (b : BlockNode) {ht : HashTable} : Reachable ht → Reachable (insertHash b ht)
  | remove (block : U32) {ht : HashTable} : Reachable ht → Reachable (removeHash block ht)
  | setDir (block : U32) (dir : List DirEntry) {ht : HashTable} :
    Reachable ht → Reachable (setDirHash block dir ht)

/-! ## One bucket -/

theorem lt_of_not_lt {a b : U32} (hge : ¬ a < b) (hne : ¬ a = b) : b < a := by bv_omega

theorem mem_insertList : q ∈ insertList b l ↔ q = b ∨ q ∈ l := by
  induction l with
  | nil => rw [insertList, List.mem_singleton, List.mem_nil_iff, or_false]
  | cons x l ih =>
    rw [insertList]
    split
    · rw [List.mem_cons, ih, List.mem_cons, or_left_comm]
    · rw [List.mem_cons]

theorem insertList_sorted (hl : l.Pairwise fun a b => a.block ≤ b.block) :
    (insertList b l).Pairwise fun a b => a.block ≤ b.block := by
  induction l with
  | nil => exact List.pairwise_singleton _ _
  | cons x l ih =>
    obtain ⟨hx, hl'⟩ := List.pairwise_cons.mp hl
    rw [insertList]
    split
    · rename_i hlt
      refine List.pairwise_cons.mpr ⟨fun y hy => ?_, ih hl'⟩
      rcases mem_insertList.mp hy with rfl | hy
      · exact BitVec.le_of_lt hlt
      · exact hx y hy
    · rename_i hge
      have hle : b.block ≤ x.block := BitVec.not_lt.mp hge
      refine List.pairwise_cons.mpr ⟨fun y hy => ?_, hl⟩
      rcases List.mem_cons.mp hy with rfl | hy
      · exact hle
      · exact BitVec.le_trans hle (hx y hy)

theorem filter_insertList (k : U32) : (insertList b l).filter (fun q => q.block = k) =
    if b.block = k then b :: l.filter (fun q => q.block = k) else l.filter fun q => q.block = k := by
  induction l with
  | nil => rw [insertList, List.filter_singleton]; split <;> simp_all
  | cons x l ih =>
    rw [insertList]
    split
    · rename_i hlt
      rw [List.filter_cons, ih, List.filter_cons]
      split
      · rename_i hx
        have hne : b.block ≠ k := by
          intro hb
          rw [of_decide_eq_true hx, hb] at hlt
          exact BitVec.lt_irrefl _ hlt
        rw [if_neg hne, if_neg hne]
      · rfl
    · rw [List.filter_cons]
      simp only [decide_eq_true_eq]

theorem removeList_sublist : (removeList block l).Sublist l := by
  induction l with
  | nil => exact List.Sublist.refl _
  | cons x l ih =>
    rw [removeList]
    split
    · exact ih.cons_cons x
    · split
      · exact List.sublist_cons_self x l
      · exact List.Sublist.refl _

/-- In a sorted list, there is nothing behind a greater block. -/
theorem filter_eq_nil (hl : (q :: l).Pairwise fun a b => a.block ≤ b.block) (hlt : block < q.block) :
    (q :: l).filter (fun q => q.block = block) = [] := by
  rw [List.filter_eq_nil_iff]
  intro y hy
  have hle : q.block ≤ y.block := by
    rcases List.mem_cons.mp hy with rfl | hy
    · exact BitVec.le_refl _
    · exact (List.pairwise_cons.mp hl).1 y hy
  rw [decide_eq_true_eq]
  rintro rfl
  exact BitVec.not_le.mpr hlt hle

theorem filter_removeList (hl : l.Pairwise fun a b => a.block ≤ b.block) (k : U32) :
    (removeList block l).filter (fun q => q.block = k) =
      if block = k then (l.filter fun q => q.block = k).tail else l.filter fun q => q.block = k := by
  induction l with
  | nil => simp [removeList]
  | cons x l ih =>
    have hl' := (List.pairwise_cons.mp hl).2
    rw [removeList]
    split
    · rename_i hlt
      rw [List.filter_cons, ih hl', List.filter_cons]
      split
      · rename_i hx
        have hne : block ≠ k := by
          intro hb
          rw [of_decide_eq_true hx, hb] at hlt
          exact BitVec.lt_irrefl _ hlt
        rw [if_neg hne, if_neg hne]
      · rfl
    · rename_i hge
      split
      · rename_i heq
        rw [List.filter_cons]
        by_cases hk : block = k
        · simp [heq, hk]
        · simp [heq, hk]
      · rename_i hne
        have hlt : block < x.block := lt_of_not_lt hge hne
        by_cases hk : block = k
        · subst hk
          rw [if_pos rfl, filter_eq_nil hl hlt]
          rfl
        · rw [if_neg hk]

theorem checkList_eq (hl : l.Pairwise fun a b => a.block ≤ b.block) :
    checkList block l = (l.filter fun q => q.block = block).head? := by
  induction l with
  | nil => rfl
  | cons x l ih =>
    rw [checkList]
    split
    · rename_i hlt
      have hne : ¬ x.block = block := by
        rintro rfl
        exact BitVec.lt_irrefl _ hlt
      rw [ih (List.pairwise_cons.mp hl).2, List.filter_cons_of_neg (by simpa using hne)]
    · rename_i hge
      split
      · rename_i heq
        rw [List.filter_cons_of_pos (by simpa using heq)]
        rfl
      · rename_i hne
        rw [filter_eq_nil hl (lt_of_not_lt hge hne)]
        rfl

/-- Storing a table changes no block number. -/
theorem setDirList_blocks (dir : List DirEntry) :
    (setDirList block dir l).map BlockNode.block = l.map BlockNode.block := by
  induction l with
  | nil => rfl
  | cons x l ih =>
    rw [setDirList]
    split
    · rw [List.map_cons, ih, List.map_cons]
    · split <;> rfl

theorem filter_setDirList (dir : List DirEntry) (hne : block ≠ k) :
    (setDirList block dir l).filter (fun q => q.block = k) = l.filter fun q => q.block = k := by
  induction l with
  | nil => rfl
  | cons x l ih =>
    rw [setDirList]
    split
    · rw [List.filter_cons, ih, List.filter_cons]
    · split
      · rename_i heq
        have hk : ¬ x.block = k := by rwa [heq]
        rw [List.filter_cons_of_neg (by simpa using hk), List.filter_cons_of_neg (by simpa using hk)]
      · rfl

/-! ## The table -/

@[simp] theorem HashTable.set_self (i : Nat) (e : HashEntry) : (ht.set i e) i = e := if_pos rfl

theorem HashTable.set_ne {i j : Nat} (e : HashEntry) (hj : j ≠ i) : (ht.set i e) j = ht j :=
  if_neg hj

theorem nodesOf_set (i : Nat) (e : HashEntry) :
    nodesOf k (ht.set i e) =
      if hashBlock k = i then e.list.filter (fun b => b.block = k) else nodesOf k ht := by
  rw [nodesOf]
  split
  · rename_i hi
    rw [hi, HashTable.set_self]
  · rename_i hi
    rw [HashTable.set_ne e hi, nodesOf]

theorem Valid.set (hv : Valid ht) {i : Nat} {e : HashEntry}
    (hsorted : e.list.Pairwise fun a b => a.block ≤ b.block)
    (hhome : ∀ b ∈ e.list, hashBlock b.block = i) (hactive : e.active = 0 ↔ e.list = []) :
    Valid (ht.set i e) := by
  constructor <;> intro j <;> by_cases hj : j = i
  · subst hj
    rw [HashTable.set_self]
    exact hsorted
  · rw [HashTable.set_ne e hj]
    exact hv.sorted j
  · subst hj
    rw [HashTable.set_self]
    exact hhome
  · rw [HashTable.set_ne e hj]
    exact hv.home j
  · subst hj
    rw [HashTable.set_self]
    exact hactive
  · rw [HashTable.set_ne e hj]
    exact hv.active j

theorem valid_init : Valid initHash :=
  ⟨fun _ => .nil, fun _ _ hb => by simp [initHash] at hb, fun _ => iff_of_true rfl rfl⟩

theorem Valid.insert (hv : Valid ht) (b : BlockNode) : Valid (insertHash b ht) := by
  refine hv.set (insertList_sorted (hv.sorted _)) ?_ ?_
  · intro q hq
    rcases mem_insertList.mp hq with rfl | hq
    · rfl
    · exact hv.home _ q hq
  · have hactive : (ht (hashBlock b.block)).active ||| 0xFF = 0xFF :=
      BitVec.or_allOnes (x := (ht (hashBlock b.block)).active)
    refine iff_of_false (fun hzero => ?_) ?_
    · cases hactive.symm.trans hzero
    · exact List.ne_nil_of_mem (mem_insertList.mpr (Or.inl rfl))

theorem Valid.remove (hv : Valid ht) (block : U32) : Valid (removeHash block ht) := by
  refine hv.set ((hv.sorted _).sublist removeList_sublist) ?_ ?_
  · exact fun q hq => hv.home _ q (removeList_sublist.subset hq)
  · show (if removeList block (ht (hashBlock block)).list = [] then _ else _) = 0 ↔ _
    split
    · rename_i hnil
      exact iff_of_true (BitVec.and_zero) hnil
    · rename_i hne
      refine iff_of_false (fun hzero => hne ?_) hne
      have := (hv.active _).mp hzero
      rw [this]
      rfl

theorem Valid.setDir (hv : Valid ht) (block : U32) (dir : List DirEntry) :
    Valid (setDirHash block dir ht) := by
  have hblocks : (setDirList block dir (ht (hashBlock block)).list).map BlockNode.block =
      (ht (hashBlock block)).list.map BlockNode.block := setDirList_blocks dir
  refine hv.set ?_ ?_ ?_
  · have := hv.sorted (hashBlock block)
    rw [← List.pairwise_map (f := BlockNode.block) (R := (· ≤ ·))] at this ⊢
    rw [hblocks]
    exact this
  · intro q hq
    obtain ⟨q', hq', heq⟩ := List.mem_map.mp (hblocks ▸ List.mem_map_of_mem hq)
    rw [← heq]
    exact hv.home _ q' hq'
  · rw [← List.map_eq_nil_iff (f := BlockNode.block), hblocks, List.map_eq_nil_iff]
    exact hv.active _

theorem Reachable.valid (hr : Reachable ht) : Valid ht := by
  induction hr with
  | init => exact valid_init
  | insert b _ ih => exact ih.insert b
  | remove block _ ih => exact ih.remove block
  | setDir block dir _ ih => exact ih.setDir block dir

/-! ## The stacks -/

theorem nodesOf_insert (b : BlockNode) (ht : HashTable) (k : U32) :
    nodesOf k (insertHash b ht) = if b.block = k then b :: nodesOf k ht else nodesOf k ht := by
  rw [insertHash, nodesOf_set]
  split
  · rename_i hk
    rw [filter_insertList, ← hk]
    rfl
  · rename_i hk
    rw [if_neg]
    rintro rfl
    exact hk rfl

theorem nodesOf_remove (hv : Valid ht) (block k : U32) :
    nodesOf k (removeHash block ht) =
      if block = k then (nodesOf k ht).tail else nodesOf k ht := by
  rw [removeHash, nodesOf_set]
  split
  · rename_i hk
    rw [filter_removeList (hv.sorted _), ← hk]
    rfl
  · rename_i hk
    rw [if_neg]
    rintro rfl
    exact hk rfl

theorem nodesOf_setDir {dir : List DirEntry} (hne : block ≠ k) :
    nodesOf k (setDirHash block dir ht) = nodesOf k ht := by
  rw [setDirHash, nodesOf_set]
  split
  · rename_i hk
    rw [filter_setDirList dir hne, ← hk]
    rfl
  · rfl

theorem checkHash_eq (hv : Valid ht) (block : U32) :
    checkHash block ht = (nodesOf block ht).head? := by
  rw [checkHash]
  split
  · rename_i hactive
    rw [nodesOf, (hv.active _).mp hactive]
    rfl
  · exact checkList_eq (hv.sorted _)

theorem hashBlock_lt (block : U32) : hashBlock block < hashSize := Nat.mod_lt _ (by decide)

theorem inTable_iff (hv : Valid ht) : InTable b ht ↔ b ∈ nodesOf b.block ht := by
  rw [nodesOf, List.mem_filter]
  constructor
  · rintro ⟨i, -, hb⟩
    rw [hv.home i b hb]
    exact ⟨hb, decide_eq_true rfl⟩
  · rintro ⟨hb, -⟩
    exact ⟨_, hashBlock_lt b.block, hb⟩

end XenAccess.Disk
