import XenAccess.Disk.Hash

/-!
# The hash table refines a map from blocks to stacks

What the table is for: for each block a stack of nodes, on which `insert_hash` pushes and
from which `remove_hash` pops. `Refines` relates a table to such a map; every call keeps it
(`Refines.exec`), and so does every sequence of calls (`refines_run`). The searches of the
table leave off early, and `check_hash` does not look at a list whose flag is zero; that
neither loses a node is part of `Valid`.
-/

namespace XenAccess.Disk

variable {ht : HashTable} {S : U32 → List BlockNode}

/-! ## The abstract map -/

/-- A call on the map from blocks to stacks. -/
def HashOp.onStacks : HashOp → (U32 → List BlockNode) → U32 → List BlockNode
  | .init, _, _ => []
  | .insert b, S, k => if b.block = k then b :: S k else S k
  | .remove block, S, k => if block = k then (S k).tail else S k
  | .destroy, _, _ => []

/-- The map after a sequence of calls, from empty stacks. -/
def runStacks (ops : List HashOp) : U32 → List BlockNode :=
  ops.foldl (fun S op => op.onStacks S) fun _ => []

/-- The table is well formed and holds the nodes of each block in the order of its stack. -/
structure Refines (ht : HashTable) (S : U32 → List BlockNode) : Prop where
  valid : Valid ht
  nodes : ∀ k, nodesOf k ht = S k

/-! ## Single calls -/

theorem destroyList_eq (l : List BlockNode) : destroyList l = [] := by
  induction l with
  | nil => rfl
  | cons b l ih => exact ih

theorem destroyHash_eq {i : Nat} (hi : i < hashSize) :
    destroyHash ht i = { active := 0, list := [] } := by
  unfold destroyHash
  rw [if_pos hi, destroyList_eq]

theorem Valid.destroy (hv : Valid ht) : Valid (destroyHash ht) := by
  constructor <;> intro i <;> by_cases hi : i < hashSize
  · rw [destroyHash_eq hi]
    exact List.Pairwise.nil
  · unfold destroyHash
    rw [if_neg hi]
    exact hv.sorted i
  · rw [destroyHash_eq hi]
    exact fun b hb => absurd hb List.not_mem_nil
  · unfold destroyHash
    rw [if_neg hi]
    exact hv.home i
  · rw [destroyHash_eq hi]
    exact iff_of_true rfl rfl
  · unfold destroyHash
    rw [if_neg hi]
    exact hv.active i

theorem nodesOf_destroy (k : U32) : nodesOf k (destroyHash ht) = [] := by
  unfold nodesOf
  rw [destroyHash_eq (hashBlock_lt k)]
  rfl

theorem refines_init : Refines initHash fun _ => [] := ⟨valid_init, fun _ => rfl⟩

theorem Refines.exec (hr : Refines ht S) (op : HashOp) : Refines (op.exec ht) (op.onStacks S) := by
  cases op with
  | init => exact refines_init
  | insert b =>
    refine ⟨hr.valid.insert b, fun k => ?_⟩
    rw [HashOp.exec, nodesOf_insert, hr.nodes k]
    rfl
  | remove block =>
    refine ⟨hr.valid.remove block, fun k => ?_⟩
    rw [HashOp.exec, nodesOf_remove hr.valid, hr.nodes k]
    rfl
  | destroy => exact ⟨hr.valid.destroy, nodesOf_destroy⟩

/-- Every sequence of calls does on the table what it does on the stacks. -/
theorem Refines.run (hr : Refines ht S) (ops : List HashOp) :
    Refines (ops.foldl (fun ht op => op.exec ht) ht) (ops.foldl (fun S op => op.onStacks S) S) := by
  induction ops generalizing ht S with
  | nil => exact hr
  | cons op ops ih => exact ih (hr.exec op)

theorem refines_run (ops : List HashOp) : Refines (runHash ops) (runStacks ops) :=
  refines_init.run ops

theorem Refines.checkHash (hr : Refines ht S) (block : U32) :
    checkHash block ht = (S block).head? := by
  rw [checkHash_eq hr.valid, hr.nodes]

/-! ## Removals -/

/-- A removal takes out the node that a search finds, and nothing else. -/
theorem removeList_spec (block : U32) (l : List BlockNode) :
    (checkList block l = none ∧ removeList block l = l) ∨
      ∃ b pre post, checkList block l = some b ∧ l = pre ++ b :: post ∧
        removeList block l = pre ++ post := by
  induction l with
  | nil => exact .inl ⟨rfl, rfl⟩
  | cons q l ih =>
    rw [checkList, removeList]
    by_cases hlt : q.block < block
    · rw [if_pos hlt, if_pos hlt]
      rcases ih with ⟨hcheck, hremove⟩ | ⟨b, pre, post, hcheck, rfl, hremove⟩
      · exact .inl ⟨hcheck, by rw [hremove]⟩
      · exact .inr ⟨b, q :: pre, post, hcheck, rfl, by rw [hremove]; rfl⟩
    · rw [if_neg hlt, if_neg hlt]
      by_cases heq : q.block = block
      · rw [if_pos heq, if_pos heq]
        exact .inr ⟨q, [], l, rfl, rfl, rfl⟩
      · rw [if_neg heq, if_neg heq]
        exact .inl ⟨rfl, rfl⟩

/-- `remove_hash` takes the node that `check_hash` finds out of its list and changes no other
list; when there is none, it changes no list at all. -/
structure RemovesFound (block : U32) (ht : HashTable) : Prop where
  found : ∀ b, checkHash block ht = some b → ∃ pre post,
    (ht (hashBlock block)).list = pre ++ b :: post ∧
      (removeHash block ht (hashBlock block)).list = pre ++ post
  none : checkHash block ht = none →
    (removeHash block ht (hashBlock block)).list = (ht (hashBlock block)).list
  others : ∀ i, i ≠ hashBlock block → removeHash block ht i = ht i

theorem Valid.removesFound (hv : Valid ht) (block : U32) : RemovesFound block ht := by
  have hlist : (removeHash block ht (hashBlock block)).list =
      removeList block (ht (hashBlock block)).list := by
    unfold removeHash
    rw [HashTable.set_self]
  have hcheck : checkHash block ht = checkList block (ht (hashBlock block)).list := by
    rw [checkHash_eq hv, checkList_eq (hv.sorted _)]
    rfl
  refine ⟨fun b hb => ?_, fun hnone => ?_, fun i hi => HashTable.set_ne _ hi⟩
  · rw [hcheck] at hb
    rw [hlist]
    rcases removeList_spec block (ht (hashBlock block)).list with
      ⟨hnone, -⟩ | ⟨b', pre, post, hb', hl, hremove⟩
    · rw [hb] at hnone
      cases hnone
    · rw [hb] at hb'
      cases hb'
      exact ⟨pre, post, hl, hremove⟩
  · rw [hcheck] at hnone
    rw [hlist]
    rcases removeList_spec block (ht (hashBlock block)).list with
      ⟨-, hremove⟩ | ⟨b', pre, post, hb', -⟩
    · exact hremove
    · rw [hnone] at hb'
      cases hb'

/-! ## The refinement -/

/-- The call is one for the given block. -/
def HashOp.On (block : U32) : HashOp → Prop
  | .insert b => b.block = block
  | .remove block' => block' = block
  | .init | .destroy => False

theorem Refines.checkHash_other (hr : Refines ht S) {op : HashOp} {block k : U32}
    (hop : op.On block) (hk : k ≠ block) :
    Disk.checkHash k (op.exec ht) = Disk.checkHash k ht := by
  rw [(hr.exec op).checkHash, hr.checkHash]
  cases op with
  | insert b =>
    have hne : b.block ≠ k := fun heq => hk (heq.symm.trans hop)
    exact congrArg List.head? (if_neg hne)
  | remove block' =>
    have hne : block' ≠ k := fun heq => hk (heq.symm.trans hop)
    exact congrArg List.head? (if_neg hne)
  | init => exact hop.elim
  | destroy => exact hop.elim

/-- **The block hash is a map from blocks to stacks.** After every sequence of calls the
buckets are sorted, hold only blocks of their own and are active exactly if they are not
empty; a lookup gives the top of the stack of its block, a removal takes out exactly that
node, and a call for one block does not change the lookup of another. -/
theorem runHash_refines_stacks (ops : List HashOp) :
    (∀ i < hashSize,
      (∀ b ∈ (runHash ops i).list, b.block.toNat % hashSize = i) ∧
      (runHash ops i).list.Pairwise (fun a b => a.block ≤ b.block) ∧
      ((runHash ops i).active ≠ 0 ↔ (runHash ops i).list ≠ [])) ∧
    (∀ block, checkHash block (runHash ops) = (runStacks ops block).head?) ∧
    (∀ block, RemovesFound block (runHash ops)) ∧
    (∀ op block k, HashOp.On block op → k ≠ block →
      checkHash k (op.exec (runHash ops)) = checkHash k (runHash ops)) := by
  have hr := refines_run ops
  refine ⟨fun i _ => ⟨hr.valid.home i, hr.valid.sorted i, not_congr (hr.valid.active i)⟩,
    hr.checkHash, hr.valid.removesFound, ?_⟩
  intro op block k hop hk
  exact hr.checkHash_other hop hk

end XenAccess.Disk
