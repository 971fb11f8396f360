import XenAccess.Lib.Merge

/-!
# Sorting by insertion

A list is sorted by a key, one element after the other, into a list that is kept from its last
element to its first: a new element passes over what it is below. Elements with equal keys never
pass each other, so they stay in their order (`sort_stable`).
-/

namespace Insertion

open Merge

variable {α κ : Type} (lt : κ → κ → Bool) (key : α → κ)

/-- Insert an element into a list that has the largest element first. -/
def insert (x : α) : List α → List α
  | [] => [x]
  | a :: l => if lt (key x) (key a) then a :: insert x l else x :: a :: l

/-- Insert the elements of a list, the first one first. -/
def insertAll (l sorted : List α) : List α :=
  l.foldl (fun sorted x => insert lt key x sorted) sorted

def sort (l : List α) : List α := (insertAll lt key l []).reverse

/-- Sorted with the largest element first, where keys may repeat. -/
def Descending (l : List α) : Prop := l.Pairwise fun a b => lt (key a) (key b) = false

variable {lt} {key} {l sorted : List α} {x : α}

/-! ## One element -/

theorem insert_perm (x : α) (l : List α) : (insert lt key x l).Perm (x :: l) := by
  induction l with
  | nil => exact List.Perm.refl _
  | cons a l ih =>
    rw [insert]
    split
    · exact (ih.cons a).trans (List.Perm.swap x a l)
    · exact List.Perm.refl _

theorem insert_descending (h : Order lt) (hl : Descending lt key l) :
    Descending lt key (insert lt key x l) := by
  induction l with
  | nil => exact List.pairwise_singleton _ _
  | cons a l ih =>
    obtain ⟨ha, hrest⟩ := List.pairwise_cons.mp hl
    rw [insert]
    split
    · rename_i hlt
      refine List.pairwise_cons.mpr ⟨fun b hb => ?_, ih hrest⟩
      rcases List.mem_cons.mp ((insert_perm x l).mem_iff.mp hb) with rfl | hb
      · exact h.asymm hlt
      · exact ha b hb
    · rename_i hge
      have hle : lt (key x) (key a) = false := Bool.eq_false_iff.mpr hge
      refine List.pairwise_cons.mpr ⟨fun b hb => ?_, hl⟩
      rcases List.mem_cons.mp hb with rfl | hb
      · exact hle
      · exact h.le_trans hle (ha b hb)

/-- The new element is put before all elements that have its key. -/
theorem insert_filter [DecidableEq κ] (h : Order lt) (k : κ) (x : α) (l : List α) :
    (insert lt key x l).filter (fun a => key a = k) = (x :: l).filter (fun a => key a = k) := by
  induction l with
  | nil => rfl
  | cons a l ih =>
    rw [insert]
    split
    · rename_i hlt
      -- not both of the two have the key
      have hne : key x ≠ key a := h.ne hlt
      by_cases hx : key x = k
      · have ha : ¬key a = k := fun ha => hne (hx.trans ha.symm)
        rw [List.filter_cons_of_neg (by simpa using ha), ih,
          List.filter_cons_of_pos (by simpa using hx),
          List.filter_cons_of_pos (by simpa using hx), List.filter_cons_of_neg (by simpa using ha)]
      · rw [List.filter_cons, ih, List.filter_cons_of_neg (by simpa using hx),
          List.filter_cons_of_neg (by simpa using hx), List.filter_cons]
    · rfl

/-! ## All elements -/

theorem insertAll_perm (l sorted : List α) : (insertAll lt key l sorted).Perm (l ++ sorted) := by
  induction l generalizing sorted with
  | nil => exact List.Perm.refl _
  | cons x l ih =>
    apply (ih (insert lt key x sorted)).trans
    exact ((insert_perm x sorted).append_left l).trans List.perm_middle

theorem insertAll_descending (h : Order lt) (hsorted : Descending lt key sorted) :
    Descending lt key (insertAll lt key l sorted) := by
  induction l generalizing sorted with
  | nil => exact hsorted
  | cons x l ih => exact ih (insert_descending h hsorted)

theorem insertAll_filter [DecidableEq κ] (h : Order lt) (k : κ) (l sorted : List α) :
    (insertAll lt key l sorted).filter (fun a => key a = k) =
      (l.reverse ++ sorted).filter (fun a => key a = k) := by
  induction l generalizing sorted with
  | nil => rfl
  | cons x l ih =>
    rw [List.reverse_cons, List.append_assoc]
    calc (insertAll lt key l (insert lt key x sorted)).filter (fun a => key a = k)
        = (l.reverse ++ insert lt key x sorted).filter (fun a => key a = k) := ih _
      _ = (l.reverse ++ x :: sorted).filter (fun a => key a = k) := by
        rw [List.filter_append, List.filter_append, insert_filter h]

theorem sort_perm (l : List α) : (sort lt key l).Perm l := by
  have hperm : (insertAll lt key l []).Perm (l ++ []) := insertAll_perm l []
  rw [List.append_nil] at hperm
  exact (List.reverse_perm _).trans hperm

theorem sort_sorted (h : Order lt) (l : List α) : Sorted lt key (sort lt key l) := by
  rw [Sorted, sort, List.pairwise_reverse]
  exact insertAll_descending h List.Pairwise.nil

theorem sort_stable [DecidableEq κ] (h : Order lt) (k : κ) (l : List α) :
    (sort lt key l).filter (fun a => key a = k) = l.filter (fun a => key a = k) := by
  rw [sort, List.filter_reverse, insertAll_filter h, List.append_nil, ← List.filter_reverse,
    List.reverse_reverse]

end Insertion
