import XenAccess.Disk.Directory

/-!
# Sorting a table in place

Round `i` of `sort_dir` finds the first `i` slots sorted and the others as they were at first. The
inner loop moves entries up until the place of the new one is free, so after it the first
`i + 1` slots hold what an insertion into the sorted list gives, and in the end the table holds
`sortDir` of its entries.
-/

namespace XenAccess.Disk

variable {aux : DirEntry} {s s' : SortState} {table : DirSlots} {i n : Nat}

/-- The first `n` slots. -/
def slots (table : DirSlots) (n : Nat) : List DirEntry := (List.range n).map table

theorem slots_succ (table : DirSlots) (n : Nat) :
    slots table (n + 1) = slots table n ++ [table n] := by
  rw [slots, List.range_succ, List.map_append]
  rfl

theorem slots_congr {table' : DirSlots} (hsame : ∀ i < n, table' i = table i) :
    slots table' n = slots table n :=
  List.map_congr_left fun i hi => hsame i (List.mem_range.mp hi)

/-! ## The inner loop -/

/-- An entry is inserted into the first `i` slots, with the slot `i` for the room. -/
structure Inserts (aux : DirEntry) (i : Nat) (s s' : SortState) : Prop where
  slots : slots s'.table (i + 1) = (shiftUp aux (slots s.table i).reverse).reverse
  above : ∀ k, i < k → s'.table k = s.table k
  used : ∀ k ∈ s'.used, k ≤ i ∨ k ∈ s.used

/-- The entry is put into the free slot. -/
theorem writeSlot_inserts (hplace : shiftUp aux (slots s.table i).reverse =
    aux :: (slots s.table i).reverse) : Inserts aux i s (writeSlot i aux s).2 where
  slots := by
    have hbelow : slots (Function.update s.table i aux) i = slots s.table i :=
      slots_congr fun k hk => Function.update_of_ne hk.ne _ _
    show slots (Function.update s.table i aux) (i + 1) = _
    rw [slots_succ, hbelow, Function.update_self, hplace, List.reverse_cons, List.reverse_reverse]
  above k hk := Function.update_of_ne hk.ne' _ _
  used k hk := by
    rcases List.mem_cons.mp hk with rfl | hk
    · exact Or.inl le_rfl
    · exact Or.inr hk

theorem reverse_slots_succ (table : DirSlots) (i : Nat) :
    (slots table (i + 1)).reverse = table i :: (slots table i).reverse := by
  rw [slots_succ, List.reverse_append]
  rfl

/-- A round of the inner loop: the entry below the free slot is moved up into it. -/
theorem Inserts.shift {j : Nat} (hlt : strcmpLt aux.pathElem (s.table j).pathElem = true)
    (hrest : Inserts aux j
      { table := Function.update s.table (j + 1) (s.table j), used := (j + 1) :: j :: j :: s.used }
      s') :
    Inserts aux (j + 1) s s' where
  slots := by
    have hbelow : Disk.slots (Function.update s.table (j + 1) (s.table j)) j =
        Disk.slots s.table j :=
      slots_congr fun k hk => Function.update_of_ne (by omega) _ _
    have hmoved : s'.table (j + 1) = s.table j := by
      rw [hrest.above (j + 1) (Nat.lt_succ_self j)]
      exact Function.update_self _ _ _
    rw [slots_succ, hrest.slots, hbelow, hmoved, reverse_slots_succ, shiftUp, if_pos hlt,
      List.reverse_cons]
  above k hk := by
    rw [hrest.above k (by omega)]
    exact Function.update_of_ne (by omega) _ _
  used k hk := by
    rcases hrest.used k hk with hle | hmem
    · exact Or.inl (by omega)
    · rcases List.mem_cons.mp hmem with rfl | hmem
      · exact Or.inl le_rfl
      · simp only [List.mem_cons] at hmem
        rcases hmem with rfl | rfl | hmem
        · exact Or.inl (Nat.le_succ _)
        · exact Or.inl (Nat.le_succ _)
        · exact Or.inr hmem

theorem shiftLoop_inserts (aux : DirEntry) (i : Nat) (s : SortState) :
    Inserts aux i s (shiftLoop aux i s).2 := by
  induction i generalizing s with
  | zero => exact writeSlot_inserts rfl
  | succ j ih =>
    by_cases hlt : strcmpLt aux.pathElem (s.table j).pathElem = true
    · have hrun : shiftLoop aux (j + 1) s = shiftLoop aux j
          { table := Function.update s.table (j + 1) (s.table j),
            used := (j + 1) :: j :: j :: s.used } := by
        show (if strcmpLt aux.pathElem (s.table j).pathElem then _ else _ :
          StateM SortState Unit) _ = _
        rw [if_pos hlt]
        rfl
      rw [hrun]
      exact (ih _).shift hlt
    · have hrun : shiftLoop aux (j + 1) s =
          writeSlot (j + 1) aux { s with used := j :: s.used } := by
        show (if strcmpLt aux.pathElem (s.table j).pathElem then _ else _ :
          StateM SortState Unit) _ = _
        rw [if_neg hlt]
      have hplace : shiftUp aux (slots s.table (j + 1)).reverse =
          aux :: (slots s.table (j + 1)).reverse := by
        rw [reverse_slots_succ, shiftUp, if_neg hlt]
      have hput := writeSlot_inserts (s := { s with used := j :: s.used }) hplace
      rw [hrun]
      refine ⟨hput.slots, hput.above, fun k hk => ?_⟩
      rcases hput.used k hk with hle | hmem
      · exact Or.inl hle
      · rcases List.mem_cons.mp hmem with rfl | hmem
        · exact Or.inl (Nat.le_succ _)
        · exact Or.inr hmem

/-! ## The outer loop -/

/-- The first `i` slots are sorted, and no other slot has been used. -/
structure SortedBelow (before : DirSlots) (i : Nat) (s : SortState) : Prop where
  slots : slots s.table i = sortDir (slots before i)
  above : ∀ k, i ≤ k → s.table k = before k
  used : ∀ k ∈ s.used, k < i

theorem sortDir_concat (l : List DirEntry) (e : DirEntry) :
    sortDir (l ++ [e]) = (shiftUp e (sortDir l).reverse).reverse := by
  rw [sortDir, sortDir, List.foldl_append, List.reverse_reverse]
  rfl

variable {before : DirSlots}

/-- A round of the outer loop. -/
theorem SortedBelow.step (hs : SortedBelow before i s)
    (hinserts : Inserts (s.table i) i { s with used := i :: s.used } s') :
    SortedBelow before (i + 1) s' where
  slots := by
    rw [hinserts.slots, hs.slots, hs.above i le_rfl, slots_succ, sortDir_concat]
  above k hk := by
    rw [hinserts.above k (by omega)]
    exact hs.above k (by omega)
  used k hk := by
    rcases hinserts.used k hk with hle | hmem
    · omega
    · rcases List.mem_cons.mp hmem with rfl | hmem
      · exact Nat.lt_succ_self _
      · exact Nat.lt_succ_of_lt (hs.used k hmem)

theorem sortLoop_sorts (rounds : Nat) (hs : SortedBelow before i s) :
    SortedBelow before (i + rounds) (sortLoop rounds i s).2 := by
  induction rounds generalizing i s with
  | zero => exact hs
  | succ rounds ih =>
    have hround := hs.step (shiftLoop_inserts (s.table i) i _)
    have hrest := ih hround
    rw [Nat.add_right_comm] at hrest
    exact hrest

/-- The array holds the sorted entries. -/
theorem sortTable_sorts (n : Nat) (before : DirSlots) :
    SortedBelow before n (sortTable n before) := by
  cases n with
  | zero => exact ⟨rfl, fun _ _ => rfl, fun k hk => by cases hk⟩
  | succ n =>
    have hfirst : SortedBelow before 1 { table := before, used := [] } :=
      ⟨rfl, fun _ _ => rfl, fun k hk => by cases hk⟩
    have hsorts := sortLoop_sorts n hfirst
    rw [Nat.add_comm] at hsorts
    exact hsorts

/-! ## The result -/

/-- What `sort_dir` is to do with a table of size `n`. -/
structure SortsStably (n : Nat) (before after : DirSlots) (used : List Nat) : Prop where
  /-- whole entries are moved -/
  perm : (slots after n).Perm (slots before n)
  sorted : (slots after n).Pairwise fun e f => strcmpLt f.pathElem e.pathElem = false
  stable : ∀ name, (slots after n).filter (·.pathElem = name) =
    (slots before n).filter (·.pathElem = name)
  untouched : ∀ i, n ≤ i → after i = before i
  inside : ∀ i ∈ used, i < n

/-- **`sort_dir` is a stable sort** that stays inside of its table. -/
theorem sortTable_sortsStably (n : Nat) (table : DirSlots) :
    SortsStably n table (sortTable n table).table (sortTable n table).used := by
  have hsorts := sortTable_sorts n table
  refine ⟨?_, ?_, ?_, hsorts.above, hsorts.used⟩
  · rw [hsorts.slots]
    exact sortDir_perm _
  · rw [hsorts.slots]
    exact sortDir_sortedLe _
  · intro name
    rw [hsorts.slots]
    exact sortDir_stable name _

end XenAccess.Disk
