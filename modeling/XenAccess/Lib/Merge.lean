import Mathlib.Data.Multiset.AddSub

/-!
# Differences of sorted lists

Two lists that are sorted by a key are compared by a walk along both at once: the smaller of
the two heads is in its list only, and heads with equal keys are passed over together.

With keys that may repeat, the walk counts: a key is left over as often as one list has it more
often than the other (`lefts_keys`, `rights_keys`, `length_diff`). With distinct keys it gives
the elements whose keys are in one list only (`inl_mem_diff`, `inr_mem_diff`), in the order of
the keys (`diff_pairwise`).
-/

namespace Merge

variable {α κ : Type}

/-- A strict linear order, as a test. -/
structure Order (lt : κ → κ → Bool) : Prop where
  irrefl : ∀ a, lt a a = false
  trans : ∀ a b c, lt a b = true → lt b c = true → lt a c = true
  connex : ∀ a b, lt a b = false → lt b a = false → a = b

theorem Order.asymm {lt : κ → κ → Bool} (h : Order lt) {a b : κ} (hab : lt a b = true) :
    lt b a = false := by
  rw [Bool.eq_false_iff]
  intro hba
  have haa := h.trans a b a hab hba
  rw [h.irrefl] at haa
  cases haa

theorem Order.ne {lt : κ → κ → Bool} (h : Order lt) {a b : κ} (hab : lt a b = true) : a ≠ b := by
  rintro rfl
  rw [h.irrefl] at hab
  cases hab

/-- Being not less is transitive. -/
theorem Order.le_trans {lt : κ → κ → Bool} (h : Order lt) {a b c : κ} (hab : lt a b = false)
    (hbc : lt b c = false) : lt a c = false := by
  rw [Bool.eq_false_iff]
  intro hac
  cases hcb : lt c b with
  | true => rw [h.trans a c b hac hcb] at hab; cases hab
  | false =>
    rw [h.connex b c hbc hcb, hac] at hab
    cases hab

variable (lt : κ → κ → Bool) (key : α → κ)

/-- What is in one of the lists only, on the left or on the right. -/
def diff : List α → List α → List (α ⊕ α)
  | [], [] => []
  | x :: l, [] => .inl x :: diff l []
  | [], y :: r => .inr y :: diff [] r
  | x :: l, y :: r =>
    if lt (key x) (key y) then .inl x :: diff l (y :: r)
    else if lt (key y) (key x) then .inr y :: diff (x :: l) r
    else diff l r
termination_by l r => l.length + r.length

/-- Sorted, where keys may repeat. -/
def Sorted (l : List α) : Prop := l.Pairwise fun a b => lt (key b) (key a) = false

/-- Sorted by distinct keys. -/
def Strict (l : List α) : Prop := l.Pairwise fun a b => lt (key a) (key b) = true

/-- The keys of a list, with their multiplicities. -/
def keys (l : List α) : Multiset κ := (l.map key : List κ)

def lefts (d : List (α ⊕ α)) : List α := d.filterMap Sum.getLeft?
def rights (d : List (α ⊕ α)) : List α := d.filterMap Sum.getRight?

variable {lt} {key} {l r : List α} {x y : α} {k : κ}

theorem keys_cons (x : α) (l : List α) : keys key (x :: l) = key x ::ₘ keys key l := rfl

theorem mem_keys : k ∈ keys key l ↔ ∃ x ∈ l, key x = k := List.mem_map

theorem Strict.sorted (h : Order lt) (hl : Strict lt key l) : Sorted lt key l :=
  hl.imp fun hab => h.asymm hab

/-- What is below the head of a sorted list is not in it. -/
theorem notMem_keys (h : Order lt) (hl : Sorted lt key (x :: l)) (hk : lt k (key x) = true) :
    k ∉ keys key (x :: l) := by
  intro hmem
  obtain ⟨z, hz, rfl⟩ := mem_keys.mp hmem
  rcases List.mem_cons.mp hz with rfl | hz
  · exact h.ne hk rfl
  · rw [(List.pairwise_cons.mp hl).1 z hz] at hk
    cases hk

/-! ## Counting -/

variable [DecidableEq κ]

/-- Both parts of the difference, with multiplicities. -/
def Counts (key : α → κ) (l r : List α) (d : List (α ⊕ α)) : Prop :=
  keys key (lefts d) = keys key l - keys key r ∧ keys key (rights d) = keys key r - keys key l

theorem Counts.inl {d : List (α ⊕ α)} (hd : Counts key l r d) (hx : key x ∉ keys key r) :
    Counts key (x :: l) r (.inl x :: d) := by
  refine ⟨?_, ?_⟩
  · show key x ::ₘ keys key (lefts d) = _
    rw [hd.1, keys_cons]
    ext k
    rw [Multiset.count_cons, Multiset.count_sub, Multiset.count_sub, Multiset.count_cons]
    split
    · rename_i hk
      rw [hk, Multiset.count_eq_zero.mpr hx]
      omega
    · rfl
  · show keys key (rights d) = _
    rw [hd.2, keys_cons, Multiset.sub_cons, Multiset.erase_of_notMem hx]

theorem Counts.swap {d : List (α ⊕ α)} (hd : Counts key l r d) :
    Counts key r l (d.map Sum.swap) := by
  have hl : lefts (d.map Sum.swap) = rights d := by
    rw [lefts, List.filterMap_map]
    exact List.filterMap_congr fun z _ => by cases z <;> rfl
  have hr : rights (d.map Sum.swap) = lefts d := by
    rw [rights, List.filterMap_map]
    exact List.filterMap_congr fun z _ => by cases z <;> rfl
  exact ⟨hl ▸ hd.2, hr ▸ hd.1⟩

theorem Counts.inr {d : List (α ⊕ α)} (hd : Counts key l r d) (hy : key y ∉ keys key l) :
    Counts key l (y :: r) (.inr y :: d) := by
  have := (hd.swap.inl hy).swap
  rwa [List.map_cons, List.map_map, Sum.swap_swap_eq, List.map_id] at this

theorem Counts.both {d : List (α ⊕ α)} (hd : Counts key l r d) (heq : key x = key y) :
    Counts key (x :: l) (y :: r) d := by
  rw [Counts, keys_cons, keys_cons, heq, Multiset.sub_cons, Multiset.erase_cons_head,
    Multiset.sub_cons, Multiset.erase_cons_head]
  exact hd

theorem diff_counts (h : Order lt) (hl : Sorted lt key l) (hr : Sorted lt key r) :
    Counts key l r (diff lt key l r) := by
  induction l, r using diff.induct lt key with
  | case1 => rw [diff]; exact ⟨rfl, rfl⟩
  | case2 x l ih =>
    rw [diff]
    exact (ih hl.of_cons hr).inl (Multiset.notMem_zero _)
  | case3 y r ih =>
    rw [diff]
    exact (ih hl hr.of_cons).inr (Multiset.notMem_zero _)
  | case4 x l y r hlt ih =>
    rw [diff, if_pos hlt]
    exact (ih hl.of_cons hr).inl (notMem_keys h hr hlt)
  | case5 x l y r hge hlt ih =>
    rw [diff, if_neg hge, if_pos hlt]
    exact (ih hl hr.of_cons).inr (notMem_keys h hl hlt)
  | case6 x l y r hge hge' ih =>
    rw [diff, if_neg hge, if_neg hge']
    exact (ih hl.of_cons hr.of_cons).both
      (h.connex _ _ (Bool.eq_false_iff.mpr hge) (Bool.eq_false_iff.mpr hge'))

theorem length_eq_add (d : List (α ⊕ α)) : d.length = (lefts d).length + (rights d).length := by
  induction d with
  | nil => rfl
  | cons z d ih =>
    cases z with
    | inl x =>
      show d.length + 1 = ((lefts d).length + 1) + (rights d).length
      omega
    | inr y =>
      show d.length + 1 = (lefts d).length + ((rights d).length + 1)
      omega

/-- The number of differences. -/
theorem length_diff (h : Order lt) (hl : Sorted lt key l) (hr : Sorted lt key r) :
    (diff lt key l r).length =
      (keys key l - keys key r).card + (keys key r - keys key l).card := by
  obtain ⟨hlefts, hrights⟩ := diff_counts h hl hr
  rw [length_eq_add, ← hlefts, ← hrights]
  simp [keys]

/-- With distinct keys, what is left of the keys of one list are those the other has not. -/
theorem Strict.card_keys_sub (h : Order lt) (hl : Strict lt key l) :
    (keys key l - keys key r).card = l.countP fun x => key x ∉ keys key r := by
  have hnodup : (l.map key).Nodup := List.pairwise_map.mpr (hl.imp fun hlt => h.ne hlt)
  have hsub : keys key l - keys key r = ((l.map key).filter (· ∉ r.map key) : List κ) :=
    (Multiset.coe_sub _ _).trans (congrArg _ hnodup.sdiff_eq_filter)
  rw [hsub, Multiset.coe_card, ← List.countP_eq_length_filter]
  exact List.countP_map

/-! ## Distinct keys -/

omit [DecidableEq κ]

theorem mem_of_mem_diff {z : α ⊕ α} (hz : z ∈ diff lt key l r) :
    (∃ x ∈ l, z = .inl x) ∨ ∃ y ∈ r, z = .inr y := by
  induction l, r using diff.induct lt key with
  | case1 => rw [diff] at hz; cases hz
  | case2 x l ih =>
    rw [diff] at hz
    rcases List.mem_cons.mp hz with rfl | hz
    · exact Or.inl ⟨x, List.mem_cons_self, rfl⟩
    · exact (ih hz).imp_left fun ⟨a, ha, heq⟩ => ⟨a, List.mem_cons_of_mem x ha, heq⟩
  | case3 y r ih =>
    rw [diff] at hz
    rcases List.mem_cons.mp hz with rfl | hz
    · exact Or.inr ⟨y, List.mem_cons_self, rfl⟩
    · exact (ih hz).imp_right fun ⟨a, ha, heq⟩ => ⟨a, List.mem_cons_of_mem y ha, heq⟩
  | case4 x l y r hlt ih =>
    rw [diff, if_pos hlt] at hz
    rcases List.mem_cons.mp hz with rfl | hz
    · exact Or.inl ⟨x, List.mem_cons_self, rfl⟩
    · exact (ih hz).imp_left fun ⟨a, ha, heq⟩ => ⟨a, List.mem_cons_of_mem x ha, heq⟩
  | case5 x l y r hge hlt ih =>
    rw [diff, if_neg hge, if_pos hlt] at hz
    rcases List.mem_cons.mp hz with rfl | hz
    · exact Or.inr ⟨y, List.mem_cons_self, rfl⟩
    · exact (ih hz).imp_right fun ⟨a, ha, heq⟩ => ⟨a, List.mem_cons_of_mem y ha, heq⟩
  | case6 x l y r hge hge' ih =>
    rw [diff, if_neg hge, if_neg hge'] at hz
    exact (ih hz).imp (fun ⟨a, ha, heq⟩ => ⟨a, List.mem_cons_of_mem x ha, heq⟩)
      fun ⟨a, ha, heq⟩ => ⟨a, List.mem_cons_of_mem y ha, heq⟩

/-- The key of a difference. -/
def sideKey (key : α → κ) : α ⊕ α → κ := Sum.elim key key

/-- A key below both lists is below their difference. -/
theorem lt_sideKey (hl : ∀ a ∈ l, lt k (key a) = true) (hr : ∀ a ∈ r, lt k (key a) = true) :
    ∀ z ∈ diff lt key l r, lt k (sideKey key z) = true := by
  intro z hz
  rcases mem_of_mem_diff hz with ⟨a, ha, rfl⟩ | ⟨a, ha, rfl⟩
  · exact hl a ha
  · exact hr a ha

/-- What is below the head of a list is below all of it. -/
theorem Strict.lt_of_lt (h : Order lt) (hl : Strict lt key (x :: l)) (hk : lt k (key x) = true) :
    ∀ a ∈ x :: l, lt k (key a) = true := by
  intro a ha
  rcases List.mem_cons.mp ha with rfl | ha
  · exact hk
  · exact h.trans _ _ _ hk ((List.pairwise_cons.mp hl).1 a ha)

/-- The differences come in the order of their keys, each key once. -/
theorem diff_pairwise (h : Order lt) (hl : Strict lt key l) (hr : Strict lt key r) :
    (diff lt key l r).Pairwise fun z w => lt (sideKey key z) (sideKey key w) = true := by
  induction l, r using diff.induct lt key with
  | case1 => rw [diff]; exact .nil
  | case2 x l ih =>
    rw [diff]
    refine .cons ?_ (ih hl.of_cons hr)
    apply lt_sideKey (List.pairwise_cons.mp hl).1
    intro a ha
    cases ha
  | case3 y r ih =>
    rw [diff]
    refine .cons ?_ (ih hl hr.of_cons)
    refine lt_sideKey ?_ (List.pairwise_cons.mp hr).1
    intro a ha
    cases ha
  | case4 x l y r hlt ih =>
    rw [diff, if_pos hlt]
    refine .cons ?_ (ih hl.of_cons hr)
    exact lt_sideKey (List.pairwise_cons.mp hl).1 (hr.lt_of_lt h hlt)
  | case5 x l y r hge hlt ih =>
    rw [diff, if_neg hge, if_pos hlt]
    refine .cons ?_ (ih hl hr.of_cons)
    exact lt_sideKey (hl.lt_of_lt h hlt) (List.pairwise_cons.mp hr).1
  | case6 x l y r hge hge' ih =>
    rw [diff, if_neg hge, if_neg hge']
    exact ih hl.of_cons hr.of_cons

theorem Strict.notMem_tail (h : Order lt) (hl : Strict lt key (x :: l)) :
    key x ∉ keys key l := by
  intro hmem
  obtain ⟨a, ha, heq⟩ := mem_keys.mp hmem
  exact h.ne ((List.pairwise_cons.mp hl).1 a ha) heq.symm

/-- The elements of the left list whose keys the right one does not have. -/
theorem inl_mem_diff (h : Order lt) (hl : Strict lt key l) (hr : Strict lt key r) {a : α} :
    .inl a ∈ diff lt key l r ↔ a ∈ l ∧ key a ∉ keys key r := by
  induction l, r using diff.induct lt key with
  | case1 => simp [diff]
  | case2 x l ih =>
    rw [diff, List.mem_cons, List.mem_cons, ih hl.of_cons hr, Sum.inl.injEq]
    simp [keys]
  | case3 y r ih =>
    rw [diff, List.mem_cons, ih hl hr.of_cons]
    simp
  | case4 x l y r hlt ih =>
    rw [diff, if_pos hlt, List.mem_cons, List.mem_cons, ih hl.of_cons hr, Sum.inl.injEq, or_and_right]
    refine or_congr_left (iff_self_and.mpr ?_)
    rintro rfl
    exact notMem_keys h (hr.sorted h) hlt
  | case5 x l y r hge hlt ih =>
    rw [diff, if_neg hge, if_pos hlt, List.mem_cons, ih hl hr.of_cons, keys_cons, Multiset.mem_cons,
      not_or]
    have hne (ha : a ∈ x :: l) : key a ≠ key y := (h.ne (hl.lt_of_lt h hlt a ha)).symm
    constructor
    · rintro (heq | ⟨ha, hkey⟩)
      · cases heq
      · exact ⟨ha, hne ha, hkey⟩
    · rintro ⟨ha, -, hkey⟩
      exact Or.inr ⟨ha, hkey⟩
  | case6 x l y r hge hge' ih =>
    have heq : key x = key y :=
      h.connex _ _ (Bool.eq_false_iff.mpr hge) (Bool.eq_false_iff.mpr hge')
    rw [diff, if_neg hge, if_neg hge', ih hl.of_cons hr.of_cons, keys_cons, Multiset.mem_cons, not_or,
      List.mem_cons]
    constructor
    · rintro ⟨ha, hkey⟩
      refine ⟨Or.inr ha, ?_, hkey⟩
      intro hkey'
      exact hl.notMem_tail h (mem_keys.mpr ⟨a, ha, hkey'.trans heq.symm⟩)
    · rintro ⟨rfl | ha, hkey, hkey'⟩
      · exact absurd heq hkey
      · exact ⟨ha, hkey'⟩

/-- The difference seen from the other side. -/
theorem diff_swap (h : Order lt) (l r : List α) :
    (diff lt key l r).map Sum.swap = diff lt key r l := by
  induction l, r using diff.induct lt key with
  | case1 => simp [diff]
  | case2 x l ih => rw [diff, List.map_cons, ih, diff]; rfl
  | case3 y r ih => rw [diff, diff, List.map_cons, ih]; rfl
  | case4 x l y r hlt ih =>
    rw [diff, if_pos hlt, List.map_cons, ih, diff, if_neg (by rw [h.asymm hlt]; decide), if_pos hlt]
    rfl
  | case5 x l y r hge hlt ih =>
    rw [diff, if_neg hge, if_pos hlt, List.map_cons, ih, diff, if_pos hlt]
    rfl
  | case6 x l y r hge hge' ih =>
    rw [diff, if_neg hge, if_neg hge', ih, diff, if_neg hge', if_neg hge]

/-- The elements of the right list whose keys the left one does not have. -/
theorem inr_mem_diff (h : Order lt) (hl : Strict lt key l) (hr : Strict lt key r) {a : α} :
    .inr a ∈ diff lt key l r ↔ a ∈ r ∧ key a ∉ keys key l := by
  rw [← inl_mem_diff h hr hl, ← diff_swap h l r, List.mem_map]
  constructor
  · intro ha
    exact ⟨_, ha, rfl⟩
  · rintro ⟨z, hz, heq⟩
    cases z with
    | inl b => cases heq
    | inr b => cases heq; exact hz

end Merge
