import Mathlib.Data.Fintype.Pigeonhole
import Mathlib.Data.Option.Basic

/-!
# Walks along a partial successor

A walk starts at a node and follows a partial function `next`, until it comes to a node
without successor. Over a finite type there are two kinds of walks: those that end, and
those that come to a node for the second time and go round from there (`ends_iff`). A loop
with a bound on its rounds that goes along a walk has an outcome once the walk has ended
(`GoesAlong.ends_iff`), that of a round at the last node.
-/

namespace Orbit

variable {α : Type} {next : α → Option α} {a x : α} {m n : Nat}

/-- The node after `n` steps, if the walk has not ended before. -/
def nth (next : α → Option α) (a : α) : Nat → Option α
  | 0 => some a
  | n + 1 => (nth next a n).bind next

theorem nth_add (m n : Nat) : nth next a (m + n) = (nth next a m).bind fun x => nth next x n := by
  induction n with
  | zero => cases nth next a m <;> simp [nth]
  | succ n ih =>
    show (nth next a (m + n)).bind next = _
    rw [ih, Option.bind_assoc]
    rfl

theorem nth_succ (n : Nat) : nth next a (n + 1) = (next a).bind fun x => nth next x n := by
  rw [Nat.add_comm, nth_add]
  rfl

theorem nth_succ_of_some (hnext : next a = some x) (n : Nat) :
    nth next a (n + 1) = nth next x n := by
  rw [nth_succ, hnext]
  rfl

theorem nth_succ_of_none (hnext : next a = none) (n : Nat) : nth next a (n + 1) = none := by
  rw [nth_succ, hnext]
  rfl

theorem nth_none_of_le (hn : nth next a n = none) (hle : n ≤ m) : nth next a m = none := by
  obtain ⟨k, rfl⟩ := Nat.exists_eq_add_of_le hle
  rw [nth_add, hn]
  rfl

/-! ## Nodes without successor -/

/-- A walk has at most one node without successor. -/
theorem stop_unique {y : α} (hm : nth next a m = some x) (hx : next x = none)
    (hn : nth next a n = some y) (hy : next y = none) : x = y := by
  have hstop {m n : Nat} {x y : α} (hm : nth next a m = some x) (hx : next x = none)
      (hn : nth next a n = some y) : n ≤ m := by
    by_contra hlt
    have hnone : nth next a (m + 1) = none := by
      show (nth next a m).bind next = none
      rw [hm]
      exact hx
    rw [nth_none_of_le hnone (by omega)] at hn
    cases hn
  obtain rfl := Nat.le_antisymm (hstop hm hx hn) (hstop hn hy hm)
  exact Option.some.inj (hm.symm.trans hn)

/-- The walk comes to a node without successor. -/
def Ends (next : α → Option α) (a : α) : Prop := ∃ n, nth next a n = none

/-- The walk comes to some node twice. -/
def Repeats (next : α → Option α) (a : α) : Prop :=
  ∃ i j x, i < j ∧ nth next a i = some x ∧ nth next a j = some x

/-- From a node that comes back after `d` steps, it comes back again and again. -/
theorem nth_mul {d : Nat} (hd : nth next x d = some x) (k : Nat) : nth next x (k * d) = some x := by
  induction k with
  | zero => rw [Nat.zero_mul]; rfl
  | succ k ih =>
    rw [Nat.succ_mul, nth_add, ih]
    exact hd

theorem Repeats.not_ends (hrep : Repeats next a) : ¬Ends next a := by
  rintro ⟨n, hn⟩
  obtain ⟨i, j, x, hij, hi, hj⟩ := hrep
  have hcycle : nth next x (j - i) = some x := by
    have hsplit : nth next a (i + (j - i)) = (nth next a i).bind fun x => nth next x (j - i) :=
      nth_add i (j - i)
    rw [Nat.add_sub_cancel' hij.le, hi, hj] at hsplit
    exact hsplit.symm
  have hlong : nth next a (i + n * (j - i)) = some x := by
    rw [nth_add, hi]
    exact nth_mul hcycle n
  have hle : n ≤ i + n * (j - i) := by
    have hpos : 0 < j - i := Nat.sub_pos_of_lt hij
    have := Nat.le_mul_of_pos_right n hpos
    omega
  rw [nth_none_of_le hn hle] at hlong
  cases hlong

/-- A walk that ends moves at every step. -/
theorem Ends.next_ne (hends : Ends next a) (hn : nth next a n = some x) : next x ≠ some x := by
  intro hx
  refine Repeats.not_ends ⟨n, n + 1, x, n.lt_succ_self, hn, ?_⟩ hends
  show (nth next a n).bind next = some x
  rw [hn]
  exact hx

/-- A walk ends when every step increases a measure that is bounded at the nodes it leaves. -/
theorem ends_of_increasing (measure : α → Nat) (limit : Nat)
    (hstep : ∀ n x y, nth next a n = some x → next x = some y →
      measure x < limit ∧ measure x < measure y) : Ends next a := by
  have hgrows : ∀ n x, nth next a n = some x → n ≤ measure x := by
    intro n
    induction n with
    | zero => exact fun x _ => Nat.zero_le (measure x)
    | succ n ih =>
      intro y hy
      obtain ⟨x, hx, hxy⟩ := Option.bind_eq_some_iff.mp hy
      have hle := ih x hx
      have hlt := (hstep n x y hx hxy).2
      omega
  refine ⟨limit + 1, Option.eq_none_iff_forall_ne_some.mpr fun y hy => ?_⟩
  obtain ⟨x, hx, hxy⟩ := Option.bind_eq_some_iff.mp hy
  have hle := hgrows limit x hx
  have hlt := (hstep limit x y hx hxy).1
  omega

/-- Over a finite type a walk ends unless it comes to some node twice. -/
theorem ends_iff [Finite α] : Ends next a ↔ ¬Repeats next a := by
  constructor
  · intro hends hrep
    exact hrep.not_ends hends
  · intro hrep
    by_contra hends
    have hsome : ∀ n, ∃ x, nth next a n = some x := by
      intro n
      exact Option.ne_none_iff_exists'.mp fun hn => hends ⟨n, hn⟩
    choose node hnode using hsome
    obtain ⟨i, j, hne, heq⟩ := Finite.exists_ne_map_eq_of_infinite node
    rcases Nat.lt_or_gt_of_ne hne with hlt | hlt
    · exact hrep ⟨i, j, node i, hlt, hnode i, heq ▸ hnode j⟩
    · exact hrep ⟨j, i, node j, hlt, hnode j, heq ▸ hnode i⟩

/-! ## Loops -/

section Loops

variable {σ β ε : Type}

/-- A loop with a bound on its rounds goes along the walk: from a state at a node with a
successor a round goes on to a state there, and at the last node a round ends it. -/
structure GoesAlong (next : α → Option α) (node : σ → α) (loop : Nat → σ → Except ε β) :
    Prop where
  late : ∀ s r, loop 0 s ≠ .ok r
  stop : ∀ s, next (node s) = none → ∃ r, ∀ n, loop (n + 1) s = .ok r
  step : ∀ n s x, next (node s) = some x → ∃ s', node s' = x ∧ loop (n + 1) s = loop n s'

variable {node : σ → α} {loop : Nat → σ → Except ε β} {s : σ} {r : β}

/-- The loop has an outcome after `n` rounds exactly if the walk has ended by then. -/
theorem GoesAlong.ends_iff (hloop : GoesAlong next node loop) (n : Nat) (s : σ) :
    (∃ r, loop n s = .ok r) ↔ nth next (node s) n = none := by
  induction n generalizing s with
  | zero =>
    constructor
    · rintro ⟨r, hr⟩
      exact absurd hr (hloop.late s r)
    · intro hnone
      cases hnone
  | succ n ih =>
    rw [nth_succ]
    cases hnext : next (node s) with
    | none =>
      obtain ⟨r, hr⟩ := hloop.stop s hnext
      exact iff_of_true ⟨r, hr n⟩ rfl
    | some x =>
      obtain ⟨s', rfl, hrun⟩ := hloop.step n s x hnext
      rw [hrun]
      exact ih s'

/-- The outcome is that of a round at the last node. -/
theorem GoesAlong.last_round (hloop : GoesAlong next node loop) (hr : loop n s = .ok r) :
    ∃ k s', nth next (node s) k = some (node s') ∧ next (node s') = none ∧ loop 1 s' = .ok r := by
  induction n generalizing s with
  | zero => exact absurd hr (hloop.late s r)
  | succ n ih =>
    cases hnext : next (node s) with
    | none =>
      obtain ⟨r', hr'⟩ := hloop.stop s hnext
      exact ⟨0, s, rfl, hnext, (hr' 0).trans ((hr' n).symm.trans hr)⟩
    | some x =>
      obtain ⟨s', rfl, hrun⟩ := hloop.step n s x hnext
      obtain ⟨k, t, hk, hstop, hlast⟩ := ih (hrun ▸ hr)
      exact ⟨k + 1, t, (nth_succ_of_some hnext k).trans hk, hstop, hlast⟩

end Loops

end Orbit
