import Mathlib.Data.List.Basic
import Mathlib.Data.Nat.ModEq

/-!
# Windows of a sequence

The values of a sequence from an index on, as a list, and windows that are put together from
blocks: blocks that follow each other give the window over all of them, and one block again and
again gives a window of a periodic sequence. `blocks_length` is the count behind reading a
window by its first block, full blocks and what is left over.
-/

namespace Window

variable {α : Type} {f g : Nat → α} {a b m n : Nat}

/-- The values of `f` at `a`, `a + 1`, … -/
def window (f : Nat → α) (a n : Nat) : List α := (List.range n).map fun i => f (a + i)

@[simp] theorem length_window (f : Nat → α) (a n : Nat) : (window f a n).length = n := by
  rw [window, List.length_map, List.length_range]

@[simp] theorem window_zero (f : Nat → α) (a : Nat) : window f a 0 = [] := rfl

theorem window_eq_iff : window f a n = window g b n ↔ ∀ i < n, f (a + i) = g (b + i) := by
  rw [window, window, List.map_inj_left]
  simp only [List.mem_range]

/-- Windows of different lengths differ. -/
theorem window_eq_window_iff :
    window f a m = window g b n ↔ m = n ∧ ∀ i < n, f (a + i) = g (b + i) := by
  constructor
  · intro heq
    obtain rfl : m = n := by simpa using congrArg List.length heq
    exact ⟨rfl, window_eq_iff.mp heq⟩
  · rintro ⟨rfl, heq⟩
    exact window_eq_iff.mpr heq

theorem replicate_eq_window {x : α} (hx : ∀ i < n, f (a + i) = x) :
    List.replicate n x = window f a n := by
  symm
  rw [List.eq_replicate_iff]
  refine ⟨length_window f a n, fun y hy => ?_⟩
  obtain ⟨i, hi, rfl⟩ := List.mem_map.mp hy
  exact hx i (List.mem_range.mp hi)

theorem window_add (f : Nat → α) (a m n : Nat) :
    window f a (m + n) = window f a m ++ window f (a + m) n := by
  rw [window, List.range_add, List.map_append, List.map_map]
  congr 1
  apply List.map_congr_left
  intro i _
  exact congrArg f (Nat.add_assoc a m i).symm

theorem take_window (f : Nat → α) (a m n : Nat) :
    (window f a n).take m = window f a (min m n) := by
  rw [window, ← List.map_take, List.take_range]
  rfl

/-- Blocks that follow each other. -/
theorem flatMap_window (f : Nat → α) (a b n : Nat) :
    ((List.range n).flatMap fun k => window f (a + b * k) b) = window f a (b * n) := by
  induction n with
  | zero => rfl
  | succ n ih =>
    rw [List.range_succ, List.flatMap_append, ih, List.flatMap_singleton, Nat.mul_succ, window_add]

/-- One block again and again. -/
theorem flatMap_const (f : Nat → α) (a c n : Nat) :
    ((List.range n).flatMap fun _ => window f a c) =
      window (fun i => f (a + i % c)) 0 (c * n) := by
  rw [← flatMap_window]
  congr 1
  funext k
  rw [window_eq_iff]
  intro i hi
  rw [Nat.zero_add, Nat.mul_add_mod, Nat.mod_eq_of_lt hi]

/-- The first block ends at a multiple of the block size, full blocks follow, and a part of
one. -/
theorem blocks_length (hb : 0 < b) (hn : b - a % b ≤ n) :
    b - a % b + b * ((n + a % b) / b - 1) + (n + a) % b = n := by
  have hlt : a % b < b := Nat.mod_lt a hb
  have hmod : (n + a) % b = (n + a % b) % b := (Nat.add_mod_mod n a b).symm
  have hdiv := Nat.div_add_mod (n + a % b) b
  have hone : 1 ≤ (n + a % b) / b := (Nat.one_le_div_iff hb).mpr (by omega)
  rw [hmod, Nat.mul_sub, Nat.mul_one]
  have hle : b ≤ b * ((n + a % b) / b) := Nat.le_mul_of_pos_right b hone
  omega

end Window
