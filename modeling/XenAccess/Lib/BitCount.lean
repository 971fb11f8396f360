import Mathlib.Data.Nat.Bitwise
import Mathlib.Tactic.Ring

/-!
# Counting bits by octal digits

The number of bits that are set in a word, counted in all octal digits at once: taking the
halves and the quarters of the digits away from them leaves the count of each digit
(`sub_halves`), neighbouring digits are added to digits of base 64 (`pairs_eq`), and the sum of
these is the remainder modulo 63 (`octalCount_eq`).
-/

namespace BitCount

/-- The number of bits below the bit `n` that are set. -/
def ones (n x : Nat) : Nat := (List.range n).countP fun i => x.testBit i

/-- The number with `k` times the digit `d` in a base. -/
def rep (base d : Nat) : Nat → Nat
  | 0 => 0
  | k + 1 => base * rep base d k + d

/-- The number of bits in the lowest octal digit. -/
def digit (x : Nat) : Nat := x % 2 + x / 2 % 2 + x / 4 % 2

/-- The number whose octal digits are the counts of the first `k` octal digits. -/
def counts : Nat → Nat → Nat
  | 0, _ => 0
  | k + 1, x => 8 * counts k (x / 8) + digit x

/-- The same with two octal digits in each digit of base 64. -/
def pairs : Nat → Nat → Nat
  | 0, _ => 0
  | k + 1, x => 64 * pairs k (x / 64) + (digit x + digit (x / 8))

variable {k n m x : Nat}

/-! ## Bits -/

theorem ones_succ (n x : Nat) : ones (n + 1) x = x % 2 + ones n (x / 2) := by
  have hrest : (fun i => x.testBit i) ∘ Nat.succ = fun i => (x / 2).testBit i :=
    funext fun i => Nat.testBit_succ x i
  rw [ones, List.range_succ_eq_map, List.countP_cons, List.countP_map, hrest, Nat.add_comm]
  congr 1
  rw [Nat.testBit_zero]
  rcases Nat.mod_two_eq_zero_or_one x with h | h
  · rw [h]
    rfl
  · rw [h]
    rfl

theorem ones_le (n x : Nat) : ones n x ≤ n := by
  have hle := List.countP_le_length (p := fun i => x.testBit i) (l := List.range n)
  rwa [List.length_range] at hle

theorem digit_le (x : Nat) : digit x ≤ 3 := by
  unfold digit
  omega

/-- Three bits are those of the lowest octal digit. -/
theorem ones_add_three (n x : Nat) : ones (n + 3) x = digit x + ones n (x / 8) := by
  have hfour : x / 2 / 2 = x / 4 := Nat.div_div_eq_div_mul x 2 2
  have height : x / 4 / 2 = x / 8 := Nat.div_div_eq_div_mul x 4 2
  rw [ones_succ, ones_succ, ones_succ, hfour, height, digit]
  omega

/-- A mask is applied digit by digit. -/
theorem and_digits (x a b t : Nat) (hb : b < 2 ^ t) :
    x &&& (2 ^ t * a + b) = 2 ^ t * (x / 2 ^ t &&& a) + (x % 2 ^ t &&& b) := by
  have hlow : (2 ^ t * a + b) % 2 ^ t = b := by
    rw [Nat.mul_add_mod, Nat.mod_eq_of_lt hb]
  have hhigh : (2 ^ t * a + b) / 2 ^ t = a := by
    rw [Nat.mul_add_div (Nat.two_pow_pos t), Nat.div_eq_of_lt hb, Nat.add_zero]
  rw [← Nat.div_add_mod (x &&& (2 ^ t * a + b)) (2 ^ t), Nat.and_div_two_pow, Nat.and_mod_two_pow,
    hhigh, hlow]

/-! ## Octal digits -/

/-- An octal digit is the count of its bits with its half and its quarter. -/
theorem sub_halves (hx : x < 8 ^ k) :
    x = counts k x + (x / 2 &&& rep 8 3 k) + (x / 4 &&& rep 8 1 k) := by
  induction k generalizing x with
  | zero =>
    have hzero : x = 0 := Nat.lt_one_iff.mp hx
    subst hzero
    rfl
  | succ k ih =>
    have hrest : x / 8 < 8 ^ k := by
      rw [pow_succ] at hx
      omega
    have htwo : x / 2 &&& rep 8 3 (k + 1) = 8 * (x / 8 / 2 &&& rep 8 3 k) + x / 2 % 4 := by
      have hlow : x / 2 % 2 ^ 3 &&& 3 = x / 2 % 2 ^ 3 % 2 ^ 2 := Nat.and_two_pow_sub_one_eq_mod _ 2
      have hhigh : x / 2 / 2 ^ 3 = x / 8 / 2 := by omega
      have hand := and_digits (x / 2) (rep 8 3 k) 3 3 (by decide)
      rw [hlow, hhigh] at hand
      apply hand.trans
      omega
    have hfour : x / 4 &&& rep 8 1 (k + 1) = 8 * (x / 8 / 4 &&& rep 8 1 k) + x / 4 % 2 := by
      have hlow : x / 4 % 2 ^ 3 &&& 1 = x / 4 % 2 ^ 3 % 2 ^ 1 := Nat.and_two_pow_sub_one_eq_mod _ 1
      have hhigh : x / 4 / 2 ^ 3 = x / 8 / 4 := by omega
      have hand := and_digits (x / 4) (rep 8 1 k) 1 3 (by decide)
      rw [hlow, hhigh] at hand
      apply hand.trans
      omega
    have hdigits := ih hrest
    rw [htwo, hfour, counts, digit]
    omega

theorem counts_mod_le (k x : Nat) : counts k x % 8 ≤ 3 := by
  cases k with
  | zero => exact Nat.zero_le 3
  | succ k =>
    have hdigit := digit_le x
    rw [counts]
    omega

/-- In a word with two bits in its digit `k` the counts leave room above. -/
theorem counts_le (hx : x < 4 * 8 ^ k) : 7 * counts (k + 2) x + 3 ≤ 17 * 8 ^ k := by
  induction k generalizing x with
  | zero =>
    have hhigh : counts 1 (x / 8) = 0 := by
      rw [Nat.div_eq_of_lt (by omega)]
      rfl
    rw [counts, hhigh, digit]
    omega
  | succ k ih =>
    have hrest : x / 8 < 4 * 8 ^ k := by
      rw [pow_succ] at hx
      omega
    have hdigit := digit_le x
    have hcounts := ih hrest
    rw [counts, pow_succ]
    omega

/-! ## Pairs of octal digits -/

/-- Neighbouring counts are added without a carry. -/
theorem pairs_eq (k x : Nat) :
    counts (2 * k) x + counts (2 * k) x / 8 &&& rep 64 7 k = pairs k x := by
  induction k generalizing x with
  | zero => exact Nat.and_zero _
  | succ k ih =>
    have hcounts : counts (2 * (k + 1)) x =
        8 * (8 * counts (2 * k) (x / 64) + digit (x / 8)) + digit x := by
      rw [Nat.mul_succ, counts, counts, Nat.div_div_eq_div_mul]
    have hlow := digit_le x
    have hhigh := digit_le (x / 8)
    have hmod := counts_mod_le (2 * k) (x / 64)
    have hrest := ih (x / 64)
    generalize counts (2 * k) (x / 64) = c at hcounts hmod hrest
    generalize hy : counts (2 * (k + 1)) x + counts (2 * (k + 1)) x / 8 = y
    have hdiv : y / 2 ^ 6 = c + c / 8 := by omega
    have hseven : y % 2 ^ 6 &&& 7 = digit x + digit (x / 8) := by
      have hand : y % 2 ^ 6 &&& 7 = y % 2 ^ 6 % 2 ^ 3 := Nat.and_two_pow_sub_one_eq_mod _ 3
      rw [hand]
      omega
    have hsplit := and_digits y (rep 64 7 k) 7 6 (by decide)
    rw [hdiv, hrest, hseven] at hsplit
    exact hsplit

theorem pairs_mod (k x : Nat) : pairs k x % 63 = ones (6 * k) x % 63 := by
  induction k generalizing x with
  | zero => rfl
  | succ k ih =>
    have hones : ones (6 * (k + 1)) x = digit x + (digit (x / 8) + ones (6 * k) (x / 64)) := by
      rw [Nat.mul_succ, ones_add_three, ones_add_three, Nat.div_div_eq_div_mul]
    have hrest := ih (x / 64)
    rw [pairs, hones]
    omega

/-! ## Words -/

/-- Bits of a mask above the word do not matter. -/
theorem and_mod (hx : x < 2 ^ n) (m : Nat) : x &&& m % 2 ^ n = x &&& m := by
  have hle : x &&& m ≤ x := Nat.and_le_left
  have hand : (x &&& m) % 2 ^ n = x % 2 ^ n &&& m % 2 ^ n := Nat.and_mod_two_pow
  rw [Nat.mod_eq_of_lt hx, Nat.mod_eq_of_lt (hle.trans_lt hx)] at hand
  exact hand.symm

/-- Bits above the word are not set. -/
theorem ones_of_lt (hx : x < 2 ^ n) (m : Nat) : ones (n + m) x = ones n x := by
  induction m with
  | zero => rfl
  | succ m ih =>
    have hclear : x.testBit (n + m) = false :=
      Nat.testBit_eq_false_of_lt
        (hx.trans_le (Nat.pow_le_pow_right (by decide) (Nat.le_add_right n m)))
    rw [← Nat.add_assoc, ones, List.range_succ, List.countP_append, List.countP_singleton, hclear]
    exact ih

/-! ## The count -/

/-- The count by octal digits, for words of up to 60 bits. -/
def octalCount (k x : Nat) : Nat :=
  let count := x - (x / 2 &&& rep 8 3 (2 * k)) - (x / 4 &&& rep 8 1 (2 * k))
  (count + count / 8 &&& rep 64 7 k) % 63

theorem sub_halves_eq (hx : x < 8 ^ k) :
    x - (x / 2 &&& rep 8 3 k) - (x / 4 &&& rep 8 1 k) = counts k x := by
  have hdigits := sub_halves hx
  omega

theorem octalCount_eq (hk : k ≤ 10) (hx : x < 8 ^ (2 * k)) : octalCount k x = ones (6 * k) x := by
  have hle := ones_le (6 * k) x
  rw [octalCount, sub_halves_eq hx, pairs_eq, pairs_mod, Nat.mod_eq_of_lt (by omega)]

end BitCount
