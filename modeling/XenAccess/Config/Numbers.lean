import Mathlib.Tactic.SplitIfs
import XenAccess.Model.Symbols

/-!
# Numbers as text

The digits of a number in a base up to 16, and that the readers of the library find the number
in them: `digitsValue`, which all of them are built on, and `strtol` on what `%d` prints.
-/

namespace XenAccess

variable {base n : Nat}

/-! ## Digits -/

/-- The byte of a digit below 16. -/
def digitByte (d : Nat) : U8 := BitVec.ofNat 8 d.digitChar.toNat

/-- The digits of a number as a string. -/
def digits (base n : Nat) : CStr := (Nat.toDigits base n).map fun c => BitVec.ofNat 8 c.toNat

theorem xdigit_digitByte : ∀ d < 16, xdigit (digitByte d) = some d := by decide

theorem digits_of_lt (hn : n < base) : digits base n = [digitByte n] := by
  unfold digits
  rw [Nat.toDigits_of_lt_base hn]
  rfl

theorem digits_of_le (hbase : 1 < base) (hn : base ≤ n) :
    digits base n = digits base (n / base) ++ [digitByte (n % base)] := by
  unfold digits
  rw [Nat.toDigits_of_base_le hbase hn, List.map_append]
  rfl

/-- A digit below the base. -/
def IsDigit (base : Nat) (c : U8) : Prop := ∃ d < base, xdigit c = some d

theorem isDigit_digitByte (h16 : base ≤ 16) {d : Nat} (hd : d < base) :
    IsDigit base (digitByte d) :=
  ⟨d, hd, xdigit_digitByte d (by omega)⟩

theorem digits_isDigit (hbase : 1 < base) (h16 : base ≤ 16) (n : Nat) :
    ∀ c ∈ digits base n, IsDigit base c := by
  induction n using Nat.strongRecOn with
  | ind n ih =>
    by_cases hn : n < base
    · rw [digits_of_lt hn]
      intro c hc
      rw [List.mem_singleton.mp hc]
      exact isDigit_digitByte h16 hn
    · rw [digits_of_le hbase (by omega)]
      intro c hc
      rcases List.mem_append.mp hc with hc | hc
      · exact ih (n / base) (Nat.div_lt_self (by omega) hbase) c hc
      · rw [List.mem_singleton.mp hc]
        exact isDigit_digitByte h16 (Nat.mod_lt _ (by omega))

theorem digits_ne_nil : digits base n ≠ [] := by
  unfold digits
  exact fun hnil => Nat.toDigits_ne_nil (List.map_eq_nil_iff.mp hnil)

/-! ## Values -/

theorem digitsValue_append {xs : CStr} (hxs : ∀ c ∈ xs, IsDigit base c) (ys : CStr) (acc : Nat) :
    digitsValue base (xs ++ ys) acc = digitsValue base ys (digitsValue base xs acc) := by
  induction xs generalizing acc with
  | nil => rfl
  | cons c xs ih =>
    obtain ⟨d, hd, hc⟩ := hxs c List.mem_cons_self
    rw [List.cons_append, digitsValue, digitsValue, hc]
    simp only [if_pos hd]
    exact ih (fun x hx => hxs x (List.mem_cons_of_mem _ hx)) _

theorem digitsValue_digits (hbase : 1 < base) (h16 : base ≤ 16) (n : Nat) :
    digitsValue base (digits base n) 0 = n := by
  induction n using Nat.strongRecOn with
  | ind n ih =>
    by_cases hn : n < base
    · rw [digits_of_lt hn, digitsValue, xdigit_digitByte n (by omega)]
      simp only [if_pos hn, Nat.zero_mul, Nat.zero_add]
      rfl
    · have hmod : n % base < base := Nat.mod_lt _ (by omega)
      rw [digits_of_le hbase (by omega), digitsValue_append (digits_isDigit hbase h16 _),
        ih (n / base) (Nat.div_lt_self (by omega) hbase), digitsValue,
        xdigit_digitByte _ (by omega)]
      simp only [if_pos hmod]
      show n / base * base + n % base = n
      rw [Nat.mul_comm]
      exact Nat.div_add_mod n base

/-! ## `%d` and `strtol` -/

theorem le_of_xdigit {c : U8} {d : Nat} (hc : xdigit c = some d) : 48 ≤ c.toNat := by
  unfold xdigit at hc
  simp only [Bool.and_eq_true, decide_eq_true_eq, BitVec.le_def] at hc
  split_ifs at hc with h1 h2 h3
  · exact h1.1
  · exact le_trans (by decide) h2.1
  · exact le_trans (by decide) h3.1

theorem isspace_digit {c : U8} {d : Nat} (hc : xdigit c = some d) : isspace c = false := by
  have hle := le_of_xdigit hc
  unfold isspace
  rw [Bool.or_eq_false_iff, Bool.and_eq_false_iff]
  refine ⟨beq_false_of_ne ?_, .inr (decide_eq_false ?_)⟩
  · rintro rfl
    exact absurd hle (by decide)
  · rw [BitVec.le_def]
    change ¬c.toNat ≤ 13
    omega

/-- A digit is neither white space nor a sign. -/
theorem splitSign_digit {c : U8} {d : Nat} (hc : xdigit c = some d) (cs : CStr) :
    splitSign (c :: cs) = (false, c :: cs) := by
  have hle := le_of_xdigit hc
  have hspace := isspace_digit hc
  unfold splitSign
  rw [List.dropWhile_cons_of_neg (by simp [hspace])]
  split
  · rename_i heq
    cases heq
    exact absurd hle (by decide)
  · rename_i heq
    cases heq
    exact absurd hle (by decide)
  · rfl

theorem splitSign_digits (hbase : 1 < base) (h16 : base ≤ 16) (n : Nat) :
    splitSign (digits base n) = (false, digits base n) := by
  cases hd : digits base n with
  | nil => exact absurd hd digits_ne_nil
  | cons c cs =>
    obtain ⟨d, -, hc⟩ := digits_isDigit hbase h16 n c (by rw [hd]; exact List.mem_cons_self)
    exact splitSign_digit hc cs

theorem cstr_repr (n : Nat) : cstr n.repr = digits 10 n := by
  unfold cstr digits
  rw [Nat.toList_repr]

theorem sprintfD_nonneg {v : U32} (hv : 0 ≤ v.toInt) : sprintfD v = digits 10 v.toInt.toNat := by
  unfold sprintfD
  rw [Int.toString_eq_repr, Int.repr_eq_if, if_pos hv, cstr_repr]

theorem sprintfD_neg {v : U32} (hv : v.toInt < 0) :
    sprintfD v = 45 :: digits 10 (-v.toInt).toNat := by
  unfold sprintfD
  rw [Int.toString_eq_repr, Int.repr_eq_if, if_neg (by omega), ← cstr_repr]
  unfold cstr
  rw [String.toList_append, List.map_append]
  rfl

/-- `strtol` reads back what `%d` prints. -/
theorem strtol10_sprintfD (v : U32) : strtol10 (sprintfD v) = v := by
  have hlow := BitVec.le_toInt v
  have hhigh := BitVec.toInt_lt (x := v)
  have hcast : BitVec.ofInt 32 v.toInt = v := BitVec.ofInt_toInt
  have hvalue (n : Nat) : digitsValue 10 (digits 10 n) 0 = n :=
    digitsValue_digits (by decide) (by decide) n
  by_cases hv : 0 ≤ v.toInt
  · have hsign : splitSign (digits 10 v.toInt.toNat) = (false, digits 10 v.toInt.toNat) :=
      splitSign_digits (by decide) (by decide) v.toInt.toNat
    unfold strtol10
    rw [sprintfD_nonneg hv, hsign]
    simp only [hvalue, Bool.false_eq_true, if_false]
    rw [if_neg (by omega)]
    have hnat : ((v.toInt.toNat : Nat) : Int) = v.toInt := Int.toNat_of_nonneg hv
    rw [← BitVec.ofInt_natCast, hnat, hcast]
  · have hneg : v.toInt < 0 := by omega
    have hsign : splitSign (45 :: digits 10 (-v.toInt).toNat) = (true, digits 10 (-v.toInt).toNat) :=
      rfl
    unfold strtol10
    rw [sprintfD_neg hneg, hsign]
    simp only [hvalue, if_true]
    rw [if_neg (by omega)]
    have hnat : (((-v.toInt).toNat : Nat) : Int) = -v.toInt := Int.toNat_of_nonneg (by omega)
    rw [← BitVec.ofInt_natCast, hnat, BitVec.ofInt_neg, neg_neg, hcast]

theorem sprintfD_injective : Function.Injective sprintfD :=
  Function.LeftInverse.injective strtol10_sprintfD

end XenAccess
