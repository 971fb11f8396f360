import Mathlib.Data.Nat.Bitwise

/-!
# Masks as arithmetic

Machine code takes an address apart with masks and puts it together again with a bitwise
or. The lemmas here say what that is in arithmetic: keeping the bits `k, …, n - 1` is
`x / 2^k % 2^(n-k) * 2^k` (`toNat_and_field`), keeping the low `k` bits is `x % 2^k`
(`toNat_and_low`), clearing them is `x / 2^k * 2^k` (`toNat_and_high`), and the or of a
multiple of `2^k` with a number below `2^k` is the sum (`toNat_or_disjoint`,
`toNat_or_of_parts`). With them a statement about masks is one for `omega`.

The last lemmas put a word together from its bytes.
-/

namespace Bits

theorem and_field (x k n : Nat) (hkn : k ≤ n) :
    x &&& (2 ^ n - 2 ^ k) = x / 2 ^ k % 2 ^ (n - k) * 2 ^ k := by
  have hmask : 2 ^ n - 2 ^ k = (2 ^ (n - k) - 1) <<< k := by
    rw [Nat.shiftLeft_eq, Nat.sub_mul, Nat.one_mul, ← pow_add, Nat.sub_add_cancel hkn]
  rw [hmask, ← Nat.shiftLeft_eq, ← Nat.shiftRight_eq_div_pow,
    ← Nat.and_two_pow_sub_one_eq_mod]
  apply Nat.eq_of_testBit_eq
  intro i
  by_cases hi : k ≤ i
  · simp [hi, Bool.and_comm]
  · simp [hi]

theorem toNat_and_field {w : Nat} (x : BitVec w) {k n : Nat} (hkn : k ≤ n) (hn : n ≤ w) :
    (x &&& BitVec.ofNat w (2 ^ n - 2 ^ k)).toNat = x.toNat / 2 ^ k % 2 ^ (n - k) * 2 ^ k := by
  have hlt : 2 ^ n - 2 ^ k < 2 ^ w := by
    have h1 : 0 < 2 ^ k := Nat.two_pow_pos k
    have h2 : 2 ^ n ≤ 2 ^ w := Nat.pow_le_pow_right (by omega) hn
    have h3 : 0 < 2 ^ n := Nat.two_pow_pos n
    omega
  rw [BitVec.toNat_and, BitVec.toNat_ofNat, Nat.mod_eq_of_lt hlt, and_field _ _ _ hkn]

theorem toNat_and_low {w : Nat} (x : BitVec w) {k : Nat} (hk : k ≤ w) :
    (x &&& BitVec.ofNat w (2 ^ k - 1)).toNat = x.toNat % 2 ^ k := by
  have h := toNat_and_field x (Nat.zero_le k) hk
  simpa using h

/-- The mask of the bits from `k` on. -/
theorem toNat_and_high {w : Nat} (x : BitVec w) {k : Nat} (hk : k ≤ w) :
    (x &&& BitVec.ofNat w (2 ^ w - 2 ^ k)).toNat = x.toNat / 2 ^ k * 2 ^ k := by
  have hlt : x.toNat / 2 ^ k < 2 ^ (w - k) := by
    rw [Nat.div_lt_iff_lt_mul (Nat.two_pow_pos k), ← pow_add, Nat.sub_add_cancel hk]
    exact x.isLt
  rw [toNat_and_field x hk le_rfl, Nat.mod_eq_of_lt hlt]

theorem toNat_or_disjoint {w : Nat} {a b : BitVec w} (k : Nat) (ha : a.toNat % 2 ^ k = 0)
    (hb : b.toNat < 2 ^ k) : (a ||| b).toNat = a.toNat + b.toNat := by
  obtain ⟨q, hq⟩ := Nat.dvd_of_mod_eq_zero ha
  rw [BitVec.toNat_or, hq, Nat.mul_comm, ← Nat.shiftLeft_eq,
    Nat.shiftLeft_add_eq_or_of_lt hb]

/-- High and low bits put together. -/
theorem toNat_or_of_parts {w : Nat} {a b : BitVec w} {k m n : Nat} (ha : a.toNat = m * 2 ^ k)
    (hb : b.toNat = n % 2 ^ k) : (a ||| b).toNat = m * 2 ^ k + n % 2 ^ k := by
  rw [toNat_or_disjoint k, ha, hb]
  · rw [ha]
    exact Nat.mul_mod_left m (2 ^ k)
  · rw [hb]
    exact Nat.mod_lt n (Nat.two_pow_pos k)

/-! ## Bytes of a word -/

theorem append_byte {w : Nat} (v : BitVec w) (i m : Nat) :
    (v >>> (i + 8)).setWidth m ++ (v >>> i).setWidth 8 = (v >>> i).setWidth (m + 8) := by
  apply BitVec.eq_of_getLsbD_eq
  intro j hj
  rw [BitVec.getLsbD_append]
  simp only [BitVec.getLsbD_setWidth, BitVec.getLsbD_ushiftRight]
  by_cases hlow : j < 8
  · rw [if_pos hlow, decide_eq_true hlow, decide_eq_true hj]
  · have hindex : i + 8 + (j - 8) = i + j := by omega
    rw [if_neg hlow, hindex, decide_eq_true hj, decide_eq_true (show j - 8 < m by omega)]

theorem word16_of_bytes (v : BitVec 16) : (v >>> 8).setWidth 8 ++ (v >>> 0).setWidth 8 = v := by
  rw [append_byte v 0 8]
  exact BitVec.setWidth_eq v

theorem word32_of_bytes (v : BitVec 32) :
    (v >>> 24).setWidth 8 ++ (v >>> 16).setWidth 8 ++ (v >>> 8).setWidth 8 ++
      (v >>> 0).setWidth 8 = v := by
  rw [append_byte v 16 8, append_byte v 8 (8 + 8), append_byte v 0 (8 + 8 + 8)]
  exact BitVec.setWidth_eq v

theorem word64_of_bytes (v : BitVec 64) :
    (v >>> 56).setWidth 8 ++ (v >>> 48).setWidth 8 ++ (v >>> 40).setWidth 8 ++
      (v >>> 32).setWidth 8 ++ (v >>> 24).setWidth 8 ++ (v >>> 16).setWidth 8 ++
      (v >>> 8).setWidth 8 ++ (v >>> 0).setWidth 8 = v := by
  rw [append_byte v 48 8, append_byte v 40, append_byte v 32, append_byte v 24,
    append_byte v 16, append_byte v 8, append_byte v 0]
  exact BitVec.setWidth_eq v

end Bits
