import XenAccess.Lib.Bits

/-!
# Translations that act page by page

An address translation with `2^k`-byte pages is a partial map from page numbers to frame
numbers. Code that computes with addresses returns a number instead, `0` when the page is
not mapped. `Translates k m f` says that the function `f` on addresses is the map `m` read
that way. The one fact a cache of page bases needs is `Translates.samePage`: the frame
found for one address of a page serves every address of that page, unless it is frame `0`.
-/

namespace Paging

variable {w k : Nat} {m : Nat → Option Nat} {f : BitVec w → BitVec w}

/-- `f` computes the page map `m`: an unmapped page gives `0`, a mapped one the frame with
the offset of the address in its page. -/
def Translates (k : Nat) (m : Nat → Option Nat) (f : BitVec w → BitVec w) : Prop :=
  ∀ v, (f v).toNat = match m (v.toNat / 2 ^ k) with
    | none => 0
    | some q => q * 2 ^ k + v.toNat % 2 ^ k

/-- Two addresses on one page. -/
def SamePage (k : Nat) (u v : BitVec w) : Prop := u.toNat / 2 ^ k = v.toNat / 2 ^ k

theorem SamePage.ushiftRight {u v : BitVec w} (huv : SamePage k u v) {n : Nat} (hkn : k ≤ n) :
    u >>> n = v >>> n := by
  apply BitVec.eq_of_toNat_eq
  have hn : 2 ^ n = 2 ^ k * 2 ^ (n - k) := by rw [← pow_add, Nat.add_sub_cancel' hkn]
  simp only [BitVec.toNat_ushiftRight, Nat.shiftRight_eq_div_pow]
  rw [hn, ← Nat.div_div_eq_div_mul, ← Nat.div_div_eq_div_mul, huv]

/-- Every address shares its page with the base of that page. -/
theorem samePage_base (v : BitVec w) :
    SamePage k v (BitVec.ofNat w (v.toNat / 2 ^ k * 2 ^ k)) := by
  have hpos : 0 < 2 ^ k := Nat.two_pow_pos k
  have hle : v.toNat / 2 ^ k * 2 ^ k ≤ v.toNat := Nat.div_mul_le_self _ _
  have hlt : v.toNat < 2 ^ w := v.isLt
  rw [SamePage, BitVec.toNat_ofNat, Nat.mod_eq_of_lt (by omega), Nat.mul_div_cancel _ hpos]

/-- A function that on each page is either `0` or a frame with the offset, the same for the
whole page, computes a page map. -/
theorem translates_of_frame {frame : BitVec w → Option Nat}
    (hframe : ∀ u v, SamePage k u v → frame u = frame v)
    (hf : ∀ v, (f v).toNat = match frame v with
      | none => 0
      | some q => q * 2 ^ k + v.toNat % 2 ^ k) :
    Translates k (fun n => frame (BitVec.ofNat w (n * 2 ^ k))) f := by
  intro v
  rw [hf v, hframe v _ (samePage_base v)]

theorem Translates.samePage (hf : Translates k m f) {u v : BitVec w} (huv : SamePage k u v)
    (hu : 2 ^ k ≤ (f u).toNat) :
    (f v).toNat = (f u).toNat / 2 ^ k * 2 ^ k + v.toNat % 2 ^ k := by
  have h1 := hf u
  have h2 := hf v
  rw [← huv] at h2
  have hpos : 0 < 2 ^ k := Nat.two_pow_pos k
  cases hm : m (u.toNat / 2 ^ k) with
  | none =>
    rw [hm] at h1
    simp only at h1
    omega
  | some q =>
    rw [hm] at h1 h2
    simp only at h1 h2
    have hlt : u.toNat % 2 ^ k < 2 ^ k := Nat.mod_lt _ hpos
    rw [h2, h1, Nat.mul_comm q, Nat.mul_add_div hpos, Nat.div_eq_of_lt hlt, Nat.add_zero,
      Nat.mul_comm q]

/-- An address with a translation gives the frame of all addresses of its page. -/
theorem Translates.frame (hf : Translates k m f) {u : BitVec w} (hu : f u ≠ 0) :
    ∃ q, ∀ v, SamePage k u v → (f v).toNat = q * 2 ^ k + v.toNat % 2 ^ k := by
  have h1 := hf u
  cases hm : m (u.toNat / 2 ^ k) with
  | none =>
    rw [hm] at h1
    exact absurd (BitVec.eq_of_toNat_eq (h1.trans (BitVec.toNat_zero).symm)) hu
  | some q =>
    refine ⟨q, fun v huv => ?_⟩
    have h2 := hf v
    rw [← huv, hm] at h2
    exact h2

end Paging
