import Mathlib.Data.BitVec
import Mathlib.Tactic.Ring
import XenAccess.Lib.Orbit

/-!
# Sweeps

A sweep is a walk whose nodes have a cursor of `w` bits. The cursor moves by a fixed step, and
the walk does not go on from a cursor at the limit or above. It ends when the last step below
the limit stays below `2^w`; otherwise the cursor wraps, and the walk goes round unless it is
stopped by something else.
-/

namespace Sweep

open Orbit

variable {w : Nat} {α : Type} {next : α → Option α} {cursor : α → BitVec w}
  {step limit : BitVec w} {a x y : α} {m n : Nat}

/-- The walk moves the cursor by the step, and stops at the limit. -/
structure Sweeps (next : α → Option α) (cursor : α → BitVec w) (step limit : BitVec w) :
    Prop where
  moves : ∀ x y, next x = some y → cursor y = cursor x + step
  stops : ∀ x, ¬cursor x < limit → next x = none

theorem Sweeps.lt_limit (hsweep : Sweeps next cursor step limit) (hxy : next x = some y) :
    cursor x < limit := by
  by_contra hge
  rw [hsweep.stops x hge] at hxy
  cases hxy

theorem Sweeps.cursor_nth (hsweep : Sweeps next cursor step limit) (ha : cursor a = 0)
    (hx : nth next a n = some x) : cursor x = BitVec.ofNat w (n * step.toNat) := by
  induction n generalizing x with
  | zero =>
    cases hx
    rw [ha, Nat.zero_mul]
    rfl
  | succ n ih =>
    obtain ⟨y, hy, hyx⟩ := Option.bind_eq_some_iff.mp hx
    rw [hsweep.moves y x hyx, ih hy, Nat.succ_mul]
    apply BitVec.eq_of_toNat_eq
    simp only [BitVec.toNat_add, BitVec.toNat_ofNat, Nat.mod_add_mod]

/-! ## Sweeps that do not wrap -/

/-- While the last step below the limit does not wrap, the cursor counts the rounds. -/
theorem Sweeps.toNat_cursor (hsweep : Sweeps next cursor step limit) (ha : cursor a = 0)
    (hroom : limit.toNat + step.toNat ≤ 2 ^ w) (hx : nth next a n = some x) :
    (cursor x).toNat = n * step.toNat := by
  induction n generalizing x with
  | zero =>
    cases hx
    rw [ha, Nat.zero_mul]
    exact BitVec.toNat_zero
  | succ n ih =>
    obtain ⟨y, hy, hyx⟩ := Option.bind_eq_some_iff.mp hx
    have hlt : (cursor y).toNat < limit.toNat := BitVec.lt_def.mp (hsweep.lt_limit hyx)
    rw [hsweep.moves y x hyx, BitVec.toNat_add, Nat.mod_eq_of_lt (by omega), ih hy, Nat.succ_mul]

theorem Sweeps.ends (hsweep : Sweeps next cursor step limit) (ha : cursor a = 0)
    (hroom : limit.toNat + step.toNat ≤ 2 ^ w) (hstep : 0 < step.toNat) : Ends next a := by
  apply ends_of_increasing (fun x => (cursor x).toNat) limit.toNat
  intro n x y hx hxy
  have hy : nth next a (n + 1) = some y := Option.bind_eq_some_iff.mpr ⟨x, hx, hxy⟩
  have hgrow : (n + 1) * step.toNat = n * step.toNat + step.toNat := Nat.succ_mul n _
  refine ⟨BitVec.lt_def.mp (hsweep.lt_limit hxy), ?_⟩
  show (cursor x).toNat < (cursor y).toNat
  rw [hsweep.toNat_cursor ha hroom hx, hsweep.toNat_cursor ha hroom hy]
  omega

/-- Without a wrap no two rounds have the same cursor. -/
theorem Sweeps.once (hsweep : Sweeps next cursor step limit) (ha : cursor a = 0)
    (hroom : limit.toNat + step.toNat ≤ 2 ^ w) (hstep : 0 < step.toNat)
    (hx : nth next a m = some x) (hy : nth next a n = some y) (hxy : cursor x = cursor y) :
    m = n := by
  have hmul : m * step.toNat = n * step.toNat := by
    rw [← hsweep.toNat_cursor ha hroom hx, ← hsweep.toNat_cursor ha hroom hy, hxy]
  exact Nat.eq_of_mul_eq_mul_right hstep hmul

/-! ## Sweeps that wrap -/

/-- A multiple of a step that divides `2^w` leaves room for another step. -/
theorem multiple_add_le {k : Nat} (hdvd : k ∣ 2 ^ w) (hn : k ∣ n) (hlt : n < 2 ^ w) :
    n + k ≤ 2 ^ w := by
  obtain ⟨c, hc⟩ := hdvd
  obtain ⟨d, rfl⟩ := hn
  rw [hc] at hlt ⊢
  have hdc : d < c := Nat.lt_of_mul_lt_mul_left hlt
  calc k * d + k = k * (d + 1) := (Nat.mul_succ k d).symm
    _ ≤ k * c := Nat.mul_le_mul_left k hdc

/-- When the last step wraps to `0`, a sweep that only the limit stops never ends. -/
theorem Sweeps.not_ends (hsweep : Sweeps next cursor step limit) (ha : cursor a = 0)
    (hdvd : step.toNat ∣ 2 ^ w) (hwrap : 2 ^ w < limit.toNat + step.toNat)
    (hgoes : ∀ n x, nth next a n = some x → cursor x < limit → (next x).isSome) :
    ¬Ends next a := by
  have hsome : ∀ n, ∃ x, nth next a n = some x := by
    intro n
    induction n with
    | zero => exact ⟨a, rfl⟩
    | succ n ih =>
      obtain ⟨x, hx⟩ := ih
      have hcursor : (cursor x).toNat = n * step.toNat % 2 ^ w := by
        rw [hsweep.cursor_nth ha hx, BitVec.toNat_ofNat]
      have hdvdx : step.toNat ∣ (cursor x).toNat := by
        rw [hcursor]
        exact (Nat.dvd_mod_iff hdvd).mpr (Nat.dvd_mul_left _ n)
      have hroom := multiple_add_le hdvd hdvdx (cursor x).isLt
      have hlt : cursor x < limit := BitVec.lt_def.mpr (by omega)
      obtain ⟨y, hy⟩ := Option.isSome_iff_exists.mp (hgoes n x hx hlt)
      exact ⟨y, Option.bind_eq_some_iff.mpr ⟨x, hx, hy⟩⟩
  rintro ⟨n, hn⟩
  obtain ⟨x, hx⟩ := hsome n
  rw [hn] at hx
  cases hx

end Sweep
