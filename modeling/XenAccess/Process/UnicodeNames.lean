import Mathlib.Data.List.GetD
import XenAccess.Model.Programs

/-!
# Names of modules as text

`print_unicode_string` keeps each second byte of a `_UNICODE_STRING`. What it prints is the
string itself exactly if every unit of it is below 256 (`textOf_cstrOf_iff`). It reads the block
it has made up to a terminator, and finds one there as soon as the string has two bytes.
-/

namespace XenAccess

variable {h : Host} {bytes : List U8} {n : Nat}

/-! ## The loop -/

/-- The bytes with an even number. -/
def evenBytes : List U8 → List U8
  | [] => []
  | [b] => [b]
  | b :: _ :: bytes => b :: evenBytes bytes

theorem length_evenBytes : (evenBytes bytes).length = (bytes.length + 1) / 2 := by
  induction bytes using evenBytes.induct with
  | case1 => rfl
  | case2 b => simp [evenBytes]
  | case3 b c bytes ih =>
    rw [evenBytes, List.length_cons, ih, List.length_cons, List.length_cons]
    omega

theorem getD_evenBytes (i : Nat) : (evenBytes bytes).getD i 0 = bytes.getD (2 * i) 0 := by
  induction bytes using evenBytes.induct generalizing i with
  | case1 => rfl
  | case2 b => cases i <;> rfl
  | case3 b c bytes ih =>
    cases i with
    | zero => rfl
    | succ i =>
      rw [evenBytes, List.getD_cons_succ, ih]
      rfl

/-- The block after `k` rounds: what has been copied, and zeros. -/
theorem copyEven_rounds (k : Nat) (hk : k ≤ bytes.length) :
    (List.range k).foldl
        (fun name i => if i % 2 = 0 then name.set (i / 2) (bytes.getD i 0) else name)
        (List.replicate bytes.length 0) =
      (List.range bytes.length).map fun j => if 2 * j < k then bytes.getD (2 * j) 0 else 0 := by
  induction k with
  | zero =>
    apply List.ext_getElem
    · simp
    · intro j hj _
      simp
  | succ k ih =>
    rw [List.range_succ, List.foldl_append, ih (by omega), List.foldl_cons, List.foldl_nil]
    by_cases heven : k % 2 = 0
    · rw [if_pos heven]
      apply List.ext_getElem
      · simp
      · intro j hj _
        rw [List.getElem_set]
        by_cases hkj : k / 2 = j
        · have hdouble : 2 * j = k := by omega
          simp [hkj, hdouble]
        · have hiff : 2 * j < k + 1 ↔ 2 * j < k := by omega
          rw [if_neg hkj, List.getElem_map, List.getElem_map, List.getElem_range]
          simp only [hiff]
    · rw [if_neg heven]
      apply List.map_congr_left
      intro j _
      have hiff : 2 * j < k + 1 ↔ 2 * j < k := by omega
      simp only [hiff]

/-- The block in the end: the even bytes and zeros behind them. -/
theorem copyEven_eq : copyEven bytes (List.replicate bytes.length 0) =
    evenBytes bytes ++ List.replicate (bytes.length / 2) 0 := by
  rw [copyEven, copyEven_rounds bytes.length le_rfl]
  apply List.ext_getElem
  · simp only [List.length_map, List.length_range, List.length_append, length_evenBytes,
      List.length_replicate]
    omega
  · intro j hj _
    rw [List.getElem_map, List.getElem_range, List.getElem_append]
    by_cases hlt : 2 * j < bytes.length
    · have hj' : j < (evenBytes bytes).length := by
        rw [length_evenBytes]
        omega
      rw [if_pos hlt, dif_pos hj', ← getD_evenBytes, List.getD_eq_getElem _ _ hj']
    · have hj' : ¬j < (evenBytes bytes).length := by
        rw [length_evenBytes]
        omega
      rw [if_neg hlt, dif_neg hj', List.getElem_replicate]

/-! ## What is printed -/

/-- A string of two bytes or more is printed from its block alone. -/
theorem unicodeText_eq (hlen : 2 ≤ bytes.length) : unicodeText h bytes = cstrOf (evenBytes bytes) := by
  obtain ⟨k, hk⟩ : ∃ k, bytes.length / 2 = k + 1 := ⟨bytes.length / 2 - 1, by omega⟩
  rw [unicodeText, copyEven_eq, hk, List.replicate_succ, List.append_assoc, List.cons_append]
  exact cstrOf_append_zero _ _

/-- The bytes of a string of 16-bit units. -/
def utf16Bytes (units : List (BitVec 16)) : List U8 :=
  units.flatMap fun u : BitVec 16 => [u.setWidth 8, (u >>> 8).setWidth 8]

theorem evenBytes_utf16 (units : List (BitVec 16)) :
    evenBytes (utf16Bytes units) = units.map (BitVec.setWidth 8) := by
  induction units with
  | nil => rfl
  | cons u units ih =>
    show u.setWidth 8 :: evenBytes (utf16Bytes units) = _
    rw [ih, List.map_cons]

theorem length_utf16Bytes (units : List (BitVec 16)) :
    (utf16Bytes units).length = 2 * units.length := by
  induction units with
  | nil => rfl
  | cons u units ih =>
    show (utf16Bytes units).length + 1 + 1 = _
    rw [ih, List.length_cons]
    omega

/-- The text has the units of the string. -/
def TextOf (units : List (BitVec 16)) (text : CStr) : Prop :=
  text.map (BitVec.setWidth 16) = units

theorem setWidth_setWidth_iff {u : BitVec 16} : (u.setWidth 8).setWidth 16 = u ↔ u < 256 := by
  rw [← BitVec.toNat_inj, BitVec.toNat_setWidth, BitVec.toNat_setWidth, BitVec.lt_def]
  show u.toNat % 2 ^ 8 % 2 ^ 16 = u.toNat ↔ u.toNat < 256
  omega

/-- The low bytes of the units have the units exactly if these are below 256. -/
theorem textOf_map_iff {units : List (BitVec 16)} :
    TextOf units (units.map (BitVec.setWidth 8)) ↔ ∀ u ∈ units, u < 256 := by
  have hid : units.map id = units := List.map_id units
  rw [TextOf, List.map_map]
  constructor
  · intro heq u hu
    exact setWidth_setWidth_iff.mp (List.map_inj_left.mp (heq.trans hid.symm) u hu)
  · intro hsmall
    refine Eq.trans ?_ hid
    apply List.map_congr_left
    intro u hu
    exact setWidth_setWidth_iff.mpr (hsmall u hu)

/-- The text that is printed has the units of a string without zeros exactly if these are below
256. -/
theorem textOf_cstrOf_iff {units : List (BitVec 16)} (hnul : 0 ∉ units) :
    TextOf units (cstrOf (units.map (BitVec.setWidth 8))) ↔ ∀ u ∈ units, u < 256 := by
  have hwhole (hall : 0 ∉ units.map (BitVec.setWidth 8)) :
      cstrOf (units.map (BitVec.setWidth 8)) = units.map (BitVec.setWidth 8) :=
    cstrOf_eq_self_iff.mpr hall
  constructor
  · intro hright
    -- no unit is lost, so no byte printed is a terminator
    have hsame := congrArg List.length hright
    rw [List.length_map, ← List.length_map (BitVec.setWidth 8 : BitVec 16 → U8)] at hsame
    rw [cstrOf, (List.takeWhile_prefix (· != 0)).eq_of_length hsame] at hright
    exact textOf_map_iff.mp hright
  · intro hsmall
    rw [hwhole, textOf_map_iff]
    · exact hsmall
    · intro hzero
      obtain ⟨x, hx, hx0⟩ := List.mem_map.mp hzero
      have hxx := setWidth_setWidth_iff.mpr (hsmall x hx)
      rw [hx0] at hxx
      obtain rfl : x = 0 := hxx.symm
      exact hnul hx

/-- The text of a string of bytes. -/
theorem cstrOf_units {name : CStr} (hnul : 0 ∉ name) :
    cstrOf ((name.map (BitVec.setWidth 16)).map (BitVec.setWidth 8)) = name := by
  have hid : (name.map (BitVec.setWidth 16)).map (BitVec.setWidth 8) = name := by
    rw [List.map_map]
    refine Eq.trans (List.map_congr_left fun c _ => ?_) (List.map_id name)
    exact BitVec.setWidth_setWidth_of_le c (by decide)
  rw [hid]
  exact cstrOf_eq_self_iff.mpr hnul

end XenAccess
