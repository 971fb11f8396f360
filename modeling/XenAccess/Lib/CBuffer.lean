import Mathlib.Data.List.Basic
import Mathlib.Data.List.Infix
import Mathlib.Order.Basic
import XenAccess.Lib.Prog

/-!
# Terminated strings in checked memory

Strings that end at a zero, and the functions of C on them. A pointer into a string is the list
of the values that may be read from it on, its terminator among them, and a buffer is the list
of its values. A read behind the end of the list or a write behind the end of the buffer is a
fault.

The lemmas are about a buffer that holds a string and zeros behind it, which is how a cleared
buffer looks while a string is built in it.
-/

namespace CBuffer

open Prog

inductive Fault where
  /-- a read behind the end of what may be read -/
  | strayRead
  /-- a write behind the end of a buffer -/
  | strayWrite
  deriving DecidableEq, Repr

variable {α : Type}

/-! ## Reading and writing -/

/-- The value that a pointer points to. -/
def read : List α → Except Fault α
  | [] => .error .strayRead
  | c :: _ => .ok c

def write (buf : List α) (i : Nat) (c : α) : Except Fault (List α) :=
  if i < buf.length then .ok (buf.set i c) else .error .strayWrite

variable {buf buf' s t r pattern src : List α} {i k : Nat} {c : α}

theorem length_write (hrun : write buf i c = .ok buf') : buf'.length = buf.length := by
  rw [write] at hrun
  split at hrun
  · rw [← Except.ok.inj hrun, List.length_set]
  · cases hrun

theorem write_append (s : List α) (x c : α) (r : List α) :
    write (s ++ x :: r) s.length c = .ok (s ++ c :: r) := by
  rw [write, if_pos]
  · rw [List.set_append_right s.length c le_rfl, Nat.sub_self, List.set_cons_zero]
  · rw [List.length_append, List.length_cons]
    omega

theorem write_full (s : List α) (c : α) : write s s.length c = .error .strayWrite :=
  if_neg (Nat.lt_irrefl _)

/-! ## Comparing -/

section Compare

variable [DecidableEq α]

/-- `strncmp(s, pattern, n) == 0` for a pattern of `n` values, none of them zero. -/
def strncmp : List α → List α → Except Fault Bool
  | _, [] => .ok true
  | s, c :: pattern => do
    let x ← read s
    if x = c then strncmp s.tail pattern else return false

theorem strncmp_nil (hpattern : pattern ≠ []) : strncmp [] pattern = .error .strayRead := by
  cases pattern with
  | nil => exact absurd rfl hpattern
  | cons c pattern => rfl

/-- The comparison stays in the string, since the terminator is not in the pattern. -/
theorem strncmp_append [Zero α] (hpattern : 0 ∉ pattern) (s r : List α) :
    strncmp (s ++ 0 :: r) pattern = .ok (decide (pattern <+: s)) := by
  induction pattern generalizing s with
  | nil => rw [strncmp, decide_eq_true List.nil_prefix]
  | cons c pattern ih =>
    obtain ⟨hc, hrest⟩ := not_or.mp (mt List.mem_cons.mpr hpattern)
    cases s with
    | nil =>
      show (if 0 = c then _ else _) = _
      rw [if_neg hc, decide_eq_false]
      · rfl
      · intro hstarts
        cases List.prefix_nil.mp hstarts
    | cons x s =>
      show (if x = c then strncmp (s ++ 0 :: r) pattern else _) = _
      rw [ih hrest]
      by_cases hx : x = c
      · rw [if_pos hx]
        congr 1
        rw [decide_eq_decide, List.cons_prefix_cons, and_iff_right hx.symm]
      · rw [if_neg hx, decide_eq_false]
        · rfl
        · intro hstarts
          exact hx (List.cons_prefix_cons.mp hstarts).1.symm

end Compare

/-! ## Copying -/

variable [Zero α] [DecidableEq α]

/-- Copy a string with its terminator to an index of a buffer. -/
def strcpy : List α → Nat → List α → Except Fault (List α)
  | [], _, _ => .error .strayRead
  | c :: src, i, buf => do
    let buf ← write buf i c
    if c = 0 then return buf else strcpy src (i + 1) buf

/-- Append a string to the one in a buffer. -/
def strcat (buf src : List α) : Except Fault (List α) :=
  match buf.findIdx? (· == 0) with
  | none => .error .strayRead
  | some i => strcpy src i buf

theorem length_strcpy (hrun : strcpy src i buf = .ok buf') : buf'.length = buf.length := by
  induction src generalizing i buf with
  | nil => cases hrun
  | cons c src ih =>
    rw [strcpy] at hrun
    obtain ⟨buf₁, hwrite, hrun⟩ := except_bind_ok hrun
    rw [← length_write hwrite]
    split at hrun
    · rw [Except.ok.inj hrun]
    · exact ih hrun

theorem length_strcat (hrun : strcat buf src = .ok buf') : buf'.length = buf.length := by
  rw [strcat] at hrun
  split at hrun
  · cases hrun
  · exact length_strcpy hrun

/-- The first value of a string goes over a zero. -/
theorem strcpy_cons (hc : c ≠ 0) (s t : List α) (k : Nat) :
    strcpy (c :: t) s.length (s ++ List.replicate (k + 1) 0) =
      strcpy t (s ++ [c]).length (s ++ [c] ++ List.replicate k 0) := by
  rw [strcpy, List.replicate_succ, write_append]
  show (if c = 0 then _ else strcpy t (s.length + 1) (s ++ c :: List.replicate k 0)) = _
  rw [if_neg hc, List.append_cons, List.length_append]
  rfl

/-- A string is copied over zeros if there is room for it and its terminator. -/
theorem strcpy_append (ht : 0 ∉ t) (hroom : t.length < k) (s r : List α) :
    strcpy (t ++ 0 :: r) s.length (s ++ List.replicate k 0) =
      .ok (s ++ t ++ List.replicate (k - t.length) 0) := by
  induction t generalizing s k with
  | nil =>
    obtain ⟨k, rfl⟩ := Nat.exists_eq_succ_of_ne_zero (Nat.ne_of_gt hroom)
    rw [List.nil_append, strcpy, List.replicate_succ, write_append, List.append_nil]
    exact if_pos rfl
  | cons c t ih =>
    obtain ⟨hc, hrest⟩ := not_or.mp (mt List.mem_cons.mpr ht)
    obtain ⟨k, rfl⟩ := Nat.exists_eq_succ_of_ne_zero (Nat.ne_of_gt (Nat.zero_lt_of_lt hroom))
    rw [List.cons_append, strcpy_cons (Ne.symm hc), ih hrest (Nat.lt_of_succ_lt_succ hroom),
      List.append_assoc s [c] t, List.length_cons, Nat.succ_sub_succ]
    rfl

theorem strcpy_full (ht : 0 ∉ t) (hfull : k ≤ t.length) (s r : List α) :
    strcpy (t ++ 0 :: r) s.length (s ++ List.replicate k 0) = .error .strayWrite := by
  induction t generalizing s k with
  | nil =>
    obtain rfl : k = 0 := Nat.le_zero.mp hfull
    rw [List.nil_append, strcpy, List.replicate_zero, List.append_nil, write_full]
    rfl
  | cons c t ih =>
    obtain ⟨hc, hrest⟩ := not_or.mp (mt List.mem_cons.mpr ht)
    cases k with
    | zero =>
      rw [List.cons_append, strcpy, List.replicate_zero, List.append_nil, write_full]
      rfl
    | succ k =>
      rw [List.cons_append, strcpy_cons (Ne.symm hc), ih hrest (Nat.le_of_succ_le_succ hfull)]

/-- The string in a buffer ends where the zeros begin. -/
theorem strcat_eq_strcpy (hs : 0 ∉ s) (hk : 0 < k) (src : List α) :
    strcat (s ++ List.replicate k 0) src = strcpy src s.length (s ++ List.replicate k 0) := by
  obtain ⟨k, rfl⟩ := Nat.exists_eq_succ_of_ne_zero (Nat.ne_of_gt hk)
  have hnone : s.findIdx? (· == 0) = none := by
    rw [List.findIdx?_eq_none_iff]
    intro x hx
    apply beq_eq_false_iff_ne.mpr
    rintro rfl
    exact hs hx
  have hfind : (s ++ List.replicate (k + 1) 0).findIdx? (· == 0) = some s.length := by
    rw [List.findIdx?_append, hnone, List.replicate_succ, List.findIdx?_cons,
      if_pos (beq_self_eq_true 0)]
    exact congrArg some (Nat.zero_add s.length)
  rw [strcat, hfind]

end CBuffer
