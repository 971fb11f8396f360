import Mathlib.Data.List.TakeWhile

/-!
# Lines and fields

A text is cut into lines, each with the mark that ends it, and a line into fields by runs of
separators. A reader with room for `k` elements gets a longer line in pieces. What it gets next
depends on the first line of what is left, and that line is the rest of a line it has begun
(`firstLine_drop`), so the rows it gets follow the text from its head (`rows_eq`).
-/

namespace Text

variable {α : Type}

/-! ## Fields -/

section Fields

variable (sep : α → Bool)

/-- The field with a number. It is empty in a line that has too few fields. -/
def field : Nat → List α → List α
  | 0, l => (l.dropWhile sep).takeWhile (!sep ·)
  | n + 1, l => field n ((l.dropWhile sep).dropWhile (!sep ·))

/-- What stands behind a number of runs of separators. -/
def behind : Nat → List α → Option (List α)
  | 0, l => some l
  | n + 1, l => if l.any sep then behind n ((l.dropWhile (!sep ·)).dropWhile sep) else none

/-- A list is cut at its first run of separators. -/
structure FirstRun (l word run rest : List α) : Prop where
  eq : l = word ++ (run ++ rest)
  run_ne_nil : run ≠ []
  sep_word : ∀ c ∈ word, sep c = false
  sep_run : ∀ c ∈ run, sep c = true
  sep_rest : ∀ c ∈ rest.head?, sep c = false

variable {sep} {l t : List α} {n : Nat}

theorem head?_dropWhile (l : List α) : ∀ c ∈ (l.dropWhile sep).head?, sep c = false := by
  intro c hc
  have hhead := List.head?_dropWhile_not sep l
  rw [Option.mem_def.mp hc] at hhead
  exact hhead

theorem dropWhile_eq_self (hhead : ∀ c ∈ l.head?, sep c = false) : l.dropWhile sep = l := by
  cases l with
  | nil => rfl
  | cons c l => exact List.dropWhile_cons_of_neg (by simp [hhead c rfl])

theorem dropWhile_append_eq (hhead : ∀ c ∈ t.head?, sep c = false) :
    (l ++ t).dropWhile sep = l.dropWhile sep ++ t := by
  rw [List.dropWhile_append]
  split
  · rename_i hempty
    rw [List.isEmpty_iff.mp hempty, dropWhile_eq_self hhead, List.nil_append]
  · rfl

theorem dropWhile_ne_nil (hany : l.any sep = true) : l.dropWhile (!sep ·) ≠ [] := by
  obtain ⟨c, hc, hsep⟩ := List.any_eq_true.mp hany
  intro hnil
  have hnone := List.dropWhile_eq_nil_iff.mp hnil c hc
  rw [hsep] at hnone
  cases hnone

theorem firstRun (hany : l.any sep = true) :
    FirstRun sep l (l.takeWhile (!sep ·)) ((l.dropWhile (!sep ·)).takeWhile sep)
      ((l.dropWhile (!sep ·)).dropWhile sep) where
  eq := by rw [List.takeWhile_append_dropWhile, List.takeWhile_append_dropWhile]
  sep_word := fun c hc => by simpa using List.mem_takeWhile_imp hc
  sep_run := fun c hc => List.mem_takeWhile_imp hc
  run_ne_nil := by
    cases hrest : l.dropWhile (!sep ·) with
    | nil => exact absurd hrest (dropWhile_ne_nil hany)
    | cons d rest =>
      have hd : (!sep d) = false := head?_dropWhile l d (by rw [hrest]; rfl)
      rw [List.takeWhile_cons_of_pos (by simpa using hd)]
      exact List.cons_ne_nil d _
  sep_rest := head?_dropWhile _

theorem behind_succ (hbehind : behind sep (n + 1) l = some t) :
    l.any sep = true ∧ behind sep n ((l.dropWhile (!sep ·)).dropWhile sep) = some t := by
  rw [behind] at hbehind
  split at hbehind
  · exact ⟨‹_›, hbehind⟩
  · cases hbehind

theorem mem_of_behind {c : α} (hbehind : behind sep n l = some t) (hc : c ∈ t) : c ∈ l := by
  induction n generalizing l with
  | zero =>
    cases hbehind
    exact hc
  | succ n ih =>
    have hrest := ih (behind_succ hbehind).2
    exact (List.dropWhile_sublist _).subset ((List.dropWhile_sublist _).subset hrest)

theorem behind_cons_of_sep {c : α} (hc : sep c = true) :
    behind sep (n + 1) (c :: l) = behind sep n ((c :: l).dropWhile sep) := by
  rw [behind, List.any_cons, hc, Bool.true_or, if_pos rfl,
    List.dropWhile_cons_of_neg (p := (!sep ·)) (by simp [hc])]

theorem behind_cons {c : α} (hc : sep c = false) :
    behind sep (n + 1) (c :: l) = behind sep (n + 1) l := by
  rw [behind, behind, List.any_cons, hc, Bool.false_or,
    List.dropWhile_cons_of_pos (p := (!sep ·)) (by simp [hc])]

theorem field_dropWhile (n : Nat) (l : List α) : field sep n (l.dropWhile sep) = field sep n l := by
  have hidem : (l.dropWhile sep).dropWhile sep = l.dropWhile sep :=
    dropWhile_eq_self (head?_dropWhile l)
  cases n with
  | zero => rw [field, field, hidem]
  | succ n => rw [field, field, hidem]

/-- In a line that starts with a field, the field with a number stands behind as many runs. -/
theorem field_of_behind (hhead : ∀ c ∈ l.head?, sep c = false) (hbehind : behind sep n l = some t) :
    field sep n l = t.takeWhile (!sep ·) := by
  induction n generalizing l with
  | zero =>
    cases hbehind
    rw [field, dropWhile_eq_self hhead]
  | succ n ih =>
    obtain ⟨-, hrest⟩ := behind_succ hbehind
    rw [field, dropWhile_eq_self hhead, ← field_dropWhile]
    exact ih (head?_dropWhile _) hrest

/-- There are no runs in what has no separators. -/
theorem behind_append (hnone : ∀ c ∈ t, sep c = false) (hbehind : (behind sep n (l ++ t)).isSome) :
    (behind sep n l).isSome := by
  induction n generalizing l with
  | zero => rfl
  | succ n ih =>
    have hany : t.any sep = false := List.any_eq_false.mpr fun c hc => by simp [hnone c hc]
    have hhead : ∀ c ∈ t.head?, sep c = false := fun c hc => hnone c (List.mem_of_mem_head? hc)
    rw [behind, List.any_append, hany, Bool.or_false] at hbehind
    rw [behind]
    split at hbehind
    · rename_i hl
      rw [if_pos hl]
      rw [List.dropWhile_append, if_neg (by simpa using dropWhile_ne_nil hl),
        dropWhile_append_eq hhead] at hbehind
      exact ih hbehind
    · cases hbehind

end Fields

/-! ## Lines -/

section Lines

variable [DecidableEq α] (mark : α)

/-- The lines of a text. -/
def lines : List α → List (List α)
  | [] => []
  | c :: l =>
    if c = mark then [c] :: lines l
    else
      match lines l with
      | [] => [[c]]
      | line :: rest => (c :: line) :: rest

/-- The first line of a text. -/
def firstLine (l : List α) : List α := l.take ((l.takeWhile (· != mark)).length + 1)

/-- A list is cut at the last of its marks. -/
def cutLast : List α → Option (List α × List α)
  | [] => none
  | c :: l =>
    match cutLast l with
    | some (before, after) => some (c :: before, after)
    | none => if c = mark then some ([], l) else none

variable {mark} {l : List α} {n : Nat}

theorem length_firstLine :
    (firstLine mark l).length = min ((l.takeWhile (· != mark)).length + 1) l.length :=
  List.length_take

theorem firstLine_pos (hl : l ≠ []) : 0 < (firstLine mark l).length := by
  have hpos := List.length_pos_iff.mpr hl
  rw [length_firstLine]
  omega

theorem lines_eq (hl : l ≠ []) :
    lines mark l = firstLine mark l :: lines mark (l.drop (firstLine mark l).length) := by
  induction l with
  | nil => exact absurd rfl hl
  | cons c l ih =>
    by_cases hc : c = mark
    · have hfirst : firstLine mark (c :: l) = [c] := by simp [firstLine, hc]
      rw [hfirst, lines, if_pos hc]
      rfl
    · have hfirst : firstLine mark (c :: l) = c :: firstLine mark l := by simp [firstLine, hc]
      rw [hfirst, lines, if_neg hc]
      by_cases hl : l = []
      · subst hl
        rfl
      · rw [ih hl]
        rfl

/-- What is left of a line that has been begun. -/
theorem firstLine_drop (hn : n < (firstLine mark l).length) :
    firstLine mark (l.drop n) = (firstLine mark l).drop n := by
  induction n generalizing l with
  | zero => rfl
  | succ n ih =>
    cases l with
    | nil => simp [firstLine] at hn
    | cons c l =>
      by_cases hc : c = mark
      · simp [firstLine, hc] at hn
      · have hfirst : firstLine mark (c :: l) = c :: firstLine mark l := by simp [firstLine, hc]
        rw [hfirst, List.length_cons] at hn
        rw [hfirst, List.drop_succ_cons, List.drop_succ_cons]
        exact ih (by omega)

/-- A line with its mark comes first. -/
theorem lines_append (hl : mark ∉ l) (t : List α) :
    lines mark (l ++ mark :: t) = (l ++ [mark]) :: lines mark t := by
  induction l with
  | nil => rw [List.nil_append, lines, if_pos rfl, List.nil_append]
  | cons c l ih =>
    obtain ⟨hc, hrest⟩ := not_or.mp (List.mem_cons.not.mp hl)
    rw [List.cons_append, lines, if_neg (Ne.symm hc), ih hrest]
    rfl

theorem cutLast_eq_none (hl : mark ∉ l) : cutLast mark l = none := by
  induction l with
  | nil => rfl
  | cons c l ih =>
    obtain ⟨hc, hrest⟩ := not_or.mp (List.mem_cons.not.mp hl)
    rw [cutLast, ih hrest]
    exact if_neg (Ne.symm hc)

theorem cutLast_append (hl : mark ∉ l) (before : List α) :
    cutLast mark (before ++ mark :: l) = some (before, l) := by
  induction before with
  | nil =>
    rw [List.nil_append, cutLast, cutLast_eq_none hl]
    exact if_pos rfl
  | cons c before ih => rw [List.cons_append, cutLast, ih]

theorem cutLast_eq_some_iff {before after : List α} :
    cutLast mark l = some (before, after) ↔ l = before ++ mark :: after ∧ mark ∉ after := by
  constructor
  · intro hcut
    by_cases hmem : mark ∈ l
    · -- the last mark is the first one from behind
      obtain ⟨back, front, hback, hnone⟩ := List.eq_append_cons_of_mem (List.mem_reverse.mpr hmem)
      have hl : l = front.reverse ++ mark :: back.reverse := by
        rw [← List.reverse_reverse l, hback]
        simp
      have hafter : mark ∉ back.reverse := by rwa [List.mem_reverse]
      rw [hl, cutLast_append hafter] at hcut
      cases hcut
      exact ⟨hl, hafter⟩
    · rw [cutLast_eq_none hmem] at hcut
      cases hcut
  · rintro ⟨rfl, hafter⟩
    exact cutLast_append hafter before

end Lines

/-! ## Rows -/

/-- A line in pieces of at most `k` elements. -/
def pieces (k : Nat) (l : List α) : List (List α) :=
  if 0 < k ∧ k < l.length then l.take k :: pieces k (l.drop k) else [l]
termination_by l.length
decreasing_by rw [List.length_drop]; omega

section Rows

variable {k : Nat} {l : List α}

theorem pieces_of_le (hl : l.length ≤ k) : pieces k l = [l] := by
  rw [pieces, if_neg (by omega)]

theorem pieces_of_lt (hk : 0 < k) (hl : k < l.length) :
    pieces k l = l.take k :: pieces k (l.drop k) := by
  rw [pieces, if_pos ⟨hk, hl⟩]

variable [DecidableEq α] {mark : α}

/-- The rows of a text for a reader with room for `k` elements. -/
def rows (k : Nat) (mark : α) (l : List α) : List (List α) := (lines mark l).flatMap (pieces k)

theorem rows_eq (hk : 0 < k) (hl : l ≠ []) :
    rows k mark l = l.take (min k (firstLine mark l).length) ::
      rows k mark (l.drop (min k (firstLine mark l).length)) := by
  have hfirst : l.take (firstLine mark l).length = firstLine mark l := by
    rw [length_firstLine, ← List.take_take, List.take_length]
    rfl
  unfold rows
  by_cases hfits : (firstLine mark l).length ≤ k
  · rw [min_eq_right hfits, lines_eq hl, List.flatMap_cons, pieces_of_le hfits, hfirst]
    rfl
  · -- the rest of the line is the first line of the rest of the text
    have hrest : l.drop k ≠ [] := by
      rw [ne_eq, List.drop_eq_nil_iff]
      rw [length_firstLine] at hfits
      omega
    have hnext : firstLine mark (l.drop k) = (firstLine mark l).drop k :=
      firstLine_drop (Nat.lt_of_not_le hfits)
    rw [min_eq_left (by omega), lines_eq hl, lines_eq hrest, List.flatMap_cons,
      List.flatMap_cons, pieces_of_lt hk (by omega), hnext, List.cons_append, List.drop_drop,
      List.length_drop, Nat.add_sub_cancel' (by omega)]
    congr 1
    rw [← hfirst, List.take_take, min_eq_left (by omega)]

/-- There are no more rows than elements, and a row fits into the room. -/
theorem rows_bounds (hk : 0 < k) (l : List α) :
    (rows k mark l).length ≤ l.length ∧ ∀ r ∈ rows k mark l, r.length ≤ k := by
  induction hlen : l.length using Nat.strongRecOn generalizing l with
  | ind m ih =>
    by_cases hl : l = []
    · subst hl
      exact ⟨Nat.zero_le _, fun r hr => by cases hr⟩
    · have hpos : 0 < (firstLine mark l).length := firstLine_pos hl
      have hne := List.length_pos_iff.mpr hl
      obtain ⟨hcount, hroom⟩ := ih _ (by rw [List.length_drop]; omega)
        (l.drop (min k (firstLine mark l).length)) rfl
      rw [rows_eq hk hl]
      rw [List.length_drop] at hcount
      refine ⟨by rw [List.length_cons]; omega, ?_⟩
      intro r hr
      rcases List.mem_cons.mp hr with rfl | hr
      · rw [List.length_take]
        omega
      · exact hroom r hr

end Rows

end Text
