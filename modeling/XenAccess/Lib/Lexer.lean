import Mathlib.Data.Nat.Find
import Mathlib.Data.List.Infix

/-!
# Scanners with the longest match

A scanner is a list of rules, each with the lexemes it accepts and an action that makes a
token of a lexeme or drops it. At every point of the text it takes the longest lexeme that
some rule accepts, with the first rule that accepts it; where there is none it drops one
character. This is what scanner generators such as lex produce.

`Munches` says what the next lexeme is without the search for it. A lexeme that is the longest
match in a text stays so in every shorter text that still has it (`Munches.of_append`), so a
stretch of lexemes is scanned alone as it is scanned in the text (`pieces_stretch`).
-/

namespace Lexer

/-- A rule of a scanner. -/
structure Rule (α τ : Type) where
  accepts : List α → Bool
  action : List α → Option τ

/-- A lexeme with the token made of it. -/
structure Piece (α τ : Type) where
  lexeme : List α
  token : Option τ
  deriving DecidableEq, Repr

variable {α τ : Type} (rules : List (Rule α τ))

/-! ## The scanner -/

/-- Some rule accepts the lexeme. -/
def Accepted (l : List α) : Prop := ∃ r ∈ rules, r.accepts l = true

instance : DecidablePred (Accepted rules) :=
  fun l => inferInstanceAs (Decidable (∃ r ∈ rules, r.accepts l = true))

/-- The length of the next lexeme. -/
def nextLength (s : List α) : Nat :=
  max 1 (Nat.findGreatest (fun n => Accepted rules (s.take n)) s.length)

/-- The token of a lexeme. -/
def tokenOf (l : List α) : Option τ := (rules.find? fun r => r.accepts l).bind fun r => r.action l

/-- The scanner on at most `n` lexemes. -/
def scan : Nat → List α → List (Piece α τ)
  | 0, _ => []
  | _ + 1, [] => []
  | n + 1, c :: s =>
    let l := (c :: s).take (nextLength rules (c :: s))
    ⟨l, tokenOf rules l⟩ :: scan n ((c :: s).drop (nextLength rules (c :: s)))

/-- A text cut into its lexemes. -/
def pieces (s : List α) : List (Piece α τ) := scan rules s.length s

/-- The tokens of a text. -/
def tokens (s : List α) : List τ := (pieces rules s).filterMap Piece.token

/-- The text of a stretch of lexemes. -/
def textOf (ps : List (Piece α τ)) : List α := ps.flatMap Piece.lexeme

/-! ## The next lexeme -/

/-- `l` is the next lexeme of the text `s`. -/
structure Munches (s l : List α) : Prop where
  isPrefix : l <+: s
  ne_nil : l ≠ []
  accepted : Accepted rules l ∨ l.length = 1
  longest : ∀ l', l' <+: s → l.length < l'.length → ¬Accepted rules l'

variable {rules} {s l : List α}

theorem nextLength_pos (s : List α) : 0 < nextLength rules s := by
  unfold nextLength
  omega

theorem Munches.nextLength_eq (hl : Munches rules s l) : nextLength rules s = l.length := by
  have hpos : 0 < l.length := List.length_pos_iff.mpr hl.ne_nil
  have hle : l.length ≤ s.length := hl.isPrefix.length_le
  have hlonger : ∀ n, l.length < n → n ≤ s.length → ¬Accepted rules (s.take n) := by
    intro n hn hns
    apply hl.longest _ (List.take_prefix n s)
    rw [List.length_take]
    omega
  unfold nextLength
  by_cases hacc : Accepted rules l
  · have hfind : Nat.findGreatest (fun n => Accepted rules (s.take n)) s.length = l.length := by
      rw [Nat.findGreatest_eq_iff]
      refine ⟨hle, fun _ => ?_, fun n hn hns => hlonger n hn hns⟩
      rw [← List.prefix_iff_eq_take.mp hl.isPrefix]
      exact hacc
    omega
  · have hone : l.length = 1 := hl.accepted.resolve_left hacc
    have hfind : Nat.findGreatest (fun n => Accepted rules (s.take n)) s.length = 0 := by
      rw [Nat.findGreatest_eq_zero_iff]
      intro n hn hns
      by_cases hn1 : n = 1
      · rw [hn1, ← hone, ← List.prefix_iff_eq_take.mp hl.isPrefix]
        exact hacc
      · exact hlonger n (by omega) hns
    omega

theorem munches_take (hs : s ≠ []) : Munches rules s (s.take (nextLength rules s)) := by
  have hpos : 0 < s.length := List.length_pos_iff.mpr hs
  have hbound := Nat.findGreatest_le (P := fun n => Accepted rules (s.take n)) s.length
  have hlen : (s.take (nextLength rules s)).length = nextLength rules s := by
    rw [List.length_take]
    unfold nextLength
    omega
  refine ⟨List.take_prefix _ _, ?_, ?_, ?_⟩
  · rw [← List.length_pos_iff, hlen]
    exact nextLength_pos s
  · rw [hlen]
    by_cases hfind : Nat.findGreatest (fun n => Accepted rules (s.take n)) s.length = 0
    · right
      unfold nextLength
      rw [hfind]
      rfl
    · left
      have hacc := Nat.findGreatest_of_ne_zero rfl hfind
      unfold nextLength
      rw [Nat.max_eq_right (by omega)]
      exact hacc
  · intro l' hl' hlt hacc
    rw [hlen] at hlt
    rw [List.prefix_iff_eq_take.mp hl'] at hacc
    have hle := Nat.le_findGreatest (P := fun n => Accepted rules (s.take n)) hl'.length_le hacc
    unfold nextLength at hlt
    omega

/-- A longer beginning of a text goes on with the next characters. -/
theorem exists_of_longer {t l' : List α} (hl' : l' <+: l ++ t) (hlong : l.length < l'.length) :
    ∃ d m, l' = l ++ d :: m ∧ d :: m <+: t := by
  obtain ⟨m, rfl⟩ := List.prefix_of_prefix_length_le (List.prefix_append l t) hl' hlong.le
  rw [List.prefix_append_right_inj] at hl'
  cases m with
  | nil => simp at hlong
  | cons d m => exact ⟨d, m, rfl, hl'⟩

/-- A shorter text that still has the lexeme has the same next lexeme. -/
theorem Munches.of_append {t : List α} (hl : Munches rules (s ++ t) l) (hs : l <+: s) :
    Munches rules s l :=
  ⟨hs, hl.ne_nil, hl.accepted, fun l' hl' => hl.longest l' (hl'.trans (List.prefix_append s t))⟩

/-! ## The lexemes of a text -/

theorem scan_eq_pieces (n : Nat) (hn : s.length ≤ n) : scan rules n s = pieces rules s := by
  induction n using Nat.strongRecOn generalizing s with
  | ind n ih =>
    cases s with
    | nil =>
      cases n with
      | zero => rfl
      | succ n => rfl
    | cons c s =>
      obtain ⟨m, rfl⟩ : ∃ m, n = m + 1 := Nat.exists_eq_succ_of_ne_zero (by simp at hn; omega)
      have hrest : ((c :: s).drop (nextLength rules (c :: s))).length ≤ s.length := by
        have hpos : 0 < nextLength rules (c :: s) := nextLength_pos _
        rw [List.length_drop, List.length_cons]
        omega
      have hlen : s.length ≤ m := by simpa using hn
      unfold pieces
      rw [List.length_cons, scan, scan, ih m (by omega) (by omega)]
      by_cases hm : s.length < m + 1
      · rw [ih s.length hm hrest]
      · omega

@[simp] theorem pieces_nil : pieces rules ([] : List α) = [] := rfl

/-- The scanner takes the next lexeme and goes on behind it. -/
theorem Munches.pieces_append {t : List α} (hl : Munches rules (l ++ t) l) :
    pieces rules (l ++ t) = ⟨l, tokenOf rules l⟩ :: pieces rules t := by
  have hlength := hl.nextLength_eq
  obtain ⟨c, l, rfl⟩ := List.exists_cons_of_ne_nil hl.ne_nil
  have htake : (c :: l ++ t).take (c :: l).length = c :: l := List.take_left
  have hdrop : (c :: l ++ t).drop (c :: l).length = t := List.drop_left
  show scan rules ((l ++ t).length + 1) (c :: (l ++ t)) = _
  rw [scan]
  show ⟨(c :: l ++ t).take (nextLength rules (c :: l ++ t)),
    tokenOf rules ((c :: l ++ t).take (nextLength rules (c :: l ++ t)))⟩ ::
      scan rules (l ++ t).length ((c :: l ++ t).drop (nextLength rules (c :: l ++ t))) = _
  rw [hlength, htake, hdrop, scan_eq_pieces _ (by simp)]

theorem Munches.tokens_append {t : List α} (hl : Munches rules (l ++ t) l) :
    tokens rules (l ++ t) = (tokenOf rules l).toList ++ tokens rules t := by
  unfold tokens
  rw [hl.pieces_append, List.filterMap_cons]
  cases tokenOf rules l with
  | none => rfl
  | some x => rfl

@[simp] theorem tokens_nil : tokens rules ([] : List α) = [] := rfl

/-- Induction over the lexemes of a text. -/
theorem munch_induction (rules : List (Rule α τ)) {motive : List α → Prop} (nil : motive [])
    (munch : ∀ l t, Munches rules (l ++ t) l → motive t → motive (l ++ t)) (s : List α) :
    motive s := by
  induction hn : s.length using Nat.strongRecOn generalizing s with
  | ind n ih =>
    cases s with
    | nil => exact nil
    | cons c s =>
      have hl : Munches rules (c :: s) ((c :: s).take (nextLength rules (c :: s))) :=
        munches_take (List.cons_ne_nil c s)
      have hpos : 0 < nextLength rules (c :: s) := nextLength_pos _
      have hshort : ((c :: s).drop (nextLength rules (c :: s))).length < n := by
        rw [List.length_drop, ← hn, List.length_cons]
        omega
      have hrest := ih _ hshort _ rfl
      rw [← List.take_append_drop (nextLength rules (c :: s)) (c :: s)]
      apply munch _ _ _ hrest
      rwa [List.take_append_drop]

@[simp] theorem textOf_cons (p : Piece α τ) (ps : List (Piece α τ)) :
    textOf (p :: ps) = p.lexeme ++ textOf ps := rfl

@[simp] theorem textOf_append (ps qs : List (Piece α τ)) :
    textOf (ps ++ qs) = textOf ps ++ textOf qs := List.flatMap_append

/-- The lexemes make up the text. -/
theorem textOf_pieces (s : List α) : textOf (pieces rules s) = s := by
  induction s using munch_induction rules with
  | nil => rfl
  | munch l t hl ih => rw [hl.pieces_append, textOf_cons, ih]

/-- The first lexeme of a text and the rest. -/
theorem pieces_eq_cons {p : Piece α τ} {ps : List (Piece α τ)} (hs : pieces rules s = p :: ps) :
    ∃ t, s = p.lexeme ++ t ∧ Munches rules (p.lexeme ++ t) p.lexeme ∧
      p.token = tokenOf rules p.lexeme ∧ pieces rules t = ps := by
  induction s using munch_induction rules with
  | nil => cases hs
  | munch l t hl _ =>
    rw [hl.pieces_append] at hs
    obtain ⟨rfl, rfl⟩ := List.cons.inj hs
    exact ⟨t, rfl, hl, rfl, rfl⟩

theorem token_of_mem_pieces {p : Piece α τ} (hp : p ∈ pieces rules s) :
    p.token = tokenOf rules p.lexeme := by
  induction s using munch_induction rules with
  | nil => cases hp
  | munch l t hl ih =>
    rw [hl.pieces_append] at hp
    rcases List.mem_cons.mp hp with rfl | hp
    · rfl
    · exact ih hp

theorem pieces_back {ps qs : List (Piece α τ)} (hs : pieces rules s = ps ++ qs) :
    pieces rules (textOf qs) = qs := by
  induction ps generalizing s with
  | nil =>
    rw [List.nil_append] at hs
    rw [← hs, textOf_pieces]
  | cons p ps ih =>
    obtain ⟨t, -, -, -, ht⟩ := pieces_eq_cons hs
    exact ih ht

theorem pieces_front {ps qs : List (Piece α τ)} (hs : pieces rules s = ps ++ qs) :
    pieces rules (textOf ps) = ps := by
  induction ps generalizing s with
  | nil => rfl
  | cons p ps ih =>
    obtain ⟨t, -, hmunches, htoken, ht⟩ := pieces_eq_cons hs
    change pieces rules t = ps ++ qs at ht
    have htext : t = textOf ps ++ textOf qs := by
      rw [← textOf_append, ← ht, textOf_pieces]
    rw [htext, ← List.append_assoc] at hmunches
    have hshort := hmunches.of_append (List.prefix_append p.lexeme (textOf ps))
    rw [textOf_cons, hshort.pieces_append, ih ht, ← htoken]

/-- A stretch of lexemes is scanned alone as it is scanned in the text. -/
theorem pieces_stretch {ps qs rs : List (Piece α τ)} (hs : pieces rules s = ps ++ qs ++ rs) :
    pieces rules (textOf qs) = qs := by
  have hfront : pieces rules (textOf (ps ++ qs)) = ps ++ qs := pieces_front hs
  exact pieces_back hfront

/-- A lexeme ends with the first of this character that it has. -/
def EndsLexeme (rules : List (Rule α τ)) (stop : α) : Prop :=
  ∀ l, Accepted rules l → stop ∉ l.dropLast

/-- A lexeme does not reach over such a character into the text behind it. -/
theorem EndsLexeme.munches_append {stop : α} {t : List α} (hstop : EndsLexeme rules stop)
    (hs : s.getLast? = some stop) (hl : Munches rules s l) : Munches rules (s ++ t) l := by
  refine ⟨hl.isPrefix.trans (List.prefix_append s t), hl.ne_nil, hl.accepted, ?_⟩
  intro l' hl' hlong hacc
  by_cases hshort : l'.length ≤ s.length
  · exact hl.longest l' (List.prefix_of_prefix_length_le hl' (List.prefix_append s t) hshort)
      hlong hacc
  · obtain ⟨d, m, rfl, -⟩ := exists_of_longer hl' (by omega)
    apply hstop _ hacc
    rw [List.dropLast_append_of_ne_nil (List.cons_ne_nil d m)]
    exact List.mem_append_left _ (List.mem_of_getLast? hs)

/-- What ends with such a character is scanned apart from what follows it. -/
theorem EndsLexeme.tokens_append {stop : α} (hstop : EndsLexeme rules stop)
    (hs : s = [] ∨ s.getLast? = some stop) (t : List α) :
    tokens rules (s ++ t) = tokens rules s ++ tokens rules t := by
  induction s using munch_induction rules with
  | nil => rfl
  | munch l s hl ih =>
    have hlast : (l ++ s).getLast? = some stop :=
      hs.resolve_left fun hnil => hl.ne_nil (List.append_eq_nil_iff.mp hnil).1
    have hrest : s = [] ∨ s.getLast? = some stop := by
      cases s with
      | nil => exact .inl rfl
      | cons c s =>
        right
        rwa [List.getLast?_append_of_ne_nil _ (List.cons_ne_nil c s)] at hlast
    have hlong := hstop.munches_append (t := t) hlast hl
    rw [List.append_assoc] at hlong ⊢
    rw [hlong.tokens_append, hl.tokens_append, ih hrest, List.append_assoc]

end Lexer
