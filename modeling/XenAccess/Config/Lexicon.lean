import Mathlib.Data.List.TakeWhile
import XenAccess.Model.Config

/-!
# Lexemes of the configuration

Which lexeme `lexicon.l` takes next and which token it makes of it. A run of the characters of
names, paths, keys and numbers ends where such a character does not follow, so its token
depends on the run alone. White space and comments make no token; a `#` whose line has no end
is dropped alone.
-/

namespace XenAccess.Config

open Lexer

variable {l s w : CStr} {c : U8}

/-! ## Characters -/

/-- The characters of names, paths, numbers and keys. -/
def isTokenChar (c : U8) : Bool := isFileChar c || c == 95

theorem eq_iff_toNat (c d : U8) : c = d ↔ c.toNat = d.toNat :=
  ⟨congrArg BitVec.toNat, BitVec.eq_of_toNat_eq⟩

theorem isAlpha_iff : isAlpha c = true ↔
    (65 ≤ c.toNat ∧ c.toNat ≤ 90) ∨ (97 ≤ c.toNat ∧ c.toNat ≤ 122) := by
  simp [isAlpha, BitVec.le_def]

theorem isDecimal_iff : isDecimal c = true ↔ 48 ≤ c.toNat ∧ c.toNat ≤ 57 := by
  simp [isDecimal, BitVec.le_def]

theorem isHex_iff : isHex c = true ↔ (48 ≤ c.toNat ∧ c.toNat ≤ 57) ∨
    (97 ≤ c.toNat ∧ c.toNat ≤ 102) ∨ (65 ≤ c.toNat ∧ c.toNat ≤ 70) := by
  unfold isHex xdigit
  simp only [Bool.and_eq_true, decide_eq_true_eq, BitVec.le_def]
  split
  · simp_all
  · split
    · simp_all
    · split <;> simp_all

theorem isWordChar_iff : isWordChar c = true ↔
    isAlpha c = true ∨ isDecimal c = true ∨ c.toNat = 46 ∨ c.toNat = 45 := by
  simp [isWordChar, eq_iff_toNat, or_assoc]

theorem isFileChar_iff : isFileChar c = true ↔ isWordChar c = true ∨ c.toNat = 47 := by
  simp [isFileChar, eq_iff_toNat]

theorem isBlank_iff : isBlank c = true ↔ c.toNat = 32 ∨ c.toNat = 9 := by
  simp [isBlank, eq_iff_toNat]

theorem isTokenChar_of_isFileChar (hc : isFileChar c = true) : isTokenChar c = true := by
  unfold isTokenChar
  rw [hc, Bool.true_or]

theorem isFileChar_of_isWordChar (hc : isWordChar c = true) : isFileChar c = true :=
  isFileChar_iff.mpr (.inl hc)

theorem isWordChar_of_isAlpha (hc : isAlpha c = true) : isWordChar c = true :=
  isWordChar_iff.mpr (.inl hc)

theorem isWordChar_of_isDecimal (hc : isDecimal c = true) : isWordChar c = true :=
  isWordChar_iff.mpr (.inr (.inl hc))

theorem isFileChar_of_isHex (hc : isHex c = true) : isFileChar c = true := by
  rw [isHex_iff] at hc
  rw [isFileChar_iff, isWordChar_iff, isAlpha_iff, isDecimal_iff]
  omega

theorem isHex_of_isDecimal (hc : isDecimal c = true) : isHex c = true :=
  isHex_iff.mpr (.inl (isDecimal_iff.mp hc))

theorem not_isDecimal_of_isAlpha (hc : isAlpha c = true) : ¬isDecimal c = true := by
  rw [isAlpha_iff] at hc
  rw [isDecimal_iff]
  omega

/-- The other characters that the lexicon has a rule for, and the terminator of a string, are
no characters of a text. -/
theorem ne_of_isFileChar (hc : isFileChar c = true) : c ≠ 0 ∧ c ≠ 35 ∧ ¬isBlank c = true := by
  rw [isFileChar_iff, isWordChar_iff, isAlpha_iff, isDecimal_iff] at hc
  rw [isBlank_iff, ne_eq, ne_eq, eq_iff_toNat, eq_iff_toNat]
  simp
  omega

/-- White space is nothing else. -/
theorem ne_of_isBlank (hc : isBlank c = true) : ¬isFileChar c = true ∧ c ≠ 35 := by
  refine ⟨fun hfile => (ne_of_isFileChar hfile).2.2 hc, ?_⟩
  rintro rfl
  cases hc

/-! ## Rules -/

theorem fileChars_of_acceptsNum (hl : acceptsNum l = true) : ∀ d ∈ l, isFileChar d = true := by
  unfold acceptsNum at hl
  simp only [Bool.or_eq_true, Bool.and_eq_true, beq_iff_eq, List.all_eq_true] at hl
  rcases hl with ⟨⟨hstart, -⟩, hhex⟩ | ⟨-, hdec⟩
  · intro d hd
    rw [← List.take_append_drop 2 l, hstart] at hd
    rcases List.mem_append.mp hd with hd | hd
    · have hboth : ∀ d ∈ ([48, 120] : CStr), isFileChar d = true := by decide
      exact hboth d hd
    · exact isFileChar_of_isHex (hhex d hd)
  · intro d hd
    exact isFileChar_of_isWordChar (isWordChar_of_isDecimal (hdec d hd))

theorem wordChars_of_acceptsWord (hl : acceptsWord l = true) : ∀ d ∈ l, isWordChar d = true := by
  cases l with
  | nil => simp
  | cons c l =>
    unfold acceptsWord at hl
    simp only [Bool.and_eq_true, List.all_eq_true] at hl
    intro d hd
    rcases List.mem_cons.mp hd with rfl | hd
    · exact isWordChar_of_isAlpha hl.1.1
    · exact hl.2 d hd

theorem fileChars_of_acceptsFilename (hl : acceptsFilename l = true) :
    ∀ d ∈ l, isFileChar d = true := by
  unfold acceptsFilename at hl
  simp only [Bool.and_eq_true, List.all_eq_true] at hl
  exact hl.2

theorem acceptsBlanks_iff : acceptsBlanks l = true ↔ l ≠ [] ∧ ∀ d ∈ l, isBlank d = true := by
  unfold acceptsBlanks
  simp

theorem acceptsComment_iff :
    acceptsComment l = true ↔ ∃ body, 10 ∉ body ∧ l = 35 :: (body ++ [10]) := by
  cases l with
  | nil => simp [acceptsComment]
  | cons c cs =>
    unfold acceptsComment
    simp only [Bool.and_eq_true, beq_iff_eq, Bool.not_eq_true', List.contains_eq_mem,
      decide_eq_false_iff_not, List.cons.injEq, List.getLast?_eq_some_iff]
    constructor
    · rintro ⟨⟨rfl, body, rfl⟩, hbody⟩
      rw [List.dropLast_concat] at hbody
      exact ⟨body, hbody, rfl, rfl⟩
    · rintro ⟨body, hbody, rfl, rfl⟩
      rw [List.dropLast_concat]
      exact ⟨⟨rfl, body, rfl⟩, hbody⟩

/-- A key starts with a letter. -/
theorem keywords_chars {k : CStr × Token} (hk : k ∈ keywords) :
    ∃ c w, k.1 = c :: w ∧ isAlpha c = true ∧ ∀ d ∈ k.1, isTokenChar d = true := by
  have hall : ∀ k ∈ keywords, k.1.head?.any isAlpha = true ∧ k.1.all isTokenChar = true := by
    decide
  obtain ⟨halpha, hchars⟩ := hall k hk
  cases hlexeme : k.1 with
  | nil =>
    rw [hlexeme] at halpha
    cases halpha
  | cons c w =>
    rw [hlexeme] at halpha hchars
    exact ⟨c, w, rfl, halpha, List.all_eq_true.mp hchars⟩

theorem keywords_token {k : CStr × Token} (hk : k ∈ keywords) :
    (∃ key, k.2 = .offset key) ∨ k.2 = .sysmaptok ∨ k.2 = .ostypetok := by
  unfold keywords at hk
  rcases List.mem_append.mp hk with hk | hk
  · obtain ⟨key, -, rfl⟩ := List.mem_map.mp hk
    exact .inl ⟨key, rfl⟩
  · simp only [List.mem_cons, List.not_mem_nil, or_false] at hk
    rcases hk with rfl | rfl
    · exact .inr (.inl rfl)
    · exact .inr (.inr rfl)

/-- A lexeme of more than one character is a text, white space or a comment. -/
theorem accepted_cases (hacc : Accepted lexicon (c :: l)) (hl : l ≠ []) :
    (isFileChar c = true ∧ ∀ d ∈ c :: l, isTokenChar d = true) ∨
      acceptsBlanks (c :: l) = true ∨ acceptsComment (c :: l) = true := by
  have htext (hall : ∀ d ∈ c :: l, isFileChar d = true) :
      isFileChar c = true ∧ ∀ d ∈ c :: l, isTokenChar d = true :=
    ⟨hall c List.mem_cons_self, fun d hd => isTokenChar_of_isFileChar (hall d hd)⟩
  obtain ⟨r, hr, hacc⟩ := hacc
  unfold lexicon at hr
  simp only [List.append_assoc, List.mem_append, List.mem_map, List.mem_cons, List.not_mem_nil,
    or_false] at hr
  rcases hr with ⟨k, hk, rfl⟩ | (rfl | rfl | rfl) | ⟨p, -, rfl⟩ | rfl | rfl
  · have heq : c :: l = k.1 := beq_iff_eq.mp hacc
    obtain ⟨c', w, hw, halpha, hchars⟩ := keywords_chars hk
    rw [← heq] at hchars hw
    obtain ⟨rfl, rfl⟩ := List.cons.inj hw
    exact .inl ⟨isFileChar_of_isWordChar (isWordChar_of_isAlpha halpha), hchars⟩
  · exact .inl (htext (fileChars_of_acceptsNum hacc))
  · exact .inl (htext fun d hd => isFileChar_of_isWordChar (wordChars_of_acceptsWord hacc d hd))
  · exact .inl (htext (fileChars_of_acceptsFilename hacc))
  · have heq : c :: l = [p.1] := beq_iff_eq.mp hacc
    exact absurd (List.cons.inj heq).2 hl
  · exact .inr (.inl hacc)
  · exact .inr (.inr hacc)

/-! ## The next lexeme -/

/-- A text ends before `s`. -/
def Stops (s : CStr) : Prop := ∀ d ∈ s.head?, isTokenChar d = false

theorem munches_text (hc : isFileChar c = true) (hacc : Accepted lexicon (c :: w)) (hs : Stops s) :
    Munches lexicon (c :: w ++ s) (c :: w) := by
  refine ⟨List.prefix_append _ _, List.cons_ne_nil _ _, .inl hacc, ?_⟩
  intro l' hl' hlong hacc'
  obtain ⟨d, m, rfl, s', rfl⟩ := exists_of_longer hl' hlong
  have hstop : isTokenChar d = false := hs d rfl
  rcases accepted_cases hacc' (by simp) with ⟨-, hall⟩ | hblanks | hcomment
  · rw [hall d (by simp)] at hstop
    cases hstop
  · exact (ne_of_isFileChar hc).2.2 ((acceptsBlanks_iff.mp hblanks).2 c List.mem_cons_self)
  · obtain ⟨body, -, heq⟩ := acceptsComment_iff.mp hcomment
    exact (ne_of_isFileChar hc).2.1 (List.cons.inj heq).1

/-- A character that starts no longer lexeme. -/
theorem munches_single (hfile : isFileChar c = false) (hblank : isBlank c = false) (hc : c ≠ 35)
    (s : CStr) : Munches lexicon ([c] ++ s) [c] := by
  refine ⟨List.prefix_append _ _, List.cons_ne_nil _ _, .inr rfl, ?_⟩
  intro l' hl' hlong hacc'
  obtain ⟨d, m, rfl, -⟩ := exists_of_longer hl' hlong
  rcases accepted_cases hacc' (by simp) with ⟨hchar, -⟩ | hblanks | hcomment
  · rw [hfile] at hchar
    cases hchar
  · rw [(acceptsBlanks_iff.mp hblanks).2 c List.mem_cons_self] at hblank
    cases hblank
  · obtain ⟨body, -, heq⟩ := acceptsComment_iff.mp hcomment
    exact hc (List.cons.inj heq).1

theorem munches_blanks (hc : isBlank c = true) (s : CStr) :
    Munches lexicon (c :: s.takeWhile isBlank ++ s.dropWhile isBlank)
      (c :: s.takeWhile isBlank) := by
  have hall : acceptsBlanks (c :: s.takeWhile isBlank) = true := by
    rw [acceptsBlanks_iff]
    refine ⟨List.cons_ne_nil _ _, fun d hd => ?_⟩
    rcases List.mem_cons.mp hd with rfl | hd
    · exact hc
    · exact List.mem_takeWhile_imp hd
  refine ⟨List.prefix_append _ _, List.cons_ne_nil _ _, .inl ?_, ?_⟩
  · exact ⟨⟨acceptsBlanks, fun _ => none⟩, by simp [lexicon], hall⟩
  · intro l' hl' hlong hacc'
    obtain ⟨d, m, rfl, s', hrest⟩ := exists_of_longer hl' hlong
    have hend : ¬isBlank d = true := by
      have hhead := List.head?_dropWhile_not isBlank s
      rw [← hrest] at hhead
      simpa using hhead
    rcases accepted_cases hacc' (by simp) with ⟨hchar, -⟩ | hblanks | hcomment
    · exact (ne_of_isBlank hc).1 hchar
    · exact hend ((acceptsBlanks_iff.mp hblanks).2 d (by simp))
    · obtain ⟨body, -, heq⟩ := acceptsComment_iff.mp hcomment
      exact (ne_of_isBlank hc).2 (List.cons.inj heq).1

/-- What starts with `#` is a comment. -/
theorem comment_of_accepted (hacc : Accepted lexicon (35 :: l)) (hl : l ≠ []) :
    ∃ body, 10 ∉ body ∧ l = body ++ [10] := by
  rcases accepted_cases hacc hl with ⟨hchar, -⟩ | hblanks | hcomment
  · cases hchar
  · cases (acceptsBlanks_iff.mp hblanks).2 35 List.mem_cons_self
  · obtain ⟨body, hbody, heq⟩ := acceptsComment_iff.mp hcomment
    exact ⟨body, hbody, (List.cons.inj heq).2⟩

/-- A comment ends with its line. -/
theorem munches_comment {body : CStr} (hbody : 10 ∉ body) (s : CStr) :
    Munches lexicon (35 :: (body ++ [10]) ++ s) (35 :: (body ++ [10])) := by
  have hcomment : acceptsComment (35 :: (body ++ [10])) = true :=
    acceptsComment_iff.mpr ⟨body, hbody, rfl⟩
  refine ⟨List.prefix_append _ _, List.cons_ne_nil _ _, .inl ?_, ?_⟩
  · exact ⟨⟨acceptsComment, fun _ => none⟩, by simp [lexicon], hcomment⟩
  · intro l' hl' hlong hacc'
    obtain ⟨d, m, rfl, -⟩ := exists_of_longer hl' hlong
    obtain ⟨body', hbody', heq⟩ := comment_of_accepted hacc' (by simp)
    apply hbody'
    have hlast := congrArg List.dropLast heq
    rw [List.dropLast_concat] at hlast
    rw [← hlast]
    simp [List.dropLast_append_of_ne_nil]

/-- A comment without the end of its line is not one. -/
theorem munches_hash {body : CStr} (hbody : 10 ∉ body) : Munches lexicon ([35] ++ body) [35] := by
  refine ⟨List.prefix_append _ _, List.cons_ne_nil _ _, .inr rfl, ?_⟩
  intro l' hl' hlong hacc'
  obtain ⟨d, m, rfl, hm⟩ := exists_of_longer hl' hlong
  obtain ⟨body', -, heq⟩ := comment_of_accepted hacc' (by simp)
  have hend : 10 ∈ d :: m := by
    rw [show d :: m = body' ++ [10] from heq]
    simp
  exact hbody (hm.subset hend)

/-! ## The token of a lexeme -/

/-- What makes a token. -/
theorem tokenOf_cases {t : Token} (ht : tokenOf lexicon l = some t) :
    (∃ k ∈ keywords, l = k.1 ∧ t = k.2) ∨ (acceptsNum l = true ∧ t = .num l) ∨
      (acceptsWord l = true ∧ t = .word l) ∨ (acceptsFilename l = true ∧ t = .filename l) ∨
        ∃ p ∈ punctuation, l = [p.1] ∧ some t = p.2 := by
  obtain ⟨r, hfind, haction⟩ := Option.bind_eq_some_iff.mp ht
  have hacc := List.find?_some hfind
  change r.accepts l = true at hacc
  have hr := List.mem_of_find?_eq_some hfind
  unfold lexicon at hr
  simp only [List.append_assoc, List.mem_append, List.mem_map, List.mem_cons, List.not_mem_nil,
    or_false] at hr
  rcases hr with ⟨k, hk, rfl⟩ | (rfl | rfl | rfl) | ⟨p, hp, rfl⟩ | rfl | rfl
  · exact .inl ⟨k, hk, beq_iff_eq.mp hacc, (Option.some.inj haction).symm⟩
  · exact .inr (.inl ⟨hacc, (Option.some.inj haction).symm⟩)
  · exact .inr (.inr (.inl ⟨hacc, (Option.some.inj haction).symm⟩))
  · exact .inr (.inr (.inr (.inl ⟨hacc, (Option.some.inj haction).symm⟩)))
  · exact .inr (.inr (.inr (.inr ⟨p, hp, beq_iff_eq.mp hacc, haction.symm⟩)))
  · cases haction
  · cases haction

theorem acceptsWord_of_tokenOf (hl : tokenOf lexicon l = some (.word w)) :
    acceptsWord w = true := by
  rcases tokenOf_cases hl with ⟨k, hk, -, ht⟩ | ⟨-, ht⟩ | ⟨hword, ht⟩ | ⟨-, ht⟩ | ⟨p, hp, -, ht⟩
  · rcases keywords_token hk with ⟨key, hkey⟩ | hkey | hkey <;> cases ht.trans hkey
  · cases ht
  · cases ht
    exact hword
  · cases ht
  · simp only [punctuation, List.mem_cons, List.not_mem_nil, or_false] at hp
    rcases hp with rfl | rfl | rfl | rfl | rfl | rfl <;> cases ht

theorem tokenOf_keyword : ∀ k ∈ keywords, tokenOf lexicon k.1 = some k.2 := by
  decide

/-- The token of a text that is no key. -/
theorem tokenOf_text (hkey : ∀ k ∈ keywords, l ≠ k.1) (hl : acceptsFilename l = true) :
    tokenOf lexicon l = some (if acceptsNum l then .num l else if acceptsWord l then .word l
      else .filename l) := by
  have hnone : ((keywords.map fun k => literal k.1 (some k.2)).find? fun r => r.accepts l) = none := by
    rw [List.find?_eq_none]
    intro r hr
    obtain ⟨k, hk, rfl⟩ := List.mem_map.mp hr
    simpa [literal] using hkey k hk
  unfold tokenOf lexicon
  rw [List.append_assoc, List.append_assoc, List.find?_append, hnone, Option.none_or,
    List.find?_append, List.find?_cons, List.find?_cons, List.find?_cons]
  simp only [hl]
  cases acceptsNum l with
  | true => rfl
  | false =>
    cases acceptsWord l with
    | true => rfl
    | false => rfl

/-- A lexeme that is no text and not one of the single characters has no token. -/
theorem tokenOf_none (hc : ¬isFileChar c = true) (hl : ∀ p ∈ punctuation, c :: l ≠ [p.1]) :
    tokenOf lexicon (c :: l) = none := by
  rw [← Option.not_isSome_iff_eq_none, Option.isSome_iff_exists]
  rintro ⟨t, ht⟩
  rcases tokenOf_cases ht with ⟨k, hk, heq, -⟩ | ⟨hnum, -⟩ | ⟨hword, -⟩ | ⟨hfile, -⟩ | ⟨p, hp, heq, -⟩
  · obtain ⟨c', w, hw, halpha, -⟩ := keywords_chars hk
    rw [← heq] at hw
    obtain ⟨rfl, rfl⟩ := List.cons.inj hw
    exact hc (isFileChar_of_isWordChar (isWordChar_of_isAlpha halpha))
  · exact hc (fileChars_of_acceptsNum hnum c List.mem_cons_self)
  · exact hc (isFileChar_of_isWordChar (wordChars_of_acceptsWord hword c List.mem_cons_self))
  · exact hc (fileChars_of_acceptsFilename hfile c List.mem_cons_self)
  · exact hl p hp heq

/-! ## Tokens of a text -/

theorem punctuation_single : ∀ p ∈ punctuation, isFileChar p.1 = false ∧ isBlank p.1 = false ∧
    p.1 ≠ 35 ∧ tokenOf lexicon [p.1] = p.2 := by
  decide

theorem tokens_punctuation {t : Option Token} (hp : (c, t) ∈ punctuation) (s : CStr) :
    tokens lexicon (c :: s) = t.toList ++ tokens lexicon s := by
  obtain ⟨hfile, hblank, hhash, htoken⟩ := punctuation_single (c, t) hp
  have hmunch := (munches_single hfile hblank hhash s).tokens_append
  rw [htoken] at hmunch
  exact hmunch

/-- Leading white space makes no token. -/
theorem tokens_dropWhile (s : CStr) :
    tokens lexicon (s.dropWhile isBlank) = tokens lexicon s := by
  cases s with
  | nil => rfl
  | cons c s =>
    rw [List.dropWhile_cons]
    by_cases hc : isBlank c = true
    · have htoken : tokenOf lexicon (c :: s.takeWhile isBlank) = none := by
        apply tokenOf_none (ne_of_isBlank hc).1
        intro p hp heq
        have hblank := (punctuation_single p hp).2.1
        rw [← (List.cons.inj heq).1, hc] at hblank
        cases hblank
      have hmunch := (munches_blanks hc s).tokens_append
      rw [htoken, List.cons_append, List.takeWhile_append_dropWhile] at hmunch
      rw [if_pos hc, hmunch]
      rfl
    · rw [if_neg hc]

theorem tokens_blank (hc : isBlank c = true) (s : CStr) :
    tokens lexicon (c :: s) = tokens lexicon s := by
  rw [← tokens_dropWhile (c :: s), List.dropWhile_cons, if_pos hc, tokens_dropWhile]

theorem tokens_comment {body : CStr} (hbody : 10 ∉ body) (s : CStr) :
    tokens lexicon (35 :: (body ++ 10 :: s)) = tokens lexicon s := by
  have htoken : tokenOf lexicon (35 :: (body ++ [10])) = none :=
    tokenOf_none (by decide) fun p _ heq => by simp at heq
  have hmunch := (munches_comment hbody s).tokens_append
  rw [htoken] at hmunch
  simpa using hmunch

/-- A comment without the end of its line is read as text. -/
theorem tokens_hash {body : CStr} (hbody : 10 ∉ body) :
    tokens lexicon (35 :: body) = tokens lexicon body := by
  have hmunch := (munches_hash hbody).tokens_append
  have htoken : tokenOf lexicon [35] = none := by decide
  rw [htoken] at hmunch
  exact hmunch

/-- A text is one lexeme if no character of a text follows. -/
theorem tokens_text (hw : acceptsFilename w = true) (hs : Stops s) :
    tokens lexicon (w ++ s) = (tokenOf lexicon w).toList ++ tokens lexicon s := by
  cases w with
  | nil => cases hw
  | cons c w =>
    have hc := fileChars_of_acceptsFilename hw c List.mem_cons_self
    have hacc : Accepted lexicon (c :: w) :=
      ⟨⟨acceptsFilename, fun yytext => some (.filename yytext)⟩, by simp [lexicon], hw⟩
    exact (munches_text hc hacc hs).tokens_append

theorem not_acceptsNum_of_isAlpha (hc : isAlpha c = true) : acceptsNum (c :: w) = false := by
  have hdigit : isDecimal c = false := Bool.eq_false_iff.mpr (not_isDecimal_of_isAlpha hc)
  have hzero : c ≠ 48 := by
    rintro rfl
    cases hc
  have hstart : ((c :: w).take 2 == [48, 120]) = false := by
    rw [beq_eq_false_iff_ne]
    exact fun heq => hzero (List.cons.inj heq).1
  unfold acceptsNum
  rw [hstart, List.all_cons, hdigit]
  simp

/-- The token of a word that is no key. -/
theorem tokenOf_word (hkey : ∀ k ∈ keywords, w ≠ k.1) (hw : acceptsWord w = true) :
    tokenOf lexicon w = some (.word w) := by
  cases w with
  | nil => cases hw
  | cons c w =>
    have hfile : acceptsFilename (c :: w) = true := by
      unfold acceptsFilename
      simp only [List.isEmpty_cons, Bool.not_false, Bool.true_and, List.all_eq_true]
      exact fun d hd => isFileChar_of_isWordChar (wordChars_of_acceptsWord hw d hd)
    have halpha : isAlpha c = true := by
      unfold acceptsWord at hw
      simp only [Bool.and_eq_true] at hw
      exact hw.1.1
    rw [tokenOf_text hkey hfile, not_acceptsNum_of_isAlpha halpha, hw]
    rfl

end XenAccess.Config
