import XenAccess.Config.Grammar
import XenAccess.Config.Lexicon

/-!
# The documented format

A configuration entry as a user writes it, after the section on the configuration file in
`xenaccess.h.in`: the name, and for each key of the operating system one assignment, in any
order, with white space and comments between the tokens. Numbers are decimal or hexadecimal,
strings are quoted. Behind the block there may be a last comment whose line has no end.

`Document.tokens_text` gives the tokens of such a text.
-/

namespace XenAccess.Config

open Lexer

variable {s : CStr}

/-! ## White space and comments -/

/-- What may stand between two tokens. -/
inductive GapItem where
  | space
  | tab
  | newline
  /-- a comment with the end of its line -/
  | comment (body : { body : CStr // 10 ∉ body })

def GapItem.text : GapItem → CStr
  | .space => [32]
  | .tab => [9]
  | .newline => [10]
  | .comment body => 35 :: (body.1 ++ [10])

abbrev Gap := List GapItem

def Gap.text (gap : Gap) : CStr := gap.flatMap GapItem.text

theorem GapItem.tokens_append (item : GapItem) (s : CStr) :
    tokens lexicon (item.text ++ s) = tokens lexicon s := by
  cases item with
  | space => exact tokens_blank rfl s
  | tab => exact tokens_blank rfl s
  | newline => exact tokens_punctuation (t := none) (by simp [punctuation]) s
  | comment body =>
    obtain ⟨body, hbody⟩ := body
    show tokens lexicon (35 :: (body ++ [10]) ++ s) = _
    rw [List.cons_append, List.append_assoc]
    exact tokens_comment hbody s

theorem Gap.tokens_append (gap : Gap) (s : CStr) :
    tokens lexicon (gap.text ++ s) = tokens lexicon s := by
  induction gap with
  | nil => rfl
  | cons item gap ih =>
    unfold Gap.text at *
    rw [List.flatMap_cons, List.append_assoc, item.tokens_append, ih]

theorem Gap.stops_append (gap : Gap) (hs : Stops s) : Stops (gap.text ++ s) := by
  cases gap with
  | nil => exact hs
  | cons item gap =>
    have hchars : ∀ d ∈ [32, 9, 10, (35 : U8)], isTokenChar d = false := by decide
    intro d hd
    cases item with
    | space => exact hchars d (by cases hd; simp)
    | tab => exact hchars d (by cases hd; simp)
    | newline => exact hchars d (by cases hd; simp)
    | comment body => exact hchars d (by cases hd; simp)

theorem stops_punctuation : ∀ p ∈ punctuation, ∀ s, Stops (p.1 :: s) := by
  have hchars : ∀ p ∈ punctuation, isTokenChar p.1 = false := by decide
  intro p hp s d hd
  cases hd
  exact hchars p hp

/-! ## Numbers -/

/-- A text for a number: decimal, or hexadecimal behind `0x`. -/
def Numeral (text : CStr) (n : Nat) : Prop :=
  (text ≠ [] ∧ (∀ c ∈ text, isDecimal c = true) ∧ digitsValue 10 text 0 = n) ∨
    ∃ ds, ds ≠ [] ∧ (∀ c ∈ ds, isHex c = true) ∧ digitsValue 16 ds 0 = n ∧ text = 48 :: 120 :: ds

/-- A decimal number with a zero in front is the same in base eight. -/
def OctalSame (text : CStr) (n : Nat) : Prop :=
  text.head? = some 48 → (∀ c ∈ text, isDecimal c = true) → digitsValue 8 text 0 = n

theorem isDecimal_of_isDigit {c : U8} (hc : IsDigit 10 c) : isDecimal c = true := by
  obtain ⟨d, hd, hxdigit⟩ := hc
  unfold xdigit at hxdigit
  simp only [Bool.and_eq_true, decide_eq_true_eq, BitVec.le_def] at hxdigit
  rw [isDecimal_iff]
  split at hxdigit
  · rename_i hrange
    exact hrange
  · split at hxdigit
    · rename_i hrange
      cases hxdigit
      simp at hrange
      omega
    · split at hxdigit
      · rename_i hrange
        cases hxdigit
        simp at hrange
        omega
      · cases hxdigit

theorem numeral_digits (n : Nat) : Numeral (digits 10 n) n := by
  refine .inl ⟨digits_ne_nil, fun c hc => ?_, digitsValue_digits (by omega) (by omega) n⟩
  exact isDecimal_of_isDigit (digits_isDigit (by omega) (by omega) n c hc)

theorem head?_digits {n : Nat} (hn : n ≠ 0) : (digits 10 n).head? ≠ some 48 := by
  induction n using Nat.strongRecOn with
  | ind n ih =>
    by_cases hlt : n < 10
    · have hbyte : ∀ n < 10, digitByte n = 48 → n = 0 := by decide
      rw [digits_of_lt hlt, List.head?_cons]
      exact fun heq => hn (hbyte n hlt (Option.some.inj heq))
    · rw [digits_of_le (by omega) (by omega), List.head?_append_of_ne_nil _ digits_ne_nil]
      exact ih (n / 10) (by omega) (by omega)

/-- A number as `%d` prints it has no zero in front. -/
theorem octalSame_digits (n : Nat) : OctalSame (digits 10 n) n := by
  intro hzero _
  by_cases hn : n = 0
  · subst hn
    decide
  · exact absurd hzero (head?_digits hn)

theorem Numeral.acceptsNum {text : CStr} {n : Nat} (ht : Numeral text n) :
    acceptsNum text = true := by
  unfold Config.acceptsNum
  rcases ht with ⟨hne, hdec, -⟩ | ⟨ds, hne, hhex, -, rfl⟩
  · simp [hne, List.all_eq_true.mpr hdec]
  · simp [hne, List.all_eq_true.mpr hhex]

theorem tokens_num {text : CStr} {n : Nat} (ht : Numeral text n) (hs : Stops s) :
    tokens lexicon (text ++ s) = .num text :: tokens lexicon s := by
  have hnum := ht.acceptsNum
  have hne : text ≠ [] := by
    rintro rfl
    cases hnum
  have hfile : acceptsFilename text = true := by
    unfold acceptsFilename
    simp [hne, List.all_eq_true.mpr (fileChars_of_acceptsNum hnum)]
  have hkey : ∀ k ∈ keywords, text ≠ k.1 := by
    have hnone : ∀ k ∈ keywords, Config.acceptsNum k.1 = false := by decide
    rintro k hk rfl
    rw [hnone k hk] at hnum
    cases hnum
  rw [tokens_text hfile hs, tokenOf_text hkey hfile, if_pos hnum]
  rfl

theorem le_digitsValue {base : Nat} (hbase : 1 ≤ base) (text : CStr) (acc : Nat) :
    acc ≤ digitsValue base text acc := by
  induction text generalizing acc with
  | nil => exact le_rfl
  | cons c text ih =>
    unfold digitsValue
    split
    · rename_i d _
      split
      · have hmul : acc ≤ acc * base := Nat.le_mul_of_pos_right acc (by omega)
        exact (by omega : acc ≤ acc * base + d).trans (ih _)
      · exact le_rfl
    · exact le_rfl

theorem digitsValue_le_decimal (text : CStr) {acc acc' : Nat} (hacc : acc ≤ acc') :
    digitsValue 8 text acc ≤ digitsValue 10 text acc' := by
  induction text generalizing acc acc' with
  | nil => exact hacc
  | cons c text ih =>
    unfold digitsValue
    cases hd : xdigit c with
    | none => exact hacc
    | some d =>
      simp only
      by_cases h8 : d < 8
      · rw [if_pos h8, if_pos (by omega)]
        exact ih (by omega)
      · rw [if_neg h8]
        split
        · exact (by omega : acc ≤ acc' * 10 + d).trans (le_digitsValue (by omega) _ _)
        · exact hacc

/-- `strtol` in base 0 without a sign. -/
theorem strtol0_unsigned {text : CStr} {value : Nat} (hsign : splitSign text = (false, text))
    (hvalue : (if dropHexPrefix text ≠ text then digitsValue 16 (dropHexPrefix text) 0
      else if text.head? = some 48 then digitsValue 8 text 0 else digitsValue 10 text 0) = value)
    (hlt : value < 2 ^ 31) : strtol0 text = BitVec.ofNat 32 value := by
  unfold strtol0
  rw [hsign]
  simp only [hvalue, Bool.false_eq_true, if_false]
  rw [if_neg (by omega)]

theorem splitSign_of_isHex {c : U8} (hc : isHex c = true) (text : CStr) :
    splitSign (c :: text) = (false, c :: text) := by
  obtain ⟨d, hd⟩ := Option.isSome_iff_exists.mp hc
  exact splitSign_digit hd text

theorem dropHexPrefix_decimal {text : CStr} (htext : ∀ c ∈ text, isDecimal c = true) :
    dropHexPrefix text = text := by
  unfold dropHexPrefix
  split
  · rename_i x d rest
    have hx : ¬(x == 120 || x == 88) = true := by
      have hdecimal := isDecimal_iff.mp (htext x (by simp))
      simp only [Bool.or_eq_true, beq_iff_eq, eq_iff_toNat]
      simp
      omega
    rw [Bool.eq_false_iff.mpr hx]
    rfl
  · rfl

/-- The number is read as it was meant if no zero in front makes it an octal one. -/
theorem strtol0_numeral_iff {text : CStr} {n : Nat} (ht : Numeral text n) (hn : n < 2 ^ 31) :
    strtol0 text = BitVec.ofNat 32 n ↔ OctalSame text n := by
  rcases ht with ⟨hne, hdec, rfl⟩ | ⟨ds, hne, hhex, rfl, rfl⟩
  · have hdrop := dropHexPrefix_decimal hdec
    have hsign : splitSign text = (false, text) := by
      obtain ⟨c, text, rfl⟩ := List.exists_cons_of_ne_nil hne
      exact splitSign_of_isHex (isHex_of_isDecimal (hdec c List.mem_cons_self)) text
    by_cases hzero : text.head? = some 48
    · have hle := digitsValue_le_decimal text (le_refl 0)
      have hread : strtol0 text = BitVec.ofNat 32 (digitsValue 8 text 0) :=
        strtol0_unsigned hsign (by rw [hdrop, if_neg (by simp), if_pos hzero]) (by omega)
      rw [hread]
      unfold OctalSame
      constructor
      · intro heq _ _
        have hnat := congrArg BitVec.toNat heq
        rw [BitVec.toNat_ofNat, BitVec.toNat_ofNat, Nat.mod_eq_of_lt (by omega),
          Nat.mod_eq_of_lt (by omega)] at hnat
        exact hnat
      · intro hsame
        rw [hsame hzero hdec]
    · have hread : strtol0 text = BitVec.ofNat 32 (digitsValue 10 text 0) :=
        strtol0_unsigned hsign (by rw [hdrop, if_neg (by simp), if_neg hzero]) hn
      exact ⟨fun _ h48 => absurd h48 hzero, fun _ => hread⟩
  · obtain ⟨d, ds, rfl⟩ := List.exists_cons_of_ne_nil hne
    have hd : (xdigit d).isSome = true := hhex d List.mem_cons_self
    have hdrop : dropHexPrefix (48 :: 120 :: d :: ds) = d :: ds := by
      show (if (_ : Bool) && (xdigit d).isSome then d :: ds else _) = _
      rw [hd]
      rfl
    have hread : strtol0 (48 :: 120 :: d :: ds) = BitVec.ofNat 32 (digitsValue 16 (d :: ds) 0) := by
      apply strtol0_unsigned (splitSign_of_isHex (by decide) _) _ hn
      rw [hdrop, if_pos]
      intro heq
      have hlength := congrArg List.length heq
      simp at hlength
    refine ⟨fun _ _ hdec => ?_, fun _ => hread⟩
    cases hdec 120 (by simp)

/-! ## Entries -/

inductive GuestOs where
  | linux
  | windows

/-- The value of `ostype`. -/
def GuestOs.ostype : GuestOs → CStr
  | .linux => cstr "Linux"
  | .windows => cstr "Windows"

/-- The offsets of an operating system. -/
def GuestOs.offsetKeys : GuestOs → List OffsetKey
  | .linux => [.linuxTasks, .linuxMm, .linuxPid, .linuxPgd, .linuxAddr]
  | .windows => [.winNtoskrnl, .winTasks, .winPdbase, .winPid, .winPeb, .winIba, .winPh]

/-- The union `offsets` with the given words for the keys of an operating system. -/
def GuestOs.offsets (os : GuestOs) (w : OffsetKey → U32) : OsUnion :=
  match os with
  | .linux => ⟨w .linuxTasks, w .linuxMm, w .linuxPid, w .linuxPgd, w .linuxAddr, 0, 0⟩
  | .windows => ⟨w .winNtoskrnl, w .winTasks, w .winPdbase, w .winPid, w .winPeb, w .winIba,
      w .winPh⟩

/-- The left-hand side of an assignment. -/
inductive LineKey where
  | sysmap
  | ostype
  | offset (key : OffsetKey)
  deriving DecidableEq

/-- The lexeme of a key and its token. -/
def LineKey.keyword : LineKey → CStr × Token
  | .sysmap => (cstr "sysmap", .sysmaptok)
  | .ostype => (cstr "ostype", .ostypetok)
  | .offset key => (key.lexeme, .offset key)

/-- The keys of an operating system. -/
def GuestOs.lineKeys (os : GuestOs) : List LineKey :=
  .sysmap :: .ostype :: os.offsetKeys.map .offset

/-- An entry: a name, a path and the offsets of the operating system. -/
structure Settings where
  name : CStr
  sysmap : CStr
  os : GuestOs
  offset : OffsetKey → Nat
  name_head : ∃ c ∈ name.head?, isAlpha c = true
  name_chars : ∀ c ∈ name, isWordChar c = true
  name_key : ∀ k ∈ keywords, name ≠ k.1
  name_length : name.length < configStrLength
  sysmap_chars : acceptsFilename sysmap = true
  sysmap_length : sysmap.length < configStrLength
  offset_lt : ∀ k ∈ os.offsetKeys, offset k < 2 ^ 31

namespace Settings

variable (e : Settings)

/-- The offset of a key as an `int`. -/
def word (key : OffsetKey) : U32 := BitVec.ofNat 32 (e.offset key)

/-- What is to be read of the entry. -/
def entry : CStr × XaConfigEntry := (e.name, ⟨e.sysmap, e.os.ostype, e.os.offsets e.word⟩)

/-- A text for the value of a key. -/
def Value : LineKey → CStr → Prop
  | .sysmap, text => text = 34 :: (e.sysmap ++ [34])
  | .ostype, text => text = 34 :: (e.os.ostype ++ [34])
  | .offset key, text => Numeral text (e.offset key)

end Settings

variable {e : Settings}

/-! ## Lines -/

/-- `<key> = <value>;` with what stands between the tokens. -/
structure Line (e : Settings) where
  key : LineKey
  value : CStr
  isValue : e.Value key value
  beforeKey : Gap
  beforeEquals : Gap
  beforeValue : Gap
  beforeSemicolon : Gap

namespace Line

def text (line : Line e) : CStr :=
  line.beforeKey.text ++ (line.key.keyword.1 ++ (line.beforeEquals.text ++ 61 ::
    (line.beforeValue.text ++ (line.value ++ (line.beforeSemicolon.text ++ [59])))))

/-- The tokens of the value. -/
def valueTokens (line : Line e) : List Token :=
  match line.key with
  | .sysmap => .quote :: ((tokenOf lexicon e.sysmap).toList ++ [.quote])
  | .ostype => [.quote, .word e.os.ostype, .quote]
  | .offset _ => [.num line.value]

def tokens (line : Line e) : List Token :=
  line.key.keyword.2 :: .equals :: (line.valueTokens ++ [.semicolon])

end Line

theorem LineKey.keyword_mem (key : LineKey) : key.keyword ∈ keywords := by
  cases key with
  | sysmap => simp [keyword, keywords]
  | ostype => simp [keyword, keywords]
  | offset key =>
    have hmem : key ∈ offsetKeys := by cases key <;> decide
    unfold keywords
    exact List.mem_append_left _ (List.mem_map_of_mem hmem)

theorem tokens_keyword {k : CStr × Token} (hk : k ∈ keywords) (hs : Stops s) :
    tokens lexicon (k.1 ++ s) = k.2 :: tokens lexicon s := by
  obtain ⟨c, w, hw, halpha, -⟩ := keywords_chars hk
  have htoken := tokenOf_keyword k hk
  have hacc : Accepted lexicon (c :: w) := by
    refine ⟨literal k.1 (some k.2), ?_, by rw [← hw]; simp [literal]⟩
    unfold lexicon
    simp only [List.append_assoc, List.mem_append, List.mem_map]
    exact .inl ⟨k, hk, rfl⟩
  have hmunch := munches_text (isFileChar_of_isWordChar (isWordChar_of_isAlpha halpha)) hacc hs
  rw [hw, hmunch.tokens_append, ← hw, htoken]
  rfl

theorem tokens_quoted {w : CStr} (hw : acceptsFilename w = true) (s : CStr) :
    tokens lexicon (34 :: (w ++ [34]) ++ s) =
      .quote :: ((tokenOf lexicon w).toList ++ .quote :: tokens lexicon s) := by
  have hquote : (34, some Token.quote) ∈ punctuation := by simp [punctuation]
  have hend : tokens lexicon ([34] ++ s) = .quote :: tokens lexicon s :=
    tokens_punctuation hquote s
  have hstops : Stops ([34] ++ s) := stops_punctuation _ hquote s
  rw [List.cons_append, List.append_assoc, tokens_punctuation hquote, tokens_text hw hstops, hend]
  rfl

theorem GuestOs.ostype_word (os : GuestOs) :
    acceptsFilename os.ostype = true ∧ tokenOf lexicon os.ostype = some (.word os.ostype) := by
  cases os <;> decide

theorem Line.tokens_value (line : Line e) (hs : Stops s) :
    Lexer.tokens lexicon (line.value ++ s) = line.valueTokens ++ Lexer.tokens lexicon s := by
  have hvalue := line.isValue
  unfold valueTokens
  cases hkey : line.key with
  | sysmap =>
    rw [hkey] at hvalue
    rw [show line.value = _ from hvalue, tokens_quoted e.sysmap_chars]
    simp
  | ostype =>
    rw [hkey] at hvalue
    obtain ⟨hfile, htoken⟩ := e.os.ostype_word
    rw [show line.value = _ from hvalue, tokens_quoted hfile, htoken]
    rfl
  | offset key =>
    rw [hkey] at hvalue
    exact tokens_num hvalue hs

theorem Line.tokens_append (line : Line e) (s : CStr) :
    Lexer.tokens lexicon (line.text ++ s) = line.tokens ++ Lexer.tokens lexicon s := by
  have hequals : (61, some Token.equals) ∈ punctuation := by simp [punctuation]
  have hsemicolon : (59, some Token.semicolon) ∈ punctuation := by simp [punctuation]
  unfold Line.text Line.tokens
  simp only [List.append_assoc, List.cons_append]
  rw [Gap.tokens_append, tokens_keyword line.key.keyword_mem
      (Gap.stops_append _ (stops_punctuation _ hequals _)),
    Gap.tokens_append, tokens_punctuation hequals, Gap.tokens_append,
    line.tokens_value (Gap.stops_append _ (stops_punctuation _ hsemicolon _)),
    Gap.tokens_append, tokens_punctuation hsemicolon]
  simp

/-! ## Documents -/

/-- A text for an entry. -/
structure Document (e : Settings) where
  beforeName : Gap
  afterName : Gap
  lines : List (Line e)
  complete : (lines.map Line.key).Perm e.os.lineKeys
  beforeEnd : Gap
  after : Gap
  /-- a last comment without the end of its line -/
  tail : Option { body : CStr // 10 ∉ body }

theorem Settings.acceptsFilename_name (e : Settings) : acceptsFilename e.name = true := by
  obtain ⟨c, hc, -⟩ := e.name_head
  have hne : e.name ≠ [] := by
    intro hnil
    rw [hnil] at hc
    cases hc
  unfold acceptsFilename
  simp only [List.isEmpty_eq_false_iff.mpr hne, Bool.not_false, Bool.true_and, List.all_eq_true]
  exact fun c hc => isFileChar_of_isWordChar (e.name_chars c hc)

namespace Document

variable (d : Document e)

def text : CStr :=
  d.beforeName.text ++ (e.name ++ (d.afterName.text ++ 123 :: (d.lines.flatMap Line.text ++
    (d.beforeEnd.text ++ 125 :: (d.after.text ++ (d.tail.map fun body => 35 :: body.1).getD [])))))

/-- The text of the last comment. -/
def tailText : CStr := (d.tail.map Subtype.val).getD []

theorem tokens_lines (lines : List (Line e)) (s : CStr) :
    tokens lexicon (lines.flatMap Line.text ++ s) =
      lines.flatMap Line.tokens ++ tokens lexicon s := by
  induction lines with
  | nil => rfl
  | cons line lines ih =>
    rw [List.flatMap_cons, List.append_assoc, line.tokens_append, ih, List.flatMap_cons,
      List.append_assoc]

/-- The last comment is read as text. -/
theorem tokens_tail : tokens lexicon ((d.tail.map fun body => 35 :: body.1).getD []) =
    tokens lexicon d.tailText := by
  unfold tailText
  cases d.tail with
  | none => rfl
  | some body => exact tokens_hash body.2

theorem tokens_text : tokens lexicon d.text = (tokenOf lexicon e.name).toList ++ .obrace ::
    (d.lines.flatMap Line.tokens ++ .ebrace :: tokens lexicon d.tailText) := by
  have hobrace : (123, some Token.obrace) ∈ punctuation := by simp [punctuation]
  have hebrace : (125, some Token.ebrace) ∈ punctuation := by simp [punctuation]
  unfold text
  rw [Gap.tokens_append, Config.tokens_text e.acceptsFilename_name
      (Gap.stops_append _ (stops_punctuation _ hobrace _)),
    Gap.tokens_append, tokens_punctuation hobrace, tokens_lines, Gap.tokens_append,
    tokens_punctuation hebrace, Gap.tokens_append, d.tokens_tail]
  rfl

end Document

end XenAccess.Config
