import XenAccess.SystemMap.Rows
import XenAccess.Model.Image

/-!
# The lookup in a System.map

The line of a symbol is the first one that fits into the buffer and has the symbol for its third
field; its first field is the address. The lookup finds it, gives up at no line before and does
not depend on the contents of its buffer exactly if every row it comes to shows what is to be
found there: the row has two runs of white space of its own, the symbol stands behind them only
in its line, and `strtoul` of the text in front of them is the address (`looksUp_iff`).
-/

namespace XenAccess

open Text

variable {f line row : List U8} {symbol : CStr} {rows : List (List U8 × Option U32)}
  {x : List U8 × Option U32} {n : Nat} {v : U32}

/-! ## What is to be found -/

/-- The hexadecimal value of a field, modulo `2^32`. -/
def hexValue (s : CStr) : U32 := BitVec.ofNat 32 (digitsValue 16 (dropHexPrefix s) 0)

/-- The line fits into the buffer, and its third field is the symbol. -/
def isLineOf (symbol : CStr) (line : List U8) : Bool :=
  line.length < maxRowLength && field isspace 2 line == symbol

/-- The address of a symbol: the value of the first field of its first line. -/
def trueAddress (symbol : CStr) (f : List U8) : Option U32 :=
  ((lines 10 f).find? (isLineOf symbol)).map fun line => hexValue (field isspace 0 line)

/-- The rows of a line, each with the address to be found there. -/
def lineRows (symbol : CStr) (line : List U8) : List (List U8 × Option U32) :=
  if isLineOf symbol line then [(line, some (hexValue (field isspace 0 line)))]
  else (pieces (maxRowLength - 1) line).map fun bytes => (bytes, none)

/-- The rows of a file, each with the address to be found there. -/
def judgedRows (symbol : CStr) (f : List U8) : List (List U8 × Option U32) :=
  (lines 10 f).flatMap (lineRows symbol)

/-- The rows that a search comes to: those up to the first with an address. -/
def reached : List (List U8 × Option U32) → List (List U8 × Option U32)
  | [] => []
  | (bytes, none) :: rows => (bytes, none) :: reached rows
  | (bytes, some v) :: _ => [(bytes, some v)]

/-- The lookup of a symbol in a file is exact, whatever `malloc` returns; and no row that the
search comes to makes it give up, or is taken for the line of the symbol without being it,
whatever earlier rows left in the buffer. -/
structure LooksUp (f : List U8) (symbol : CStr) : Prop where
  result : ∀ (h : Host) (s : XaState) (name : CStr),
    sysmapName h s.toXaParams s.sysmap = some name → h.fopen name = some f →
    ∃ t, linuxSystemMapSymbolToAddress h symbol s = .ok (trueAddress symbol f, t)
  rows : ∀ x ∈ reached (judgedRows symbol f), ∀ row, row.length = maxRowLength →
    ∃ token, (viewRow row x.1).2 = some token ∧ (token = symbol ↔ x.2.isSome)

/-- The bytes of a row have two runs of white space, and the symbol stands behind them exactly
if the row is its line. -/
def ShowsSymbol (symbol : CStr) (x : List U8 × Option U32) : Prop :=
  ∃ t, behind isspace 2 x.1 = some t ∧ (cstrOf (word t) = symbol ↔ x.2.isSome)

/-- `strtoul` reads the address to be found in the text before the first white space. -/
def ShowsAddress (x : List U8 × Option U32) : Prop :=
  ∀ v, x.2 = some v → strtoul16 (cstrOf (word x.1)) = v

/-! ## Rows with addresses -/

theorem length_of_isLineOf (hline : isLineOf symbol line = true) :
    line.length ≤ maxRowLength - 1 := by
  have hlt := of_decide_eq_true (Bool.and_eq_true_iff.mp hline).1
  omega

theorem map_fst_lineRows (symbol : CStr) (line : List U8) :
    (lineRows symbol line).map Prod.fst = pieces (maxRowLength - 1) line := by
  unfold lineRows
  split
  · rename_i hline
    rw [pieces_of_le (length_of_isLineOf hline)]
    rfl
  · rw [List.map_map]
    exact List.map_id _

theorem map_fst_judgedRows (symbol : CStr) (f : List U8) :
    (judgedRows symbol f).map Prod.fst = Text.rows (maxRowLength - 1) 10 f := by
  unfold judgedRows Text.rows
  rw [List.map_flatMap]
  exact congrArg (fun g => (lines 10 f).flatMap g) (funext (map_fst_lineRows symbol))

theorem find?_judgedRows (symbol : CStr) (f : List U8) :
    ((judgedRows symbol f).find? (·.2.isSome)).bind Prod.snd = trueAddress symbol f := by
  unfold judgedRows trueAddress
  induction lines 10 f with
  | nil => rfl
  | cons line rest ih =>
    rw [List.flatMap_cons, List.find?_append, List.find?_cons]
    unfold lineRows
    cases isLineOf symbol line with
    | true => rfl
    | false =>
      have hnone : ((pieces (maxRowLength - 1) line).map fun bytes => (bytes, (none : Option U32))).find?
          (·.2.isSome) = none := by
        simp
      rw [if_neg Bool.false_ne_true, hnone, Option.none_or]
      exact ih

theorem mem_of_mem_reached (hx : x ∈ reached rows) : x ∈ rows := by
  induction rows with
  | nil => cases hx
  | cons y rows ih =>
    obtain ⟨bytes, _ | v⟩ := y
    · rcases List.mem_cons.mp hx with rfl | hx
      · exact List.mem_cons_self
      · exact List.mem_cons_of_mem _ (ih hx)
    · rw [List.mem_singleton.mp hx]
      exact List.mem_cons_self

/-- The row with an address that the search comes to is the first one. -/
theorem mem_reached_iff (hv : x.2 = some v) :
    x ∈ reached rows ↔ rows.find? (·.2.isSome) = some x := by
  induction rows with
  | nil => simp [reached]
  | cons y rows ih =>
    obtain ⟨bytes, _ | w⟩ := y
    · rw [reached, List.mem_cons, ih, List.find?_cons_of_neg (by simp)]
      refine ⟨?_, .inr⟩
      rintro (rfl | hx)
      · cases hv
      · exact hx
    · rw [reached, List.mem_singleton, List.find?_cons_of_pos (by simp), Option.some.injEq]
      exact eq_comm

/-! ## The search -/

/-- The search along rows that show the symbol ends at the first row with an address. -/
theorem search_eq (hlen : symbol.length < maxRowLength)
    (hdelivers : Delivers f (rows.map Prod.fst)) (hfuel : rows.length < n)
    (hroom : ∀ x ∈ rows, x.1.length < maxRowLength)
    (hshows : ∀ x ∈ reached rows, ShowsSymbol symbol x) :
    (getSymbolRow n f row symbol 2).map (fun row => strtoul16 (cstrOf row)) =
      (rows.find? (·.2.isSome)).map fun x => strtoul16 (cstrOf (word x.1)) := by
  induction rows generalizing f row n with
  | nil =>
    have hend : fgets f = none := hdelivers
    cases n with
    | zero => rfl
    | succ n =>
      rw [getSymbolRow, hend]
      rfl
  | cons y rows ih =>
    obtain ⟨bytes, judged⟩ := y
    obtain ⟨rest, hf, hrest⟩ := hdelivers
    obtain ⟨m, rfl⟩ : ∃ m, n = m + 1 := ⟨n - 1, by omega⟩
    have hhere : (bytes, judged) ∈ reached ((bytes, judged) :: rows) := by
      cases judged <;> exact List.mem_cons_self
    obtain ⟨t, hbehind, htoken⟩ := hshows _ hhere
    obtain ⟨hview, hstart⟩ := viewRow_own row (hroom _ List.mem_cons_self) hbehind
    rw [getSymbolRow_succ symbol hf, hview, Option.bind_some]
    cases judged with
    | none =>
      have hother : ¬strncmpEq (cstrOf (word t)) symbol maxRowLength = true := by
        rw [strncmpEq_comm, strncmpEq_iff hlen, htoken]
        exact Bool.false_ne_true
      rw [if_neg hother, List.find?_cons_of_neg (by simp)]
      exact ih hrest (Nat.lt_of_succ_lt_succ hfuel)
        (fun x hx => hroom x (List.mem_cons_of_mem _ hx))
        (fun x hx => hshows x (List.mem_cons_of_mem _ hx))
    | some v =>
      have hsymbol : strncmpEq (cstrOf (word t)) symbol maxRowLength = true := by
        rw [strncmpEq_comm, strncmpEq_iff hlen, htoken]
        rfl
      rw [if_pos hsymbol, List.find?_cons_of_pos (by simp), Option.map_some, Option.map_some,
        hstart]

theorem length_lt_of_mem (hx : x ∈ judgedRows symbol f) : x.1.length < maxRowLength := by
  have hrow : x.1 ∈ Text.rows (maxRowLength - 1) 10 f := by
    rw [← map_fst_judgedRows symbol f]
    exact List.mem_map_of_mem hx
  have hle := (rows_bounds (by decide) f).2 x.1 hrow
  have hpos : 0 < maxRowLength := by decide
  omega

theorem sysmapAddress_open {h : Host} {name : CStr} (hopen : h.fopen name = some f) :
    sysmapAddress h (some name) symbol = (getSymbolRow (f.length + 1) f h.mallocRow symbol 2).map
      fun row => strtoul16 (cstrOf row) := by
  unfold sysmapAddress
  rw [Option.bind_some, hopen]

/-- The lookup in a file, when the rows show the symbol. -/
theorem sysmapAddress_eq {h : Host} {name : CStr} (hlen : symbol.length < maxRowLength)
    (hopen : h.fopen name = some f)
    (hshows : ∀ x ∈ reached (judgedRows symbol f), ShowsSymbol symbol x) :
    sysmapAddress h (some name) symbol =
      ((judgedRows symbol f).find? (·.2.isSome)).map fun x => strtoul16 (cstrOf (word x.1)) := by
  have hcount : (Text.rows (maxRowLength - 1) 10 f).length ≤ f.length :=
    (rows_bounds (by decide) f).1
  have hdelivers := delivers_rows f
  rw [← map_fst_judgedRows symbol f] at hcount hdelivers
  rw [List.length_map] at hcount
  rw [sysmapAddress_open hopen]
  exact search_eq hlen hdelivers (by omega) (fun x hx => length_lt_of_mem hx) hshows

/-! ## When the lookup is exact -/

theorem looksUp_of_shows (hlen : symbol.length < maxRowLength)
    (hshows : ∀ x ∈ reached (judgedRows symbol f), ShowsSymbol symbol x ∧ ShowsAddress x) :
    LooksUp f symbol where
  result := by
    intro h s name hname hopen
    have haddress : sysmapAddress h (some name) symbol = trueAddress symbol f := by
      rw [sysmapAddress_eq hlen hopen fun x hx => (hshows x hx).1, ← find?_judgedRows]
      cases hfind : (judgedRows symbol f).find? (·.2.isSome) with
      | none => rfl
      | some x =>
        have hsome : x.2.isSome = true :=
          List.find?_some (p := fun x : List U8 × Option U32 => x.2.isSome) hfind
        obtain ⟨v, hv⟩ := Option.isSome_iff_exists.mp hsome
        have haddress := (hshows x ((mem_reached_iff hv).mpr hfind)).2 v hv
        rw [Option.map_some, Option.bind_some, haddress, hv]
    refine ⟨{ s with sysmap := some name }, ?_⟩
    unfold linuxSystemMapSymbolToAddress
    simp only [hname, haddress]
  rows := by
    intro x hx row _
    obtain ⟨⟨t, hbehind, htoken⟩, -⟩ := hshows x hx
    have hroom := length_lt_of_mem (mem_of_mem_reached hx)
    exact ⟨_, (viewRow_own row hroom hbehind).1, htoken⟩

/-- A host with a System.map. -/
def mapHost (f : List U8) : Host := linuxHost [] (some f)

/-- An instance that names its System.map. -/
def mapState : XaState := imageState .linux 0xC0000000 0 0 ⟨0, 0, 0, 0, 0, 0, 0⟩

theorem LooksUp.address_mapHost (hlooks : LooksUp f symbol) :
    sysmapAddress (mapHost f) (some (cstr "System.map")) symbol = trueAddress symbol f := by
  obtain ⟨t, ht⟩ := hlooks.result (mapHost f) mapState (cstr "System.map") rfl rfl
  exact congrArg Prod.fst (Except.ok.inj ht)

theorem shows_of_looksUp (hlen : symbol.length < maxRowLength) (hlooks : LooksUp f symbol) :
    ∀ x ∈ reached (judgedRows symbol f), ShowsSymbol symbol x ∧ ShowsAddress x := by
  have hshows : ∀ x ∈ reached (judgedRows symbol f), ShowsSymbol symbol x := by
    intro x hx
    obtain ⟨token, hview, htoken⟩ := hlooks.rows x hx (List.replicate maxRowLength 0)
      List.length_replicate
    cases hbehind : behind isspace 2 x.1 with
    | none =>
      rw [viewRow_zeros (fun c hc => List.eq_of_mem_replicate hc) hbehind] at hview
      cases hview
    | some t =>
      have hroom := length_lt_of_mem (mem_of_mem_reached hx)
      rw [(viewRow_own _ hroom hbehind).1] at hview
      cases hview
      exact ⟨t, hbehind, htoken⟩
  intro x hx
  refine ⟨hshows x hx, fun v hv => ?_⟩
  have hfind := (mem_reached_iff hv).mp hx
  have haddress := hlooks.address_mapHost
  rw [sysmapAddress_eq hlen rfl hshows, ← find?_judgedRows, hfind, Option.map_some,
    Option.bind_some, hv] at haddress
  exact Option.some.inj haddress

/-! ## Ordinary lines -/

/-- A line as `nm` prints it: it fits into the buffer, it has two runs of white space, and it
starts with the digits of an address. -/
structure OrdinaryLine (line : List U8) : Prop where
  fits : line.length < maxRowLength
  text : 0 ∉ line
  fields : (behind isspace 2 line).isSome
  digit : (line.head?.bind xdigit).isSome
  address : digitsValue 16 (dropHexPrefix (word line)) 0 < 2 ^ 32

instance (line : List U8) : Decidable (OrdinaryLine line) :=
  decidable_of_iff (line.length < maxRowLength ∧ 0 ∉ line ∧ (behind isspace 2 line).isSome ∧
      (line.head?.bind xdigit).isSome ∧ digitsValue 16 (dropHexPrefix (word line)) 0 < 2 ^ 32)
    ⟨fun ⟨h1, h2, h3, h4, h5⟩ => ⟨h1, h2, h3, h4, h5⟩,
      fun h => ⟨h.fits, h.text, h.fields, h.digit, h.address⟩⟩

theorem OrdinaryLine.isspace_head (hline : OrdinaryLine line) :
    ∀ c ∈ line.head?, isspace c = false := by
  intro c hc
  have hdigit := hline.digit
  rw [Option.mem_def.mp hc, Option.bind_some] at hdigit
  obtain ⟨d, hd⟩ := Option.isSome_iff_exists.mp hdigit
  exact isspace_digit hd

theorem OrdinaryLine.word_eq (hline : OrdinaryLine line) : field isspace 0 line = word line := by
  rw [field, dropWhile_eq_self hline.isspace_head]
  rfl

theorem OrdinaryLine.strtoul_word (hline : OrdinaryLine line) :
    strtoul16 (cstrOf (word line)) = hexValue (word line) := by
  have htext : 0 ∉ word line := fun hzero =>
    hline.text ((List.takeWhile_sublist _).subset hzero)
  have hlt := hline.address
  have hdigit := hline.digit
  rw [cstrOf_eq_self_iff.mpr htext]
  obtain ⟨c, w, hword, d, hd⟩ : ∃ c w, word line = c :: w ∧ ∃ d, xdigit c = some d := by
    cases line with
    | nil => cases hdigit
    | cons c line =>
      obtain ⟨d, hd⟩ := Option.isSome_iff_exists.mp hdigit
      refine ⟨c, line.takeWhile (!isspace ·), ?_, d, hd⟩
      exact List.takeWhile_cons_of_pos (by simp [hline.isspace_head c rfl])
  unfold strtoul16
  rw [hword] at hlt ⊢
  rw [splitSign_digit hd]
  simp only [if_neg (Nat.not_le.mpr hlt), Bool.false_eq_true, if_false]
  rfl

/-- The rows of ordinary lines show every symbol. -/
theorem shows_of_ordinary (hlines : ∀ line ∈ lines 10 f, OrdinaryLine line) (symbol : CStr) :
    ∀ x ∈ reached (judgedRows symbol f), ShowsSymbol symbol x ∧ ShowsAddress x := by
  intro x hx
  obtain ⟨line, hline, hrow⟩ := List.mem_flatMap.mp (mem_of_mem_reached hx)
  have hordinary := hlines line hline
  obtain ⟨t, ht⟩ := Option.isSome_iff_exists.mp hordinary.fields
  have hthird : field isspace 2 line = word t := field_of_behind hordinary.isspace_head ht
  have htext : cstrOf (word t) = word t := cstrOf_eq_self_iff.mpr fun hzero =>
    hordinary.text (mem_of_behind ht ((List.takeWhile_sublist _).subset hzero))
  have hfits : isLineOf symbol line = true ↔ word t = symbol := by
    unfold isLineOf
    rw [hthird, decide_eq_true hordinary.fits, Bool.true_and, beq_iff_eq]
  unfold lineRows at hrow
  split at hrow
  · rename_i his
    rw [List.mem_singleton.mp hrow]
    refine ⟨⟨t, ht, ?_⟩, fun v hv => ?_⟩
    · rw [htext]
      exact iff_of_true (hfits.mp his) rfl
    · cases hv
      rw [hordinary.strtoul_word, hordinary.word_eq]
  · rename_i his
    have hle : line.length ≤ maxRowLength - 1 := Nat.le_sub_one_of_lt hordinary.fits
    rw [pieces_of_le hle] at hrow
    rw [List.mem_singleton.mp hrow]
    refine ⟨⟨t, ht, ?_⟩, fun v hv => by cases hv⟩
    rw [htext]
    exact iff_of_false (fun heq => his (hfits.mpr heq)) Bool.false_ne_true

/-- In a System.map of ordinary lines every symbol is looked up right. -/
theorem looksUp_of_ordinary (hlines : ∀ line ∈ lines 10 f, OrdinaryLine line)
    (hlen : symbol.length < maxRowLength) : LooksUp f symbol :=
  looksUp_of_shows hlen (shows_of_ordinary hlines symbol)

theorem looksUp_iff (f : List U8) (symbol : CStr) (hlen : symbol.length < maxRowLength) :
    LooksUp f symbol ↔
      ∀ x ∈ reached (judgedRows symbol f), ShowsSymbol symbol x ∧ ShowsAddress x :=
  ⟨shows_of_looksUp hlen, looksUp_of_shows hlen⟩

/-- Two ordinary lines. -/
def smallMap : List U8 := cstr "c0100000 T _text\nc0100010 D swapper\n"

theorem smallMap_looksUp : LooksUp smallMap (cstr "swapper") :=
  (looksUp_iff smallMap (cstr "swapper") (by decide)).mpr
    (shows_of_ordinary (by decide +kernel) (cstr "swapper"))

/-- An empty line before the line of the symbol. -/
def gappedMap : List U8 := cstr "\nc0100010 D swapper\n"

/-- The search gives up at the empty line when nothing is left in the buffer. -/
theorem gappedMap_not_looksUp : ¬LooksUp gappedMap (cstr "swapper") := by
  intro hlooks
  have hempty : fgets gappedMap = some ([10], cstr "c0100010 D swapper\n") := by decide +kernel
  have hstops : (viewRow [] [10]).2 = none :=
    viewRow_zeros (fun c hc => by cases hc) (by decide)
  have hfound : trueAddress (cstr "swapper") gappedMap = some 0xC0100010 := by decide +kernel
  have hmissed := hlooks.address_mapHost
  rw [sysmapAddress_open rfl, getSymbolRow_succ _ hempty] at hmissed
  rw [show (mapHost gappedMap).mallocRow = [] from rfl, hstops, hfound] at hmissed
  cases hmissed

end XenAccess
