import XenAccess.Config.Format
import XenAccess.Config.Isolation

/-!
# Reading an entry back

An entry that is written in the documented format is read back as it was exactly when
`Document.ReadsBack` holds (`readsBack_iff`). A name of one letter is no `WORD`, a path that
looks like a word, a number or a key is no `FILENAME`, a decimal number with a zero in front
is taken for an octal one, and a comment without the end of its line is no comment.
-/

namespace XenAccess.Config

open Lexer

variable {e : Settings} {g : Globals} {target : CStr}

/-! ## The tokens of the name and the path -/

theorem Settings.tokenOf_name (e : Settings) : tokenOf lexicon e.name =
    some (if 2 ≤ e.name.length then .word e.name else .filename e.name) := by
  obtain ⟨c, hc, halpha⟩ := e.name_head
  obtain ⟨w, hw⟩ : ∃ w, e.name = c :: w := List.head?_eq_some_iff.mp hc
  have hchars := e.name_chars
  have hkey := e.name_key
  rw [hw] at hchars hkey ⊢
  have hfile : acceptsFilename (c :: w) = true := by
    unfold acceptsFilename
    simp only [List.isEmpty_cons, Bool.not_false, Bool.true_and, List.all_eq_true]
    exact fun d hd => isFileChar_of_isWordChar (hchars d hd)
  rw [tokenOf_text hkey hfile, not_acceptsNum_of_isAlpha halpha]
  cases w with
  | nil => simp [acceptsWord]
  | cons d w =>
    have hword : acceptsWord (c :: d :: w) = true := by
      unfold acceptsWord
      simp only [halpha, List.isEmpty_cons, Bool.not_false, Bool.true_and, List.all_eq_true]
      exact fun x hx => hchars x (List.mem_cons_of_mem _ hx)
    simp [hword]

/-- A path that is no key, no number and no word. -/
structure PlainPath (path : CStr) : Prop where
  key : ∀ k ∈ keywords, path ≠ k.1
  num : acceptsNum path = false
  word : acceptsWord path = false

theorem PlainPath.tokenOf_eq {path : CStr} (hp : PlainPath path)
    (hchars : acceptsFilename path = true) : tokenOf lexicon path = some (.filename path) := by
  rw [tokenOf_text hp.key hchars, hp.num, hp.word]
  rfl

theorem tokenOf_of_not_plainPath {path : CStr} (hp : ¬PlainPath path)
    (hchars : acceptsFilename path = true) :
    ∃ t, tokenOf lexicon path = some t ∧ ∀ str, t ≠ .filename str := by
  by_cases hkey : ∀ k ∈ keywords, path ≠ k.1
  · rw [tokenOf_text hkey hchars]
    refine ⟨_, rfl, fun str => ?_⟩
    cases hnum : acceptsNum path with
    | true => simp
    | false =>
      cases hword : acceptsWord path with
      | true => simp
      | false => exact absurd ⟨hkey, hnum, hword⟩ hp
  · push Not at hkey
    obtain ⟨k, hk, rfl⟩ := hkey
    refine ⟨k.2, tokenOf_keyword k hk, fun str heq => ?_⟩
    rcases keywords_token hk with ⟨key, hkey⟩ | hkey | hkey <;> cases heq.symm.trans hkey

/-! ## Lines -/

/-- The assignment of a line. -/
def Line.assignment (line : Line e) : Assignment :=
  match line.key with
  | .sysmap => .sysmap e.sysmap
  | .ostype => .ostype e.os.ostype
  | .offset key => .offset key line.value

theorem Line.tokens_eq (line : Line e) (hline : line.key = .sysmap → PlainPath e.sysmap) :
    line.tokens = line.assignment.tokens := by
  unfold Line.tokens valueTokens assignment
  cases hkey : line.key with
  | sysmap =>
    rw [(hline hkey).tokenOf_eq e.sysmap_chars]
    rfl
  | ostype => rfl
  | offset key => rfl

theorem flatMap_tokens_eq (lines : List (Line e)) (hpath : PlainPath e.sysmap) :
    lines.flatMap Line.tokens = (lines.map Line.assignment).flatMap Assignment.tokens := by
  rw [List.flatMap_map]
  apply List.flatMap_congr
  intro line _
  exact line.tokens_eq fun _ => hpath

/-- A path that is no `FILENAME` is an error. -/
theorem yyparse_path_rejected (target name : CStr) (lines : List (Line e))
    (hpath : ¬PlainPath e.sysmap) (hmem : LineKey.sysmap ∈ lines.map Line.key)
    (ts : List Token) (g : Globals) :
    (yyparse target (.assignments name) (lines.flatMap Line.tokens ++ ts) g).1 = false := by
  induction lines generalizing g with
  | nil => cases hmem
  | cons line lines ih =>
    by_cases hkey : line.key = .sysmap
    · obtain ⟨t, ht, hne⟩ := tokenOf_of_not_plainPath hpath e.sysmap_chars
      rw [List.flatMap_cons]
      unfold Line.tokens Line.valueTokens
      rw [hkey, ht]
      cases t with
      | filename str => exact absurd rfl (hne str)
      | _ => rfl
    · have hrest : LineKey.sysmap ∈ lines.map Line.key := by
        rw [List.map_cons] at hmem
        exact (List.mem_cons.mp hmem).resolve_left fun heq => hkey heq.symm
      have hfirst := yyparse_assignments target name [line.assignment]
        (lines.flatMap Line.tokens ++ ts) g
      rw [List.flatMap_cons, List.flatMap_nil, List.append_nil] at hfirst
      rw [List.flatMap_cons, List.append_assoc, line.tokens_eq fun h => absurd h hkey, hfirst]
      exact ih hrest _

/-! ## The entry of a block -/

/-- The effect of the line with a key, given the words of the offsets. -/
def Settings.setKey (e : Settings) (w : OffsetKey → U32) (entry : XaConfigEntry) :
    LineKey → XaConfigEntry
  | .sysmap => { entry with sysmap := e.sysmap }
  | .ostype => { entry with ostype := e.os.ostype }
  | .offset key => { entry with offsets := setOffset key (w key) entry.offsets }

/-- The keys of one operating system set different words. -/
theorem setOffset_comm {os : GuestOs} {key key' : OffsetKey} (hkey : key ∈ os.offsetKeys)
    (hkey' : key' ∈ os.offsetKeys) (w : OffsetKey → U32) (u : OsUnion) :
    setOffset key' (w key') (setOffset key (w key) u) =
      setOffset key (w key) (setOffset key' (w key') u) := by
  cases os with
  | linux =>
    simp only [GuestOs.offsetKeys, List.mem_cons, List.not_mem_nil, or_false] at hkey hkey'
    rcases hkey with rfl | rfl | rfl | rfl | rfl <;>
      rcases hkey' with rfl | rfl | rfl | rfl | rfl <;> rfl
  | windows =>
    simp only [GuestOs.offsetKeys, List.mem_cons, List.not_mem_nil, or_false] at hkey hkey'
    rcases hkey with rfl | rfl | rfl | rfl | rfl | rfl | rfl <;>
      rcases hkey' with rfl | rfl | rfl | rfl | rfl | rfl | rfl <;> rfl

theorem Settings.setKey_comm (e : Settings) (w : OffsetKey → U32) (entry : XaConfigEntry)
    {k k' : LineKey} (hk : k ∈ e.os.lineKeys) (hk' : k' ∈ e.os.lineKeys) :
    e.setKey w (e.setKey w entry k) k' = e.setKey w (e.setKey w entry k') k := by
  cases k with
  | sysmap => cases k' <;> rfl
  | ostype => cases k' <;> rfl
  | offset key =>
    cases k' with
    | sysmap => rfl
    | ostype => rfl
    | offset key' =>
      have hmem : key ∈ e.os.offsetKeys := by simpa [GuestOs.lineKeys] using hk
      have hmem' : key' ∈ e.os.offsetKeys := by simpa [GuestOs.lineKeys] using hk'
      exact congrArg (fun offsets => { entry with offsets })
        (setOffset_comm hmem hmem' w entry.offsets)

/-- The keys in any order give the words of the union. -/
theorem Settings.foldl_setKey (e : Settings) (w : OffsetKey → U32) {keys : List LineKey}
    (hkeys : keys.Perm e.os.lineKeys) :
    keys.foldl (e.setKey w) ConfigEntry.zero.read.2 = ⟨e.sysmap, e.os.ostype, e.os.offsets w⟩ := by
  have hordered (os : GuestOs) : os.lineKeys.foldl (e.setKey w) ConfigEntry.zero.read.2 =
      ⟨e.sysmap, e.os.ostype, os.offsets w⟩ := by
    cases os with
    | linux => rfl
    | windows => rfl
  rw [hkeys.foldl_eq' fun k hk k' hk' entry =>
    e.setKey_comm w entry (hkeys.subset hk) (hkeys.subset hk')]
  exact hordered e.os

namespace Document

variable (d : Document e)

/-- The text of the number for a key. -/
def number (key : OffsetKey) : CStr :=
  ((d.lines.find? fun line => line.key = .offset key).map Line.value).getD []

/-- The block of a document. -/
def block : Block := ⟨e.name, d.lines.map Line.assignment⟩

theorem keys_nodup : (d.lines.map Line.key).Nodup := by
  rw [d.complete.nodup_iff]
  cases e.os <;> decide

theorem number_eq {line : Line e} (hline : line ∈ d.lines) {key : OffsetKey}
    (hkey : line.key = .offset key) : d.number key = line.value := by
  have hsome : (d.lines.find? fun line => line.key = .offset key).isSome = true := by
    rw [List.find?_isSome]
    exact ⟨line, hline, decide_eq_true hkey⟩
  obtain ⟨line', hfind⟩ := Option.isSome_iff_exists.mp hsome
  have hkey' : line'.key = .offset key := by simpa using List.find?_some hfind
  have hsame : line' = line := List.inj_on_of_nodup_map d.keys_nodup
    (List.mem_of_find?_eq_some hfind) hline (hkey'.trans hkey.symm)
  unfold number
  rw [hfind, hsame]
  rfl

end Document

theorem cutString_of_length {s : CStr} (hchars : ∀ c ∈ s, isFileChar c = true)
    (hlength : s.length < configStrLength) : cutString s = s := by
  rw [cutString_eq_take fun c hc => (ne_of_isFileChar (hchars c hc)).1]
  apply List.take_of_length_le
  omega

theorem GuestOs.cutString_ostype (os : GuestOs) : cutString os.ostype = os.ostype := by
  apply cutString_of_length (fileChars_of_acceptsFilename os.ostype_word.1)
  cases os <;> decide

namespace Document

variable (d : Document e)

theorem set_assignment {line : Line e} (hline : line ∈ d.lines) (entry : XaConfigEntry) :
    line.assignment.set entry = e.setKey (fun key => strtol0 (d.number key)) entry line.key := by
  unfold Line.assignment
  cases hkey : line.key with
  | sysmap =>
    have hcut := cutString_of_length (fileChars_of_acceptsFilename e.sysmap_chars) e.sysmap_length
    simp only [Assignment.set, Settings.setKey, hcut]
  | ostype => simp only [Assignment.set, Settings.setKey, GuestOs.cutString_ostype]
  | offset key => simp only [Assignment.set, Settings.setKey, d.number_eq hline hkey]

/-- What is read of the entry that the block of a document makes. -/
theorem read_block : d.block.read =
    (e.name, ⟨e.sysmap, e.os.ostype, e.os.offsets fun key => strtol0 (d.number key)⟩) := by
  have hfold : (d.lines.map Line.assignment).foldl (fun entry a => a.set entry)
      ConfigEntry.zero.read.2 = (d.lines.map Line.key).foldl
        (e.setKey fun key => strtol0 (d.number key)) ConfigEntry.zero.read.2 := by
    rw [List.foldl_map, List.foldl_map]
    apply List.foldl_ext
    intro entry line hline
    exact d.set_assignment hline entry
  have hname : cutString e.name = e.name :=
    cutString_of_length (fun c hc => isFileChar_of_isWordChar (e.name_chars c hc)) e.name_length
  unfold Block.read block
  rw [hname, hfold, e.foldl_setKey _ d.complete]

end Document

theorem GuestOs.offsets_eq_iff (os : GuestOs) (w w' : OffsetKey → U32) :
    os.offsets w = os.offsets w' ↔ ∀ key ∈ os.offsetKeys, w key = w' key := by
  cases os <;> simp [GuestOs.offsets, GuestOs.offsetKeys]

/-- No number of the document is taken for another one. -/
def Document.NumbersRead (d : Document e) : Prop :=
  ∀ line ∈ d.lines, ∀ key, line.key = .offset key → OctalSame line.value (e.offset key)

theorem Document.read_block_iff (d : Document e) : d.block.read = e.entry ↔ d.NumbersRead := by
  have hentry : d.block.read = e.entry ↔
      ∀ key ∈ e.os.offsetKeys, strtol0 (d.number key) = e.word key := by
    rw [d.read_block, ← GuestOs.offsets_eq_iff]
    simp [Settings.entry]
  have hread {line : Line e} (hline : line ∈ d.lines) {key : OffsetKey}
      (hkey : line.key = .offset key) (hmem : key ∈ e.os.offsetKeys) :
      strtol0 (d.number key) = e.word key ↔ OctalSame line.value (e.offset key) := by
    have hvalue := line.isValue
    rw [hkey] at hvalue
    rw [d.number_eq hline hkey]
    exact strtol0_numeral_iff hvalue (e.offset_lt key hmem)
  rw [hentry]
  constructor
  · intro hall line hline key hkey
    have hmem : line.key ∈ e.os.lineKeys := d.complete.subset (List.mem_map_of_mem hline)
    rw [hkey] at hmem
    have hoffset : key ∈ e.os.offsetKeys := by simpa [GuestOs.lineKeys] using hmem
    exact (hread hline hkey hoffset).mp (hall key hoffset)
  · intro hall key hkey
    have hmem : LineKey.offset key ∈ d.lines.map Line.key :=
      d.complete.symm.subset (by simp [GuestOs.lineKeys, hkey])
    obtain ⟨line, hline, hoffset⟩ := List.mem_map.mp hmem
    exact (hread hline hoffset hkey).mpr (hall line hline key hoffset)

/-! ## The whole text -/

/-- The parser behind a block: the last block with the name decides. -/
theorem yyparse_read_iff (htmp : g.tmpEntry = .zero) (ts : List Token)
    (x : CStr × XaConfigEntry) :
    ((yyparse target .domains ts g).1 = true ∧ (yyparse target .domains ts g).2.entry.read = x) ↔
      ∃ blocks : List Block, ts = blocks.flatMap Block.tokens ∧
        (lastNamed target blocks = none → g.entry.read = x) ∧
          ∀ b, lastNamed target blocks = some b → b.read = x := by
  constructor
  · rintro ⟨hacc, hread⟩
    obtain ⟨blocks, rfl⟩ := (yyparse_accepts_iff ts g).mp hacc
    obtain ⟨hnone, hsome⟩ := foldl_exec_entry target blocks htmp
    rw [yyparse_flatMap] at hread
    refine ⟨blocks, rfl, fun hlast => ?_, fun b hlast => ?_⟩
    · rw [← hnone hlast]
      exact hread
    · rw [← hsome b hlast]
      exact hread
  · rintro ⟨blocks, rfl, hnone, hsome⟩
    obtain ⟨hnone', hsome'⟩ := foldl_exec_entry target blocks htmp
    rw [yyparse_flatMap]
    refine ⟨rfl, ?_⟩
    cases hlast : lastNamed target blocks with
    | none => exact (congrArg ConfigEntry.read (hnone' hlast)).trans (hnone hlast)
    | some b => exact (hsome' b hlast).trans (hsome b hlast)

/-- What the text of the last comment makes of the entry: nothing, or the same again. -/
def Document.DecidedBy (d : Document e) (blocks : List Block) : Prop :=
  (lastNamed e.name blocks = none → d.NumbersRead) ∧
    ∀ b, lastNamed e.name blocks = some b → b.read = e.entry

/-- The document is read back: its name has two characters, its path is no key, number or
word, and what is left of a last comment without the end of its line is a list of blocks that
leaves the entry as it is. -/
structure Document.ReadsBack (d : Document e) : Prop where
  name : 2 ≤ e.name.length
  path : PlainPath e.sysmap
  tail : ∃ blocks : List Block,
    tokens lexicon d.tailText = blocks.flatMap Block.tokens ∧ d.DecidedBy blocks

/-- A document with a name and a path that make the right tokens is its block and the text of
its last comment. -/
theorem Document.yyparse_text (d : Document e) (hname : 2 ≤ e.name.length)
    (hpath : PlainPath e.sysmap) (g : Globals) :
    yyparse e.name .domains (tokens lexicon d.text) g =
      yyparse e.name .domains (tokens lexicon d.tailText) (d.block.exec e.name g) := by
  have htokens : tokens lexicon d.text = d.block.tokens ++ tokens lexicon d.tailText := by
    rw [d.tokens_text, e.tokenOf_name, if_pos hname, flatMap_tokens_eq d.lines hpath]
    unfold Block.tokens Block.bodyTokens block
    simp
  rw [htokens, yyparse_block]

theorem Document.read_iff_of_tokens (d : Document e) (hname : 2 ≤ e.name.length)
    (hpath : PlainPath e.sysmap) (tmpStr : Buffer) :
    ((xaParseConfig tmpStr d.text e.name).1 = true ∧
        (xaParseConfig tmpStr d.text e.name).2.read = e.entry) ↔
      ∃ blocks : List Block,
        tokens lexicon d.tailText = blocks.flatMap Block.tokens ∧ d.DecidedBy blocks := by
  have hcut : cutString d.block.name = e.name :=
    cutString_of_length (fun c hc => isFileChar_of_isWordChar (e.name_chars c hc)) e.name_length
  have hread := (d.block.exec_entry e.name (g := ⟨.zero, .zero, tmpStr⟩) rfl).1 hcut
  unfold xaParseConfig
  rw [d.yyparse_text hname hpath, yyparse_read_iff rfl, hread, d.read_block_iff]
  rfl

theorem Document.not_accepted_of_path (d : Document e) (hname : 2 ≤ e.name.length)
    (hpath : ¬PlainPath e.sysmap) (tmpStr : Buffer) :
    (xaParseConfig tmpStr d.text e.name).1 = false := by
  have hmem : LineKey.sysmap ∈ d.lines.map Line.key := d.complete.symm.subset List.mem_cons_self
  unfold xaParseConfig
  rw [d.tokens_text, e.tokenOf_name, if_pos hname]
  exact yyparse_path_rejected e.name e.name d.lines hpath hmem _ _

theorem Document.not_accepted_of_name (d : Document e) (hname : ¬2 ≤ e.name.length)
    (tmpStr : Buffer) : (xaParseConfig tmpStr d.text e.name).1 = false := by
  unfold xaParseConfig
  rw [d.tokens_text, e.tokenOf_name, if_neg hname]
  rfl

/-- Every entry, written in the documented format in any way, is accepted and read back as it
was exactly when the document meets `ReadsBack`. -/
theorem readsBack_iff (e : Settings) (d : Document e) (tmpStr : Buffer) :
    ((xaParseConfig tmpStr d.text e.name).1 = true ∧
      (xaParseConfig tmpStr d.text e.name).2.read = e.entry) ↔ d.ReadsBack := by
  by_cases hname : 2 ≤ e.name.length
  · by_cases hpath : PlainPath e.sysmap
    · rw [d.read_iff_of_tokens hname hpath tmpStr]
      exact ⟨fun htail => ⟨hname, hpath, htail⟩, fun hback => hback.tail⟩
    · refine ⟨fun hboth => ?_, fun hback => absurd hback.path hpath⟩
      cases hboth.1.symm.trans (d.not_accepted_of_path hname hpath tmpStr)
  · refine ⟨fun hboth => ?_, fun hback => absurd hback.name hname⟩
    cases hboth.1.symm.trans (d.not_accepted_of_name hname tmpStr)

/-! ## The entry of the documentation -/

/-- A line with its key indented. -/
def indented (key : LineKey) (value : CStr) (hvalue : e.Value key value) : Line e :=
  ⟨key, value, hvalue, [.newline, .space, .space, .space, .space], [.space], [.space], []⟩

/-- The text of an entry as in the documentation, with decimal numbers. -/
def Settings.document (e : Settings) : Document e where
  beforeName := []
  afterName := [.space]
  lines := indented .sysmap (34 :: (e.sysmap ++ [34])) rfl ::
    indented .ostype (34 :: (e.os.ostype ++ [34])) rfl ::
      e.os.offsetKeys.map fun key =>
        indented (.offset key) (digits 10 (e.offset key)) (numeral_digits _)
  complete := by
    rw [List.map_cons, List.map_cons, List.map_map]
    exact List.Perm.refl _
  beforeEnd := [.newline]
  after := [.newline]
  tail := none

theorem Settings.document_numbersRead (e : Settings) : e.document.NumbersRead := by
  intro line hline key hkey
  have hmem : line ∈ _ :: _ :: _ := hline
  rcases List.mem_cons.mp hmem with rfl | hmem
  · cases hkey
  · rcases List.mem_cons.mp hmem with rfl | hmem
    · cases hkey
    · obtain ⟨key', -, rfl⟩ := List.mem_map.mp hmem
      cases hkey
      exact octalSame_digits _

/-- The offsets of `Fedora-HVM`. -/
def fedoraOffset : OffsetKey → Nat
  | .linuxTasks => 268
  | .linuxMm => 276
  | .linuxPid => 312
  | .linuxPgd => 40
  | .linuxAddr => 132
  | _ => 0

/-- The entry `Fedora-HVM` with a path of its own. -/
def fedora (sysmap : CStr) (hchars : acceptsFilename sysmap = true)
    (hlength : sysmap.length < configStrLength) : Settings where
  name := cstr "Fedora-HVM"
  sysmap
  os := .linux
  offset := fedoraOffset
  name_head := ⟨70, by decide, by decide⟩
  name_chars := by decide
  name_key := by decide
  name_length := by decide
  sysmap_chars := hchars
  sysmap_length := hlength
  offset_lt := by decide

/-- The entry with the path of the documentation. -/
def fedoraBoot : Settings :=
  fedora (cstr "/boot/System.map-2.6.18-1.2798.fc6") (by decide) (by decide)

/-- The entry with a path in the working directory. -/
def fedoraHere : Settings := fedora (cstr "System.map") (by decide) (by decide)

theorem fedoraBoot_read : (xaParseConfig .zero fedoraBoot.document.text fedoraBoot.name).1 = true ∧
    (xaParseConfig .zero fedoraBoot.document.text fedoraBoot.name).2.read = fedoraBoot.entry := by
  apply (readsBack_iff fedoraBoot fedoraBoot.document .zero).mpr
  have hpath : PlainPath fedoraBoot.sysmap :=
    ⟨by decide, by decide, by decide⟩
  refine ⟨by decide, hpath, [], rfl, fun _ => fedoraBoot.document_numbersRead, ?_⟩
  rintro b ⟨⟩

/-- The path `System.map` is a `WORD`. -/
theorem fedoraHere_not_read :
    fedoraHere.document.text = cstr "Fedora-HVM \x7b\n    sysmap = \"System.map\";\n" ++
        cstr "    ostype = \"Linux\";\n    linux_tasks = 268;\n    linux_mm = 276;\n" ++
        cstr "    linux_pid = 312;\n    linux_pgd = 40;\n    linux_addr = 132;\n\x7d\n" ∧
      ¬((xaParseConfig .zero fedoraHere.document.text fedoraHere.name).1 = true ∧
        (xaParseConfig .zero fedoraHere.document.text fedoraHere.name).2.read = fedoraHere.entry) := by
  refine ⟨by decide +kernel, fun hboth => ?_⟩
  have hpath : ¬PlainPath fedoraHere.sysmap := by
    intro hpath
    have hword := hpath.word
    revert hword
    decide
  cases hboth.1.symm.trans (fedoraHere.document.not_accepted_of_path (by decide) hpath .zero)

end XenAccess.Config
