import XenAccess.Config.Keys
import XenAccess.Model.FindOffsets

/-!
# What the offset finder prints

The entry that the module in the kernel of a guest prints, once its name and its path are filled
in, is a text in the documented format (`FilledIn.text_eq`). Added at the end of a configuration
file it gives the instance of its domain the offsets of that kernel, and no other domain sees it
(`findOffsets_configured`). As it is printed the entry is not accepted (`not_accepted_blank`).
-/

namespace XenAccess.Config

open Lexer

variable {w : Nat} {p mm : BitVec w} {layout : KernelLayout} {name sysmap target : CStr}

/-! ## Files -/

theorem accepted_newline {l : CStr} (hacc : Accepted lexicon l) (hmem : 10 ∈ l) :
    l = [10] ∨ acceptsComment l = true := by
  cases l with
  | nil => cases hmem
  | cons c l =>
    by_cases hl : l = []
    · subst hl
      exact .inl (by rw [List.mem_singleton.mp hmem])
    · rcases accepted_cases hacc hl with ⟨-, hall⟩ | hblanks | hcomment
      · cases hall 10 hmem
      · cases (acceptsBlanks_iff.mp hblanks).2 10 hmem
      · exact .inr hcomment

/-- No lexeme goes on behind the end of a line. -/
theorem endsLexeme_newline : EndsLexeme lexicon 10 := by
  intro l hacc hmem
  rcases accepted_newline hacc (List.mem_of_mem_dropLast hmem) with rfl | hcomment
  · cases hmem
  · obtain ⟨body, hbody, rfl⟩ := acceptsComment_iff.mp hcomment
    rw [← List.cons_append, List.dropLast_concat] at hmem
    rcases List.mem_cons.mp hmem with hmem | hmem
    · cases hmem
    · exact hbody hmem

theorem exists_blocks_of_accepted {tmpStr : Buffer} {file : List U8}
    (hfile : (xaParseConfig tmpStr file target).1 = true) :
    ∃ blocks : List Block, tokens lexicon file = blocks.flatMap Block.tokens :=
  (yyparse_accepts_iff _ _).mp hfile

/-- What is read for a domain, after a block that is added to the file. -/
theorem lastNamed_concat (blocks : List Block) (b : Block) :
    lastNamed target (blocks ++ [b]) =
      if cutString b.name = target then some b else lastNamed target blocks := by
  unfold lastNamed
  rw [List.filter_append]
  by_cases hname : cutString b.name = target
  · simp [hname]
  · simp [hname]

/-- A domain sees no block of another name that is added to the file. -/
theorem xaParseConfig_concat (tmpStr tmpStr' : Buffer) {file text : List U8} {blocks : List Block}
    {b : Block} (hfile : tokens lexicon file = blocks.flatMap Block.tokens)
    (htext : tokens lexicon text = (blocks ++ [b]).flatMap Block.tokens)
    (hname : cutString b.name ≠ target) :
    (xaParseConfig tmpStr text target).1 = true ∧
      (xaParseConfig tmpStr text target).2.read = (xaParseConfig tmpStr' file target).2.read := by
  have hlast : lastNamed target (blocks ++ [b]) = lastNamed target blocks := by
    rw [lastNamed_concat, if_neg hname]
  unfold xaParseConfig
  rw [hfile, htext, yyparse_flatMap, yyparse_flatMap]
  refine ⟨rfl, ?_⟩
  obtain ⟨hnone, hsome⟩ := foldl_exec_entry (g := ⟨.zero, .zero, tmpStr'⟩) target blocks rfl
  obtain ⟨hnone', hsome'⟩ :=
    foldl_exec_entry (g := ⟨.zero, .zero, tmpStr⟩) target (blocks ++ [b]) rfl
  rw [hlast] at hnone' hsome'
  cases hdecides : lastNamed target blocks with
  | none => exact congrArg ConfigEntry.read ((hnone' hdecides).trans (hnone hdecides).symm)
  | some b' => exact (hsome' b' hdecides).trans (hsome b' hdecides).symm

/-! ## The entry -/

/-- The offset of a layout that belongs to a key. -/
def layoutOffset (layout : KernelLayout) : OffsetKey → Nat
  | .linuxTasks => layout.tasks
  | .linuxMm => layout.mm
  | .linuxPid => layout.pid
  | .linuxPgd => layout.pgd
  | .linuxAddr => layout.startCode
  | _ => 0

/-- A name and a path as they may be filled in, and a layout whose offsets are positive as
an `int`. -/
structure FilledIn (name sysmap : CStr) (layout : KernelLayout) : Prop where
  name_word : acceptsWord name = true
  name_key : ∀ k ∈ keywords, name ≠ k.1
  name_length : name.length < configStrLength
  sysmap_chars : acceptsFilename sysmap = true
  sysmap_plain : PlainPath sysmap
  sysmap_length : sysmap.length < configStrLength
  offset_lt : ∀ key ∈ GuestOs.linux.offsetKeys, layoutOffset layout key < 2 ^ 31

theorem fieldOffset_eq (p : BitVec w) (field : Nat) : fieldOffset p field = BitVec.ofNat w field := by
  rw [fieldOffset, BitVec.add_comm, BitVec.add_sub_cancel]

/-- What is printed of an offset, wherever the structure is in memory. -/
theorem printX_fieldOffset (hw : 32 ≤ w) (p : BitVec w) {field : Nat} (hfield : field < 2 ^ 31) :
    printX ((fieldOffset p field).setWidth 32) = digits 16 field := by
  have hpow : 2 ^ 32 ≤ 2 ^ w := Nat.pow_le_pow_right (by omega) hw
  rw [printX, fieldOffset_eq, BitVec.toNat_setWidth, BitVec.toNat_ofNat,
    Nat.mod_eq_of_lt (show field < 2 ^ w by omega), Nat.mod_eq_of_lt (by omega)]

theorem isHex_digits (n : Nat) : ∀ c ∈ digits 16 n, isHex c = true := by
  intro c hc
  obtain ⟨d, -, hd⟩ := digits_isDigit (by omega) (by omega) n c hc
  rw [isHex, hd]
  rfl

/-- A number as `0x%x` prints it. -/
theorem numeral_hex (n : Nat) : Numeral (48 :: 120 :: digits 16 n) n :=
  .inr ⟨digits 16 n, digits_ne_nil, isHex_digits n, digitsValue_digits (by omega) (by omega) n, rfl⟩

theorem octalSame_hex (ds : CStr) (n : Nat) : OctalSame (48 :: 120 :: ds) n := by
  intro _ hall
  cases hall 120 (by simp)

namespace FilledIn

variable (hfilled : FilledIn name sysmap layout)

/-- The entry that is to be read. -/
def settings : Settings where
  name
  sysmap
  os := .linux
  offset := layoutOffset layout
  name_head := by
    have hword := hfilled.name_word
    cases name with
    | nil => cases hword
    | cons c w =>
      unfold acceptsWord at hword
      simp only [Bool.and_eq_true] at hword
      exact ⟨c, rfl, hword.1.1⟩
  name_chars := wordChars_of_acceptsWord hfilled.name_word
  name_key := hfilled.name_key
  name_length := hfilled.name_length
  sysmap_chars := hfilled.sysmap_chars
  sysmap_length := hfilled.sysmap_length
  offset_lt := hfilled.offset_lt

theorem two_le_length : 2 ≤ hfilled.settings.name.length := by
  have hword := hfilled.name_word
  show 2 ≤ name.length
  cases name with
  | nil => cases hword
  | cons c w =>
    cases w with
    | nil => simp [acceptsWord] at hword
    | cons d w => simp

/-- The line that is commented out. -/
def nameComment (p : BitVec w) (layout : KernelLayout) : { body : CStr // 10 ∉ body } where
  val := cstr "    linux_name = 0x" ++
    (printX ((fieldOffset p layout.comm).setWidth 32) ++ [59])
  property := by
    intro hmem
    rcases List.mem_append.mp hmem with hmem | hmem
    · revert hmem
      decide
    · rcases List.mem_append.mp hmem with hmem | hmem
      · cases isHex_digits _ 10 hmem
      · cases List.mem_singleton.mp hmem

/-- A line with an offset. -/
def hexLine (key : OffsetKey) : Line hfilled.settings :=
  indented (.offset key) (48 :: 120 :: digits 16 (layoutOffset layout key)) (numeral_hex _)

/-- The entry as a text in the documented format. -/
def document (p : BitVec w) : Document hfilled.settings where
  beforeName := []
  afterName := [.space]
  lines :=
    [indented .ostype (34 :: (GuestOs.linux.ostype ++ [34])) rfl,
      indented .sysmap (34 :: (sysmap ++ [34])) rfl,
      { hfilled.hexLine .linuxTasks with
        beforeKey := [.newline, .comment (nameComment p layout), .space, .space, .space, .space] },
      hfilled.hexLine .linuxMm, hfilled.hexLine .linuxPid, hfilled.hexLine .linuxPgd,
      hfilled.hexLine .linuxAddr]
  complete := List.Perm.swap _ _ _
  beforeEnd := [.newline]
  after := [.newline]
  tail := none

/-- A line of the document starts with the end of the line before it, a printed line ends with
its own. -/
def Shifted (printed written : CStr) : Prop := 10 :: printed = written ++ [10]

theorem shifted_flatten {lines texts : List CStr} (hlines : List.Forall₂ Shifted lines texts) :
    10 :: lines.flatten = texts.flatten ++ [10] := by
  induction hlines with
  | nil => rfl
  | cons hline _ ih =>
    rw [List.flatten_cons, List.flatten_cons, ← List.cons_append, hline, List.append_assoc,
      List.singleton_append, ih, List.append_assoc]

theorem shifted_offsetLine (hw : 32 ≤ w) (p : BitVec w) (text : CStr) (key : OffsetKey)
    (hkey : key ∈ GuestOs.linux.offsetKeys) (htext : text = [32, 32, 32, 32] ++ key.lexeme) :
    Shifted (offsetLine text (fieldOffset p (layoutOffset layout key)))
      (hfilled.hexLine key).text := by
  have hequals : cstr " = 0x" = [32, 61, 32, 48, 120] := by decide
  have hend : cstr ";\n" = [59, 10] := by decide
  have hdigits := printX_fieldOffset hw p (hfilled.offset_lt key hkey)
  have hwritten : (hfilled.hexLine key).text = [10, 32, 32, 32, 32] ++ (key.lexeme ++
      ([32, 61, 32, 48, 120] ++ (digits 16 (layoutOffset layout key) ++ [59]))) := rfl
  unfold Shifted offsetLine
  rw [hwritten, hdigits, hequals, hend, htext]
  simp

theorem shifted_ostype : Shifted (cstr "    ostype = \"Linux\";\n")
    (indented (e := hfilled.settings) .ostype (34 :: (GuestOs.linux.ostype ++ [34])) rfl).text := by
  have hwritten : (indented (e := hfilled.settings) .ostype
      (34 :: (GuestOs.linux.ostype ++ [34])) rfl).text = [10, 32, 32, 32, 32] ++
        (cstr "ostype" ++ ([32, 61, 32, 34] ++ (GuestOs.linux.ostype ++ [34, 59]))) := rfl
  rw [hwritten]
  unfold Shifted
  decide

theorem shifted_sysmap : Shifted (cstr "    sysmap = \"" ++ (sysmap ++ cstr "\";\n"))
    (indented (e := hfilled.settings) .sysmap (34 :: (sysmap ++ [34])) rfl).text := by
  have hstart : cstr "    sysmap = \"" = [32, 32, 32, 32] ++ (cstr "sysmap" ++ [32, 61, 32, 34]) := by
    decide
  have hend : cstr "\";\n" = [34, 59, 10] := by decide
  have hwritten : (indented (e := hfilled.settings) .sysmap (34 :: (sysmap ++ [34])) rfl).text =
      [10, 32, 32, 32, 32] ++ (cstr "sysmap" ++ ([32, 61, 32] ++
        (34 :: (sysmap ++ [34]) ++ [59]))) := rfl
  unfold Shifted
  rw [hwritten, hstart, hend]
  simp

theorem shifted_nameComment (p : BitVec w) (layout : KernelLayout) :
    Shifted (offsetLine (cstr "#    linux_name") (fieldOffset p layout.comm))
      (10 :: 35 :: (nameComment p layout).1) := by
  have hstart : cstr "#    linux_name" ++ cstr " = 0x" = 35 :: cstr "    linux_name = 0x" := by decide
  have hend : cstr ";\n" = [59, 10] := by decide
  unfold Shifted offsetLine nameComment
  rw [← List.append_assoc, hstart, hend]
  simp

/-- The lines between the braces, and the same lines of the document. -/
theorem shifted_lines (hw : 32 ≤ w) (p mm : BitVec w) :
    ∃ lines, offsetsEntry name sysmap p mm layout =
        (name ++ cstr " \x7b\n") :: (lines ++ [cstr "\x7d\n"]) ∧
      List.Forall₂ Shifted lines
        [(indented (e := hfilled.settings) .ostype (34 :: (GuestOs.linux.ostype ++ [34])) rfl).text,
          (indented (e := hfilled.settings) .sysmap (34 :: (sysmap ++ [34])) rfl).text,
          10 :: 35 :: (nameComment p layout).1, (hfilled.hexLine .linuxTasks).text,
          (hfilled.hexLine .linuxMm).text, (hfilled.hexLine .linuxPid).text,
          (hfilled.hexLine .linuxPgd).text, (hfilled.hexLine .linuxAddr).text] := by
  have hoffset := hfilled.shifted_offsetLine hw
  refine ⟨(offsetsEntry name sysmap p mm layout).tail.dropLast, rfl, ?_⟩
  apply List.Forall₂.cons hfilled.shifted_ostype
  apply List.Forall₂.cons hfilled.shifted_sysmap
  apply List.Forall₂.cons (shifted_nameComment p layout)
  apply List.Forall₂.cons (hoffset p (cstr "    linux_tasks") .linuxTasks (by decide) (by decide))
  apply List.Forall₂.cons (hoffset p (cstr "    linux_mm") .linuxMm (by decide) (by decide))
  apply List.Forall₂.cons (hoffset p (cstr "    linux_pid") .linuxPid (by decide) (by decide))
  apply List.Forall₂.cons (hoffset mm (cstr "    linux_pgd") .linuxPgd (by decide) (by decide))
  apply List.Forall₂.cons (hoffset mm (cstr "    linux_addr") .linuxAddr (by decide) (by decide))
  exact List.Forall₂.nil

/-- What the module prints is the document. -/
theorem text_eq (hw : 32 ≤ w) (p mm : BitVec w) :
    (offsetsEntry name sysmap p mm layout).flatten = (hfilled.document p).text := by
  have hopen : cstr " \x7b\n" = [32, 123] ++ [10] := by decide
  have hclose : cstr "\x7d\n" = [125, 10] := by decide
  have hcommented : Line.text { hfilled.hexLine .linuxTasks with
      beforeKey := [.newline, .comment (nameComment p layout), .space, .space, .space, .space] } =
      (10 :: 35 :: (nameComment p layout).1) ++ (hfilled.hexLine .linuxTasks).text := by
    simp [Line.text, Gap.text, GapItem.text, hexLine, indented]
  obtain ⟨lines, hentry, hlines⟩ := hfilled.shifted_lines hw p mm
  have hwritten : (hfilled.document p).text =
      name ++ ([32, 123] ++ ((10 :: lines.flatten) ++ [125, 10])) := by
    rw [shifted_flatten hlines, Document.text]
    simp only [document, List.flatMap_cons, List.flatMap_nil, hcommented, List.flatten_cons,
      List.flatten_nil, List.append_assoc, List.append_nil]
    rfl
  rw [hentry, List.flatten_cons, List.flatten_append, hopen, hclose, hwritten]
  simp

theorem numbersRead (p : BitVec w) : (hfilled.document p).NumbersRead := by
  intro line hline key hkey
  simp only [document, List.mem_cons, List.not_mem_nil, or_false] at hline
  rcases hline with rfl | rfl | rfl | rfl | rfl | rfl | rfl
  · cases hkey
  · cases hkey
  all_goals exact octalSame_hex _ _

/-- The tokens of what the module prints are those of the block of the document. -/
theorem tokens_entry (hw : 32 ≤ w) (p mm : BitVec w) :
    tokens lexicon (offsetsEntry name sysmap p mm layout).flatten =
      (hfilled.document p).block.tokens := by
  have htail : tokens lexicon (hfilled.document p).tailText = [] := rfl
  rw [hfilled.text_eq hw, Document.tokens_text, Settings.tokenOf_name,
    if_pos hfilled.two_le_length, flatMap_tokens_eq _ hfilled.sysmap_plain, htail]
  unfold Block.tokens Block.bodyTokens Document.block
  simp

end FilledIn

/-! ## The configuration -/

theorem accepted_target {tmpStr : Buffer} {file : List U8}
    (hfile : (xaParseConfig tmpStr file name).1 = true) (tmpStr' : Buffer) (target : CStr) :
    (xaParseConfig tmpStr' file target).1 = true := by
  obtain ⟨blocks, hblocks⟩ := exists_blocks_of_accepted hfile
  exact (yyparse_accepts_iff _ _).mpr ⟨blocks, hblocks⟩

/-- A file with the printed entry at its end. -/
structure Added (name sysmap : CStr) (p mm : BitVec w) (layout : KernelLayout)
    (file text : List U8) : Prop where
  text_eq : text = file ++ (offsetsEntry name sysmap p mm layout).flatten
  accepted : (xaParseConfig .zero file name).1 = true
  lines : file = [] ∨ file.getLast? = some 10

/-- The entry that is read for a domain, when the printed entry is added to a file. -/
theorem Added.read {file text : List U8} (hadded : Added name sysmap p mm layout file text)
    (hw : 32 ≤ w) (hfilled : FilledIn name sysmap layout) (tmpStr tmpStr' : Buffer)
    (target : CStr) :
    (xaParseConfig tmpStr text target).1 = true ∧
      (xaParseConfig tmpStr text target).2.read = if name = target then hfilled.settings.entry
        else (xaParseConfig tmpStr' file target).2.read := by
  obtain ⟨blocks, hblocks⟩ := exists_blocks_of_accepted hadded.accepted
  have htext : tokens lexicon text =
      (blocks ++ [(hfilled.document p).block]).flatMap Block.tokens := by
    rw [hadded.text_eq, endsLexeme_newline.tokens_append hadded.lines, hblocks,
      hfilled.tokens_entry hw, List.flatMap_append, List.flatMap_cons, List.flatMap_nil,
      List.append_nil]
  have hcut : cutString (hfilled.document p).block.name = name :=
    cutString_of_length (fun c hc => isFileChar_of_isWordChar (hfilled.settings.name_chars c hc))
      hfilled.name_length
  by_cases hname : name = target
  · have hlast : lastNamed target (blocks ++ [(hfilled.document p).block]) =
        some (hfilled.document p).block := by rw [lastNamed_concat, if_pos (hcut.trans hname)]
    rw [if_pos hname, ← (hfilled.document p).read_block_iff.mpr (hfilled.numbersRead p)]
    exact xaParseConfig_read tmpStr htext hlast
  · rw [if_neg hname]
    exact xaParseConfig_concat tmpStr tmpStr' hblocks htext (hcut.trans_ne hname)

/-- As it is printed the entry cannot be added: the name that is to be filled in is two words. -/
theorem not_accepted_blank {file : List U8} (hfile : (xaParseConfig .zero file name).1 = true)
    (hend : file = [] ∨ file.getLast? = some 10) (hp : p ≠ 0) (tmpStr : Buffer) (target : CStr) :
    (xaParseConfig tmpStr (file ++ (myInitModule p mm layout).tail.flatten) target).1 = false := by
  obtain ⟨blocks, hblocks⟩ := exists_blocks_of_accepted hfile
  have hprinted : (myInitModule p mm layout).tail =
      offsetsEntry (cstr "[domain name]") (cstr "[insert path here]") p mm layout := by
    rw [myInitModule, List.tail_cons, if_pos hp]
  obtain ⟨rest, hrest⟩ : ∃ rest, (myInitModule p mm layout).tail.flatten =
      [91] ++ (cstr "domain" ++ (32 :: (cstr "name" ++ 93 :: rest))) := by
    have hblank : cstr "[domain name]" =
        [91] ++ (cstr "domain" ++ (32 :: (cstr "name" ++ [93]))) := by decide
    refine ⟨cstr " \x7b\n" ++ (myInitModule p mm layout).tail.tail.flatten, ?_⟩
    rw [hprinted, offsetsEntry, List.flatten_cons, List.tail_cons, hblank]
    simp only [List.append_assoc, List.cons_append, List.nil_append]
  have hbracket : tokens lexicon ([91] ++ (cstr "domain" ++ (32 :: (cstr "name" ++ 93 :: rest)))) =
      .word (cstr "domain") :: .word (cstr "name") :: tokens lexicon (93 :: rest) := by
    have hdomain : tokenOf lexicon (cstr "domain") = some (.word (cstr "domain")) := by decide
    have hname : tokenOf lexicon (cstr "name") = some (.word (cstr "name")) := by decide
    have hnone : tokenOf lexicon [91] = none := by decide
    have hstops (c : U8) (hc : isTokenChar c = false) (s : CStr) : Stops (c :: s) := by
      intro d hd
      cases hd
      exact hc
    rw [(munches_single (by decide) (by decide) (by decide) _).tokens_append, hnone,
      tokens_text (by decide) (hstops 32 rfl _), hdomain, tokens_blank (by decide),
      tokens_text (by decide) (hstops 93 rfl _), hname]
    rfl
  unfold xaParseConfig
  rw [endsLexeme_newline.tokens_append hend, hblocks, hrest, hbracket, yyparse_blocks]
  rfl

/-- The offsets of the entry are those of the kernel. -/
theorem FilledIn.get_offsets (hfilled : FilledIn name sysmap layout) {key : OffsetKey}
    (hkey : key ∈ GuestOs.linux.offsetKeys) :
    key.get hfilled.settings.entry.2.offsets = BitVec.ofNat 32 (layoutOffset layout key) := by
  simp only [GuestOs.offsetKeys, List.mem_cons, List.not_mem_nil, or_false] at hkey
  rcases hkey with rfl | rfl | rfl | rfl | rfl <;> rfl

theorem copyOffset_ofNat {old : U32} {n : Nat} (hn : n < 2 ^ 32) :
    copyOffset old (BitVec.ofNat 32 n) = if n = 0 then old else BitVec.ofNat 32 n := by
  by_cases hzero : n = 0
  · rw [if_pos hzero, hzero]
    rfl
  · have hne : BitVec.ofNat 32 n ≠ 0 := by
      intro heq
      apply hzero
      have hvalue := congrArg BitVec.toNat heq
      rw [BitVec.toNat_ofNat, Nat.mod_eq_of_lt hn] at hvalue
      exact hvalue
    rw [if_neg hzero, copyOffset, if_pos (bne_iff_ne.mpr hne)]

/-- The printed entry is added to the configuration file. `read_config_file` then gives the
instance for the domain the path and the offsets of its kernel, wherever the process was that
the module looked at, and every other domain has the entry it had before. The text that the
module prints, with nothing filled in, makes the file one that is not accepted. -/
theorem findOffsets_configured (h before : Host) (tmpStr tmpStr' : Buffer) (file text : List U8)
    (hw : 32 ≤ w) (hadded : Added name sysmap p mm layout file text)
    (hfilled : FilledIn name sysmap layout) (hbefore : ConfiguredBy before file tmpStr')
    (hconf : ConfiguredBy h text tmpStr) :
    (∀ s u, configName h s = .ok (some name, u) →
      ∃ t, readConfigFile h s = .ok (.success, t) ∧ t.sysmap = some sysmap ∧ t.osType = .linux ∧
        ∀ key ∈ GuestOs.linux.offsetKeys, key.get t.os =
          if layoutOffset layout key = 0 then key.get s.os
          else BitVec.ofNat 32 (layoutOffset layout key)) ∧
      (∀ other, other ≠ name → h.xaParseConfig other = before.xaParseConfig other) ∧
      (p ≠ 0 → ∀ target,
        (xaParseConfig tmpStr (file ++ (myInitModule p mm layout).tail.flatten) target).1 =
          false) := by
  have hread := hadded.read hw hfilled tmpStr tmpStr'
  refine ⟨?_, ?_, fun hp target => ?_⟩
  · intro s u hname
    obtain ⟨haccepted, hentry⟩ := hread name
    rw [if_pos rfl] at hentry
    have hparsed : h.xaParseConfig name = some hfilled.settings.entry.2 := by
      rw [hconf.parse, if_pos haccepted, hentry]
    have hlinux : strncmpEq GuestOs.linux.ostype (cstr "Linux") configStrLength = true := by decide
    rw [readConfigFile_eq hconf.configFile hname hparsed]
    refine ⟨{ u with
        sysmap := some sysmap
        osType := .linux
        os := copyLinuxOffsets u.os hfilled.settings.entry.2.offsets }, ?_, rfl, rfl, ?_⟩
    · exact if_pos hlinux
    · intro key hkey
      rw [OffsetKey.get_copyLinuxOffsets hkey, hfilled.get_offsets hkey, configName_os hname]
      apply copyOffset_ofNat
      have hlt := hfilled.offset_lt key hkey
      omega
  · intro other hother
    obtain ⟨haccepted, hentry⟩ := hread other
    rw [if_neg hother.symm] at hentry
    rw [hconf.parse, hbefore.parse, if_pos haccepted, hentry,
      if_pos (accepted_target hadded.accepted tmpStr' other)]
  · exact not_accepted_blank hadded.accepted hadded.lines hp tmpStr target

/-! ### A kernel of Fedora -/

/-- The structures of a kernel. -/
def fedoraLayout : KernelLayout where
  comm := 404
  tasks := 108
  mm := 132
  pid := 168
  pgd := 36
  startCode := 128

/-- A file with one entry. -/
def smallFile : List U8 := cstr "bb\x7b\x7d\n"

/-- The entry for a process of the kernel. -/
def fedoraEntry : List CStr :=
  offsetsEntry (cstr "Fedora") (cstr "/boot/System.map") (0xC0400000 : BitVec 32) 0xC1200000
    fedoraLayout

theorem fedoraLayout_filledIn :
    FilledIn (cstr "Fedora") (cstr "/boot/System.map") fedoraLayout where
  name_word := by decide
  name_key := by decide
  name_length := by decide
  sysmap_chars := by decide
  sysmap_plain := ⟨by decide, by decide, by decide⟩
  sysmap_length := by decide
  offset_lt := by decide

theorem fedoraEntry_added : Added (cstr "Fedora") (cstr "/boot/System.map")
    (0xC0400000 : BitVec 32) 0xC1200000 fedoraLayout smallFile (smallFile ++ fedoraEntry.flatten) :=
  ⟨rfl, by decide, by decide⟩

theorem fedora_configured :
    (∀ s u, configName (keysHost (smallFile ++ fedoraEntry.flatten)) s =
        .ok (some (cstr "Fedora"), u) →
      ∃ t, readConfigFile (keysHost (smallFile ++ fedoraEntry.flatten)) s = .ok (.success, t) ∧
        t.sysmap = some (cstr "/boot/System.map") ∧ t.osType = .linux ∧
        ∀ key ∈ GuestOs.linux.offsetKeys, key.get t.os =
          if layoutOffset fedoraLayout key = 0 then key.get s.os
          else BitVec.ofNat 32 (layoutOffset fedoraLayout key)) ∧
      (∀ other, other ≠ cstr "Fedora" →
        (keysHost (smallFile ++ fedoraEntry.flatten)).xaParseConfig other =
          (keysHost smallFile).xaParseConfig other) ∧
      ((0xC0400000 : BitVec 32) ≠ 0 → ∀ target,
        (xaParseConfig .zero (smallFile ++
          (myInitModule (0xC0400000 : BitVec 32) 0xC1200000 fedoraLayout).tail.flatten) target).1 =
            false) :=
  findOffsets_configured (keysHost (smallFile ++ fedoraEntry.flatten)) (keysHost smallFile) .zero
    .zero smallFile (smallFile ++ fedoraEntry.flatten) (by decide) fedoraEntry_added
    fedoraLayout_filledIn (keysHost_configuredBy _) (keysHost_configuredBy _)

end XenAccess.Config
