import XenAccess.Config.RoundTrip
import XenAccess.Model.Image

/-!
# Keys and offsets

The offsets of Linux and of Windows share the words of a union, and a numeral is converted by
`strtol` with base 0. So a word of the entry has what `strtol` reads of the last assignment to
any key of that word (`Block.offset_read`), and an offset of the instance is right exactly when
this is the value that was written last for its own key (`setsKeys_iff`).
-/

namespace XenAccess.Config

open Lexer

variable {h : Host} {target : CStr} {b : Block} {key key' : OffsetKey}

/-! ## Words of the union -/

/-- The word that a key stands for. -/
def OffsetKey.word : OffsetKey → Fin 7
  | .linuxTasks | .winNtoskrnl => 0
  | .linuxMm | .winTasks => 1
  | .linuxPid | .winPdbase => 2
  | .linuxPgd | .winPid => 3
  | .linuxAddr | .winPeb => 4
  | .winIba => 5
  | .winPh => 6

/-- The offset of the instance that belongs to a key. -/
def OffsetKey.get : OffsetKey → OsUnion → U32
  | .linuxTasks, u => u.linuxTasks
  | .linuxMm, u => u.linuxMm
  | .linuxPid, u => u.linuxPid
  | .linuxPgd, u => u.linuxPgd
  | .linuxAddr, u => u.linuxAddr
  | .winNtoskrnl, u => u.ntoskrnl
  | .winTasks, u => u.winTasks
  | .winPdbase, u => u.winPdbase
  | .winPid, u => u.winPid
  | .winPeb, u => u.winPeb
  | .winIba, u => u.winIba
  | .winPh, u => u.winPh

theorem OffsetKey.get_setOffset (v : U32) (u : OsUnion) :
    key.get (setOffset key' v u) = if key'.word = key.word then v else key.get u := by
  cases key <;> cases key' <;> rfl

theorem OffsetKey.get_zero (key : OffsetKey) : key.get ConfigEntry.zero.read.2.offsets = 0 := by
  cases key <;> rfl

/-- `read_config_file` copies the offsets of the operating system. -/
theorem OffsetKey.get_copyLinuxOffsets (hkey : key ∈ GuestOs.linux.offsetKeys) (old new : OsUnion) :
    key.get (copyLinuxOffsets old new) = copyOffset (key.get old) (key.get new) := by
  simp only [GuestOs.offsetKeys, List.mem_cons, List.not_mem_nil, or_false] at hkey
  rcases hkey with rfl | rfl | rfl | rfl | rfl <;> rfl

theorem OffsetKey.get_copyWindowsOffsets (hkey : key ∈ GuestOs.windows.offsetKeys)
    (old new : OsUnion) :
    key.get (copyWindowsOffsets old new) = copyOffset (key.get old) (key.get new) := by
  simp only [GuestOs.offsetKeys, List.mem_cons, List.not_mem_nil, or_false] at hkey
  rcases hkey with rfl | rfl | rfl | rfl | rfl | rfl | rfl <;> rfl

/-! ## Numbers of a block -/

/-- The number of an assignment to one of the keys. -/
def Assignment.number (named : OffsetKey → Bool) : Assignment → Option CStr
  | .offset key num => if named key then some num else none
  | .empty | .sysmap _ | .ostype _ => none

/-- The number in the last assignment to one of the keys. -/
def Block.lastNumber (named : OffsetKey → Bool) (b : Block) : Option CStr :=
  (b.assignments.filterMap (Assignment.number named)).getLast?

/-- The value of a numeral: hexadecimal behind `0x`, else decimal. -/
def numeralValue (num : CStr) : Nat :=
  if num.take 2 = [48, 120] then digitsValue 16 (num.drop 2) 0 else digitsValue 10 num 0

/-- The value that a block gives to a key, `0` if it does not occur. -/
def Block.keyValue (b : Block) (key : OffsetKey) : U32 :=
  ((b.lastNumber fun key' => key' = key).map fun num => BitVec.ofNat 32 (numeralValue num)).getD 0

/-- What `strtol` reads of the last assignment to a key that shares the word of a key. -/
def Block.wordValue (b : Block) (key : OffsetKey) : U32 :=
  ((b.lastNumber fun key' => key'.word = key.word).map strtol0).getD 0

/-- The offset of the entry. -/
theorem Block.offset_read (b : Block) (key : OffsetKey) :
    key.get b.read.2.offsets = b.wordValue key := by
  have hfold (assignments : List Assignment) :
      key.get (assignments.foldl (fun e a => a.set e) ConfigEntry.zero.read.2).offsets =
        (((assignments.filterMap (Assignment.number fun key' => key'.word = key.word)).getLast?).map
          strtol0).getD 0 := by
    induction assignments using List.reverseRecOn with
    | nil => exact key.get_zero
    | append_singleton assignments a ih =>
      rw [List.foldl_append, List.filterMap_append, List.foldl_cons, List.foldl_nil]
      cases a with
      | empty => simpa [Assignment.set, Assignment.number] using ih
      | sysmap filename => simpa [Assignment.set, Assignment.number] using ih
      | ostype word => simpa [Assignment.set, Assignment.number] using ih
      | offset key' num =>
        show key.get (setOffset key' (strtol0 num) _) = _
        rw [key.get_setOffset]
        by_cases hword : key'.word = key.word
        · simp [Assignment.number, hword]
        · simpa [Assignment.number, hword] using ih
  exact hfold b.assignments

/-! ## The instance -/

/-- The configuration file has a text. -/
structure ConfiguredBy (h : Host) (text : List U8) (tmpStr : Buffer) : Prop where
  configFile : h.configFile = true
  parse : ∀ td, h.xaParseConfig td =
    if (xaParseConfig tmpStr text td).1 then some (xaParseConfig tmpStr text td).2.read.2 else none

/-- Whatever the instance was before, `read_config_file` sets each offset of the operating system
to the value of its key, or leaves it if that is zero or the key does not occur. -/
def SetsKeys (h : Host) (target : CStr) (b : Block) (os : GuestOs) : Prop :=
  ∀ s u, configName h s = .ok (some target, u) → ∃ t, readConfigFile h s = .ok (.success, t) ∧
    ∀ key ∈ os.offsetKeys,
      key.get t.os = if b.keyValue key = 0 then key.get s.os else b.keyValue key

theorem configName_os {s u : XaState} {r : Option CStr} (hname : configName h s = .ok (r, u)) :
    u.os = s.os := by
  unfold configName at hname
  split at hname
  · cases hname
    rfl
  · split at hname
    · cases hname
    · cases hname
      rfl

theorem readConfigFile_eq {s u : XaState} {entry : XaConfigEntry} (hfile : h.configFile = true)
    (hname : configName h s = .ok (some target, u)) (hentry : h.xaParseConfig target = some entry) :
    readConfigFile h s = applyConfig entry u := by
  unfold readConfigFile
  rw [hfile, if_pos rfl, Prog.bind_of_ok hname]
  dsimp only
  rw [hentry]

/-- Each offset of the operating system is copied unless it is zero. -/
theorem applyConfig_offsets {entry : XaConfigEntry} {os : GuestOs}
    (hos : entry.ostype = os.ostype) (u : XaState) :
    ∃ t, applyConfig entry u = .ok (.success, t) ∧ ∀ key ∈ os.offsetKeys,
      key.get t.os = copyOffset (key.get u.os) (key.get entry.offsets) := by
  unfold applyConfig
  rw [hos]
  cases os with
  | linux =>
    have hlinux : strncmpEq GuestOs.linux.ostype (cstr "Linux") configStrLength = true := by decide
    rw [if_pos hlinux]
    exact ⟨_, rfl, fun key hkey => key.get_copyLinuxOffsets hkey _ _⟩
  | windows =>
    have hlinux : ¬strncmpEq GuestOs.windows.ostype (cstr "Linux") configStrLength = true := by
      decide
    have hwindows : strncmpEq GuestOs.windows.ostype (cstr "Windows") configStrLength = true := by
      decide
    rw [if_neg hlinux, if_pos hwindows]
    exact ⟨_, rfl, fun key hkey => key.get_copyWindowsOffsets hkey _ _⟩

/-- The last block with the name of the domain decides. -/
theorem xaParseConfig_read {text : List U8} {blocks : List Block} (tmpStr : Buffer)
    (hblocks : tokens lexicon text = blocks.flatMap Block.tokens)
    (hlast : lastNamed target blocks = some b) :
    (xaParseConfig tmpStr text target).1 = true ∧
      (xaParseConfig tmpStr text target).2.read = b.read := by
  unfold xaParseConfig
  rw [hblocks, yyparse_flatMap]
  exact ⟨rfl, (foldl_exec_entry target blocks rfl).2 b hlast⟩

/-- What `read_config_file` makes of each offset of the operating system. -/
theorem readConfigFile_offsets {text : List U8} {tmpStr : Buffer} {blocks : List Block}
    {os : GuestOs} (hconf : ConfiguredBy h text tmpStr)
    (hblocks : tokens lexicon text = blocks.flatMap Block.tokens)
    (hlast : lastNamed target blocks = some b) (hos : b.read.2.ostype = os.ostype) {s u : XaState}
    (hname : configName h s = .ok (some target, u)) :
    ∃ t, readConfigFile h s = .ok (.success, t) ∧ ∀ key ∈ os.offsetKeys,
      key.get t.os = copyOffset (key.get s.os) (b.wordValue key) := by
  obtain ⟨haccepted, hread⟩ := xaParseConfig_read tmpStr hblocks hlast
  have hentry : h.xaParseConfig target = some b.read.2 := by
    rw [hconf.parse, if_pos haccepted, hread]
  rw [readConfigFile_eq hconf.configFile hname hentry]
  obtain ⟨t, ht, hoffsets⟩ := applyConfig_offsets hos u
  refine ⟨t, ht, fun key hkey => ?_⟩
  rw [hoffsets key hkey, configName_os hname, b.offset_read]

/-- Two values that replace every old one in the same way are the same. -/
theorem copyOffset_inj {v w : U32}
    (hall : ∀ old, copyOffset old w = if v = 0 then old else v) : w = v := by
  unfold copyOffset at hall
  by_cases hv : v = 0
  · have hnext := hall (w + 1)
    rw [if_pos hv] at hnext
    by_cases hw : w = 0
    · rw [hw, hv]
    · rw [if_pos (bne_iff_ne.mpr hw)] at hnext
      exact absurd hnext (by bv_omega)
  · have hnext := hall (v + 1)
    rw [if_neg hv] at hnext
    by_cases hw : w = 0
    · rw [hw] at hnext
      exact absurd hnext (by simp)
    · rwa [if_pos (bne_iff_ne.mpr hw)] at hnext

/-- **When each key sets its own offset.** For every accepted configuration and the block in it
that decides for a domain: if for each key of the operating system `strtol` reads the last
assignment to a key of the same word as the value that was written last for the key itself. -/
theorem setsKeys_iff (h : Host) (text : List U8) (tmpStr : Buffer) (target : CStr)
    (blocks : List Block) (b : Block) (os : GuestOs) (hconf : ConfiguredBy h text tmpStr)
    (hblocks : tokens lexicon text = blocks.flatMap Block.tokens)
    (hlast : lastNamed target blocks = some b) (hos : b.read.2.ostype = os.ostype) :
    SetsKeys h target b os ↔ ∀ key ∈ os.offsetKeys, b.wordValue key = b.keyValue key := by
  constructor
  · intro hsets key hkey
    apply copyOffset_inj
    intro old
    -- an instance for an image file, all of whose offsets are `old`
    let s : XaState :=
      { zeroState 0 with
        mode := .file, imageType := some target, os := ⟨old, old, old, old, old, old, old⟩ }
    have hname : configName h s = .ok (some target, s) := rfl
    have hold : key.get s.os = old := by cases key <;> rfl
    obtain ⟨t, ht, hvalues⟩ := hsets s s hname
    obtain ⟨t', ht', hcopied⟩ := readConfigFile_offsets hconf hblocks hlast hos hname
    cases ht.symm.trans ht'
    rw [← hold, ← hcopied key hkey, hvalues key hkey]
  · intro hall s u hname
    obtain ⟨t, ht, hcopied⟩ := readConfigFile_offsets hconf hblocks hlast hos hname
    refine ⟨t, ht, fun key hkey => ?_⟩
    rw [hcopied key hkey, hall key hkey, copyOffset]
    by_cases hzero : b.keyValue key = 0
    · simp [hzero]
    · rw [if_neg hzero, if_pos (bne_iff_ne.mpr hzero)]

/-! ## Two configurations -/

/-- A host with a configuration file. -/
def keysHost (text : List U8) : Host :=
  { imageHost [] with
    xaParseConfig := fun td =>
      if (xaParseConfig .zero text td).1 then some (xaParseConfig .zero text td).2.read.2
      else none }

theorem keysHost_configuredBy (text : List U8) : ConfiguredBy (keysHost text) text .zero :=
  ⟨rfl, fun _ => rfl⟩

/-- The text of a block with some lines. -/
def blockText {e : Settings} (lines : List (Line e)) : List U8 :=
  e.name ++ 123 :: (lines.flatMap Line.text ++ [125])

theorem tokens_blockText {e : Settings} (lines : List (Line e)) (hname : 2 ≤ e.name.length)
    (hpath : PlainPath e.sysmap) :
    tokens lexicon (blockText lines) =
      [Block.mk e.name (lines.map Line.assignment)].flatMap Block.tokens := by
  have hobrace : (123, some Token.obrace) ∈ punctuation := by simp [punctuation]
  have hebrace : (125, some Token.ebrace) ∈ punctuation := by simp [punctuation]
  have hend : tokens lexicon [125] = [.ebrace] := tokens_punctuation hebrace []
  unfold blockText
  rw [tokens_text e.acceptsFilename_name (stops_punctuation _ hobrace _), e.tokenOf_name,
    if_pos hname, tokens_punctuation hobrace, Document.tokens_lines, hend,
    flatMap_tokens_eq lines hpath]
  rw [List.flatMap_cons, List.flatMap_nil, List.append_nil]
  rfl

/-- An offset of Linux and the offset of Windows in the same word. -/
def mixedOffset : OffsetKey → Nat
  | .linuxMm => 276
  | .winTasks => 136
  | _ => 0

/-- The domain `Fedora-HVM` with these offsets. -/
def mixedSettings : Settings := { fedoraBoot with offset := mixedOffset, offset_lt := by decide }

/-- A line with a decimal number. -/
def numberLine (key : OffsetKey) : Line mixedSettings :=
  indented (.offset key) (digits 10 (mixedOffset key)) (numeral_digits _)

def ostypeLine : Line mixedSettings := indented .ostype (34 :: (cstr "Linux" ++ [34])) rfl

def mmLines : List (Line mixedSettings) := [ostypeLine, numberLine .linuxMm]

def mixedLines : List (Line mixedSettings) := [ostypeLine, numberLine .linuxMm, numberLine .winTasks]

/-- The block with some of the lines. -/
def mixedBlock (lines : List (Line mixedSettings)) : Block :=
  ⟨mixedSettings.name, lines.map Line.assignment⟩

theorem lastNamed_mixedBlock (lines : List (Line mixedSettings)) :
    lastNamed mixedSettings.name [mixedBlock lines] = some (mixedBlock lines) := by
  have hname : cutString (mixedBlock lines).name = mixedSettings.name := by
    show cutString mixedSettings.name = _
    decide
  simp [lastNamed, hname]

theorem mixedSettings_path : PlainPath mixedSettings.sysmap := ⟨by decide, by decide, by decide⟩

theorem mmLines_set :
    SetsKeys (keysHost (blockText mmLines)) mixedSettings.name (mixedBlock mmLines) .linux :=
  (setsKeys_iff (keysHost (blockText mmLines)) (blockText mmLines) .zero mixedSettings.name
    [mixedBlock mmLines] (mixedBlock mmLines) .linux (keysHost_configuredBy _)
    (tokens_blockText mmLines (by decide) mixedSettings_path) (lastNamed_mixedBlock _)
    (by decide)).mpr
    (by decide)

/-- A key of Windows takes the place of the key of Linux with the same word. -/
theorem mixedLines_not_set :
    blockText mixedLines = cstr "Fedora-HVM\x7b\n    ostype = \"Linux\";\n" ++
        cstr "    linux_mm = 276;\n    win_tasks = 136;\x7d" ∧
      ¬SetsKeys (keysHost (blockText mixedLines)) mixedSettings.name (mixedBlock mixedLines)
        .linux := by
  refine ⟨by decide +kernel, fun hsets => ?_⟩
  let s : XaState := { zeroState 0 with mode := .file, imageType := some mixedSettings.name }
  have hname : configName (keysHost (blockText mixedLines)) s = .ok (some mixedSettings.name, s) :=
    rfl
  have hkey : OffsetKey.linuxMm ∈ GuestOs.linux.offsetKeys := by decide
  obtain ⟨t, ht, hvalues⟩ := hsets s s hname
  have hos : (mixedBlock mixedLines).read.2.ostype = GuestOs.linux.ostype := by decide
  obtain ⟨t', ht', hcopied⟩ := readConfigFile_offsets (keysHost_configuredBy _)
    (tokens_blockText mixedLines (by decide) mixedSettings_path) (lastNamed_mixedBlock _) hos hname
  cases ht.symm.trans ht'
  have hsame := (hvalues _ hkey).symm.trans (hcopied _ hkey)
  revert hsame
  decide

end XenAccess.Config
