import XenAccess.Lib.Lexer
import XenAccess.Model.Symbols

/-!
# The configuration file

`lexicon.l` and `grammar.y`, with the actions of the grammar on its global buffers. The
scanner is the one of `Lexer` for the rules of the lexicon. The parser is the automaton of the
grammar: outside of a block, inside of one, and behind an assignment.

The buffers have `CONFIG_STR_LENGTH` bytes. `snprintf` changes a buffer up to the terminator
it writes, and `memcpy` copies all of it.
-/

namespace XenAccess.Config

open Lexer

/-! ## Tokens -/

/-- The keys with a number: `LINUX_TASKS` to `WIN_PH`. -/
inductive OffsetKey where
  | linuxTasks
  | linuxMm
  | linuxPid
  | linuxPgd
  | linuxAddr
  | winNtoskrnl
  | winTasks
  | winPdbase
  | winPid
  | winPeb
  | winIba
  | winPh
  deriving DecidableEq, Repr

inductive Token where
  | offset (key : OffsetKey)
  | sysmaptok
  | ostypetok
  | num (str : CStr)
  | word (str : CStr)
  | filename (str : CStr)
  | quote
  | obrace
  | ebrace
  | semicolon
  | equals
  deriving DecidableEq, Repr

/-! ## Lexicon -/

/-- `[a-zA-Z]` -/
def isAlpha (c : U8) : Bool := (65 ≤ c && c ≤ 90) || (97 ≤ c && c ≤ 122)

/-- `[0-9]` -/
def isDecimal (c : U8) : Bool := 48 ≤ c && c ≤ 57

/-- `[0-9a-fA-F]` -/
def isHex (c : U8) : Bool := (xdigit c).isSome

/-- `[a-zA-Z0-9.-]` -/
def isWordChar (c : U8) : Bool := isAlpha c || isDecimal c || c == 46 || c == 45

/-- `[a-zA-Z0-9\/.-]` -/
def isFileChar (c : U8) : Bool := isWordChar c || c == 47

/-- `[ \t]` -/
def isBlank (c : U8) : Bool := c == 32 || c == 9

/-- `0x[0-9a-fA-F]+|[0-9]+` -/
def acceptsNum (l : CStr) : Bool :=
  (l.take 2 == [48, 120] && !(l.drop 2).isEmpty && (l.drop 2).all isHex) ||
    (!l.isEmpty && l.all isDecimal)

/-- `[a-zA-Z][a-zA-Z0-9.-]+` -/
def acceptsWord : CStr → Bool
  | [] => false
  | c :: cs => isAlpha c && !cs.isEmpty && cs.all isWordChar

/-- `[a-zA-Z0-9\/.-]+` -/
def acceptsFilename (l : CStr) : Bool := !l.isEmpty && l.all isFileChar

/-- `[ \t]+` -/
def acceptsBlanks (l : CStr) : Bool := !l.isEmpty && l.all isBlank

/-- `#[^\n]*\n` -/
def acceptsComment : CStr → Bool
  | [] => false
  | c :: cs => c == 35 && cs.getLast? == some 10 && !cs.dropLast.contains 10

/-- A rule for one text. -/
def literal (text : CStr) (token : Option Token) : Rule U8 Token := ⟨fun l => l == text, fun _ => token⟩

def OffsetKey.lexeme : OffsetKey → CStr
  | .linuxTasks => cstr "linux_tasks"
  | .linuxMm => cstr "linux_mm"
  | .linuxPid => cstr "linux_pid"
  | .linuxPgd => cstr "linux_pgd"
  | .linuxAddr => cstr "linux_addr"
  | .winNtoskrnl => cstr "ntoskrnl"
  | .winTasks => cstr "win_tasks"
  | .winPdbase => cstr "win_pdbase"
  | .winPid => cstr "win_pid"
  | .winPeb => cstr "win_peb"
  | .winIba => cstr "win_iba"
  | .winPh => cstr "win_ph"

/-- The keys in the order of the lexicon. -/
def offsetKeys : List OffsetKey :=
  [.linuxTasks, .linuxMm, .linuxPid, .linuxPgd, .linuxAddr, .winNtoskrnl, .winTasks, .winPdbase,
    .winPid, .winPeb, .winIba, .winPh]

/-- The rules for one text each that stand before the patterns. -/
def keywords : List (CStr × Token) :=
  (offsetKeys.map fun k => (k.lexeme, .offset k)) ++
    [(cstr "sysmap", .sysmaptok), (cstr "ostype", .ostypetok)]

/-- The rules for one character, the end of a line among them. -/
def punctuation : List (U8 × Option Token) :=
  [(34, some .quote), (123, some .obrace), (125, some .ebrace), (59, some .semicolon),
    (61, some .equals), (10, none)]

/-- The rules of `lexicon.l`. -/
def lexicon : List (Rule U8 Token) :=
  (keywords.map fun k => literal k.1 (some k.2)) ++
    [⟨acceptsNum, fun yytext => some (.num yytext)⟩,
      ⟨acceptsWord, fun yytext => some (.word yytext)⟩,
      ⟨acceptsFilename, fun yytext => some (.filename yytext)⟩] ++
    (punctuation.map fun p => literal [p.1] p.2) ++
    [⟨acceptsBlanks, fun _ => none⟩, ⟨acceptsComment, fun _ => none⟩]

/-! ## Entries -/

/-- A buffer of `CONFIG_STR_LENGTH` bytes. -/
structure Buffer where
  bytes : List U8
  length_bytes : bytes.length = configStrLength
  deriving DecidableEq

/-- A buffer after `bzero`. -/
def Buffer.zero : Buffer := ⟨List.replicate configStrLength 0, List.length_replicate⟩

/-- The string in a buffer. -/
def Buffer.str (b : Buffer) : CStr := cstrOf b.bytes

/-- `snprintf(b, CONFIG_STR_LENGTH, "%s", str)`. -/
def Buffer.snprintf (b : Buffer) (str : CStr) : Buffer where
  bytes :=
    str.take (configStrLength - 1) ++ 0 :: b.bytes.drop (min (configStrLength - 1) str.length + 1)
  length_bytes := by
    have hlength := b.length_bytes
    simp only [configStrLength] at *
    simp
    omega

/-- `xa_config_entry_t`. -/
structure ConfigEntry where
  domainName : Buffer
  sysmap : Buffer
  ostype : Buffer
  offsets : OsUnion
  deriving DecidableEq

/-- An entry after `bzero`. -/
def ConfigEntry.zero : ConfigEntry := ⟨.zero, .zero, .zero, ⟨0, 0, 0, 0, 0, 0, 0⟩⟩

/-- The name and what the library reads of an entry. -/
def ConfigEntry.read (e : ConfigEntry) : CStr × XaConfigEntry :=
  (e.domainName.str, ⟨e.sysmap.str, e.ostype.str, e.offsets⟩)

/-- The member of the union `offsets` that a key sets. -/
def setOffset (key : OffsetKey) (v : U32) (u : OsUnion) : OsUnion :=
  match key with
  | .linuxTasks | .winNtoskrnl => { u with w0 := v }
  | .linuxMm | .winTasks => { u with w1 := v }
  | .linuxPid | .winPdbase => { u with w2 := v }
  | .linuxPgd | .winPid => { u with w3 := v }
  | .linuxAddr | .winPeb => { u with w4 := v }
  | .winIba => { u with w5 := v }
  | .winPh => { u with w6 := v }

/-- `strtol(s, NULL, 0)` with a 32-bit `long`. -/
def strtol0 (s : CStr) : U32 :=
  let (neg, rest) := splitSign s
  let value :=
    if dropHexPrefix rest ≠ rest then digitsValue 16 (dropHexPrefix rest) 0
    else if rest.head? = some 48 then digitsValue 8 rest 0
    else digitsValue 10 rest 0
  if neg then (if 2 ^ 31 < value then 0x80000000 else -BitVec.ofNat 32 value)
  else if 2 ^ 31 ≤ value then 0x7FFFFFFF else BitVec.ofNat 32 value

/-! ## Parser -/

/-- The global variables of `grammar.y`. -/
structure Globals where
  entry : ConfigEntry
  tmpEntry : ConfigEntry
  tmpStr : Buffer

variable (targetDomain : CStr)

/-- `entry_done`. -/
def entryDone (g : Globals) : Globals :=
  { g with
    entry := if strncmpEq g.tmpEntry.domainName.str targetDomain configStrLength then g.tmpEntry
      else g.entry
    tmpEntry := .zero }

/-- The action of `domain_info`. -/
def domainInfo (name : CStr) (g : Globals) : Globals :=
  let tmpStr := g.tmpStr.snprintf name
  entryDone targetDomain { g with tmpStr, tmpEntry := { g.tmpEntry with domainName := tmpStr } }

/-- The actions of `linux_tasks_assignment` to `win_ph_assignment`. -/
def offsetAssignment (key : OffsetKey) (num : CStr) (g : Globals) : Globals :=
  { g with tmpEntry := { g.tmpEntry with
      offsets := setOffset key (strtol0 num) g.tmpEntry.offsets } }

/-- The action of `sysmap_assignment`. -/
def sysmapAssignment (filename : CStr) (g : Globals) : Globals :=
  let tmpStr := g.tmpStr.snprintf filename
  { g with tmpStr, tmpEntry := { g.tmpEntry with sysmap := tmpStr } }

/-- The action of `ostype_assignment`. -/
def ostypeAssignment (word : CStr) (g : Globals) : Globals :=
  let tmpStr := g.tmpStr.snprintf word
  { g with tmpStr, tmpEntry := { g.tmpEntry with ostype := tmpStr } }

/-- Where the parser is: outside of a block, in the assignments of the block with a name, or
behind an assignment there. -/
inductive Position where
  | domains
  | assignments (name : CStr)
  | assigned (name : CStr)

/-- `yyparse`: whether the tokens are accepted, and the variables at the end. -/
def yyparse : Position → List Token → Globals → Bool × Globals
  | .domains, [], g => (true, g)
  | .domains, .word name :: .obrace :: ts, g => yyparse (.assignments name) ts g
  | .assignments name, .ebrace :: ts, g => yyparse .domains ts (domainInfo targetDomain name g)
  -- an assignment may be empty
  | .assignments name, .semicolon :: ts, g => yyparse (.assignments name) ts g
  | .assignments name, .offset key :: .equals :: .num str :: ts, g =>
    yyparse (.assigned name) ts (offsetAssignment key str g)
  | .assignments name, .sysmaptok :: .equals :: .quote :: .filename str :: .quote :: ts, g =>
    yyparse (.assigned name) ts (sysmapAssignment str g)
  | .assignments name, .ostypetok :: .equals :: .quote :: .word str :: .quote :: ts, g =>
    yyparse (.assigned name) ts (ostypeAssignment str g)
  | .assigned name, .semicolon :: ts, g => yyparse (.assignments name) ts g
  | _, _, g => (false, g)

/-- `xa_parse_config` on a text, with the result of `xa_get_config` after it. `tmp_str` has
what the last call left there. -/
def xaParseConfig (tmpStr : Buffer) (text : List U8) (td : CStr) : Bool × ConfigEntry :=
  let (ret, g) := yyparse td .domains (tokens lexicon text) ⟨.zero, .zero, tmpStr⟩
  (ret, g.entry)

end XenAccess.Config
