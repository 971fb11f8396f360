import Mathlib.Data.List.TakeWhile
import XenAccess.Config.Numbers
import XenAccess.Model.Config

/-!
# Blocks of a configuration

The sentences of `grammar.y` are lists of blocks (`yyparse_accepts_iff`), and the parser runs
the actions of one block after the other (`yyparse_blocks`). Each block starts with a cleared
`tmp_entry`, so what is read of the entry it makes is a function of the block alone
(`Block.read`), and the last block with the name of the target decides (`foldl_exec_entry`).
-/

namespace XenAccess.Config

variable {target name : CStr} {g : Globals} {ts : List Token}

/-! ## Syntax -/

/-- `assignment`. -/
inductive Assignment where
  | empty
  | offset (key : OffsetKey) (num : CStr)
  | sysmap (filename : CStr)
  | ostype (word : CStr)

/-- `domain_info`. -/
structure Block where
  name : CStr
  assignments : List Assignment

namespace Assignment

/-- The tokens of an assignment with its semicolon. -/
def tokens : Assignment → List Token
  | .empty => [.semicolon]
  | .offset key num => [.offset key, .equals, .num num, .semicolon]
  | .sysmap filename => [.sysmaptok, .equals, .quote, .filename filename, .quote, .semicolon]
  | .ostype word => [.ostypetok, .equals, .quote, .word word, .quote, .semicolon]

/-- The action of an assignment. -/
def exec : Assignment → Globals → Globals
  | .empty => id
  | .offset key num => offsetAssignment key num
  | .sysmap filename => sysmapAssignment filename
  | .ostype word => ostypeAssignment word

end Assignment

namespace Block

/-- The tokens of the assignments of a block and its end. -/
def bodyTokens (assignments : List Assignment) : List Token :=
  assignments.flatMap Assignment.tokens ++ [.ebrace]

def tokens (b : Block) : List Token := .word b.name :: .obrace :: bodyTokens b.assignments

/-- The actions of a block. -/
def exec (target : CStr) (g : Globals) (b : Block) : Globals :=
  domainInfo target b.name (b.assignments.foldl (fun g a => a.exec g) g)

end Block

/-! ## The parser -/

theorem yyparse_assignments (target name : CStr) (assignments : List Assignment)
    (ts : List Token) (g : Globals) :
    yyparse target (.assignments name) (assignments.flatMap Assignment.tokens ++ ts) g =
      yyparse target (.assignments name) ts (assignments.foldl (fun g a => a.exec g) g) := by
  induction assignments generalizing g with
  | nil => rfl
  | cons a assignments ih =>
    rw [List.flatMap_cons, List.append_assoc, List.foldl_cons, ← ih]
    cases a with
    | empty => rfl
    | offset key num => rfl
    | sysmap filename => rfl
    | ostype word => rfl

theorem yyparse_block (b : Block) (ts : List Token) (g : Globals) :
    yyparse target .domains (b.tokens ++ ts) g = yyparse target .domains ts (b.exec target g) := by
  show yyparse target (.assignments b.name)
    ((b.assignments.flatMap Assignment.tokens ++ [.ebrace]) ++ ts) g = _
  rw [List.append_assoc, yyparse_assignments]
  rfl

/-- The parser runs the actions of the blocks. -/
theorem yyparse_blocks (blocks : List Block) (ts : List Token) (g : Globals) :
    yyparse target .domains (blocks.flatMap Block.tokens ++ ts) g =
      yyparse target .domains ts (blocks.foldl (Block.exec target) g) := by
  induction blocks generalizing g with
  | nil => rfl
  | cons b blocks ih => rw [List.flatMap_cons, List.append_assoc, yyparse_block, ih, List.foldl_cons]

/-- What may follow at a position of the parser. -/
def Position.Sentence : Position → List Token → Prop
  | .domains, ts => ∃ blocks : List Block, ts = blocks.flatMap Block.tokens
  | .assignments _, ts => ∃ (assignments : List Assignment) (blocks : List Block),
    ts = Block.bodyTokens assignments ++ blocks.flatMap Block.tokens
  | .assigned _, ts => ∃ (assignments : List Assignment) (blocks : List Block),
    ts = .semicolon :: (Block.bodyTokens assignments ++ blocks.flatMap Block.tokens)

/-- An assignment before the rest of a block. -/
theorem Position.Sentence.cons_assignment (a : Assignment) {name' : CStr}
    (hts : (Position.assignments name).Sentence ts) :
    (Position.assignments name').Sentence (a.tokens ++ ts) := by
  obtain ⟨assignments, blocks, rfl⟩ := hts
  refine ⟨a :: assignments, blocks, ?_⟩
  unfold Block.bodyTokens
  rw [List.flatMap_cons, List.append_assoc, List.append_assoc, List.append_assoc]

theorem sentence_of_accepts (position : Position) (ts : List Token) (g : Globals)
    (hacc : (yyparse target position ts g).1 = true) : position.Sentence ts := by
  fun_induction yyparse target position ts g with
  | case1 g => exact ⟨[], rfl⟩
  | case2 name ts g ih =>
    obtain ⟨assignments, blocks, rfl⟩ := ih hacc
    exact ⟨⟨name, assignments⟩ :: blocks, rfl⟩
  | case3 name ts g ih =>
    obtain ⟨blocks, rfl⟩ := ih hacc
    exact ⟨[], blocks, rfl⟩
  | case4 name ts g ih => exact (ih hacc).cons_assignment .empty
  | case5 name key str ts g ih =>
    obtain ⟨assignments, blocks, rfl⟩ := ih hacc
    exact ⟨.offset key str :: assignments, blocks, rfl⟩
  | case6 name str ts g ih =>
    obtain ⟨assignments, blocks, rfl⟩ := ih hacc
    exact ⟨.sysmap str :: assignments, blocks, rfl⟩
  | case7 name str ts g ih =>
    obtain ⟨assignments, blocks, rfl⟩ := ih hacc
    exact ⟨.ostype str :: assignments, blocks, rfl⟩
  | case8 name ts g ih =>
    obtain ⟨assignments, blocks, rfl⟩ := ih hacc
    exact ⟨assignments, blocks, rfl⟩
  | case9 => cases hacc

/-- The sentences of the grammar are the lists of blocks. -/
theorem yyparse_accepts_iff (ts : List Token) (g : Globals) :
    (yyparse target .domains ts g).1 = true ↔
      ∃ blocks : List Block, ts = blocks.flatMap Block.tokens := by
  constructor
  · exact sentence_of_accepts .domains ts g
  · rintro ⟨blocks, rfl⟩
    rw [← List.append_nil (blocks.flatMap Block.tokens), yyparse_blocks]
    rfl

theorem yyparse_flatMap (blocks : List Block) (g : Globals) :
    yyparse target .domains (blocks.flatMap Block.tokens) g =
      (true, blocks.foldl (Block.exec target) g) := by
  rw [← List.append_nil (blocks.flatMap Block.tokens), yyparse_blocks]
  rfl

/-! ## Entries -/

/-- What a buffer keeps of a string. -/
def cutString (s : CStr) : CStr := cstrOf (s.take (configStrLength - 1))

theorem Buffer.str_snprintf (b : Buffer) (s : CStr) : (b.snprintf s).str = cutString s := by
  unfold Buffer.snprintf Buffer.str cutString cstrOf
  rw [List.takeWhile_append]
  split
  · rename_i hall
    have hstart := List.takeWhile_prefix (l := s.take (configStrLength - 1)) fun c : U8 => c != 0
    rw [hstart.eq_of_length hall, List.takeWhile_cons, if_neg (by decide), List.append_nil]
  · rfl

theorem length_cutString (s : CStr) : (cutString s).length < configStrLength := by
  have hwhile := (List.takeWhile_prefix (l := s.take (configStrLength - 1))
    fun c : U8 => c != 0).length_le
  rw [List.length_take] at hwhile
  show (List.takeWhile _ _).length < _
  unfold configStrLength at *
  omega

theorem cutString_eq_take {s : CStr} (hs : ∀ c ∈ s, c ≠ 0) :
    cutString s = s.take (configStrLength - 1) := by
  unfold cutString cstrOf
  rw [List.takeWhile_eq_self_iff]
  intro c hc
  simpa using hs c (List.mem_of_mem_take hc)

/-- The effect of an assignment on what is read of an entry. -/
def Assignment.set : Assignment → XaConfigEntry → XaConfigEntry
  | .empty, e => e
  | .offset key num, e => { e with offsets := setOffset key (strtol0 num) e.offsets }
  | .sysmap filename, e => { e with sysmap := cutString filename }
  | .ostype word, e => { e with ostype := cutString word }

/-- What is read of the entry that a block makes. -/
def Block.read (b : Block) : CStr × XaConfigEntry :=
  (cutString b.name, b.assignments.foldl (fun e a => a.set e) ConfigEntry.zero.read.2)

theorem Assignment.exec_read (a : Assignment) (g : Globals) :
    (a.exec g).tmpEntry.read.2 = a.set g.tmpEntry.read.2 := by
  cases a with
  | empty => rfl
  | offset key num => rfl
  | sysmap filename =>
    simp only [exec, sysmapAssignment, ConfigEntry.read, set, Buffer.str_snprintf]
  | ostype word =>
    simp only [exec, ostypeAssignment, ConfigEntry.read, set, Buffer.str_snprintf]

theorem Assignment.exec_entry (a : Assignment) (g : Globals) : (a.exec g).entry = g.entry := by
  cases a with
  | empty => rfl
  | offset key num => rfl
  | sysmap filename => rfl
  | ostype word => rfl

theorem foldl_assignments (assignments : List Assignment) (g : Globals) :
    (assignments.foldl (fun g a => a.exec g) g).tmpEntry.read.2 =
        assignments.foldl (fun e a => a.set e) g.tmpEntry.read.2 ∧
      (assignments.foldl (fun g a => a.exec g) g).entry = g.entry := by
  induction assignments generalizing g with
  | nil => exact ⟨rfl, rfl⟩
  | cons a assignments ih =>
    obtain ⟨hread, hentry⟩ := ih (a.exec g)
    rw [Assignment.exec_read] at hread
    rw [Assignment.exec_entry] at hentry
    exact ⟨hread, hentry⟩

/-- The entry of a block is kept when the block has the name. -/
theorem Block.exec_entry (b : Block) (target : CStr) (htmp : g.tmpEntry = .zero) :
    (cutString b.name = target → (b.exec target g).entry.read = b.read) ∧
      (cutString b.name ≠ target → (b.exec target g).entry = g.entry) := by
  obtain ⟨hread, hentry⟩ := foldl_assignments b.assignments g
  rw [htmp] at hread
  generalize hg : b.assignments.foldl (fun g a => a.exec g) g = g' at hread hentry
  have hname : (g'.tmpStr.snprintf b.name).str = cutString b.name := Buffer.str_snprintf _ _
  have hcompare : strncmpEq (cutString b.name) target configStrLength = true ↔
      target = cutString b.name := strncmpEq_iff (length_cutString b.name) target
  unfold Block.exec domainInfo entryDone
  simp only [hg, hname, hcompare]
  constructor
  · intro heq
    rw [if_pos heq.symm]
    exact Prod.ext hname hread
  · intro hne
    rw [if_neg fun heq => hne heq.symm]
    exact hentry

theorem foldl_exec_tmpEntry (blocks : List Block) (htmp : g.tmpEntry = .zero) :
    (blocks.foldl (Block.exec target) g).tmpEntry = .zero := by
  induction blocks using List.reverseRecOn with
  | nil => exact htmp
  | append_singleton blocks b ih =>
    rw [List.foldl_append]
    rfl

/-- The last block with the name of the target. -/
def lastNamed (target : CStr) (blocks : List Block) : Option Block :=
  (blocks.filter fun b => cutString b.name = target).getLast?

/-- The last block with the name of the target decides. -/
theorem foldl_exec_entry (target : CStr) (blocks : List Block) (htmp : g.tmpEntry = .zero) :
    (lastNamed target blocks = none →
        (blocks.foldl (Block.exec target) g).entry = g.entry) ∧
      ∀ b, lastNamed target blocks = some b →
        (blocks.foldl (Block.exec target) g).entry.read = b.read := by
  induction blocks using List.reverseRecOn with
  | nil =>
    refine ⟨fun _ => rfl, fun b hb => ?_⟩
    cases hb
  | append_singleton blocks b ih =>
    obtain ⟨hsame, hother⟩ := b.exec_entry target (foldl_exec_tmpEntry blocks htmp)
    unfold lastNamed at *
    rw [List.foldl_append, List.filter_append]
    by_cases hname : cutString b.name = target
    · have hlast : ([b].filter fun b => cutString b.name = target) = [b] := by simp [hname]
      rw [hlast, List.getLast?_concat]
      constructor
      · rintro ⟨⟩
      · intro b' hb'
        cases hb'
        exact hsame hname
    · have hlast : ([b].filter fun b => cutString b.name = target) = [] := by simp [hname]
      rw [hlast, List.append_nil]
      have hentry : ([b].foldl (Block.exec target) (blocks.foldl (Block.exec target) g)).entry =
        (blocks.foldl (Block.exec target) g).entry := hother hname
      rw [hentry]
      exact ih

end XenAccess.Config
