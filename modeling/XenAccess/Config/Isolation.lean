import XenAccess.Config.Grammar
import XenAccess.Config.Lexicon

/-!
# Blocks do not leak into each other

All assignments of all blocks write one scratch entry and one scratch buffer. The entry is
cleared at the end of every block, the buffer never: what `xa_get_config` returns has, behind
the terminators of its strings, bytes of other blocks. What can be read of it, the strings and
the offsets, is what the last block with the name gives when it is parsed alone
(`xaParseConfig_isolated`), if a name counts as far as it fits into its buffer.
-/

namespace XenAccess.Config

open Lexer

variable {ps : List (Piece U8 Token)} {text : List U8} {target : CStr}

/-! ## The blocks of a text -/

/-- The lexemes cut behind each closing brace, `cur` being the block so far. Lexemes without a
token between two blocks belong to none. -/
def blocksFrom : (cur ps : List (Piece U8 Token)) → List (List (Piece U8 Token))
  | _, [] => []
  | cur, p :: ps =>
    if p.token = some .ebrace then (cur ++ [p]) :: blocksFrom [] ps
    else if cur = [] ∧ p.token = none then blocksFrom [] ps
    else blocksFrom (cur ++ [p]) ps

/-- The blocks of a configuration text. -/
def textBlocks (text : List U8) : List (List (Piece U8 Token)) :=
  blocksFrom [] (pieces lexicon text)

/-- The name of a block. -/
def blockName (b : List (Piece U8 Token)) : Option CStr :=
  match b.head?.bind Piece.token with
  | some (.word name) => some name
  | _ => none

/-- The last block with a name as asked for. -/
def lastBlock (named : CStr → Bool) (text : List U8) : Option (List (Piece U8 Token)) :=
  ((textBlocks text).filter fun b => (blockName b).any named).getLast?

/-- The block of a text that a sentence of the grammar has. -/
structure IsBlock (ps b : List (Piece U8 Token)) (block : Block) : Prop where
  isInfix : b <:+: ps
  tokens : b.filterMap Piece.token = block.tokens
  name : blockName b = some block.name

theorem filterMap_token_cons {p : Piece U8 Token} :
    (p :: ps).filterMap Piece.token = p.token.toList ++ ps.filterMap Piece.token := by
  rw [List.filterMap_cons]
  cases p.token with
  | none => rfl
  | some t => rfl

theorem blocksFrom_nil (hps : ps.filterMap Piece.token = []) : blocksFrom [] ps = [] := by
  induction ps with
  | nil => rfl
  | cons p ps ih =>
    rw [filterMap_token_cons, List.append_eq_nil_iff] at hps
    have hnone : p.token = none := Option.toList_eq_nil_iff.mp hps.1
    rw [blocksFrom, hnone, if_neg (by simp), if_pos ⟨rfl, rfl⟩]
    exact ih hps.2

/-- From inside of a block up to its closing brace. -/
theorem blocksFrom_body (cur : List (Piece U8 Token)) {body rest : List Token} (hcur : cur ≠ [])
    (hbody : .ebrace ∉ body) (hps : ps.filterMap Piece.token = body ++ .ebrace :: rest) :
    ∃ q ps', ps = q ++ ps' ∧ q.filterMap Piece.token = body ++ [.ebrace] ∧
      ps'.filterMap Piece.token = rest ∧ blocksFrom cur ps = (cur ++ q) :: blocksFrom [] ps' := by
  induction ps generalizing cur body with
  | nil => simp at hps
  | cons p ps ih =>
    rw [filterMap_token_cons] at hps
    cases htoken : p.token with
    | none =>
      rw [htoken] at hps
      obtain ⟨q, ps', rfl, hq, hps', hblocks⟩ := ih (cur ++ [p]) (by simp) hbody hps
      refine ⟨p :: q, ps', rfl, ?_, hps', ?_⟩
      · rw [filterMap_token_cons, htoken, hq]
        rfl
      · rw [blocksFrom, htoken, if_neg (by simp), if_neg (by simp [hcur]), hblocks,
          List.append_assoc]
        rfl
    | some t =>
      rw [htoken] at hps
      cases body with
      | nil =>
        obtain ⟨rfl, hrest⟩ := List.cons.inj hps
        refine ⟨[p], ps, rfl, ?_, hrest, ?_⟩
        · rw [filterMap_token_cons, htoken]
          rfl
        · rw [blocksFrom, if_pos htoken]
      | cons t' body =>
        obtain ⟨rfl, hrest⟩ := List.cons.inj hps
        rw [List.mem_cons, not_or] at hbody
        obtain ⟨q, ps', rfl, hq, hps', hblocks⟩ :=
          ih (cur ++ [p]) (by simp) hbody.2 hrest
        refine ⟨p :: q, ps', rfl, ?_, hps', ?_⟩
        · rw [filterMap_token_cons, htoken, hq]
          rfl
        · rw [blocksFrom, htoken, if_neg fun h => hbody.1 (Option.some.inj h).symm,
            if_neg (by simp), hblocks, List.append_assoc]
          rfl

theorem ebrace_not_mem (assignments : List Assignment) :
    Token.ebrace ∉ Token.obrace :: assignments.flatMap Assignment.tokens := by
  intro hmem
  rcases List.mem_cons.mp hmem with hbrace | hmem
  · cases hbrace
  · obtain ⟨a, -, ha⟩ := List.mem_flatMap.mp hmem
    cases a <;> simp [Assignment.tokens] at ha

/-- The next block. -/
theorem blocksFrom_block (block : Block) {rest : List Token}
    (hps : ps.filterMap Piece.token = block.tokens ++ rest) :
    ∃ gap q ps', ps = gap ++ q ++ ps' ∧ IsBlock ps q block ∧ ps'.filterMap Piece.token = rest ∧
      blocksFrom [] ps = q :: blocksFrom [] ps' := by
  induction ps with
  | nil => simp [Block.tokens] at hps
  | cons p ps ih =>
    rw [filterMap_token_cons] at hps
    cases htoken : p.token with
    | none =>
      rw [htoken] at hps
      obtain ⟨gap, q, ps', rfl, hq, hps', hblocks⟩ := ih hps
      refine ⟨p :: gap, q, ps', rfl, ⟨hq.isInfix.trans (List.infix_cons List.infix_rfl), hq.tokens,
        hq.name⟩, hps', ?_⟩
      rw [blocksFrom, htoken, if_neg (by simp), if_pos ⟨rfl, rfl⟩, hblocks]
    | some t =>
      rw [htoken] at hps
      obtain ⟨rfl, hbody⟩ := List.cons.inj hps
      have htail : ps.filterMap Piece.token =
          (.obrace :: block.assignments.flatMap Assignment.tokens) ++ .ebrace :: rest := by
        change ps.filterMap Piece.token = (.obrace :: Block.bodyTokens block.assignments) ++ rest
          at hbody
        rw [hbody]
        unfold Block.bodyTokens
        simp
      obtain ⟨q, ps', rfl, hq, hps', hblocks⟩ := blocksFrom_body [p] (by simp)
        (ebrace_not_mem block.assignments) htail
      refine ⟨[], p :: q, ps', rfl, ⟨⟨[], ps', rfl⟩, ?_, ?_⟩, hps', ?_⟩
      · rw [filterMap_token_cons, htoken, hq]
        rfl
      · unfold blockName
        rw [List.head?_cons, Option.bind_some, htoken]
      · rw [blocksFrom, htoken, if_neg (by simp), if_neg (by simp)]
        exact hblocks

/-- The blocks of a text are those of the sentence it makes. -/
theorem blocksFrom_blocks (blocks : List Block)
    (hps : ps.filterMap Piece.token = blocks.flatMap Block.tokens) :
    ∃ xs : List (List (Piece U8 Token) × Block), blocksFrom [] ps = xs.map Prod.fst ∧
      blocks = xs.map Prod.snd ∧ ∀ x ∈ xs, IsBlock ps x.1 x.2 := by
  induction blocks generalizing ps with
  | nil => exact ⟨[], blocksFrom_nil hps, rfl, by simp⟩
  | cons block blocks ih =>
    obtain ⟨gap, q, ps', rfl, hq, hps', hblocks⟩ := blocksFrom_block block hps
    obtain ⟨xs, hxs, rfl, hall⟩ := ih hps'
    refine ⟨(q, block) :: xs, ?_, rfl, ?_⟩
    · rw [hblocks, hxs]
      rfl
    · intro x hx
      rcases List.mem_cons.mp hx with rfl | hx
      · exact hq
      · have hx := hall x hx
        exact ⟨hx.isInfix.trans (List.suffix_append _ _).isInfix, hx.tokens, hx.name⟩

/-! ## Parsing a block alone -/

theorem IsBlock.name_chars {b : List (Piece U8 Token)} {block : Block}
    (hb : IsBlock (pieces lexicon text) b block) : ∀ c ∈ block.name, c ≠ 0 := by
  obtain ⟨p, hhead, htoken⟩ : ∃ p, b.head? = some p ∧ p.token = some (.word block.name) := by
    have hname := hb.name
    unfold blockName at hname
    split at hname
    · rename_i name hword
      obtain ⟨p, hp, hword⟩ := Option.bind_eq_some_iff.mp hword
      cases hname
      exact ⟨p, hp, hword⟩
    · cases hname
  have hmem : p ∈ pieces lexicon text := hb.isInfix.subset (List.mem_of_head? hhead)
  rw [token_of_mem_pieces hmem] at htoken
  intro c hc
  have hchar := wordChars_of_acceptsWord (acceptsWord_of_tokenOf htoken) c hc
  exact (ne_of_isFileChar (isFileChar_of_isWordChar hchar)).1

/-- A block is the whole sentence of its text. -/
theorem IsBlock.tokens_textOf {b : List (Piece U8 Token)} {block : Block}
    (hb : IsBlock (pieces lexicon text) b block) :
    Lexer.tokens lexicon (textOf b) = [block].flatMap Block.tokens := by
  obtain ⟨front, back, hpieces⟩ := hb.isInfix
  unfold Lexer.tokens
  rw [pieces_stretch hpieces.symm, hb.tokens]
  simp

theorem xaParseConfig_blocks {blocks : List Block} (tmpStr : Buffer)
    (htokens : tokens lexicon text = blocks.flatMap Block.tokens) (target : CStr) :
    xaParseConfig tmpStr text target =
      (true, (blocks.foldl (Block.exec target) ⟨.zero, .zero, tmpStr⟩).entry) := by
  unfold xaParseConfig
  rw [htokens, yyparse_flatMap]

/-- Whether a name, as far as it fits into its buffer, is the target. -/
def nameFits (target name : CStr) : Bool := decide (name.take (configStrLength - 1) = target)

/-- The last block of a text with the name of the target. -/
theorem lastBlock_eq (target : CStr) {xs : List (List (Piece U8 Token) × Block)}
    (hblocks : textBlocks text = xs.map Prod.fst)
    (hall : ∀ x ∈ xs, IsBlock (pieces lexicon text) x.1 x.2) :
    ∃ x : Option (List (Piece U8 Token) × Block),
      lastBlock (nameFits target) text = x.map Prod.fst ∧
      lastNamed target (xs.map Prod.snd) = x.map Prod.snd ∧
        ∀ y ∈ x, y ∈ xs ∧ cutString y.2.name = target := by
  refine ⟨(xs.filter fun x => cutString x.2.name = target).getLast?, ?_, ?_, ?_⟩
  · unfold lastBlock
    rw [hblocks, List.filter_map, List.getLast?_map]
    congr 2
    apply List.filter_congr
    intro x hx
    have hcut := cutString_eq_take (hall x hx).name_chars
    simp only [Function.comp_apply, (hall x hx).name, Option.any_some, nameFits, hcut]
  · unfold lastNamed
    rw [List.filter_map, List.getLast?_map]
    rfl
  · intro y hy
    simpa using List.mem_filter.mp (List.mem_of_getLast? hy)

/-- What `xa_get_config` returns for a text that is accepted: all zeros if no block has the
name of the target as far as it fits into its buffer, and otherwise what can be read of it is
what the last such block gives alone. -/
theorem xaParseConfig_isolated (tmpStr tmpStr' : Buffer) (text : List U8) (target : CStr)
    (hacc : (xaParseConfig tmpStr text target).1 = true) :
    (lastBlock (nameFits target) text = none →
        (xaParseConfig tmpStr text target).2 = .zero) ∧
      ∀ b, lastBlock (nameFits target) text = some b →
        (xaParseConfig tmpStr' (textOf b) target).1 = true ∧
          (xaParseConfig tmpStr text target).2.read =
            (xaParseConfig tmpStr' (textOf b) target).2.read := by
  have haccepts : (yyparse target .domains (tokens lexicon text) ⟨.zero, .zero, tmpStr⟩).1 = true :=
    hacc
  obtain ⟨blocks, hblocks⟩ := (yyparse_accepts_iff _ _).mp haccepts
  obtain ⟨xs, htext, rfl, hall⟩ := blocksFrom_blocks blocks hblocks
  obtain ⟨x, hlast, hnamed, hmem⟩ := lastBlock_eq target htext hall
  obtain ⟨hnone, hsome⟩ := foldl_exec_entry target (xs.map Prod.snd)
    (g := ⟨.zero, .zero, tmpStr⟩) rfl
  rw [xaParseConfig_blocks tmpStr hblocks, hlast]
  cases x with
  | none => exact ⟨fun _ => hnone hnamed, fun b hb => by cases hb⟩
  | some x =>
    refine ⟨fun hb => (by cases hb), fun b hb => ?_⟩
    obtain rfl : x.1 = b := Option.some.inj hb
    obtain ⟨hx, hname⟩ := hmem x rfl
    rw [xaParseConfig_blocks tmpStr' (hall x hx).tokens_textOf]
    refine ⟨rfl, (hsome x.2 hnamed).trans ?_⟩
    exact ((x.2.exec_entry target rfl).1 hname).symm

/-! ## What is not isolated -/

/-- Two blocks, the first with the longer name. -/
def twoBlocks : List U8 := cstr "aaaaa\x7b\x7dbb\x7b\x7d"

theorem twoBlocks_accepted : (xaParseConfig .zero twoBlocks (cstr "bb")).1 = true := by
  decide

/-- The second block decides. -/
theorem twoBlocks_isolated : ∃ b, lastBlock (nameFits (cstr "bb")) twoBlocks = some b ∧
    textOf b = cstr "bb\x7b\x7d" ∧ (xaParseConfig .zero twoBlocks (cstr "bb")).2.read =
      (xaParseConfig .zero (textOf b) (cstr "bb")).2.read := by
  have hlast : (lastBlock (nameFits (cstr "bb")) twoBlocks).map textOf = some (cstr "bb\x7b\x7d") := by
    decide
  obtain ⟨b, hb, htext⟩ := Option.map_eq_some_iff.mp hlast
  have hboth := (xaParseConfig_isolated .zero .zero twoBlocks (cstr "bb") twoBlocks_accepted).2 b hb
  exact ⟨b, hb, htext, hboth.2⟩

/-- The whole entry, with the bytes behind its strings, is that of the last block with exactly
the name of the target. -/
def EntryOfLastBlock (tmpStr : Buffer) (text : List U8) (target : CStr) : Prop :=
  (∀ b, lastBlock (fun name => decide (name = target)) text = some b →
      (xaParseConfig tmpStr text target).2 = (xaParseConfig tmpStr (textOf b) target).2) ∧
    (lastBlock (fun name => decide (name = target)) text = none →
      (xaParseConfig tmpStr text target).2 = .zero)

/-- A block that is taken leaves its name in the entry. -/
theorem xaParseConfig_ne_zero {block : Block} (tmpStr : Buffer)
    (htokens : tokens lexicon text = [block].flatMap Block.tokens)
    (hname : cutString block.name = target) (hne : target ≠ []) :
    (xaParseConfig tmpStr text target).2 ≠ .zero := by
  rw [xaParseConfig_blocks tmpStr htokens]
  intro hzero
  have hread := (block.exec_entry target (g := ⟨.zero, .zero, tmpStr⟩) rfl).1 hname
  rw [show (block.exec target ⟨.zero, .zero, tmpStr⟩).entry = .zero from hzero] at hread
  apply hne
  rw [← hname]
  exact (congrArg Prod.fst hread).symm

/-- One block whose name does not fit into its buffer. -/
def longBlock : List U8 := 97 :: List.replicate 1023 97 ++ cstr "\x7b\x7d"

theorem longBlock_tokens : tokens lexicon longBlock =
    [(⟨97 :: List.replicate 1023 97, []⟩ : Block)].flatMap Block.tokens := by
  have hword : acceptsWord (97 :: List.replicate 1023 97) = true := by decide +kernel
  have hfile : acceptsFilename (97 :: List.replicate 1023 97) = true := by decide +kernel
  have hkey : ∀ k ∈ keywords, 97 :: List.replicate 1023 97 ≠ k.1 := by decide
  have hstops : Stops (cstr "\x7b\x7d") := by
    unfold Stops
    decide
  have hbraces : tokens lexicon (cstr "\x7b\x7d") = [.obrace, .ebrace] := by decide
  unfold longBlock
  rw [tokens_text hfile hstops, tokenOf_word hkey hword, hbraces]
  rfl

theorem longBlock_unnamed :
    lastBlock (fun name => decide (name = List.replicate 1023 97)) longBlock = none := by
  obtain ⟨xs, hblocks, hxs, hall⟩ := blocksFrom_blocks _ longBlock_tokens
  unfold lastBlock textBlocks
  rw [hblocks, List.getLast?_eq_none_iff, List.filter_eq_nil_iff]
  intro b hb
  obtain ⟨x, hx, rfl⟩ := List.mem_map.mp hb
  have hblock : x.2 ∈ [(⟨97 :: List.replicate 1023 97, []⟩ : Block)] := by
    rw [hxs]
    exact List.mem_map_of_mem hx
  rw [(hall x hx).name, List.mem_singleton.mp hblock]
  decide +kernel

/-- The entry of the second block has the end of the first name behind its own name, and a
name that is too long is taken for the shorter one that is left of it. -/
theorem twoBlocks_not_entryOfLastBlock :
    ((xaParseConfig .zero twoBlocks (cstr "bb")).1 = true ∧
        ¬EntryOfLastBlock .zero twoBlocks (cstr "bb")) ∧
      (xaParseConfig .zero longBlock (List.replicate 1023 97)).1 = true ∧
        ¬EntryOfLastBlock .zero longBlock (List.replicate 1023 97) := by
  refine ⟨⟨twoBlocks_accepted, fun hentry => ?_⟩, ?_, fun hentry => ?_⟩
  · have hlast : (lastBlock (fun name => decide (name = cstr "bb")) twoBlocks).map textOf =
        some (cstr "bb\x7b\x7d") := by
      decide
    obtain ⟨b, hb, htext⟩ := Option.map_eq_some_iff.mp hlast
    have hbytes := congrArg (fun e => e.domainName.bytes.getD 3 0) (hentry.1 b hb)
    rw [htext] at hbytes
    revert hbytes
    decide
  · rw [xaParseConfig_blocks .zero longBlock_tokens]
  · have hname : cutString (97 :: List.replicate 1023 97) = List.replicate 1023 97 := by
      decide +kernel
    exact xaParseConfig_ne_zero .zero longBlock_tokens hname (List.cons_ne_nil _ _)
      (hentry.2 longBlock_unnamed)

end XenAccess.Config
