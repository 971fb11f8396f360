import XenAccess.Lib.Text
import XenAccess.Config.Numbers

/-!
# One row in the buffer

What `get_symbol_row` makes of the bytes of a row, whatever stands behind them in the buffer.
When the bytes have two runs of white space of their own, the token it compares and the text in
front of the first run are those of the bytes (`viewRow_own`). When they have not, a clear
buffer makes it give up (`viewRow_zeros`).
-/

namespace XenAccess

open Text

variable {w l t pre rest tail row bytes : List U8} {c : U8} {n p i : Nat}

/-- What stands before the first white space. -/
def word (l : List U8) : List U8 := l.takeWhile (!isspace ·)

/-! ## Strings in a buffer -/

theorem blank_run (pre run rest : List U8) :
    blank (pre ++ (run ++ rest)) pre.length run.length =
      pre ++ (List.replicate run.length 0 ++ rest) := by
  unfold blank
  rw [List.take_left, ← List.drop_drop, List.drop_left, List.drop_left, List.append_assoc]

/-- Behind a run that is overwritten, the buffer is the same. -/
theorem drop_blank (pre l : List U8) :
    (blank (pre ++ l) pre.length (l.takeWhile isspace).length).drop
      (pre.length + (l.takeWhile isspace).length) = l.dropWhile isspace := by
  have hblank := blank_run pre (l.takeWhile isspace) (l.dropWhile isspace)
  rw [List.takeWhile_append_dropWhile] at hblank
  rw [hblank, ← List.drop_drop, List.drop_left, List.drop_left' List.length_replicate]

theorem blank_append (pre rest : List U8) (i n : Nat) :
    blank (pre ++ rest) (pre.length + i) n = pre ++ blank rest i n := by
  unfold blank
  rw [List.take_length_add_append, Nat.add_assoc, List.drop_length_add_append,
    List.append_assoc, List.append_assoc, List.append_assoc]

theorem getD_here (pre rest : List U8) (c : U8) : (pre ++ c :: rest).getD pre.length 0 = c := by
  rw [List.getD_eq_getElem?_getD, List.getElem?_append_right le_rfl, Nat.sub_self]
  rfl

/-! ## Skipping fields -/

theorem skipFields_word (hw : ∀ c ∈ w, isspace c = false)
    (hroom : pre.length + w.length ≤ maxRowLength) :
    skipFields (n + w.length) (pre ++ (w ++ rest)) (p + 1) pre.length =
      skipFields n (pre ++ (w ++ rest)) (p + 1) (pre.length + w.length) := by
  induction w generalizing pre with
  | nil => rfl
  | cons c w ih =>
    rw [List.length_cons] at hroom
    have hhere : (pre ++ (c :: w ++ rest)).getD pre.length 0 = c := getD_here pre (w ++ rest) c
    have hnext : pre ++ (c :: w ++ rest) = (pre ++ [c]) ++ (w ++ rest) := by simp
    have hlength : (pre ++ [c]).length = pre.length + 1 := by simp
    rw [List.length_cons, ← Nat.add_assoc, skipFields, if_pos ⟨Nat.succ_pos p, by omega⟩, hhere,
      hw c List.mem_cons_self, if_neg Bool.false_ne_true, hnext, ← hlength,
      ih (fun d hd => hw d (List.mem_cons_of_mem c hd)) (by omega)]
    congr 1
    omega

theorem skipFields_run {run : List U8} (hne : run ≠ []) (hrun : ∀ c ∈ run, isspace c = true)
    (hrest : ∀ c ∈ rest.head?, isspace c = false) (hroom : pre.length < maxRowLength) :
    skipFields (n + 1) (pre ++ (run ++ rest)) (p + 1) pre.length =
      skipFields n (pre ++ (List.replicate run.length 0 ++ rest)) p
        (pre.length + run.length) := by
  obtain ⟨c, run', rfl⟩ := List.exists_cons_of_ne_nil hne
  have hhere : (pre ++ (c :: run' ++ rest)).getD pre.length 0 = c := getD_here pre (run' ++ rest) c
  have htake : ((pre ++ (c :: run' ++ rest)).drop pre.length).takeWhile isspace = c :: run' := by
    rw [List.drop_left, List.takeWhile_append_of_pos hrun]
    cases rest with
    | nil => exact List.append_nil _
    | cons d rest =>
      rw [List.takeWhile_cons_of_neg (by simp [hrest d rfl])]
      exact List.append_nil _
  rw [skipFields, if_pos ⟨Nat.succ_pos p, hroom⟩, hhere, if_pos (hrun c List.mem_cons_self),
    htake]
  show skipFields n (blank (pre ++ (c :: run' ++ rest)) pre.length (c :: run').length) p _ = _
  rw [blank_run]

/-- A field is skipped, and the run behind it is overwritten. -/
theorem skipFields_firstRun {run r : List U8} (hcut : FirstRun isspace l w run r)
    (htail : ∀ c ∈ tail.head?, isspace c = false) (hroom : pre.length + w.length < maxRowLength) :
    skipFields (n + 1 + w.length) (pre ++ (l ++ tail)) (p + 1) pre.length =
      skipFields n (pre ++ (w ++ List.replicate run.length 0) ++ (r ++ tail)) p
        (pre ++ (w ++ List.replicate run.length 0)).length := by
  obtain ⟨rfl, hne, hw, hrun, hr⟩ := hcut
  have hhead : ∀ c ∈ (r ++ tail).head?, isspace c = false := by
    cases r with
    | nil => exact htail
    | cons d r => exact hr
  have hroom' : (pre ++ w).length < maxRowLength := by
    rw [List.length_append]
    exact hroom
  have hbuffer : pre ++ (w ++ (run ++ r) ++ tail) = pre ++ (w ++ (run ++ (r ++ tail))) := by
    rw [List.append_assoc, List.append_assoc]
  rw [hbuffer, skipFields_word hw hroom.le, ← List.append_assoc, ← List.length_append,
    skipFields_run hne hrun hhead hroom']
  simp only [List.append_assoc, List.length_append, List.length_replicate, Nat.add_assoc]

/-- The fields on the way are skipped, with the runs behind them overwritten. What stands
behind the bytes does not matter if it does not go on with white space. -/
theorem skipFields_behind (hbehind : behind isspace p l = some t)
    (htail : ∀ c ∈ tail.head?, isspace c = false)
    (hroom : pre.length + l.length < maxRowLength) (hn : l.length ≤ n) :
    ∃ wiped, skipFields n (pre ++ (l ++ tail)) p pre.length =
        (pre ++ (wiped ++ (t ++ tail)), 0, pre.length + wiped.length) ∧
      wiped.length + t.length = l.length ∧
      (0 < p → ∃ rest, wiped = word l ++ 0 :: rest) := by
  induction p generalizing pre l n with
  | zero =>
    cases hbehind
    refine ⟨[], ?_, Nat.zero_add _, fun hp => absurd hp (Nat.lt_irrefl 0)⟩
    cases n <;> rfl
  | succ p ih =>
    obtain ⟨hany, hrest⟩ := behind_succ hbehind
    have hcut : FirstRun isspace l (word l) _ _ := firstRun hany
    generalize word l = w at hcut
    generalize (l.dropWhile (!isspace ·)).takeWhile isspace = run at hcut
    generalize (l.dropWhile (!isspace ·)).dropWhile isspace = r at hcut hrest
    have hpos := List.length_pos_iff.mpr hcut.run_ne_nil
    have hlength : l.length = w.length + run.length + r.length := by
      rw [hcut.eq, List.length_append, List.length_append, Nat.add_assoc]
    obtain ⟨m, rfl⟩ : ∃ m, n = m + 1 + w.length := ⟨n - 1 - w.length, by omega⟩
    have hroom' : (pre ++ (w ++ List.replicate run.length 0)).length + r.length < maxRowLength := by
      simp only [List.length_append, List.length_replicate]
      omega
    obtain ⟨wiped, hskip, hlen, -⟩ := ih hrest hroom' (show r.length ≤ m by omega)
    refine ⟨w ++ (List.replicate run.length 0 ++ wiped), ?_, ?_, fun _ => ?_⟩
    · rw [skipFields_firstRun hcut htail (by omega), hskip]
      simp only [List.append_assoc, List.length_append, Nat.add_assoc]
    · simp only [List.length_append, List.length_replicate]
      omega
    · obtain ⟨k, hk⟩ := Nat.exists_eq_succ_of_ne_zero hpos.ne'
      rw [hk, List.replicate_succ]
      exact ⟨_, rfl⟩

/-- The search for a field comes to it only if there are runs enough in the buffer. -/
theorem behind_of_skipFields (hskip : (skipFields n row p i).2.1 = 0) :
    (behind isspace p (row.drop i)).isSome := by
  induction n generalizing row p i with
  | zero =>
    cases hskip
    rfl
  | succ n ih =>
    rw [skipFields] at hskip
    split at hskip
    · rename_i hgo
      obtain ⟨q, rfl⟩ := Nat.exists_eq_succ_of_ne_zero hgo.1.ne'
      by_cases hi : i < row.length
      · -- the buffer from `i` on is a byte and the rest
        obtain ⟨pre, c, rest, rfl, rfl⟩ : ∃ pre c rest, row = pre ++ c :: rest ∧ pre.length = i :=
          ⟨row.take i, row[i], row.drop (i + 1), by
            rw [← List.drop_eq_getElem_cons hi, List.take_append_drop],
            by rw [List.length_take]; omega⟩
        rw [getD_here] at hskip
        rw [List.drop_left] at hskip ⊢
        split at hskip
        · rename_i hspace
          have hnext := ih hskip
          rw [drop_blank] at hnext
          rwa [behind_cons_of_sep hspace]
        · rename_i hspace
          have hnext := ih hskip
          rw [← List.drop_drop, List.drop_left] at hnext
          rwa [behind_cons (by simpa using hspace)]
      · have hnone : row.getD i 0 = 0 := by
          rw [List.getD_eq_getElem?_getD, List.getElem?_eq_none (by omega)]
          rfl
        rw [hnone, if_neg (by decide)] at hskip
        have hnext := ih hskip
        rw [List.drop_eq_nil_of_le (by omega)] at hnext ⊢
        exact hnext
    · cases hskip
      rfl

/-! ## The field found -/

/-- The buffer with the field at `curpos` ended by a terminator. -/
def endField (row : List U8) (curpos : Nat) : List U8 :=
  match fieldEnd row curpos with
  | some i => blank row i 1
  | none => row

theorem fieldEnd_append (rest : List U8) (hw : ∀ c ∈ w, isspace c = false)
    (hroom : pre.length + w.length ≤ maxRowLength) :
    fieldEnd (pre ++ (w ++ rest)) pre.length =
      ((rest.take (maxRowLength - pre.length - w.length)).findIdx? isspace).map
        (pre.length + w.length + ·) := by
  unfold fieldEnd
  rw [List.take_append, List.take_of_length_le (by omega), List.drop_left, List.take_append,
    List.take_of_length_le (by omega), List.findIdx?_append, List.findIdx?_eq_none_iff.mpr hw,
    Option.none_or, Option.map_map]
  congr 1
  funext i
  show i + w.length + pre.length = pre.length + w.length + i
  omega

/-- A field with white space behind it in the bytes ends there. -/
theorem endField_of_any (rest : List U8) (hroom : pre.length + t.length < maxRowLength)
    (hany : t.any isspace = true) :
    ∃ rest', endField (pre ++ (t ++ 0 :: rest)) pre.length = pre ++ (word t ++ 0 :: rest') := by
  have hcut : FirstRun isspace t (word t) _ _ := firstRun hany
  generalize word t = w at hcut ⊢
  generalize (t.dropWhile (!isspace ·)).takeWhile isspace = run at hcut
  generalize (t.dropWhile (!isspace ·)).dropWhile isspace = r at hcut
  obtain ⟨rfl, hne, hw, hrun, -⟩ := hcut
  obtain ⟨c, run, rfl⟩ := List.exists_cons_of_ne_nil hne
  have hbuffer : w ++ (c :: run ++ r) ++ 0 :: rest = w ++ ([c] ++ (run ++ (r ++ 0 :: rest))) := by
    simp
  have hend : fieldEnd (pre ++ (w ++ ([c] ++ (run ++ (r ++ 0 :: rest))))) pre.length =
      some (pre.length + w.length) := by
    rw [List.length_append, List.length_append, List.length_cons] at hroom
    obtain ⟨m, hm⟩ : ∃ m, maxRowLength - pre.length - w.length = m + 1 :=
      ⟨maxRowLength - pre.length - w.length - 1, by omega⟩
    rw [fieldEnd_append _ hw (by omega), hm, List.singleton_append, List.take_succ_cons,
      List.findIdx?_cons, hrun c List.mem_cons_self]
    rfl
  unfold endField
  rw [hbuffer, hend]
  refine ⟨run ++ (r ++ 0 :: rest), ?_⟩
  show blank (pre ++ (w ++ ([c] ++ (run ++ (r ++ 0 :: rest))))) (pre.length + w.length) 1 = _
  rw [blank_append]
  exact congrArg (pre ++ ·) (blank_run w [c] _)

/-- The field found ends at its white space or at the end of the bytes, whatever follows. -/
theorem endField_eq (rest : List U8) (hroom : pre.length + t.length < maxRowLength) :
    ∃ rest', endField (pre ++ (t ++ 0 :: rest)) pre.length = pre ++ (word t ++ 0 :: rest') := by
  by_cases hany : t.any isspace = true
  · exact endField_of_any rest hroom hany
  · -- the bytes end the field; white space behind them may be overwritten
    have hnone : ∀ c ∈ t ++ [0], isspace c = false := by
      intro c hc
      rcases List.mem_append.mp hc with hc | hc
      · simpa using fun hspace => hany (List.any_eq_true.mpr ⟨c, hc, hspace⟩)
      · rw [List.mem_singleton.mp hc]
        rfl
    have hword : word t = t := List.takeWhile_eq_self_iff.mpr fun c hc => by
      simp [hnone c (List.mem_append_left _ hc)]
    have hbuffer : t ++ 0 :: rest = (t ++ [0]) ++ rest := by simp
    have hroom' : pre.length + (t ++ [0]).length ≤ maxRowLength := by
      rw [List.length_append, List.length_singleton]
      omega
    unfold endField
    rw [hword, hbuffer, fieldEnd_append rest hnone hroom']
    cases List.findIdx? isspace (rest.take _) with
    | none => exact ⟨rest, by simp⟩
    | some i =>
      refine ⟨blank rest i 1, ?_⟩
      show blank (pre ++ ((t ++ [0]) ++ rest)) (pre.length + (t ++ [0]).length + i) 1 = _
      rw [Nat.add_assoc, blank_append, blank_append]
      simp

/-! ## One row -/

/-- What `get_symbol_row` makes of the bytes of a row: the buffer after it, and the token that
it compares, none where it gives up. -/
def viewRow (row bytes : List U8) : List U8 × Option CStr :=
  let (row, position, curpos) := skipFields maxRowLength (fillRow row bytes) 2 0
  if position = 0 then
    let row := endField row curpos
    (row, some (cstrOf (row.drop curpos)))
  else (row, none)

/-- A row with two runs of white space of its own is seen as it is, whatever the buffer holds
behind it. -/
theorem viewRow_own (row : List U8) (hbytes : bytes.length < maxRowLength)
    (hbehind : behind isspace 2 bytes = some t) :
    (viewRow row bytes).2 = some (cstrOf (word t)) ∧
      cstrOf (viewRow row bytes).1 = cstrOf (word bytes) := by
  have htail : ∀ c ∈ (0 :: row.drop (bytes.length + 1)).head?, isspace c = false := by
    intro c hc
    cases hc
    rfl
  have hroom : ([] : List U8).length + bytes.length < maxRowLength := by
    rw [List.length_nil]
    omega
  obtain ⟨wiped, hskip, hlength, hwiped⟩ := skipFields_behind hbehind htail hroom hbytes.le
  obtain ⟨rest, hrest⟩ := hwiped (by decide)
  have hroom' : wiped.length + t.length < maxRowLength := by omega
  obtain ⟨rest', hend⟩ := endField_eq (row.drop (bytes.length + 1)) hroom'
  simp only [List.nil_append, List.length_nil, Nat.zero_add] at hskip
  unfold viewRow fillRow
  rw [hskip]
  simp only [if_true, hend]
  refine ⟨?_, ?_⟩
  · rw [List.drop_left, cstrOf_append_zero]
  · rw [hrest, List.append_assoc, List.cons_append, cstrOf_append_zero]

/-- A row with fewer runs of its own makes the search give up when nothing is left in the
buffer. -/
theorem viewRow_zeros (hrow : ∀ c ∈ row, c = 0) (hbehind : behind isspace 2 bytes = none) :
    (viewRow row bytes).2 = none := by
  have hstale : ∀ c ∈ 0 :: row.drop (bytes.length + 1), isspace c = false := by
    intro c hc
    rcases List.mem_cons.mp hc with rfl | hc
    · rfl
    · rw [hrow c (List.mem_of_mem_drop hc)]
      rfl
  have hskip : (skipFields maxRowLength (fillRow row bytes) 2 0).2.1 ≠ 0 := by
    intro hzero
    have hsome := behind_append hstale (behind_of_skipFields hzero)
    rw [hbehind] at hsome
    cases hsome
  unfold viewRow
  simp only [if_neg hskip]

/-- A round of the search. -/
theorem getSymbolRow_succ {f rest : List U8} (symbol : CStr) (hf : fgets f = some (bytes, rest)) :
    getSymbolRow (n + 1) f row symbol 2 = (viewRow row bytes).2.bind fun token =>
      if strncmpEq token symbol maxRowLength then some (viewRow row bytes).1
      else getSymbolRow n rest (viewRow row bytes).1 symbol 2 := by
  rw [getSymbolRow, hf]
  unfold viewRow
  simp only
  split
  · rfl
  · rfl

/-! ## Reading -/

/-- The rows that `fgets` delivers. -/
def Delivers : List U8 → List (List U8) → Prop
  | f, [] => fgets f = none
  | f, bytes :: rows => ∃ rest, fgets f = some (bytes, rest) ∧ Delivers rest rows

theorem fgets_eq {f : List U8} (hf : f ≠ []) :
    fgets f = some (f.take (min (maxRowLength - 1) (firstLine 10 f).length),
      f.drop (min (maxRowLength - 1) (firstLine 10 f).length)) := by
  have hcount : (if ((f.take (maxRowLength - 1)).takeWhile (· != 10)).length <
      (f.take (maxRowLength - 1)).length
      then ((f.take (maxRowLength - 1)).takeWhile (· != 10)).length + 1
      else ((f.take (maxRowLength - 1)).takeWhile (· != 10)).length) =
      min (maxRowLength - 1) (firstLine 10 f).length := by
    have hle := (List.takeWhile_prefix (l := f) (· != 10)).length_le
    rw [← List.take_takeWhile, List.length_take, List.length_take, length_firstLine]
    split <;> omega
  rw [← hcount]
  cases f with
  | nil => exact absurd rfl hf
  | cons c f => rfl

theorem delivers_rows (f : List U8) : Delivers f (rows (maxRowLength - 1) 10 f) := by
  induction hlen : f.length using Nat.strongRecOn generalizing f with
  | ind m ih =>
    by_cases hf : f = []
    · subst hf
      rfl
    · have hpos : 0 < (firstLine 10 f).length := firstLine_pos hf
      have hne := List.length_pos_iff.mpr hf
      rw [rows_eq (by decide) hf]
      refine ⟨_, fgets_eq hf, ih _ ?_ _ rfl⟩
      rw [List.length_drop]
      have hroom : 0 < maxRowLength - 1 := by decide
      omega

end XenAccess
