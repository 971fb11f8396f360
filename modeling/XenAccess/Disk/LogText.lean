import XenAccess.Disk.Differences
import XenAccess.Disk.Monitor
import XenAccess.Lib.Text

/-!
# The text of the log

What the monitor writes is text, one line for an event, with the path of the directory and the
name of the entry around a slash. `readLog` reads a log back. It finds the events that were
written exactly when they are plain (`readLog_logText_iff`): a name with the end of a line in it
puts a line of its own into the log. A run over plain directories writes plain events
(`logText_readBack`), whatever the guest does to them.
-/

namespace XenAccess.Disk

variable {host : DiskHost} {ht : HashTable} {e : DiskEvent} {l : CStr}

/-! ## Reading -/

/-- The operations that have a text. -/
def textOps : List U8 := [opMkdir, opRmdir, opMkfile, opRmfile]

/-- The event of a line without its end. -/
def readLine (l : CStr) : Option DiskEvent :=
  (textOps.find? fun op => (opText op).isPrefixOf l).bind fun op =>
    (Text.cutLast 47 (l.drop (opText op).length)).map fun p => ⟨op, p.1, p.2⟩

/-- The events of the lines of a log. A line has an end. -/
def readLog (text : CStr) : Option (List DiskEvent) :=
  (Text.lines 10 text).mapM fun l => if l.getLast? = some 10 then readLine l.dropLast else none

/-- An event whose line can be read. -/
structure DiskEvent.Plain (e : DiskEvent) : Prop where
  op : e.op ∈ textOps
  path : 10 ∉ e.path
  name : 10 ∉ e.pathElem
  slash : 47 ∉ e.pathElem

/-- No text of an operation begins with another one. -/
theorem opText_inj_of_start {op op' : U8} (hop : op ∈ textOps) (hop' : op' ∈ textOps)
    (hstart : opText op' <+: opText op ++ l) : op' = op := by
  have hlong : ∀ op ∈ textOps, 3 ≤ (opText op).length := by decide
  have hdiffer : ∀ op ∈ textOps, ∀ op' ∈ textOps,
      (opText op').take 3 = (opText op).take 3 → op' = op := by decide
  apply hdiffer op hop op' hop'
  obtain ⟨rest, hrest⟩ := hstart
  have hthree := congrArg (List.take 3) hrest
  rwa [List.take_append_of_le_length (hlong op' hop'),
    List.take_append_of_le_length (hlong op hop)] at hthree

theorem opText_newline : ∀ op ∈ textOps, 10 ∉ opText op := by decide

theorem find_opText {op : U8} (hop : op ∈ textOps) (l : CStr) :
    (textOps.find? fun op' => (opText op').isPrefixOf (opText op ++ l)) = some op := by
  cases hfind : textOps.find? fun op' => (opText op').isPrefixOf (opText op ++ l) with
  | none =>
    have hnone := List.find?_eq_none.mp hfind op hop
    rw [List.isPrefixOf_iff_prefix] at hnone
    exact absurd (List.prefix_append _ _) hnone
  | some op' =>
    have hstart := List.find?_some hfind
    rw [List.isPrefixOf_iff_prefix] at hstart
    rw [opText_inj_of_start hop (List.mem_of_find?_eq_some hfind) hstart]

/-- What is read of a line is what its text says. -/
theorem readLine_eq_some_iff :
    readLine l = some e ↔ l = e.text ∧ e.op ∈ textOps ∧ 47 ∉ e.pathElem := by
  constructor
  · intro hread
    obtain ⟨op, hfind, hcut⟩ := Option.bind_eq_some_iff.mp hread
    obtain ⟨⟨path, pathElem⟩, hlast, rfl⟩ := Option.map_eq_some_iff.mp hcut
    obtain ⟨hrest, hslash⟩ := Text.cutLast_eq_some_iff.mp hlast
    have hstart := List.find?_some hfind
    rw [List.isPrefixOf_iff_prefix] at hstart
    refine ⟨?_, List.mem_of_find?_eq_some hfind, hslash⟩
    rw [DiskEvent.text, ← hrest]
    exact (List.prefix_append_drop hstart)
  · rintro ⟨rfl, hop, hslash⟩
    rw [readLine, DiskEvent.text, find_opText hop, Option.bind_some, List.drop_left,
      Text.cutLast_append hslash]
    rfl

theorem readLog_append (hl : 10 ∉ l) (text : CStr) :
    readLog (l ++ 10 :: text) =
      (readLine l).bind fun e => (readLog text).map fun events => e :: events := by
  rw [readLog, readLog, Text.lines_append hl, List.mapM_cons, List.getLast?_concat, if_pos rfl,
    List.dropLast_concat]
  cases readLine l with
  | none => rfl
  | some e =>
    cases (Text.lines 10 text).mapM fun l =>
        if l.getLast? = some 10 then readLine l.dropLast else none with
    | none => rfl
    | some events => rfl

/-- **The log as a format.** A log is read back as the events that were written exactly when
all of them are plain. -/
theorem readLog_logText_iff (events : List DiskEvent) :
    readLog (logText events) = some events ↔ ∀ e ∈ events, e.Plain := by
  induction events with
  | nil =>
    refine ⟨?_, fun _ => rfl⟩
    intro _ e he
    cases he
  | cons e events ih =>
    have htext : logText (e :: events) = e.text ++ 10 :: logText events := by
      simp [logText]
    rw [htext, List.forall_mem_cons, ← ih]
    constructor
    · intro hread
      -- the first line ends with the first mark, and what is read of it is its own text
      obtain ⟨line, rest, hsplit, hline⟩ :=
        List.eq_append_cons_of_mem (show (10 : U8) ∈ e.text ++ 10 :: logText events by simp)
      rw [hsplit, readLog_append hline] at hread
      obtain ⟨e', hfirst, hothers⟩ := Option.bind_eq_some_iff.mp hread
      obtain ⟨events', hrest, heq⟩ := Option.map_eq_some_iff.mp hothers
      obtain ⟨rfl, rfl⟩ := List.cons.inj heq
      obtain ⟨rfl, hop, hslash⟩ := readLine_eq_some_iff.mp hfirst
      obtain rfl := (List.cons.inj (List.append_cancel_left hsplit)).2
      simp only [DiskEvent.text, List.mem_append, List.mem_cons, not_or] at hline
      exact ⟨⟨hop, hline.2.1, hline.2.2.2, hslash⟩, hrest⟩
    · rintro ⟨hplain, hrest⟩
      have hline : 10 ∉ e.text := by
        simp only [DiskEvent.text, List.mem_append, List.mem_cons, not_or]
        exact ⟨opText_newline e.op hplain.op, hplain.path, by decide, hplain.name⟩
      rw [readLog_append hline, readLine_eq_some_iff.mpr ⟨rfl, hplain.op, hplain.slash⟩, hrest]
      rfl

/-- One new name that looks like a new and a removed one. -/
example : logText [⟨opMkfile, cstr "/d", cstr "a\nRMFILE: /d/b"⟩] =
    logText [⟨opMkfile, cstr "/d", cstr "a"⟩, ⟨opRmfile, cstr "/d", cstr "b"⟩] := by decide

/-! ## Runs -/

/-- A file or a directory with a name that can be read back. -/
structure DirEntry.Plain (e : DirEntry) : Prop where
  typed : e.Typed
  name : 10 ∉ e.pathElem
  slash : 47 ∉ e.pathElem

/-- The tables of the watched directories have plain entries, under paths without the end of
a line. -/
def PlainTable (ht : HashTable) : Prop :=
  ∀ block b, checkHash block ht = some b → 10 ∉ b.path ∧ ∀ e ∈ b.dir, e.Plain

theorem typedOp_mem (d : DirEntry ⊕ DirEntry) : (typedOp d).op ∈ textOps := by
  cases d with
  | inl e =>
    show (if e.type = 1 then opRmfile else opRmdir) ∈ textOps
    split <;> simp [textOps]
  | inr e =>
    show (if e.type = 1 then opMkfile else opMkdir) ∈ textOps
    split <;> simp [textOps]

theorem plain_diffEntry {old new : List DirEntry} (hold : ∀ e ∈ old, e.Plain)
    (hnew : ∀ e ∈ new, e.Plain) {d : DirEntry ⊕ DirEntry} (hd : d ∈ differences old new) :
    (diffEntry d).Plain := by
  rcases Merge.mem_of_mem_diff hd with ⟨e, he, rfl⟩ | ⟨e, he, rfl⟩
  · exact hold e he
  · exact hnew e he

/-- What two plain tables differ in can be read back. -/
theorem plain_compareTable {init : OpSlots} {old new : List DirEntry} {ops : List DirOp}
    {path : CStr} (hold : ∀ e ∈ old, e.Plain) (hnew : ∀ e ∈ new, e.Plain) (hpath : 10 ∉ path)
    (hcompare : compareTable init old new = .ok ops) {op : DirOp} (hop : op ∈ ops) :
    DiskEvent.Plain { op := op.op, path, pathElem := op.pathElem } := by
  rw [compareTable_eq] at hcompare
  split at hcompare
  · cases hcompare
    obtain ⟨d, hdiff, u, rfl⟩ := mem_opsFrom hop
    have hplain := plain_diffEntry hold hnew hdiff
    have hcut : (opOf u d).pathElem ⊆ (diffEntry d).pathElem := by
      rw [opOf_pathElem]
      exact (List.takeWhile_prefix _).subset
    refine ⟨?_, hpath, fun hmem => hplain.name (hcut hmem), fun hmem => hplain.slash (hcut hmem)⟩
    show (opOf u d).op ∈ textOps
    rw [opOf_op hplain.typed]
    exact typedOp_mem d
  · cases hcompare

/-- The data of an operation, if it can be parsed, has plain entries. -/
def PlainData (host : DiskHost) (op : BlockOp) : Prop :=
  ∀ t, parseBlockDir (dataMem host op.data) blockBytes = .ok t → ∀ e ∈ t, e.Plain

/-- **One round.** The lines of a round are plain, and the tables stay it. -/
theorem PlainTable.step {op : BlockOp} (hplain : PlainTable ht) (hdata : PlainData host op)
    {events : List DiskEvent} {ht' : HashTable} (hstep : coreStep host op ht = .ok (events, ht')) :
    (∀ e ∈ events, e.Plain) ∧ PlainTable ht' := by
  rw [coreStep] at hstep
  cases hb : checkHash op.block ht with
  | none =>
    rw [hb] at hstep
    cases hstep
    exact ⟨by simp, hplain⟩
  | some b =>
    rw [hb] at hstep
    obtain ⟨hpath, hdir⟩ := hplain op.block b hb
    simp only [bind, Except.bind, pure, Except.pure] at hstep
    split at hstep
    · cases hstep
    · rename_i t hparse
      have ht : ∀ e ∈ sortDir t, e.Plain := fun e he =>
        hdata t hparse e ((sortDir_perm t).mem_iff.mp he)
      split at hstep
      · cases hstep
      · rename_i ops hcompare
        split at hstep
        · cases hstep
          constructor
          · intro e he
            obtain ⟨d, hd, rfl⟩ := List.mem_map.mp he
            exact plain_compareTable hdir ht hpath hcompare hd
          · intro block q hq
            by_cases hblock : block = op.block
            · subst hblock
              cases (checkHash_setDir hb).symm.trans hq
              exact ⟨hpath, ht⟩
            · rw [checkHash_setDir_ne hblock] at hq
              exact hplain block q hq
        · cases hstep
          exact ⟨by simp, hplain⟩

/-- **Every run.** -/
theorem PlainTable.run {ops : List BlockOp} (hplain : PlainTable ht)
    (hdata : ∀ op ∈ ops, PlainData host op) {events : List DiskEvent} {ht' : HashTable}
    (hrun : coreRun host ops ht = .ok (events, ht')) :
    (∀ e ∈ events, e.Plain) ∧ PlainTable ht' := by
  induction ops generalizing ht ht' events with
  | nil =>
    cases hrun
    exact ⟨by simp, hplain⟩
  | cons op ops ih =>
    obtain ⟨hop, hops⟩ := List.forall_mem_cons.mp hdata
    rw [coreRun] at hrun
    cases hstep : coreStep host op ht with
    | error f =>
      rw [hstep] at hrun
      cases hrun
    | ok r =>
      obtain ⟨first, ht₁⟩ := r
      obtain ⟨hfirst, hplain₁⟩ := hplain.step hop hstep
      cases hrest : coreRun host ops ht₁ with
      | error f =>
        simp only [hstep, bind, Except.bind, hrest] at hrun
        cases hrun
      | ok r =>
        obtain ⟨others, ht₂⟩ := r
        obtain ⟨hothers, hplain₂⟩ := ih hplain₁ hops hrest
        simp only [hstep, bind, Except.bind, hrest, pure, Except.pure] at hrun
        cases hrun
        exact ⟨List.forall_mem_append.mpr ⟨hfirst, hothers⟩, hplain₂⟩

/-- Whatever records the monitor reads, in any order and also torn ones: if all that can be
parsed in them are files and directories whose names have no end of a line and no slash, as in
the watched directories at the start, the text it writes is read back as the lines it means. -/
theorem logText_readBack (host : DiskHost) (ht ht' : HashTable) (buf : Mem) (reads : List (List U8))
    (hplain : PlainTable ht) (hdata : ∀ op ∈ obtained buf reads, PlainData host op)
    (events : List DiskEvent) (hrun : coreRun host (obtained buf reads) ht = .ok (events, ht')) :
    readLog (logText events) = some events :=
  (readLog_logText_iff events).mpr (hplain.run hdata hrun).1

/-! ### A file that gets another name -/

theorem renameNode_plainTable : PlainTable (insertHash renameNode initHash) := by
  intro block b hb
  have hsome : (watchedPaths (insertHash renameNode initHash) block).isSome := by
    rw [watchedPaths, hb]
    rfl
  obtain rfl := renameNode_watched hsome
  obtain rfl : renameNode = b := Option.some.inj (.trans rfl hb)
  refine ⟨by decide, fun e he => ?_⟩
  rw [List.mem_singleton.mp he]
  exact ⟨by decide, by decide, by decide⟩

theorem renamedEntry_plainData (op : BlockOp) (hop : op.data = renamedEntry.block) : PlainData renameHost op := by
  intro t ht e he
  have hparse : parseBlockDir (dataMem renameHost op.data) blockBytes = .ok renamedEntry.entries := by
    apply renamedEntry.parse
    intro i
    rw [hop, dataMem, dif_pos i.isLt]
  cases hparse.symm.trans ht
  rw [List.mem_singleton.mp he]
  exact ⟨by decide, by decide, by decide⟩

theorem obtained_renameWrite :
    obtained (fun _ => 0) [renameWrite.bytes] = [renameWrite].map GuestWrite.op := by
  have hlen := renameWrite.bytes_length
  apply obtained_of_whole
  · refine ⟨?_, ?_, rfl⟩
    · intro r hr
      rw [List.mem_singleton.mp hr, hlen]
      decide
    · intro r hr
      rw [List.mem_singleton.mp hr, hlen]
  · intro r hr
    rw [List.mem_singleton.mp hr, hlen]

theorem renamed_readBack : ∃ events ht', coreRun renameHost
      (obtained (fun _ => 0) [renameWrite.bytes]) (insertHash renameNode initHash) =
        .ok (events, ht') ∧ readLog (logText events) = some events := by
  obtain ⟨s, hs, hht⟩ := renameHost_watch
  have hinit : AllMade renameHost WatchState.init.disk.ht := fun _ b hb => by cases hb
  have hfollows := follows_of_made (hinit.run hs) renameHost_readsDisk
  obtain ⟨events, ht', hrun, -, -⟩ := hfollows.run renameHost (hht ▸ renameWrite_tidy)
  rw [hht, ← obtained_renameWrite] at hrun
  refine ⟨events, ht', hrun, ?_⟩
  apply logText_readBack renameHost _ ht' _ _ renameNode_plainTable ?_ events hrun
  intro op hop
  rw [obtained_renameWrite] at hop
  rw [List.mem_singleton.mp hop]
  apply renamedEntry_plainData
  funext i
  exact blockMem_apply (entryBlock .file 98) i

end XenAccess.Disk
