import XenAccess.Disk.Differences
import XenAccess.Disk.Hash

/-!
# Replaying the events of a directory

The monitor compares two tables by the names in them. Replaying the events of one comparison
on a directory adds the new names and takes the old ones away, and leaves a name that is in
both tables as it is (`patch`). So the events of a run replay to the directory that was written
as long as no write changes the kind of an entry under its name.
-/

namespace XenAccess.Disk

/-! ## Mappings and events -/

inductive Kind where
  | file
  | directory
  deriving DecidableEq, Repr

/-- From names to kinds. -/
abbrev Mapping := CStr → Option Kind

def DirEntry.kind (e : DirEntry) : Option Kind :=
  if e.type = 1 then some .file else if e.type = 2 then some .directory else none

/-- The mapping of a table. -/
def kinds (table : List DirEntry) : Mapping := fun name =>
  (table.find? fun e => e.pathElem = name).bind DirEntry.kind

def Mapping.set (m : Mapping) (name : CStr) (k : Option Kind) : Mapping := fun n =>
  if n = name then k else m n

/-- The effect of one operation. -/
def applyOp (m : Mapping) (op : U8) (name : CStr) : Mapping :=
  if op = opMkdir then m.set name (some .directory)
  else if op = opMkfile then m.set name (some .file)
  else if op = opRmdir then m.set name none
  else if op = opRmfile then m.set name none
  else m

/-- Replay the events of a directory in order. -/
def replay (events : List DiskEvent) (m : Mapping) : Mapping :=
  events.foldl (fun m e => applyOp m e.op e.pathElem) m

def replayOps (ops : List DirOp) (m : Mapping) : Mapping :=
  ops.foldl (fun m d => applyOp m d.op d.pathElem) m

theorem replay_append (events events' : List DiskEvent) (m : Mapping) :
    replay (events ++ events') m = replay events' (replay events m) := List.foldl_append

theorem replay_map (ops : List DirOp) (path : CStr) (m : Mapping) :
    replay (ops.map fun d => { op := d.op, path, pathElem := d.pathElem }) m = replayOps ops m :=
  List.foldl_map

/-- The new names come from `new`, the names that are gone go, and the others stay. -/
def patch (old new m : Mapping) : Mapping := fun n =>
  if (new n).isSome then (if (old n).isSome then m n else new n)
  else if (old n).isSome then none else m n

theorem kinds_cons (e : DirEntry) (table : List DirEntry) (n : CStr) :
    kinds (e :: table) n = if e.pathElem = n then e.kind else kinds table n := by
  rw [kinds, List.find?_cons]
  by_cases he : e.pathElem = n
  · simp [he]
  · simp [he, kinds]

theorem kind_cases {e : DirEntry} (he : e.kind.isSome) :
    (e.type = 1 ∧ e.kind = some .file) ∨ (e.type = 2 ∧ e.kind = some .directory) := by
  by_cases h1 : e.type = 1
  · exact Or.inl ⟨h1, by rw [DirEntry.kind, if_pos h1]⟩
  · by_cases h2 : e.type = 2
    · exact Or.inr ⟨h2, by rw [DirEntry.kind, if_neg h1, if_pos h2]⟩
    · rw [DirEntry.kind, if_neg h1, if_neg h2] at he
      cases he

theorem applyOp_removed {e : DirEntry} (he : e.kind.isSome) (hname : 0 ∉ e.pathElem) (uninit : U8)
    (m : Mapping) :
    applyOp m (opOf uninit (.inl e)).op (opOf uninit (.inl e)).pathElem =
      m.set e.pathElem none := by
  rw [opOf_pathElem, show cstrOf (diffEntry (.inl e)).pathElem = e.pathElem from
    cstrOf_eq_self_iff.mpr hname]
  rcases kind_cases he with ⟨ht, -⟩ | ⟨ht, -⟩
  · simp [opOf, ht, applyOp, opRmfile, opMkdir, opMkfile, opRmdir]
  · simp [opOf, ht, applyOp, opMkdir, opMkfile, opRmdir]

theorem applyOp_created {e : DirEntry} (he : e.kind.isSome) (hname : 0 ∉ e.pathElem) (uninit : U8)
    (m : Mapping) :
    applyOp m (opOf uninit (.inr e)).op (opOf uninit (.inr e)).pathElem =
      m.set e.pathElem e.kind := by
  rw [opOf_pathElem, show cstrOf (diffEntry (.inr e)).pathElem = e.pathElem from
    cstrOf_eq_self_iff.mpr hname]
  rcases kind_cases he with ⟨ht, hk⟩ | ⟨ht, hk⟩
  · simp [opOf, ht, hk, applyOp, opMkdir, opMkfile]
  · simp [opOf, ht, hk, applyOp, opMkdir]

/-! ## One comparison -/

/-- A table as the monitor keeps it: sorted by distinct names, with files and directories
only. -/
structure Table (t : List DirEntry) : Prop where
  sorted : t.Pairwise NameLt
  kind : ∀ e ∈ t, e.kind.isSome
  proper : ∀ e ∈ t, e.Proper

variable {e x y : DirEntry} {t old new : List DirEntry} {n : CStr}

theorem Table.tail (ht : Table (e :: t)) : Table t where
  sorted := (List.pairwise_cons.mp ht.sorted).2
  kind := fun f hf => ht.kind f (List.mem_cons_of_mem e hf)
  proper := fun f hf => ht.proper f (List.mem_cons_of_mem e hf)

theorem kinds_isSome (ht : Table t) : (kinds t n).isSome ↔ n ∈ t.map DirEntry.pathElem := by
  induction t with
  | nil => simp [kinds]
  | cons e t ih =>
    rw [kinds_cons, List.map_cons, List.mem_cons]
    split
    · rename_i he
      exact iff_of_true (ht.kind e List.mem_cons_self) (Or.inl he.symm)
    · rename_i he
      rw [ih ht.tail]
      exact (or_iff_right (Ne.symm he)).symm

/-- A name before the first one of a table is not in it. -/
theorem kinds_eq_none (ht : Table (e :: t)) (hlt : strcmpLt n e.pathElem = true) :
    kinds (e :: t) n = none := by
  by_contra hne
  have hmem := (kinds_isSome ht).mp (Option.isSome_iff_ne_none.mpr hne)
  rcases List.mem_cons.mp hmem with rfl | hmem
  · rw [strcmpLt_irrefl] at hlt
    cases hlt
  · obtain ⟨f, hf, rfl⟩ := List.mem_map.mp hmem
    have := strcmpLt_trans hlt ((List.pairwise_cons.mp ht.sorted).1 f hf)
    rw [strcmpLt_irrefl] at this
    cases this

theorem kinds_tail_self (ht : Table (e :: t)) : kinds t e.pathElem = none := by
  cases t with
  | nil => rfl
  | cons f t => exact kinds_eq_none ht.tail ((List.pairwise_cons.mp ht.sorted).1 f List.mem_cons_self)

/-- The number of entries of one table whose names are not in the other. -/
def only (t t' : List DirEntry) : Nat := t.countP fun e => (kinds t' e.pathElem).isNone

theorem isNone_kinds_iff (ht : Table t) : (kinds t n).isNone ↔ n ∉ names t := by
  rw [← Option.not_isSome, Bool.not_eq_true', ← Bool.not_eq_true, kinds_isSome ht]
  rfl

/-- There are as many differences as there are names in one of the tables only. -/
theorem length_differences_eq (hold : Table old) (hnew : Table new) :
    (differences old new).length = only old new + only new old := by
  rw [length_differences hold.sorted hnew.sorted]
  refine congrArg₂ (· + ·) (List.countP_congr fun e _ => ?_) (List.countP_congr fun e _ => ?_)
  · rw [decide_eq_true_iff, isNone_kinds_iff hnew]
  · rw [decide_eq_true_iff, isNone_kinds_iff hold]

theorem patch_removed (hx : Table (x :: old)) (hnew : kinds new x.pathElem = none) (m : Mapping) :
    patch (kinds (x :: old)) (kinds new) m =
      patch (kinds old) (kinds new) (m.set x.pathElem none) := by
  funext n
  by_cases hn : x.pathElem = n
  · subst hn
    have hkind := hx.kind x List.mem_cons_self
    simp [patch, kinds_cons, hnew, hkind, kinds_tail_self hx, Mapping.set]
  · simp [patch, kinds_cons, hn, Mapping.set, Ne.symm hn]

theorem patch_created (hy : Table (y :: new)) (hold : kinds old y.pathElem = none) (m : Mapping) :
    patch (kinds old) (kinds (y :: new)) m =
      patch (kinds old) (kinds new) (m.set y.pathElem y.kind) := by
  funext n
  by_cases hn : y.pathElem = n
  · subst hn
    have hkind := hy.kind y List.mem_cons_self
    simp [patch, kinds_cons, hold, hkind, kinds_tail_self hy, Mapping.set]
  · simp [patch, kinds_cons, hn, Mapping.set, Ne.symm hn]

theorem patch_common (hx : Table (x :: old)) (hy : Table (y :: new)) (heq : x.pathElem = y.pathElem)
    (m : Mapping) :
    patch (kinds (x :: old)) (kinds (y :: new)) m = patch (kinds old) (kinds new) m := by
  funext n
  by_cases hn : y.pathElem = n
  · subst hn
    have h1 := hx.kind x List.mem_cons_self
    have h2 := hy.kind y List.mem_cons_self
    have h3 := kinds_tail_self hx
    rw [heq] at h3
    simp [patch, kinds_cons, heq, h1, h2, h3, kinds_tail_self hy]
  · simp [patch, kinds_cons, heq, hn]

/-- What is replayed after the operation of an old name. -/
theorem replayOps_removed (hx : Table (x :: old)) (hnone : kinds new x.pathElem = none)
    {uninit : Nat → U8} {ds : List (DirEntry ⊕ DirEntry)}
    (hrest : ∀ k m, replayOps (opsFrom uninit k ds) m = patch (kinds old) (kinds new) m) (k : Nat)
    (m : Mapping) :
    replayOps (opsFrom uninit k (.inl x :: ds)) m = patch (kinds (x :: old)) (kinds new) m := by
  have hkind := hx.kind x List.mem_cons_self
  have hname := (hx.proper x List.mem_cons_self).1
  rw [patch_removed hx hnone, ← hrest (k + 1), ← applyOp_removed hkind hname (uninit k)]
  rfl

/-- What is replayed after the operation of a new name. -/
theorem replayOps_created (hy : Table (y :: new)) (hnone : kinds old y.pathElem = none)
    {uninit : Nat → U8} {ds : List (DirEntry ⊕ DirEntry)}
    (hrest : ∀ k m, replayOps (opsFrom uninit k ds) m = patch (kinds old) (kinds new) m) (k : Nat)
    (m : Mapping) :
    replayOps (opsFrom uninit k (.inr y :: ds)) m = patch (kinds old) (kinds (y :: new)) m := by
  have hkind := hy.kind y List.mem_cons_self
  have hname := (hy.proper y List.mem_cons_self).1
  rw [patch_created hy hnone, ← hrest (k + 1), ← applyOp_created hkind hname (uninit k)]
  rfl

/-- The operations of a comparison replay to what they patch. -/
theorem replayOps_opsFrom (hold : Table old) (hnew : Table new) (uninit : Nat → U8) (k : Nat)
    (m : Mapping) :
    replayOps (opsFrom uninit k (differences old new)) m = patch (kinds old) (kinds new) m := by
  induction old, new using Merge.diff.induct strcmpLt DirEntry.pathElem generalizing k m with
  | case1 =>
    rw [differences, Merge.diff]
    rfl
  | case2 x old ih =>
    rw [differences, Merge.diff]
    exact replayOps_removed hold rfl (ih hold.tail hnew) k m
  | case3 y new ih =>
    rw [differences, Merge.diff]
    exact replayOps_created hnew rfl (ih hold hnew.tail) k m
  | case4 x old y new hlt ih =>
    rw [differences, Merge.diff, if_pos hlt]
    exact replayOps_removed hold (kinds_eq_none hnew hlt) (ih hold.tail hnew) k m
  | case5 x old y new hge hlt ih =>
    rw [differences, Merge.diff, if_neg hge, if_pos hlt]
    exact replayOps_created hnew (kinds_eq_none hold hlt) (ih hold hnew.tail) k m
  | case6 x old y new hge hge' ih =>
    have heq : x.pathElem = y.pathElem :=
      strcmpLt_connex (Bool.eq_false_iff.mpr hge) (Bool.eq_false_iff.mpr hge')
    rw [differences, Merge.diff, if_neg hge, if_neg hge', patch_common hold hnew heq]
    exact ih hold.tail hnew.tail k m

/-- Two tables with few differences are compared. -/
theorem compareTable_of_tables (hold : Table old) (hnew : Table new)
    (hfew : only old new + only new old ≤ opMax) (init : OpSlots) :
    ∃ ops, compareTable init old new = .ok ops ∧ ops.length = only old new + only new old ∧
      ∀ m, replayOps ops m = patch (kinds old) (kinds new) m := by
  have hfits : ∀ e ∈ old ++ new, e.Fits := by
    intro e he
    rcases List.mem_append.mp he with he | he
    · exact (hold.proper e he).2
    · exact (hnew.proper e he).2
  rw [← length_differences_eq hold hnew] at hfew ⊢
  refine ⟨_, (compareTable_of_fits hfits init).trans (if_pos hfew), length_opsFrom _ _ _, ?_⟩
  exact replayOps_opsFrom hold hnew _ 0

/-! ## Contents of a watched block -/

/-- A well-formed directory block: its records tile it, all are in use, with different names,
and each is a file or a directory. -/
structure DirContent where
  block : Block
  records : List DirRecord
  tiles : Tiles (blockMem block) 0 records
  few : records.length ≤ dirMax
  live : ∀ r ∈ records, r.inode ≠ 0
  names : ∀ r ∈ records, 0 ∉ r.name
  unique : (records.map DirRecord.name).Nodup
  type : ∀ r ∈ records, r.type = 1 ∨ r.type = 2

namespace DirContent

def entries (c : DirContent) : List DirEntry := c.records.map DirRecord.entry

/-- The directory: its names and their kinds. -/
def mapping (c : DirContent) : Mapping := kinds c.entries

/-- The number of names that are in one of two contents only. -/
def diffs (c c' : DirContent) : Nat := only c.entries c'.entries + only c'.entries c.entries

/-- A name that is in both contents has one kind. -/
def SameKinds (c c' : DirContent) : Prop :=
  ∀ n, (c.mapping n).isSome → (c'.mapping n).isSome → c.mapping n = c'.mapping n

theorem parse (c : DirContent) {m : Mem} (hm : ∀ i : Fin blockBytes, m i = c.block i) :
    parseBlockDir m blockBytes = .ok c.entries := by
  have htiles : Tiles m 0 c.records := by
    refine tiles_congr (fun i hi => ?_) c.tiles
    rw [blockMem, dif_pos hi]
    exact hm ⟨i, hi⟩
  exact parseLoop_tiles htiles c.few c.names

theorem kind_isSome (c : DirContent) : ∀ e ∈ c.entries, e.kind.isSome := by
  intro e he
  obtain ⟨r, hr, rfl⟩ := List.mem_map.mp he
  rcases c.type r hr with ht | ht
  · rw [DirEntry.kind, if_pos (show r.entry.type = 1 from ht)]
    rfl
  · have hne : ¬ r.entry.type = 1 := by
      rw [show r.entry.type = 2 from ht]
      decide
    rw [DirEntry.kind, if_neg hne, if_pos (show r.entry.type = 2 from ht)]
    rfl

theorem entries_nodup (c : DirContent) : (c.entries.map DirEntry.pathElem).Nodup := by
  rw [entries, List.map_map]
  exact c.unique

theorem proper (c : DirContent) : ∀ e ∈ c.entries, e.Proper := by
  intro e he
  obtain ⟨r, hr, rfl⟩ := List.mem_map.mp he
  exact ⟨c.names r hr, name_length_lt c.tiles r hr⟩

theorem table (c : DirContent) : Table (sortDir c.entries) where
  sorted := sortDir_sorted c.entries_nodup
  kind := fun e he => c.kind_isSome e ((sortDir_perm c.entries).mem_iff.mp he)
  proper := fun e he => c.proper e ((sortDir_perm c.entries).mem_iff.mp he)

end DirContent

/-- In a table with distinct names the order does not matter. -/
theorem kinds_perm {t t' : List DirEntry} (hperm : t.Perm t')
    (hnodup : (t.map DirEntry.pathElem).Nodup) : kinds t = kinds t' := by
  funext n
  induction hperm with
  | nil => rfl
  | cons e _ ih => rw [kinds_cons, kinds_cons, ih (List.nodup_cons.mp hnodup).2]
  | swap e f t =>
    have hne : f.pathElem ≠ e.pathElem := by
      intro heq
      exact (List.nodup_cons.mp hnodup).1 (by simp [heq])
    simp only [kinds_cons]
    by_cases hf : f.pathElem = n
    · rw [if_pos hf, if_neg (fun he => hne (hf.trans he.symm)), if_pos hf]
    · rw [if_neg hf, if_neg hf]
  | trans h1 _ ih1 ih2 =>
    rw [ih1 hnodup, ih2 ((h1.map DirEntry.pathElem).nodup_iff.mp hnodup)]

theorem only_perm {t t' u : List DirEntry} (hperm : t.Perm t') : only t u = only t' u :=
  hperm.countP_eq _

theorem DirContent.kinds_sortDir (c : DirContent) : kinds (sortDir c.entries) = c.mapping :=
  kinds_perm (sortDir_perm c.entries)
    (((sortDir_perm c.entries).map DirEntry.pathElem).nodup_iff.mpr c.entries_nodup)

/-- The stored table has the names of a content, but perhaps other kinds. -/
structure Snapshot (t : List DirEntry) (c : DirContent) : Prop where
  table : Table t
  names : ∀ n, (kinds t n).isSome ↔ (c.mapping n).isSome

theorem DirContent.snapshot (c : DirContent) : Snapshot (sortDir c.entries) c :=
  ⟨c.table, fun n => by rw [c.kinds_sortDir]⟩

variable {c c' : DirContent} {host : DiskHost} {ht : HashTable}

theorem Table.nodup (ht : Table t) : (t.map DirEntry.pathElem).Nodup := by
  refine List.pairwise_map.mpr (ht.sorted.imp fun hlt heq => ?_)
  rw [NameLt, heq, strcmpLt_irrefl] at hlt
  cases hlt

theorem only_eq_countP (t t' : List DirEntry) :
    only t t' = (t.map DirEntry.pathElem).countP fun n => (kinds t' n).isNone := by
  rw [List.countP_map]
  rfl

theorem only_congr_left {t t' u : List DirEntry} (ht : Table t) (ht' : Table t')
    (hnames : ∀ n, (kinds t n).isSome ↔ (kinds t' n).isSome) : only t u = only t' u := by
  rw [only_eq_countP, only_eq_countP]
  refine List.Perm.countP_eq _ ((List.perm_ext_iff_of_nodup ht.nodup ht'.nodup).mpr fun n => ?_)
  rw [← kinds_isSome ht, ← kinds_isSome ht', hnames]

theorem isNone_congr {a b : Option Kind} (hab : a.isSome ↔ b.isSome) : a.isNone = b.isNone := by
  cases a <;> cases b <;> simp_all

theorem only_congr_right {t t' u : List DirEntry}
    (hnames : ∀ n, (kinds t n).isSome ↔ (kinds t' n).isSome) : only u t = only u t' := by
  rw [only, only]
  congr 1
  funext e
  exact isNone_congr (hnames e.pathElem)

theorem DirContent.names_sortDir (c : DirContent) (n : CStr) :
    (kinds (sortDir c.entries) n).isSome ↔ (kinds c.entries n).isSome := by
  rw [c.kinds_sortDir]
  rfl

/-- The comparison with a stored table makes as many operations as there are names in one of
the contents only. -/
theorem Snapshot.only_eq (hs : Snapshot t c) (c' : DirContent) :
    only t (sortDir c'.entries) + only (sortDir c'.entries) t = DirContent.diffs c c' := by
  have hnames (n : CStr) : (kinds t n).isSome ↔ (kinds (sortDir c.entries) n).isSome :=
    (hs.names n).trans (c.names_sortDir n).symm
  rw [only_congr_left hs.table c.table hnames, only_congr_right hnames,
    only_perm (sortDir_perm c.entries), only_perm (sortDir_perm c'.entries),
    only_congr_right c.names_sortDir, only_congr_right c'.names_sortDir]
  rfl

theorem Snapshot.patch_eq (hs : Snapshot t c) (c' : DirContent) (m : Mapping) :
    patch (kinds t) (kinds (sortDir c'.entries)) m = patch c.mapping c'.mapping m := by
  funext n
  simp only [patch, c'.kinds_sortDir, hs.names n]

/-- With no operation, the names are those of the stored table. -/
theorem Snapshot.same (hs : Snapshot t c) (hdiff : DirContent.diffs c c' = 0) : Snapshot t c' := by
  have hzero := hs.only_eq c'
  rw [hdiff, Nat.add_eq_zero_iff] at hzero
  refine ⟨hs.table, fun n => ?_⟩
  rw [← c'.kinds_sortDir, kinds_isSome hs.table, kinds_isSome c'.table]
  constructor
  · intro hn
    obtain ⟨e, he, rfl⟩ := List.mem_map.mp hn
    have := List.countP_eq_zero.mp hzero.1 e he
    rw [Bool.not_eq_true, Option.isNone_eq_false_iff, kinds_isSome c'.table] at this
    exact this
  · intro hn
    obtain ⟨e, he, rfl⟩ := List.mem_map.mp hn
    have := List.countP_eq_zero.mp hzero.2 e he
    rw [Bool.not_eq_true, Option.isNone_eq_false_iff, kinds_isSome hs.table] at this
    exact this

/-! ## One write -/

/-- The block is watched, and its node has the names of a content. -/
def Watching (ht : HashTable) (block : U32) (c : DirContent) : Prop :=
  ∃ b, checkHash block ht = some b ∧ Snapshot b.dir c

theorem checkList_setDirList {block : U32} {dir : List DirEntry} {l : List BlockNode}
    {b : BlockNode} (hb : checkList block l = some b) :
    checkList block (setDirList block dir l) = some { b with dir } := by
  induction l with
  | nil => cases hb
  | cons q l ih =>
    rw [checkList] at hb
    rw [setDirList]
    split at hb
    · rename_i hlt
      rw [if_pos hlt, checkList, if_pos hlt]
      exact ih hb
    · rename_i hge
      split at hb
      · rename_i heq
        cases hb
        rw [if_neg hge, if_pos heq, checkList]
        rw [if_neg (show ¬ b.block < block from hge), if_pos (show b.block = block from heq)]
      · cases hb

theorem checkHash_setDir {block : U32} {dir : List DirEntry} {b : BlockNode}
    (hb : checkHash block ht = some b) :
    checkHash block (setDirHash block dir ht) = some { b with dir } := by
  rw [checkHash] at hb
  split at hb
  · cases hb
  · rename_i hactive
    rw [checkHash, setDirHash, HashTable.set_self, if_neg hactive]
    exact checkList_setDirList hb

theorem Watching.step (host : DiskHost) {op : BlockOp} (hw : Watching ht op.block c) (hdata : op.data = c'.block)
    (hdiff : DirContent.diffs c c' ≤ opMax) :
    ∃ events ht', coreStep host op ht = .ok (events, ht') ∧ Watching ht' op.block c' ∧
      ∀ m, replay events m = patch c.mapping c'.mapping m := by
  obtain ⟨b, hb, hs⟩ := hw
  have hparse : parseBlockDir (dataMem host op.data) blockBytes = .ok c'.entries := by
    refine c'.parse fun i => ?_
    rw [dataMem, dif_pos i.isLt, hdata]
  have honly := hs.only_eq c'
  obtain ⟨ops, hrun, hlen, hops⟩ :=
    compareTable_of_tables hs.table c'.table (honly ▸ hdiff) host.freshSlots
  have hreplay (m : Mapping) : replayOps ops m = patch c.mapping c'.mapping m :=
    (hops m).trans (hs.patch_eq c' m)
  have hstep : coreStep host op ht =
      if 0 < ops.length then
        .ok (ops.map fun d => { op := d.op, path := b.path, pathElem := d.pathElem },
          setDirHash op.block (sortDir c'.entries) ht)
      else .ok ([], ht) := by
    rw [coreStep, hb]
    simp only [bind, Except.bind, hparse, hrun]
    rfl
  by_cases hpos : 0 < ops.length
  · rw [if_pos hpos] at hstep
    exact ⟨_, _, hstep, ⟨_, checkHash_setDir hb, c'.snapshot⟩,
      fun m => (replay_map ops b.path m).trans (hreplay m)⟩
  · rw [if_neg hpos] at hstep
    have hnil : ops = [] := List.length_eq_zero_iff.mp (by omega)
    refine ⟨[], ht, hstep, ⟨b, hb, hs.same ?_⟩, fun m => ?_⟩
    · rw [← honly, ← hlen, hnil]
      rfl
    · rw [← hreplay, hnil]
      rfl

/-- Replaying one write on the directory before it. -/
theorem patch_self_iff : patch c.mapping c'.mapping c.mapping = c'.mapping ↔
    DirContent.SameKinds c c' := by
  constructor
  · intro heq n hn hn'
    have := congrFun heq n
    rwa [patch, if_pos hn', if_pos hn] at this
  · intro hsame
    funext n
    rw [patch]
    by_cases hn' : (c'.mapping n).isSome
    · by_cases hn : (c.mapping n).isSome
      · rw [if_pos hn', if_pos hn, hsame n hn hn']
      · rw [if_pos hn', if_neg hn]
    · have hnone : c'.mapping n = none := by simpa using hn'
      by_cases hn : (c.mapping n).isSome
      · rw [if_neg hn', if_pos hn, hnone]
      · rw [if_neg hn', if_neg hn, hnone]
        simpa using hn

/-! ## Runs -/

/-- A write of the guest that the monitor obtains. -/
structure LoggedWrite where
  sector : U64
  nbSectors : U32
  content : DirContent

def LoggedWrite.op (w : LoggedWrite) : BlockOp where
  op := 1
  sector := w.sector
  nbSectors := w.nbSectors
  data := w.content.block

/-- The directory after the writes. -/
def lastContent (c : DirContent) (writes : List LoggedWrite) : DirContent :=
  (writes.map LoggedWrite.content).getLastD c

/-- The events of the writes, replayed on the directory before, give the directory after. -/
def Replays (host : DiskHost) (ht : HashTable) (c : DirContent) (writes : List LoggedWrite) :
    Prop :=
  ∃ events ht', coreRun host (writes.map LoggedWrite.op) ht = .ok (events, ht') ∧
    replay events c.mapping = (lastContent c writes).mapping

theorem replays_nil : Replays host ht c [] := ⟨[], ht, rfl, rfl⟩

variable {block : U32} {w : LoggedWrite} {writes : List LoggedWrite}

/-- A run that starts with a write after which the replay is right. -/
theorem replays_cons {ht' : HashTable} {events : List DiskEvent}
    (hstep : coreStep host w.op ht = .ok (events, ht'))
    (hreplay : replay events c.mapping = w.content.mapping) :
    Replays host ht c (w :: writes) ↔ Replays host ht' w.content writes := by
  have hlast : lastContent c (w :: writes) = lastContent w.content writes := by
    cases writes <;> rfl
  have hrun : coreRun host ((w :: writes).map LoggedWrite.op) ht =
      (coreRun host (writes.map LoggedWrite.op) ht').map fun r => (events ++ r.1, r.2) := by
    rw [List.map_cons, coreRun, hstep]
    simp only [bind, Except.bind]
    cases coreRun host (writes.map LoggedWrite.op) ht' <;> rfl
  rw [Replays, Replays, hlast, hrun]
  constructor
  · rintro ⟨events', ht'', hrest, hall⟩
    cases hr : coreRun host (writes.map LoggedWrite.op) ht' with
    | error e =>
      rw [hr] at hrest
      cases hrest
    | ok r =>
      rw [hr] at hrest
      cases hrest
      rw [replay_append, hreplay] at hall
      exact ⟨r.1, r.2, rfl, hall⟩
  · rintro ⟨events', ht'', hrest, hall⟩
    rw [hrest]
    refine ⟨events ++ events', ht'', rfl, ?_⟩
    rw [replay_append, hreplay]
    exact hall

/-- All prefixes of a run replay, from a state in which the replay was right so far. -/
theorem Watching.replays_iff (hw : Watching ht block c)
    (hblock : ∀ w ∈ writes, w.op.block = block)
    (hdiffs : List.IsChain (fun c c' => DirContent.diffs c c' ≤ opMax)
      (c :: writes.map LoggedWrite.content)) :
    (∀ ws, ws <+: writes → Replays host ht c ws) ↔
      List.IsChain DirContent.SameKinds (c :: writes.map LoggedWrite.content) := by
  induction writes generalizing c ht with
  | nil =>
    refine iff_of_true (fun ws hws => ?_) (.singleton c)
    rw [List.prefix_nil.mp hws]
    exact replays_nil
  | cons w writes ih =>
    rw [List.map_cons, List.isChain_cons_cons] at hdiffs
    have hwb := hblock w List.mem_cons_self
    obtain ⟨events, ht', hstep, hw', hreplay⟩ :=
      Watching.step host (hwb ▸ hw : Watching ht w.op.block c) rfl hdiffs.1
    have hih := ih (hwb ▸ hw') (fun v hv => hblock v (List.mem_cons_of_mem w hv)) hdiffs.2
    rw [List.map_cons, List.isChain_cons_cons, ← hih, ← patch_self_iff, ← hreplay]
    constructor
    · intro hall
      have hfirst : replay events c.mapping = w.content.mapping := by
        obtain ⟨events₁, ht₁, hrun, hall₁⟩ := hall [w] (by simp)
        have : coreRun host [w.op] ht = .ok (events, ht') := by
          rw [coreRun, hstep]
          simp [bind, Except.bind, coreRun, pure, Except.pure]
        cases this.symm.trans hrun
        exact hall₁
      refine ⟨hfirst, fun ws hws => ?_⟩
      exact (replays_cons hstep hfirst).mp (hall (w :: ws) (List.cons_prefix_cons.mpr ⟨rfl, hws⟩))
    · rintro ⟨hfirst, hall⟩ ws hws
      cases ws with
      | nil => exact replays_nil
      | cons v ws =>
        obtain ⟨rfl, hws'⟩ := List.cons_prefix_cons.mp hws
        exact (replays_cons hstep hfirst).mpr (hall ws hws')

/-- The node that `xadisk_set_watch` makes for a block with a well-formed content. -/
theorem watching_of_watchNode {b : BlockNode} (hb : checkHash block ht = some b)
    (hnode : watchNode host b.id b.path b.inode block = .ok b)
    (hread : ∀ i : Fin blockBytes, host.read (block.setWidth 64 * 4096) i = c.block i) :
    Watching ht block c := by
  refine ⟨b, hb, ?_⟩
  rw [watchNode, c.parse hread] at hnode
  have hdir : b.dir = sortDir c.entries := (congrArg BlockNode.dir (Except.ok.inj hnode)).symm
  rw [hdir]
  exact c.snapshot

/-- For a block that is watched and then written with well-formed contents, the events replay
to the directory after every write, if and only if no write changes the kind of an entry that
stays. -/
theorem replays_throughout_iff (host : DiskHost) (ht : HashTable) (block : U32) (b : BlockNode)
    (hb : checkHash block ht = some b) (c : DirContent)
    (hnode : watchNode host b.id b.path b.inode block = .ok b)
    (hread : ∀ i : Fin blockBytes, host.read (block.setWidth 64 * 4096) i = c.block i)
    (writes : List LoggedWrite) (hblock : ∀ w ∈ writes, w.op.block = block)
    (hdiffs : List.IsChain (fun c c' => DirContent.diffs c c' ≤ opMax)
      (c :: writes.map LoggedWrite.content)) :
    (∀ ws, ws <+: writes → Replays host ht c ws) ↔
      List.IsChain DirContent.SameKinds (c :: writes.map LoggedWrite.content) :=
  (watching_of_watchNode hb hnode hread).replays_iff hblock hdiffs

/-! ## One directory -/

/-- A directory block with one record, whose name is one letter. -/
def entryBlock (k : Kind) (letter : U8) : Block := fun i =>
  match i.val with
  | 0 => 12
  | 5 => 0x10
  | 6 => 1
  | 7 => if k = .file then 1 else 2
  | 8 => letter
  | _ => 0

def oneEntry (k : Kind) : DirContent where
  block := entryBlock k 97
  records := [⟨12, 4096, if k = .file then 1 else 2, cstr "a"⟩]
  tiles := by
    cases k <;> exact ⟨⟨rfl, rfl, rfl, rfl, rfl⟩, by decide, by decide, by decide, rfl⟩
  few := by simp [dirMax]
  live := by simp
  names := by simp [cstr]
  unique := by simp
  type := by cases k <;> simp

/-- The file with another name. -/
def renamedEntry : DirContent where
  block := entryBlock .file 98
  records := [⟨12, 4096, 1, cstr "b"⟩]
  tiles := ⟨⟨rfl, rfl, rfl, rfl, rfl⟩, by decide, by decide, by decide, rfl⟩
  few := by simp [dirMax]
  live := by simp
  names := by simp [cstr]
  unique := by simp
  type := by simp

theorem oneEntry_mapping (k : Kind) (n : CStr) :
    (oneEntry k).mapping n = if cstr "a" = n then some k else none := by
  cases k <;> exact kinds_cons _ [] n

theorem renamedEntry_mapping (n : CStr) :
    renamedEntry.mapping n = if cstr "b" = n then some .file else none := kinds_cons _ [] n

/-- The two have no name in common. -/
theorem not_both_named (k : Kind) {n : CStr} (hn : ((oneEntry k).mapping n).isSome) :
    ¬(renamedEntry.mapping n).isSome := by
  rw [oneEntry_mapping] at hn
  split at hn
  · rename_i heq
    subst heq
    rw [renamedEntry_mapping]
    decide
  · cases hn

/-- An image in which that entry is a file. -/
def oneEntryHost : DiskHost where
  mmap _ _ := none
  read _ := blockMem (entryBlock .file 97)
  freshSlots _ := { op := 0, pathElem := fun _ => 0 }
  stackTail _ := 0

def oneEntryNode : BlockNode where
  id := 0
  block := 100
  inode := 2
  type := 2
  path := cstr "/"
  dir := [⟨12, 1, cstr "a"⟩]

theorem oneEntryNode_eq : watchNode oneEntryHost 0 (cstr "/") 2 100 = .ok oneEntryNode := rfl

theorem oneEntryNode_found : checkHash 100 (insertHash oneEntryNode initHash) = some oneEntryNode :=
  rfl

theorem oneEntryHost_read (i : Fin blockBytes) :
    oneEntryHost.read ((100 : U32).setWidth 64 * 4096) i = (oneEntry .file).block i := by
  show blockMem (entryBlock .file 97) i = entryBlock .file 97 i
  exact dif_pos i.isLt

/-- The file gets another name, and then a directory takes its place. -/
theorem oneEntry_replays :
    Replays oneEntryHost (insertHash oneEntryNode initHash) (oneEntry .file)
        [⟨800, 8, renamedEntry⟩] ∧
      Replays oneEntryHost (insertHash oneEntryNode initHash) (oneEntry .file)
        [⟨800, 8, renamedEntry⟩, ⟨800, 8, oneEntry .directory⟩] := by
  have hall : ∀ ws, ws <+: [⟨800, 8, renamedEntry⟩, ⟨800, 8, oneEntry .directory⟩] →
      Replays oneEntryHost (insertHash oneEntryNode initHash) (oneEntry .file) ws := by
    refine (replays_throughout_iff oneEntryHost _ 100 oneEntryNode oneEntryNode_found
      (oneEntry .file) oneEntryNode_eq oneEntryHost_read
      [⟨800, 8, renamedEntry⟩, ⟨800, 8, oneEntry .directory⟩] ?_ ?_).mpr ?_
    · intro w hw
      rcases List.mem_pair.mp hw with rfl | rfl
      · rfl
      · rfl
    · exact .cons_cons (by decide) (.cons_cons (by decide) (.singleton _))
    · refine .cons_cons (fun n hn hn' => ?_) (.cons_cons (fun n hn hn' => ?_) (.singleton _))
      · exact absurd hn' (not_both_named .file hn)
      · exact absurd hn (not_both_named .directory hn')
  exact ⟨hall _ (List.prefix_append _ _), hall _ List.prefix_rfl⟩

/-- The file is replaced by a directory of the same name. -/
theorem oneEntry_not_replays :
    checkHash 100 (insertHash oneEntryNode initHash) = some oneEntryNode ∧
      watchNode oneEntryHost 0 (cstr "/") 2 100 = .ok oneEntryNode ∧
      ¬ Replays oneEntryHost (insertHash oneEntryNode initHash) (oneEntry .file)
        [⟨800, 8, oneEntry .directory⟩] := by
  refine ⟨rfl, rfl, fun hreplays => ?_⟩
  have hw := watching_of_watchNode oneEntryNode_found oneEntryNode_eq oneEntryHost_read
  have hblock : ∀ w ∈ [(⟨800, 8, oneEntry .directory⟩ : LoggedWrite)], w.op.block = 100 := by
    intro w hw
    rw [List.mem_singleton.mp hw]
    rfl
  have hall : ∀ ws, ws <+: [⟨800, 8, oneEntry .directory⟩] →
      Replays oneEntryHost (insertHash oneEntryNode initHash) (oneEntry .file) ws := by
    intro ws hws
    rcases List.prefix_cons_iff.mp hws with rfl | ⟨ws', rfl, hws'⟩
    · exact replays_nil
    · rw [List.prefix_nil.mp hws']
      exact hreplays
  have hchain := (hw.replays_iff hblock (.cons_cons (by decide) (.singleton _))).mp hall
  have := (List.isChain_cons_cons.mp hchain).1 (cstr "a") (by decide) (by decide)
  revert this
  decide

end XenAccess.Disk
