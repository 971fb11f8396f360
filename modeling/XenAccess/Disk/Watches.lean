import Mathlib.Data.List.Flatten
import XenAccess.Disk.Hash

/-!
# Setting and unsetting watches

A watch puts one node for each block of a directory into the hash table, and unsetting it
removes one node for each of its blocks, whichever is the first in the table. So the table
holds the nodes of the watches that are set as long as a watch is only unset when no later
watch that is still set has a block in common with it.
-/

namespace XenAccess.Disk

/-! ## Runs -/

/-- A watch that is set: the number of the call that set it, what the call returned and the
nodes it created. -/
structure Watch where
  serial : Nat
  obj : XadiskObj
  nodes : List BlockNode
  deriving DecidableEq, Repr

/-- The monitor and the watches that are set, the latest first. -/
structure WatchState where
  disk : DiskState
  watches : List Watch
  calls : Nat

def WatchState.init : WatchState := { disk := .init, watches := [], calls := 0 }

inductive WatchCall where
  | set (path : CStr)
  /-- the object that an earlier call returned -/
  | unset (serial : Nat)

variable (host : DiskHost) (x : Xadisk)

def WatchCall.exec (s : WatchState) : WatchCall → Except DiskFault WatchState
  | .set path => do
    match ← xadiskSetWatch host x path s.disk with
    | (none, disk) => return { s with disk, calls := s.calls + 1 }
    | (some (obj, nodes), disk) =>
      return { disk, watches := ⟨s.calls, obj, nodes⟩ :: s.watches, calls := s.calls + 1 }
  | .unset serial =>
    match s.watches.find? fun w => w.serial = serial with
    | none => .error .notSet
    | some w => .ok { s with
        disk := xadiskUnsetWatch w.obj s.disk
        watches := s.watches.filter fun w => w.serial ≠ serial
        calls := s.calls + 1 }

/-- Make the calls one after the other. -/
def runWatches : List WatchCall → WatchState → Except DiskFault WatchState
  | [], s => .ok s
  | c :: cs, s => do runWatches cs (← c.exec host x s)

/-- A property holds at every point of a run. -/
def Throughout (P : WatchState → Prop) : List WatchCall → WatchState → Prop
  | [], s => P s
  | c :: cs, s => P s ∧ ∀ s', c.exec host x s = .ok s' → Throughout P cs s'

/-- The nodes in the table are those of the watches that are set, each with the path of its
watch. -/
structure Independent (s : WatchState) : Prop where
  nodes : ∀ b, InTable b s.disk.ht ↔ ∃ w ∈ s.watches, b ∈ w.nodes
  path : ∀ w ∈ s.watches, ∀ b ∈ w.nodes, b.path = w.obj.path

/-- No watch set after this one and still set has a block in common with it. -/
def NoneAbove (s : WatchState) (serial : Nat) : Prop :=
  ∀ w ∈ s.watches, w.serial = serial → ∀ w' ∈ s.watches, serial < w'.serial →
    ∀ block ∈ w.obj.blocks, block ∉ w'.obj.blocks

/-- Every watch is unset at such a moment. -/
def UnsetsTop : List WatchCall → WatchState → Prop
  | [], _ => True
  | c :: cs, s => (∀ serial, c = .unset serial → NoneAbove s serial) ∧
    ∀ s', c.exec host x s = .ok s' → UnsetsTop cs s'

variable {host x} {s s' : WatchState} {ht : HashTable}

theorem unsetsTop_run {calls : List WatchCall} {serial : Nat}
    (hall : UnsetsTop host x (calls ++ [.unset serial]) s)
    (hrun : runWatches host x calls s = .ok s') : NoneAbove s' serial := by
  induction calls generalizing s with
  | nil =>
    cases hrun
    exact hall.1 serial rfl
  | cons c cs ih =>
    rw [runWatches] at hrun
    cases hc : c.exec host x s with
    | error e =>
      rw [hc] at hrun
      cases hrun
    | ok t =>
      rw [hc] at hrun
      exact ih (hall.2 t hc) hrun

/-! ## The stacks of nodes -/

/-- What `xadisk_set_watch` does to the table. -/
theorem insertBlocks_spec {path : CStr} {inode : U32} {blocks : List U32} {d d' : DiskState}
    {nodes : List BlockNode} (hrun : insertBlocks host path inode blocks d = .ok (nodes, d'))
    (hv : Valid d.ht) :
    nodes.map BlockNode.block = blocks ∧ (∀ b ∈ nodes, b.path = path) ∧
      nodes.map BlockNode.id = List.range' d.mallocs blocks.length ∧
      d'.mallocs = d.mallocs + blocks.length ∧ Valid d'.ht ∧
      ∀ k, nodesOf k d'.ht = (nodes.filter fun b => b.block = k).reverse ++ nodesOf k d.ht := by
  induction blocks generalizing d nodes with
  | nil =>
    cases hrun
    exact ⟨rfl, by simp, rfl, rfl, hv, fun k => rfl⟩
  | cons block blocks ih =>
    rw [insertBlocks, watchNode] at hrun
    simp only [bind, Except.bind, pure, Except.pure] at hrun
    split at hrun
    · cases hrun
    · rename_i node hnode
      split at hnode
      · cases hnode
      · cases hnode
        split at hrun
        · cases hrun
        · rename_i r hr
          cases hrun
          obtain ⟨hblocks, hpath, hid, hmallocs, hv', hnodes⟩ := ih hr (hv.insert _)
          refine ⟨by rw [List.map_cons, hblocks], ?_, ?_, ?_, hv', fun k => ?_⟩
          · intro b hb
            rcases List.mem_cons.mp hb with rfl | hb
            · rfl
            · exact hpath b hb
          · rw [List.map_cons, hid, List.length_cons, List.range'_succ]
          · rw [hmallocs, List.length_cons]
            show d.mallocs + 1 + blocks.length = _
            omega
          · rw [hnodes, nodesOf_insert, List.filter_cons]
            simp only [decide_eq_true_eq]
            split <;> simp

theorem removeBlocks_spec (hv : Valid ht) (blocks : List U32) :
    Valid (removeBlocks blocks ht) ∧
      ∀ k, nodesOf k (removeBlocks blocks ht) = (nodesOf k ht).drop (blocks.count k) := by
  induction blocks generalizing ht with
  | nil => exact ⟨hv, fun k => rfl⟩
  | cons block blocks ih =>
    obtain ⟨hv', hnodes⟩ := ih (hv.remove block)
    refine ⟨hv', fun k => ?_⟩
    rw [show removeBlocks (block :: blocks) ht = removeBlocks blocks (removeHash block ht) from rfl,
      hnodes, nodesOf_remove hv, List.count_cons]
    by_cases hk : block = k
    · simp [hk, List.drop_tail]
    · simp [hk]

/-- The nodes of a block that some watches have, the latest first. -/
def stackOf (k : U32) (watches : List Watch) : List BlockNode :=
  watches.flatMap fun w => (w.nodes.filter fun b => b.block = k).reverse

theorem stackOf_append (k : U32) (ws ws' : List Watch) :
    stackOf k (ws ++ ws') = stackOf k ws ++ stackOf k ws' := List.flatMap_append

theorem stackOf_cons (k : U32) (w : Watch) (ws : List Watch) :
    stackOf k (w :: ws) = (w.nodes.filter fun b => b.block = k).reverse ++ stackOf k ws :=
  List.flatMap_cons

theorem mem_stackOf {k : U32} {ws : List Watch} {b : BlockNode} :
    b ∈ stackOf k ws ↔ (∃ w ∈ ws, b ∈ w.nodes) ∧ b.block = k := by
  simp only [stackOf, List.mem_flatMap, List.mem_reverse, List.mem_filter, decide_eq_true_eq]
  constructor
  · rintro ⟨w, hw, hb, hk⟩
    exact ⟨⟨w, hw, hb⟩, hk⟩
  · rintro ⟨⟨w, hw, hb⟩, hk⟩
    exact ⟨w, hw, hb, hk⟩

theorem stackOf_nodup {ws : List Watch} (hws : (ws.flatMap Watch.nodes).Nodup) (k : U32) :
    (stackOf k ws).Nodup := by
  induction ws with
  | nil => exact List.nodup_nil
  | cons w ws ih =>
    rw [List.flatMap_cons] at hws
    obtain ⟨hw, hrest, hdisj⟩ := List.nodup_append.mp hws
    rw [stackOf_cons]
    refine List.nodup_append.mpr ⟨List.nodup_reverse.mpr (hw.filter _), ih hrest, ?_⟩
    intro b hb c hc
    have hb' := List.mem_of_mem_filter (List.mem_reverse.mp hb)
    obtain ⟨⟨w', hw', hc'⟩, -⟩ := mem_stackOf.mp hc
    exact hdisj b hb' c (List.mem_flatMap.mpr ⟨w', hw', hc'⟩)

/-- The invariant: for each block, the table has the nodes of the watches, the latest watch in
front. -/
structure Stacked (s : WatchState) : Prop where
  valid : Valid s.disk.ht
  nodes : ∀ k, nodesOf k s.disk.ht = stackOf k s.watches
  ids : ((s.watches.flatMap Watch.nodes).map BlockNode.id).Nodup
  fresh : ∀ b ∈ s.watches.flatMap Watch.nodes, b.id < s.disk.mallocs
  blocks : ∀ w ∈ s.watches, w.nodes.map BlockNode.block = w.obj.blocks
  path : ∀ w ∈ s.watches, ∀ b ∈ w.nodes, b.path = w.obj.path
  order : s.watches.Pairwise fun w w' => w'.serial < w.serial
  serials : ∀ w ∈ s.watches, w.serial < s.calls

theorem stacked_init : Stacked .init :=
  ⟨valid_init, fun _ => rfl, List.nodup_nil, by simp [WatchState.init], by simp [WatchState.init],
    by simp [WatchState.init], .nil, by simp [WatchState.init]⟩

theorem Stacked.independent (hs : Stacked s) : Independent s := by
  refine ⟨fun b => ?_, hs.path⟩
  rw [inTable_iff hs.valid, hs.nodes, mem_stackOf, and_iff_left rfl]

/-! ## Steps -/

theorem Stacked.set (hs : Stacked s) {path : CStr}
    (hexec : (WatchCall.set path).exec host x s = .ok s') : Stacked s' := by
  rw [WatchCall.exec, xadiskSetWatch] at hexec
  simp only [bind, Except.bind, pure, Except.pure] at hexec
  cases hdir : ext2Dir host x path with
  | error e =>
    rw [hdir] at hexec
    cases hexec
  | ok r =>
    rw [hdir] at hexec
    cases r with
    | none =>
      cases hexec
      exact { hs with serials := fun w hw => Nat.lt_succ_of_lt (hs.serials w hw) }
    | some r =>
      obtain ⟨blocks, inode⟩ := r
      simp only at hexec
      cases hins : insertBlocks host path inode blocks s.disk with
      | error e =>
        rw [hins] at hexec
        cases hexec
      | ok r =>
        obtain ⟨nodes, disk⟩ := r
        rw [hins] at hexec
        cases hexec
        obtain ⟨hblocks, hpath, hid, hmallocs, hv, hnodes⟩ := insertBlocks_spec hins hs.valid
        have hnew {b : BlockNode} (hb : b ∈ nodes) :
            s.disk.mallocs ≤ b.id ∧ b.id < s.disk.mallocs + blocks.length := by
          have := List.mem_map_of_mem (f := BlockNode.id) hb
          rw [hid, List.mem_range'_1] at this
          exact this
        refine ⟨hv, fun k => ?_, ?_, ?_, ?_, ?_, ?_, ?_⟩
        · rw [hnodes, hs.nodes, stackOf_cons]
        · rw [List.flatMap_cons, List.map_append, hid]
          refine List.nodup_append.mpr ⟨List.nodup_range', hs.ids, ?_⟩
          intro i hi j hj
          obtain ⟨b, hb, rfl⟩ := List.mem_map.mp hj
          have := hs.fresh b hb
          have := (List.mem_range'_1.mp hi).1
          omega
        · intro b hb
          rw [List.flatMap_cons] at hb
          show b.id < disk.mallocs
          rw [hmallocs]
          rcases List.mem_append.mp hb with hb | hb
          · exact (hnew hb).2
          · have := hs.fresh b hb
            omega
        · intro w hw
          rcases List.mem_cons.mp hw with rfl | hw
          · exact hblocks
          · exact hs.blocks w hw
        · intro w hw
          rcases List.mem_cons.mp hw with rfl | hw
          · exact hpath
          · exact hs.path w hw
        · exact List.pairwise_cons.mpr ⟨hs.serials, hs.order⟩
        · intro w hw
          rcases List.mem_cons.mp hw with rfl | hw
          · exact Nat.lt_succ_self s.calls
          · exact Nat.lt_succ_of_lt (hs.serials w hw)

/-- The watch that is unset, with those set after it and before it. -/
theorem Stacked.split (hs : Stacked s) {serial : Nat} {w : Watch}
    (hfind : (s.watches.find? fun w => w.serial = serial) = some w) :
    ∃ above below, s.watches = above ++ w :: below ∧ w.serial = serial ∧
      (∀ w' ∈ above, serial < w'.serial) ∧ (∀ w' ∈ below, w'.serial < serial) ∧
      (s.watches.filter fun w => w.serial ≠ serial) = above ++ below := by
  obtain ⟨hserial, above, below, heq, -⟩ := List.find?_eq_some_iff_append.mp hfind
  rw [decide_eq_true_eq] at hserial
  have horder := hs.order
  rw [heq] at horder
  obtain ⟨-, hbelow, habove⟩ := List.pairwise_append.mp horder
  have hgt : ∀ w' ∈ above, serial < w'.serial := by
    intro w' hw'
    rw [← hserial]
    exact habove w' hw' w List.mem_cons_self
  have hlt : ∀ w' ∈ below, w'.serial < serial := by
    intro w' hw'
    rw [← hserial]
    exact (List.pairwise_cons.mp hbelow).1 w' hw'
  refine ⟨above, below, heq, hserial, hgt, hlt, ?_⟩
  rw [heq, List.filter_append, List.filter_cons_of_neg (by simpa using hserial)]
  congr 1
  · refine List.filter_eq_self.mpr fun w' hw' => ?_
    have := hgt w' hw'
    simp only [ne_eq, decide_not, Bool.not_eq_true', decide_eq_false_iff_not]
    omega
  · refine List.filter_eq_self.mpr fun w' hw' => ?_
    have := hlt w' hw'
    simp only [ne_eq, decide_not, Bool.not_eq_true', decide_eq_false_iff_not]
    omega

theorem count_blocks {w : Watch} (hw : w.nodes.map BlockNode.block = w.obj.blocks) (k : U32) :
    w.obj.blocks.count k = (w.nodes.filter fun b => b.block = k).length := by
  rw [← hw, List.count, List.countP_map, List.countP_eq_length_filter]
  congr 2

/-- The table after the blocks of a watch were removed. -/
theorem Stacked.removed (hs : Stacked s) {w : Watch} {above below : List Watch}
    (heq : s.watches = above ++ w :: below) (k : U32) :
    nodesOf k (removeBlocks w.obj.blocks s.disk.ht) =
      (stackOf k above ++ ((w.nodes.filter fun b => b.block = k).reverse ++ stackOf k below)).drop
        (w.nodes.filter fun b => b.block = k).length := by
  have hw : w ∈ s.watches := by simp [heq]
  rw [(removeBlocks_spec hs.valid w.obj.blocks).2, hs.nodes, heq, stackOf_append, stackOf_cons,
    count_blocks (hs.blocks w hw)]

/-- The nodes of a watch are in the table if and only if its blocks are. -/
theorem Stacked.filter_eq_nil_iff (hs : Stacked s) {w : Watch} (hw : w ∈ s.watches) (k : U32) :
    (w.nodes.filter fun b => b.block = k) = [] ↔ k ∉ w.obj.blocks := by
  rw [← List.length_eq_zero_iff, ← count_blocks (hs.blocks w hw), List.count_eq_zero]

theorem Stacked.stackOf_eq_nil (hs : Stacked s) {ws : List Watch} (hsub : ∀ w ∈ ws, w ∈ s.watches)
    {k : U32} (hk : ∀ w ∈ ws, k ∉ w.obj.blocks) : stackOf k ws = [] := by
  refine List.flatMap_eq_nil_iff.mpr fun w hw => ?_
  rw [(hs.filter_eq_nil_iff (hsub w hw) k).mpr (hk w hw), List.reverse_nil]

theorem Stacked.unset (hs : Stacked s) {serial : Nat} (hnone : NoneAbove s serial)
    (hexec : (WatchCall.unset serial).exec host x s = .ok s') : Stacked s' := by
  rw [WatchCall.exec] at hexec
  cases hfind : s.watches.find? fun w => w.serial = serial with
  | none =>
    rw [hfind] at hexec
    cases hexec
  | some w =>
    rw [hfind] at hexec
    cases hexec
    obtain ⟨above, below, heq, hserial, hgt, -, hfilter⟩ := hs.split hfind
    have hsub : (above ++ below).Sublist s.watches := by
      rw [heq]
      exact List.Sublist.append_left (List.sublist_cons_self w below) above
    have hw : w ∈ s.watches := by simp [heq]
    refine ⟨(removeBlocks_spec hs.valid w.obj.blocks).1, fun k => ?_, ?_, ?_, ?_, ?_, ?_, ?_⟩
    · show nodesOf k (removeBlocks w.obj.blocks s.disk.ht) = stackOf k (s.watches.filter _)
      rw [hs.removed heq, hfilter, stackOf_append]
      by_cases hk : k ∈ w.obj.blocks
      · have habove : stackOf k above = [] := by
          refine hs.stackOf_eq_nil (fun w' hw' => by simp [heq, hw']) fun w' hw' => ?_
          exact hnone w hw hserial w' (by simp [heq, hw']) (hgt w' hw') k hk
        rw [habove, List.nil_append, List.nil_append]
        exact List.drop_left' List.length_reverse
      · rw [(hs.filter_eq_nil_iff hw k).mpr hk]
        rfl
    all_goals
      simp only [hfilter]
    · exact hs.ids.sublist ((hsub.flatMap Watch.nodes).map BlockNode.id)
    · intro b hb
      obtain ⟨w', hw', hb'⟩ := List.mem_flatMap.mp hb
      exact hs.fresh b (List.mem_flatMap.mpr ⟨w', hsub.subset hw', hb'⟩)
    · exact fun w' hw' => hs.blocks w' (hsub.subset hw')
    · exact fun w' hw' => hs.path w' (hsub.subset hw')
    · exact hs.order.sublist hsub
    · exact fun w' hw' => Nat.lt_succ_of_lt (hs.serials w' (hsub.subset hw'))

/-- Otherwise a node of another watch goes. -/
theorem Stacked.noneAbove_of_independent (hs : Stacked s) {serial : Nat}
    (hind : ∀ s', (WatchCall.unset serial).exec host x s = .ok s' → Independent s') :
    NoneAbove s serial := by
  intro w hw hserial w' hw' hlt k hk hk'
  cases hfind : s.watches.find? fun w => w.serial = serial with
  | none =>
    have := List.find?_eq_none.mp hfind w hw
    simp [hserial] at this
  | some v =>
    obtain ⟨above, below, heq, hserial', hgt, hbelow, hfilter⟩ := hs.split hfind
    have hwv : w = v := by
      rw [heq] at hw
      rcases List.mem_append.mp hw with hw | hw
      · have := hgt w hw
        omega
      · rcases List.mem_cons.mp hw with hw | hw
        · exact hw
        · have := hbelow w hw
          omega
    have habove : w' ∈ above := by
      have hmem := hw'
      rw [heq] at hmem
      rcases List.mem_append.mp hmem with hmem | hmem
      · exact hmem
      · rcases List.mem_cons.mp hmem with rfl | hmem
        · omega
        · have := hbelow w' hmem
          omega
    subst hwv
    -- the first node of the block belongs to a watch set later
    cases hstack : stackOf k above with
    | nil =>
      have hnil := List.flatMap_eq_nil_iff.mp hstack w' habove
      rw [List.reverse_eq_nil_iff, hs.filter_eq_nil_iff hw'] at hnil
      exact hnil hk'
    | cons t rest =>
      obtain ⟨⟨u, hu, ht⟩, hblock⟩ := mem_stackOf.mp (hstack ▸ List.mem_cons_self)
      have hexec : (WatchCall.unset serial).exec host x s = .ok { s with
          disk := xadiskUnsetWatch w.obj s.disk
          watches := s.watches.filter fun w => w.serial ≠ serial
          calls := s.calls + 1 } := by
        rw [WatchCall.exec, hfind]
      have htable : InTable t (removeBlocks w.obj.blocks s.disk.ht) := by
        refine ((hind _ hexec).nodes t).mpr ⟨u, ?_, ht⟩
        rw [hfilter]
        exact List.mem_append_left _ hu
      have hmem := (inTable_iff (removeBlocks_spec hs.valid w.obj.blocks).1).mp htable
      rw [hblock, hs.removed heq, hstack, List.cons_append] at hmem
      cases hlen : (w.nodes.filter fun b => b.block = k).length with
      | zero =>
        rw [List.length_eq_zero_iff, hs.filter_eq_nil_iff hw] at hlen
        exact hlen hk
      | succ n =>
        rw [hlen, List.drop_succ_cons] at hmem
        have hnodup := stackOf_nodup (List.Nodup.of_map BlockNode.id hs.ids) k
        rw [heq, stackOf_append, stackOf_cons, hstack, List.cons_append] at hnodup
        exact (List.nodup_cons.mp hnodup).1 (List.mem_of_mem_drop hmem)

/-! ## Runs of any length -/

theorem Stacked.throughout_iff (hs : Stacked s) (calls : List WatchCall) :
    Throughout host x Independent calls s ↔ UnsetsTop host x calls s := by
  induction calls generalizing s with
  | nil => exact iff_of_true hs.independent trivial
  | cons c cs ih =>
    cases c with
    | set path =>
      constructor
      · rintro ⟨-, hall⟩
        refine ⟨fun serial heq => (by cases heq), fun s' hexec => ?_⟩
        exact (ih (hs.set hexec)).mp (hall s' hexec)
      · rintro ⟨-, hall⟩
        exact ⟨hs.independent, fun s' hexec => (ih (hs.set hexec)).mpr (hall s' hexec)⟩
    | unset serial =>
      constructor
      · rintro ⟨-, hall⟩
        have hnone : NoneAbove s serial := by
          have hind : ∀ s', (WatchCall.unset serial).exec host x s = .ok s' → Independent s' := by
            intro s' hexec
            have := hall s' hexec
            cases cs with
            | nil => exact this
            | cons c cs => exact this.1
          exact hs.noneAbove_of_independent hind
        refine ⟨fun serial' heq => ?_, fun s' hexec => ?_⟩
        · cases heq
          exact hnone
        · exact (ih (hs.unset hnone hexec)).mp (hall s' hexec)
      · rintro ⟨hnone, hall⟩
        refine ⟨hs.independent, fun s' hexec => ?_⟩
        exact (ih (hs.unset (hnone serial rfl) hexec)).mpr (hall s' hexec)

/-- The nodes in the table are those of the watches that are set, at every point of a run, if
and only if no watch is unset while a later one shares a block with it. -/
theorem independent_throughout_iff (host : DiskHost) (x : Xadisk) (calls : List WatchCall) :
    Throughout host x Independent calls .init ↔ UnsetsTop host x calls .init :=
  stacked_init.throughout_iff calls

/-! ## One run -/

/-- An image whose root directory is the block 100, and that block has one unused record. -/
def rootHost : DiskHost where
  mmap _ _ := some fun d => if d = 4252 then 8 else if d = 4264 then 100 else 0
  read _ := fun d => if d = 5 then 0x10 else 0
  freshSlots _ := { op := 0, pathElem := fun _ => 0 }
  stackTail _ := 0

def rootDisk : Xadisk where
  sb := { blocksTotal := 128, blockSize := 4096, blocksPerGroup := 128, inodesPerGroup := 8,
          inodeSize := 128 }
  iTables _ := 1

/-- The root directory is watched under two paths and the first watch is unset: the node of
the second goes. -/
theorem rootHost_not_independent :
    ¬ Throughout rootHost rootDisk Independent [.set (cstr "/"), .set (cstr "//"), .unset 0] .init := by
  intro hall
  have hobjs : (runWatches rootHost rootDisk [.set (cstr "/"), .set (cstr "//")]
      .init).toOption.map (fun s => s.watches.map fun w => (w.serial, w.obj)) =
        some [(1, ⟨cstr "//", 2, [100]⟩), (0, ⟨cstr "/", 2, [100]⟩)] := by
    decide
  cases hrun : runWatches rootHost rootDisk [.set (cstr "/"), .set (cstr "//")] .init with
  | error e =>
    rw [hrun] at hobjs
    cases hobjs
  | ok s =>
    rw [hrun] at hobjs
    replace hobjs := Option.some.inj hobjs
    have hnone := unsetsTop_run ((stacked_init.throughout_iff _).mp hall) hrun
    obtain ⟨w, hw, hw'⟩ := List.mem_map.mp (hobjs ▸ List.mem_cons_of_mem _ List.mem_cons_self)
    obtain ⟨v, hv, hv'⟩ := List.mem_map.mp (hobjs ▸ List.mem_cons_self)
    obtain ⟨hserial, hobj⟩ := Prod.mk.inj hw'
    obtain ⟨hserial', hobj'⟩ := Prod.mk.inj hv'
    refine hnone w hw hserial v hv (by omega) 100 ?_ ?_
    · rw [hobj]
      decide
    · rw [hobj']
      decide

end XenAccess.Disk
