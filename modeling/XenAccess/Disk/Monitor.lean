import XenAccess.Disk.Coverage
import XenAccess.Disk.Replay
import XenAccess.Disk.Watches

/-!
# The log of the monitor

The monitor never reads the disk after a watch is set: it knows of the directories only what comes
through the FIFO. `UpToDate` is the invariant that its tables have the names of the watched blocks
as they are on the disk. Every write of the guest keeps it (`UpToDate.step`), whichever block it
goes to, so what the log says about a path replays to the directory that is on the disk in the end
(`monitorLog_replays`).
-/

namespace XenAccess.Disk

variable {host : DiskHost} {x : Xadisk} {watched : U32 → Option CStr} {disk : Mem} {ht : HashTable}
  {w : GuestWrite} {block : U32} {c c' : DirContent}

/-! ## Contents of the disk -/

/-- The content of a block of the disk. -/
def diskBlock (disk : Mem) (block : Nat) : Block := fun i => disk (blockBytes * block + i.val)

/-- The disk after the writes. -/
def diskAfterAll (disk : Mem) (writes : List GuestWrite) : Mem :=
  writes.foldl (fun disk w => diskAfter w disk) disk

/-- A write leaves the blocks that it does not reach. -/
theorem diskBlock_after {block : Nat} (hno : ¬Overlaps w.sector w.nbSectors block) :
    diskBlock (diskAfter w disk) block = diskBlock disk block := by
  funext i
  have hi : i.val < 4096 := i.isLt
  rw [diskBlock, diskAfter, if_neg]
  · rfl
  · rintro ⟨hfrom, hto⟩
    apply hno
    simp only [sectorBytes, blockBytes] at hfrom hto
    exact ⟨by omega, by omega⟩

theorem blockMem_apply (data : Block) (i : Fin blockBytes) : blockMem data i = data i := by
  rw [blockMem, dif_pos i.isLt]

/-- A content is determined by its block. -/
theorem DirContent.entries_congr (hblock : c.block = c'.block) : c.entries = c'.entries := by
  have hparse := c.parse (blockMem_apply c.block)
  rw [c'.parse fun i => (blockMem_apply c.block i).trans (congrFun hblock i)] at hparse
  exact (Except.ok.inj hparse).symm

theorem DirContent.mapping_congr (hblock : c.block = c'.block) : c.mapping = c'.mapping := by
  rw [mapping, mapping, entries_congr hblock]

/-! ## The invariant -/

/-- The watched blocks of a table, with the paths of their watches. -/
def watchedPaths (ht : HashTable) : U32 → Option CStr := fun block =>
  (checkHash block ht).map BlockNode.path

/-- The table watches the given blocks, and knows their names on the disk. -/
structure UpToDate (watched : U32 → Option CStr) (disk : Mem) (ht : HashTable) : Prop where
  watched : watchedPaths ht = watched
  snapshot : ∀ block b, checkHash block ht = some b → ∀ c : DirContent,
    c.block = diskBlock disk block.toNat → Snapshot b.dir c

/-- A write that starts with the watched block that it reaches, and leaves a directory there that
has no name with another kind than before. -/
structure TidyWrite (watched : U32 → Option CStr) (disk : Mem) (w : GuestWrite) : Prop where
  some : 1 ≤ w.nbSectors.toNat
  whole : ∀ block, (watched block).isSome → Overlaps w.sector w.nbSectors block.toNat →
    w.sector.toNat = 8 * block.toNat ∧ 8 ≤ w.nbSectors.toNat
  narrow : (watched w.op.block).isSome → w.sector.toNat / 8 < 2 ^ 32
  content : ∀ block, (watched block).isSome → Overlaps w.sector w.nbSectors block.toNat →
    ∃ c c' : DirContent, c.block = diskBlock disk block.toNat ∧
      c'.block = diskBlock (diskAfter w disk) block.toNat ∧ c.diffs c' ≤ opMax ∧ c.SameKinds c'

/-- Each of the writes is one when its turn comes. -/
def TidyWrites (watched : U32 → Option CStr) : Mem → List GuestWrite → Prop
  | _, [] => True
  | disk, w :: writes => TidyWrite watched disk w ∧ TidyWrites watched (diskAfter w disk) writes

/-- The block that the monitor looks up is reached by the write. -/
theorem TidyWrite.overlaps (hw : TidyWrite watched disk w) (hsome : (watched w.op.block).isSome) :
    Overlaps w.sector w.nbSectors w.op.block.toNat := by
  have hpos := hw.some
  have hblock : w.op.block.toNat = w.sector.toNat / 8 :=
    (toNat_block w.sector).trans (Nat.mod_eq_of_lt (hw.narrow hsome))
  rw [hblock]
  exact ⟨by omega, by omega⟩

/-- No other watched block is. -/
theorem TidyWrite.unique (hw : TidyWrite watched disk w) (hsome : (watched block).isSome)
    (hover : Overlaps w.sector w.nbSectors block.toNat) : w.op.block = block := by
  have hlt := narrow_of_overlaps hover
  obtain ⟨hstart, -⟩ := hw.whole block hsome hover
  apply BitVec.eq_of_toNat_eq
  refine (toNat_block w.sector).trans ?_
  omega

theorem isSome_watched {b : BlockNode} (hf : UpToDate watched disk ht)
    (hb : checkHash block ht = some b) : watched block = some b.path := by
  rw [← hf.watched, watchedPaths, hb]
  rfl

/-! ## One write -/

theorem checkList_setDirList_ne {k : U32} {dir : List DirEntry} {l : List BlockNode}
    (hne : k ≠ block) : checkList k (setDirList block dir l) = checkList k l := by
  induction l with
  | nil => rfl
  | cons q l ih =>
    rw [setDirList]
    split
    · rw [checkList, checkList, ih]
    · split
      · rename_i heq
        have hq : ¬q.block = k := fun h => hne (h.symm.trans heq)
        simp only [checkList, if_neg hq]
      · rfl

/-- A new table for one block is found for no other. -/
theorem checkHash_setDir_ne {k : U32} {dir : List DirEntry} (hne : k ≠ block) :
    checkHash k (setDirHash block dir ht) = checkHash k ht := by
  rw [checkHash, checkHash, setDirHash]
  by_cases hbucket : hashBlock k = hashBlock block
  · rw [hbucket, HashTable.set_self]
    simp only [checkList_setDirList_ne hne]
  · rw [HashTable.set_ne _ hbucket]

/-- What a round of the monitor does to the table: the table of the block is replaced, if at all,
and all lines carry its path. -/
theorem coreStep_cases {op : BlockOp} {b : BlockNode} (hb : checkHash op.block ht = some b)
    {events : List DiskEvent} {ht' : HashTable} (hstep : coreStep host op ht = .ok (events, ht')) :
    (∀ e ∈ events, e.path = b.path) ∧ (ht' = ht ∨ ∃ dir, ht' = setDirHash op.block dir ht) := by
  rw [coreStep, hb] at hstep
  simp only [bind, Except.bind, pure, Except.pure] at hstep
  split at hstep
  · cases hstep
  · split at hstep
    · cases hstep
    · split at hstep
      · cases hstep
        refine ⟨?_, Or.inr ⟨_, rfl⟩⟩
        intro e he
        obtain ⟨d, -, rfl⟩ := List.mem_map.mp he
        rfl
      · cases hstep
        exact ⟨by simp, Or.inl rfl⟩

/-- The paths stay, and the nodes of other blocks do. -/
theorem checkHash_coreStep {op : BlockOp} {b : BlockNode} (hb : checkHash op.block ht = some b)
    {events : List DiskEvent} {ht' : HashTable} (hstep : coreStep host op ht = .ok (events, ht')) :
    watchedPaths ht' = watchedPaths ht ∧
      ∀ k, k ≠ op.block → checkHash k ht' = checkHash k ht := by
  obtain ⟨-, rfl | ⟨dir, rfl⟩⟩ := coreStep_cases hb hstep
  · exact ⟨rfl, fun _ _ => rfl⟩
  · refine ⟨?_, fun k hk => checkHash_setDir_ne hk⟩
    funext k
    rw [watchedPaths, watchedPaths]
    by_cases hk : k = op.block
    · rw [hk, checkHash_setDir hb, hb]
      rfl
    · rw [checkHash_setDir_ne hk]

/-- A write that reaches no watched block. -/
theorem UpToDate.unseen (hf : UpToDate watched disk ht) (hw : TidyWrite watched disk w)
    (hnone : checkHash w.op.block ht = none) : UpToDate watched (diskAfter w disk) ht := by
  refine ⟨hf.watched, ?_⟩
  intro block b hb c hc
  apply hf.snapshot block b hb c
  rw [hc]
  apply diskBlock_after
  intro hover
  have hsome : (watched block).isSome := by rw [isSome_watched hf hb]; rfl
  rw [hw.unique hsome hover, hb] at hnone
  cases hnone

/-- **One write.** The round of the monitor for a write keeps the invariant. The lines carry the
path of the block that is looked up, and replay to its new content. -/
theorem UpToDate.step (host : DiskHost) (hf : UpToDate watched disk ht)
    (hw : TidyWrite watched disk w) :
    ∃ events ht', coreStep host w.op ht = .ok (events, ht') ∧
      UpToDate watched (diskAfter w disk) ht' ∧
      (∀ e ∈ events, watched w.op.block = some e.path) ∧
      ((watched w.op.block).isSome → ∀ c c' : DirContent,
        c.block = diskBlock disk w.op.block.toNat →
        c'.block = diskBlock (diskAfter w disk) w.op.block.toNat →
        replay events c.mapping = c'.mapping) := by
  cases hb : checkHash w.op.block ht with
  | none =>
    refine ⟨[], ht, coreStep_of_none hb, hf.unseen hw hb, by simp, ?_⟩
    intro hsome
    rw [← hf.watched, watchedPaths, hb] at hsome
    cases hsome
  | some b =>
    have hpath := isSome_watched hf hb
    have hsome : (watched w.op.block).isSome := by rw [hpath]; rfl
    have hover := hw.overlaps hsome
    obtain ⟨hstart, hlen⟩ := hw.whole _ hsome hover
    obtain ⟨c, c', hc, hc', hdiffs, hkinds⟩ := hw.content _ hsome hover
    have hdata : w.op.data = c'.block := (data_eq_contentAfter hstart hlen).trans hc'.symm
    obtain ⟨events, ht', hstep, ⟨b', hb', hs'⟩, hreplay⟩ :=
      Watching.step host ⟨b, hb, hf.snapshot _ b hb c hc⟩ hdata hdiffs
    obtain ⟨hpaths, hother⟩ := checkHash_coreStep hb hstep
    refine ⟨events, ht', hstep, ⟨hpaths.trans hf.watched, ?_⟩, ?_, ?_⟩
    · intro block q hq d hd
      by_cases hblock : block = w.op.block
      · subst hblock
        cases hb'.symm.trans hq
        have hsame := DirContent.mapping_congr (hd.trans hc'.symm)
        exact ⟨hs'.table, fun n => by rw [hs'.names n, hsame]⟩
      · rw [hother block hblock] at hq
        apply hf.snapshot block q hq d
        rw [hd]
        apply diskBlock_after
        intro hover'
        have hsome' : (watched block).isSome := by rw [isSome_watched hf hq]; rfl
        exact hblock (hw.unique hsome' hover').symm
    · intro e he
      rw [hpath, (coreStep_cases hb hstep).1 e he]
    · intro _ d d' hd hd'
      rw [DirContent.mapping_congr (hd.trans hc.symm),
        DirContent.mapping_congr (hd'.trans hc'.symm), hreplay]
      exact patch_self_iff.mpr hkinds

/-! ## Runs -/

/-- **Every run.** A run over tidy writes keeps the invariant. What its lines say about the path of
a watched block, which no other watched block has, replays to the content of the block. -/
theorem UpToDate.run {writes : List GuestWrite} (host : DiskHost) (hf : UpToDate watched disk ht)
    (hw : TidyWrites watched disk writes) :
    ∃ events ht', coreRun host (writes.map GuestWrite.op) ht = .ok (events, ht') ∧
      UpToDate watched (diskAfterAll disk writes) ht' ∧
      ∀ block path, watched block = some path →
        (∀ block', watched block' = some path → block' = block) →
        ∀ c c' : DirContent, c.block = diskBlock disk block.toNat →
          c'.block = diskBlock (diskAfterAll disk writes) block.toNat →
          replay (events.filter fun e => e.path = path) c.mapping = c'.mapping := by
  induction writes generalizing disk ht with
  | nil =>
    refine ⟨[], ht, rfl, hf, ?_⟩
    intro block path _ _ c c' hc hc'
    exact DirContent.mapping_congr (hc.trans hc'.symm)
  | cons w writes ih =>
    obtain ⟨hfirst, hrest⟩ := hw
    obtain ⟨events, ht', hstep, hf', hpaths, hreplay⟩ := hf.step host hfirst
    obtain ⟨events', ht'', hrun, hf'', hreplay'⟩ := ih hf' hrest
    refine ⟨events ++ events', ht'', ?_, hf'', ?_⟩
    · rw [List.map_cons, coreRun, hstep]
      simp only [bind, Except.bind, hrun]
      rfl
    · intro block path hpath hunique c c' hc hc'
      rw [List.filter_append, replay_append]
      by_cases hblock : w.op.block = block
      · subst hblock
        have hsome : (watched w.op.block).isSome := by rw [hpath]; rfl
        obtain ⟨-, d, -, hd, -⟩ := hfirst.content _ hsome (hfirst.overlaps hsome)
        have hall : events.filter (fun e => e.path = path) = events := by
          apply List.filter_eq_self.mpr
          intro e he
          rw [decide_eq_true_eq]
          exact Option.some.inj ((hpaths e he).symm.trans hpath)
        rw [hall, hreplay hsome c d hc hd]
        exact hreplay' _ path hpath hunique d c' hd hc'
      · have hnone : events.filter (fun e => e.path = path) = [] := by
          apply List.filter_eq_nil_iff.mpr
          intro e he heq
          rw [decide_eq_true_eq] at heq
          exact hblock (hunique _ (heq ▸ hpaths e he))
        have hkept : c.block = diskBlock (diskAfter w disk) block.toNat := by
          rw [hc]
          refine (diskBlock_after fun hover => ?_).symm
          have hsome : (watched block).isSome := by rw [hpath]; rfl
          exact hblock (hfirst.unique hsome hover)
        rw [hnone]
        exact hreplay' _ path hpath hunique c c' hkept hc'

/-! ## Watches -/

/-- Every node was made by `xadisk_set_watch` from the image. -/
def AllMade (host : DiskHost) (ht : HashTable) : Prop :=
  ∀ i, ∀ b ∈ (ht i).list, watchNode host b.id b.path b.inode b.block = .ok b

theorem watchNode_self {id : Nat} {path : CStr} {inode block : U32} {b : BlockNode}
    (hb : watchNode host id path inode block = .ok b) :
    b.block = block ∧ watchNode host b.id b.path b.inode b.block = .ok b := by
  rw [watchNode] at hb
  cases hparse : parseBlockDir (host.read (block.setWidth 64 * 4096)) blockBytes with
  | error e =>
    rw [hparse] at hb
    cases hb
  | ok dir =>
    rw [hparse] at hb
    cases hb
    refine ⟨rfl, ?_⟩
    rw [watchNode, hparse]
    rfl

theorem AllMade.set (hmade : AllMade host ht) (i : Nat) {e : HashEntry}
    (he : ∀ b ∈ e.list, watchNode host b.id b.path b.inode b.block = .ok b) :
    AllMade host (ht.set i e) := by
  intro j b hb
  by_cases hj : j = i
  · subst hj
    rw [HashTable.set_self] at hb
    exact he b hb
  · rw [HashTable.set_ne _ hj] at hb
    exact hmade j b hb

theorem AllMade.insertBlocks {path : CStr} {inode : U32} {blocks : List U32} {d d' : DiskState}
    {nodes : List BlockNode} (hmade : AllMade host d.ht)
    (hrun : insertBlocks host path inode blocks d = .ok (nodes, d')) : AllMade host d'.ht := by
  induction blocks generalizing d nodes with
  | nil =>
    cases hrun
    exact hmade
  | cons block blocks ih =>
    rw [Disk.insertBlocks] at hrun
    cases hnode : watchNode host d.mallocs path inode block with
    | error e =>
      rw [hnode] at hrun
      cases hrun
    | ok b =>
      rw [hnode] at hrun
      simp only [bind, Except.bind] at hrun
      split at hrun
      · cases hrun
      · rename_i r hr
        cases hrun
        refine ih (hmade.set _ fun q hq => ?_) hr
        rcases mem_insertList.mp hq with rfl | hq
        · exact (watchNode_self hnode).2
        · exact hmade _ q hq

theorem AllMade.removeBlocks (hmade : AllMade host ht) (blocks : List U32) :
    AllMade host (removeBlocks blocks ht) := by
  induction blocks generalizing ht with
  | nil => exact hmade
  | cons block blocks ih =>
    refine ih (hmade.set _ fun q hq => ?_)
    exact hmade _ q (removeList_sublist.subset hq)

theorem AllMade.exec {s s' : WatchState} (hmade : AllMade host s.disk.ht) (call : WatchCall)
    (hexec : call.exec host x s = .ok s') : AllMade host s'.disk.ht := by
  cases call with
  | set path =>
    rw [WatchCall.exec, xadiskSetWatch] at hexec
    simp only [bind, Except.bind, pure, Except.pure] at hexec
    cases hdir : ext2Dir host x path with
    | error e =>
      rw [hdir] at hexec
      cases hexec
    | ok r =>
      rw [hdir] at hexec
      cases r with
      | none =>
        cases hexec
        exact hmade
      | some r =>
        obtain ⟨blocks, inode⟩ := r
        simp only at hexec
        cases hins : Disk.insertBlocks host path inode blocks s.disk with
        | error e =>
          rw [hins] at hexec
          cases hexec
        | ok r =>
          rw [hins] at hexec
          cases hexec
          exact hmade.insertBlocks hins
  | unset serial =>
    rw [WatchCall.exec] at hexec
    split at hexec
    · cases hexec
    · cases hexec
      exact hmade.removeBlocks _

theorem AllMade.run {calls : List WatchCall} {s s' : WatchState} (hmade : AllMade host s.disk.ht)
    (hrun : runWatches host x calls s = .ok s') : AllMade host s'.disk.ht := by
  induction calls generalizing s with
  | nil =>
    cases hrun
    exact hmade
  | cons call calls ih =>
    rw [runWatches] at hrun
    cases hexec : call.exec host x s with
    | error e =>
      rw [hexec] at hrun
      cases hrun
    | ok t =>
      rw [hexec] at hrun
      exact ih (hmade.exec call hexec) hrun

theorem checkHash_mem {b : BlockNode} (hb : checkHash block ht = some b) :
    b ∈ (ht (hashBlock block)).list ∧ b.block = block := by
  rw [checkHash] at hb
  split at hb
  · cases hb
  · generalize (ht (hashBlock block)).list = l at hb
    induction l with
    | nil => cases hb
    | cons q l ih =>
      rw [checkList] at hb
      split at hb
      · obtain ⟨hmem, hblock⟩ := ih hb
        exact ⟨List.mem_cons_of_mem q hmem, hblock⟩
      · split at hb
        · rename_i heq
          cases hb
          exact ⟨List.mem_cons_self, heq⟩
        · cases hb

/-- The image that the watches were set on is the disk. -/
def ReadsDisk (host : DiskHost) (disk : Mem) : Prop :=
  ∀ (block : U32) (i : Fin blockBytes),
    host.read (block.setWidth 64 * 4096) i = disk (blockBytes * block.toNat + i.val)

/-- After the watches are set, the table follows the disk. -/
theorem follows_of_made (hmade : AllMade host ht) (himage : ReadsDisk host disk) :
    UpToDate (watchedPaths ht) disk ht := by
  refine ⟨rfl, ?_⟩
  intro block b hb c hc
  obtain ⟨hmem, rfl⟩ := checkHash_mem hb
  have hnode := hmade _ b hmem
  have hread (i : Fin blockBytes) : host.read (b.block.setWidth 64 * 4096) i = c.block i := by
    rw [himage, hc]
    rfl
  rw [watchNode, c.parse hread] at hnode
  have hdir : b.dir = sortDir c.entries := (congrArg BlockNode.dir (Except.ok.inj hnode)).symm
  rw [hdir]
  exact c.snapshot

/-- **The log of the monitor replays to the disk.** Let any watches be set and unset on a disk, and
let the guest then write to it in any order, where every write that reaches a watched block starts
with it and leaves a directory in it. When the FIFO delivers the records one by one, the monitor
runs through, and what it logs about a path replays to the directory that is on the disk in the
end, if the path stands for one watched block. -/
theorem monitorLog_replays (host : DiskHost) (x : Xadisk) (calls : List WatchCall) (s : WatchState)
    (hcalls : runWatches host x calls .init = .ok s) (disk : Mem) (himage : ReadsDisk host disk)
    (writes : List GuestWrite) (hw : TidyWrites (watchedPaths s.disk.ht) disk writes)
    (reads : List (List U8)) (hreads : Delivers writes reads)
    (hwhole : ∀ r ∈ reads, r.length = bufSize) (buf : Mem) :
    ∃ events ht', coreRun host (obtained buf reads) s.disk.ht = .ok (events, ht') ∧
      ∀ block path, watchedPaths s.disk.ht block = some path →
        (∀ block', watchedPaths s.disk.ht block' = some path → block' = block) →
        ∀ c c' : DirContent, c.block = diskBlock disk block.toNat →
          c'.block = diskBlock (diskAfterAll disk writes) block.toNat →
          replay (events.filter fun e => e.path = path) c.mapping = c'.mapping := by
  have hinit : AllMade host WatchState.init.disk.ht := fun _ b hb => by cases hb
  have hf := follows_of_made (hinit.run hcalls) himage
  obtain ⟨events, ht', hrun, -, hreplay⟩ := hf.run host hw
  rw [obtained_of_whole hreads hwhole buf]
  exact ⟨events, ht', hrun, hreplay⟩

/-! ### A file that is renamed -/

/-- An image with a root directory, in which every block holds the file `a`. -/
def renameHost : DiskHost := { rootHost with read := fun _ => blockMem (entryBlock .file 97) }

def renameDisk : Mem := fun pos => blockMem (entryBlock .file 97) (pos % 4096)

def renameNode : BlockNode where
  id := 0
  block := 100
  inode := 2
  type := 2
  path := cstr "/"
  dir := [⟨12, 1, cstr "a"⟩]

theorem renameHost_watch : ∃ s, runWatches renameHost rootDisk [.set (cstr "/")] .init = .ok s ∧
    s.disk.ht = insertHash renameNode initHash := ⟨_, rfl, rfl⟩

/-- The file gets another name. -/
def renameWrite : GuestWrite where
  sector := 800
  nbSectors := 8
  buf := blockMem (entryBlock .file 98)
  stack _ := 0

theorem renameNode_watched (hsome : (watchedPaths (insertHash renameNode initHash) block).isSome) :
    block = 100 := by
  obtain ⟨b, hb⟩ := Option.isSome_iff_exists.mp (Option.isSome_map.symm.trans hsome)
  obtain ⟨hmem, rfl⟩ := checkHash_mem hb
  by_cases hbucket : hashBlock b.block = hashBlock renameNode.block
  · rw [hbucket, insertHash, HashTable.set_self] at hmem
    obtain rfl : b = renameNode := List.mem_singleton.mp hmem
    rfl
  · rw [insertHash, HashTable.set_ne _ hbucket] at hmem
    cases hmem

theorem renameWrite_tidy :
    TidyWrites (watchedPaths (insertHash renameNode initHash)) renameDisk [renameWrite] := by
  refine ⟨⟨by decide, ?_, fun _ => by decide, ?_⟩, trivial⟩
  · intro block hsome _
    rw [renameNode_watched hsome]
    decide
  · intro block hsome _
    rw [renameNode_watched hsome]
    refine ⟨oneEntry .file, renamedEntry, ?_, ?_, by decide, fun n hn hn' => ?_⟩
    · funext i
      have hi : i.val < 4096 := i.isLt
      have hpos : (4096 * 100 + i.val) % 4096 = i.val := by omega
      show entryBlock .file 97 i = blockMem (entryBlock .file 97) ((4096 * 100 + i.val) % 4096)
      rw [hpos, blockMem_apply]
    · refine Eq.trans ?_ (@data_eq_contentAfter renameWrite renameDisk 100 rfl (by decide))
      funext i
      exact (blockMem_apply (entryBlock .file 98) i).symm
    · exact absurd hn' (not_both_named .file hn)

theorem renameHost_readsDisk : ReadsDisk renameHost renameDisk := by
  intro block i
  have hi : i.val < 4096 := i.isLt
  have hpos : (4096 * block.toNat + i.val) % 4096 = i.val := by omega
  show blockMem (entryBlock .file 97) i.val = blockMem (entryBlock .file 97) ((4096 * block.toNat + i.val) % 4096)
  rw [hpos]

theorem renamed_replays : ∃ s, runWatches renameHost rootDisk [.set (cstr "/")] .init = .ok s ∧
    ∃ events ht', coreRun renameHost (obtained (fun _ => 0) [renameWrite.bytes]) s.disk.ht =
        .ok (events, ht') ∧
      ∀ block path, watchedPaths s.disk.ht block = some path →
        (∀ block', watchedPaths s.disk.ht block' = some path → block' = block) →
        ∀ c c' : DirContent, c.block = diskBlock renameDisk block.toNat →
          c'.block = diskBlock (diskAfterAll renameDisk [renameWrite]) block.toNat →
          replay (events.filter fun e => e.path = path) c.mapping = c'.mapping := by
  obtain ⟨s, hs, hht⟩ := renameHost_watch
  have hlen := renameWrite.bytes_length
  refine ⟨s, hs, monitorLog_replays renameHost rootDisk [.set (cstr "/")] s hs renameDisk
    renameHost_readsDisk [renameWrite] (hht ▸ renameWrite_tidy) [renameWrite.bytes] ⟨?_, ?_, rfl⟩ ?_ _⟩
  · intro r hr
    rw [List.mem_singleton.mp hr, hlen]
    decide
  · intro r hr
    rw [List.mem_singleton.mp hr, hlen]
  · intro r hr
    rw [List.mem_singleton.mp hr, hlen]

end XenAccess.Disk
