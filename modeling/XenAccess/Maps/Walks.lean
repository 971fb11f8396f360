import XenAccess.Cache.Transparency
import XenAccess.Maps.Tables

/-!
# Mappings of virtual addresses and process lists

A page of the task list is unmapped when the walk goes on, and handed to the caller when the
task is found. `linux_pid_to_pgd` unmaps it once; `windows_pid_to_pgd` does so twice.
-/

namespace XenAccess.Traced

open Audit Prog

variable {h : Host} {p : XaParams} {s : XaState}

/-! ## Lookups in the caches -/

/-- Whether a lookup by address finds an entry of the cache. -/
def virtCached (s : XaState) (virtAddress pid : U32) : Bool :=
  s.cache.entries.any (CacheEntry.hitsVirt (pageBase s.toXaParams virtAddress) pid)

/-- Whether a process is in the pid cache. -/
def pidCached (s : XaState) (pid : U32) : Bool := s.pidCache.entries.any fun e => e.pid == pid

theorem xaCheckCacheVirt_miss (h : Host) {v pid : U32} (hmiss : virtCached s v pid = false) :
    xaCheckCacheVirt h v pid s = .ok (none, s) := by
  have hnone : s.cache.update (CacheEntry.hitsVirt (pageBase s.toXaParams v) pid)
      ({ · with lastUsed := s.now h }) = none := Lru.update_eq_none_iff_any.mpr hmiss
  simp only [xaCheckCacheVirt, hnone]

theorem xaCheckCacheVirt_hit (h : Host) {v pid : U32} (hhit : virtCached s v pid = true) :
    ∃ m t, xaCheckCacheVirt h v pid s = .ok (some m, t) := by
  simp only [xaCheckCacheVirt]
  split
  · exact ⟨_, _, rfl⟩
  · rename_i hnone
    cases hhit.symm.trans (Lru.update_eq_none_iff_any.mp hnone)

theorem xaCheckPidCache_miss (h : Host) {pid : U32} (hmiss : pidCached s pid = false) :
    xaCheckPidCache h pid s = .ok (none, s) := by
  have hnone : s.pidCache.update (fun e => e.pid == pid) ({ · with lastUsed := s.now h }) = none :=
    Lru.update_eq_none_iff_any.mpr hmiss
  simp only [xaCheckPidCache, hnone]

theorem xaCheckPidCache_hit (h : Host) {pid : U32} (hhit : pidCached s pid = true) :
    ∃ pgd t, xaCheckPidCache h pid s = .ok (some pgd, t) := by
  simp only [xaCheckPidCache]
  split
  · exact ⟨_, _, rfl⟩
  · rename_i hnone
    cases hhit.symm.trans (Lru.update_eq_none_iff_any.mp hnone)

/-! ## Virtual addresses -/

theorem xaUpdateCache_tracks (hps : p.pageSize = 4096) (sym : Option CStr) (v pid m : U32) :
    Tracks (rules h p) s 0 (fun _ => 0) id .skip (xaUpdateCache h sym v pid m)
      (XenAccess.xaUpdateCache h sym v pid m) := by
  have hstore : Tracks (rules h p) s 0 (fun _ => 0) id .skip
      (lift (XenAccess.xaUpdateCache h sym v pid m)) (XenAccess.xaUpdateCache h sym v pid m) :=
    tracks_lift (xaUpdateCache_params sym v pid m)
  refine tracks_get_left fun hs => ?_
  split
  · have hs' : s.toXaParams = p := hs
    rw [hs']
    exact (xaTranslateKv2p_tracks hps v).skip_bind fun _ _ => hstore
  · exact hstore

theorem xaUpdateCache_ok (h : Host) (sym : Option CStr) (v pid m : U32) (s : XaState) :
    ∃ t, XenAccess.xaUpdateCache h sym v pid m s = .ok ((), t) := by
  simp only [XenAccess.xaUpdateCache]
  split
  · exact ⟨_, rfl⟩
  · split
    · exact ⟨_, rfl⟩
    · split
      · exact ⟨_, rfl⟩
      · exact ⟨_, rfl⟩

/-- The end of `accessVa` without a ledger. -/
def finishAccess (h : Host) (virtAddress pid prot address : U32) : XaM (Option Access) :=
  if address = 0 then return none
  else do
    XenAccess.xaUpdateCache h none virtAddress pid address
    let s ← get
    return XenAccess.xaAccessMa h s.toXaParams address prot

theorem finishVa_tracks (hps : p.pageSize = 4096) (v pid prot m : U32) :
    Tracks (rules h p) s 0 accessPieces (Option.map Mapped.access) .skip
      (finishVa h v pid prot m) (finishAccess h v pid prot m) := by
  rw [finishVa, finishAccess]
  split
  · exact tracks_pure rfl rfl
  · refine (xaUpdateCache_tracks hps none v pid m).then_skip fun _ t _ => ?_
    exact tracks_get_bind fun _ => xaAccessMa_tracks m prot

theorem lookupBelow_tracks (hps : p.pageSize = 4096) (pgd v : U32) :
    Tracks (rules h p) s 0 (fun _ => 0) id .skip (lookupBelow h p pgd v)
      (pure (XenAccess.lookupBelow h p pgd v)) := by
  rw [lookupBelow, XenAccess.lookupBelow]
  split
  · exact xaPagetableLookup_tracks hps pgd v
  · exact return_tracks 0

theorem accessVa_kernel {pidToPgd : XaM U32} {v prot : U32} (hmiss : virtCached s v 0 = false) :
    XenAccess.accessVa h pidToPgd v 0 prot s =
      finishAccess h v 0 prot (XenAccess.xaTranslateKv2p h s.toXaParams v) s := by
  rw [XenAccess.accessVa, bind_of_ok (xaCheckCacheVirt_miss h hmiss)]
  simp only [if_true, pure_bind, get_bind]
  rfl

theorem accessVa_user {pidToPgd : XaM U32} {v pid prot : U32}
    (hmiss : virtCached s v pid = false) (hpid : pid ≠ 0) :
    XenAccess.accessVa h pidToPgd v pid prot s = (do
      let pgd ← pidToPgd
      let s ← get
      finishAccess h v pid prot (XenAccess.lookupBelow h s.toXaParams pgd v)) s := by
  rw [XenAccess.accessVa, bind_of_ok (xaCheckCacheVirt_miss h hmiss)]
  simp only [if_neg hpid]
  cases hrun : pidToPgd s with
  | error e => rw [bind_of_error hrun, bind_of_error hrun]
  | ok r =>
    obtain ⟨pgd, t⟩ := r
    simp only [bind_of_ok hrun, pure_bind, get_bind]
    rw [lookupBelow_eq]
    rfl

/-- Whether an access looks up the page directory of a process. -/
def looksUp (s : XaState) (virtAddress pid : U32) : Prop :=
  virtCached s virtAddress pid = false ∧ pid ≠ 0

theorem accessVa_tracks (hps : p.pageSize = 4096) {pidToPgd : TraceM U32} {pidToPgd' : XaM U32}
    {u : Verdict} (hpgd : Tracks (rules h p) s 0 (fun _ => 0) id u pidToPgd pidToPgd')
    (v pid prot : U32) :
    Tracks (rules h p) s 0 accessPieces (Option.map Mapped.access) (.guard (looksUp s v pid) u)
      (accessVa h pidToPgd v pid prot) (XenAccess.accessVa h pidToPgd' v pid prot) := by
  have hlift : Tracks (rules h p) s 0 (fun _ => 0) id .skip (lift (xaCheckCacheVirt h v pid))
      (xaCheckCacheVirt h v pid) := tracks_lift (xaCheckCacheVirt_params v pid)
  by_cases hhit : virtCached s v pid = true
  · have hnot : ¬looksUp s v pid := by
      intro hl
      rw [hl.1] at hhit
      cases hhit
    rw [Verdict.guard_of_not hnot, ← Verdict.skip_seq .skip]
    obtain ⟨m, t, hm⟩ := xaCheckCacheVirt_hit h hhit
    refine hlift.bind_at hm fun r hr => ?_
    obtain rfl : r = some m := hr
    exact tracks_get_bind fun _ => xaAccessMa_tracks m prot
  · have hmiss : virtCached s v pid = false := by simpa using hhit
    have hchecked {w : Verdict} {y : XaM (Option Access)}
        (hy : XenAccess.accessVa h pidToPgd' v pid prot s = y s)
        (hrest : Tracks (rules h p) s 0 accessPieces (Option.map Mapped.access) w
          (if pid = 0 then do
            let s ← get
            let address ← xaTranslateKv2p h s.toXaParams v
            finishVa h v pid prot address
          else do
            let pgd ← pidToPgd
            let s ← get
            let address ← lookupBelow h s.toXaParams pgd v
            finishVa h v pid prot address) y) :
        Tracks (rules h p) s 0 accessPieces (Option.map Mapped.access) w
          (accessVa h pidToPgd v pid prot) (XenAccess.accessVa h pidToPgd' v pid prot) := by
      rw [← Verdict.skip_seq w]
      have hbind : (xaCheckCacheVirt h v pid >>= fun _ => y) s = y s :=
        bind_of_ok (xaCheckCacheVirt_miss h hmiss)
      refine (hlift.bind_at (g := fun _ => y) (xaCheckCacheVirt_miss h hmiss) fun r hr => ?_).of_eq
        fun _ => hy.trans hbind.symm
      obtain rfl : r = none := hr
      exact hrest
    by_cases hpid : pid = 0
    · rw [Verdict.guard_of_not fun hl => hl.2 hpid]
      subst hpid
      refine hchecked (accessVa_kernel hmiss) ?_
      rw [if_pos rfl]
      refine tracks_get_left fun hs => ?_
      have hs' : s.toXaParams = p := hs
      rw [hs']
      refine (xaTranslateKv2p_tracks hps v).skip_bind fun m hm => ?_
      rw [← hm]
      exact finishVa_tracks hps v 0 prot m
    · rw [Verdict.guard_of ⟨hmiss, hpid⟩]
      refine hchecked (accessVa_user hmiss hpid) ?_
      rw [if_neg hpid]
      refine hpgd.then_skip fun pgd t _ => ?_
      refine tracks_get_bind fun ht => ?_
      have ht' : t.toXaParams = p := ht
      rw [ht']
      refine (lookupBelow_tracks hps pgd v).skip_bind fun m hm => ?_
      obtain rfl : m = XenAccess.lookupBelow h p pgd v := hm
      exact finishVa_tracks hps v pid prot _

theorem xaAccessKernelVa_tracks (hps : p.pageSize = 4096) (v prot : U32) :
    Tracks (rules h p) s 0 accessPieces (Option.map Mapped.access) .skip
      (xaAccessKernelVa h v prot) (XenAccess.xaAccessKernelVa h v prot) := by
  refine (accessVa_tracks hps (return_tracks 0) v 0 prot).congr fun _ => ?_
  exact Verdict.guard_of_not (fun hl => hl.2 rfl) _

/-! ## Process lists -/

/-- The fields that are read of a task lie in its page: the link and, if it does not lead to
the head of the list, the pid; and `rest` of the next task, if this is not the one. -/
def TaskIn (pidOffset tasksOffset pid listHead : U32) (rest : U32 → Prop) (a : Access) : Prop :=
  InMapping a.offset 4 ∧ (listHead ≠ a.memory.u32 a.offset →
    InMapping (a.offset + pidOffset - tasksOffset) 4 ∧
      (a.memory.u32 (a.offset + pidOffset - tasksOffset) ≠ pid → rest (a.memory.u32 a.offset)))

/-- The fields that the walk of a task list reads lie in the pages of their tasks. -/
def TasksIn (h : Host) (pidOffset tasksOffset pid listHead : U32) :
    Nat → U32 → XaState → Prop
  | 0, _, _ => True
  | fuel + 1, nextProcess, s => After (XenAccess.xaAccessKernelVa h nextProcess protRead) s
      fun r s' => ∀ a, r = some a → TaskIn pidOffset tasksOffset pid listHead
        (fun next => TasksIn h pidOffset tasksOffset pid listHead fuel next s') a

theorem field_bind {R : Rules XaState (Option SavedTable)} {α β : Type} {w : Verdict}
    {held : Multiset Piece} {given : α → Multiset Piece} {π : α → β} {m : Mapped} {d : U32}
    {f : U32 → TraceM α} {y : XaM β}
    (hf : Tracks R s held given π w (f (m.access.memory.u32 d)) y) :
    Tracks R s held given π (w.load (InMapping d 4)) (m.field d >>= f) y := by
  have hfield : Tracks R s held (fun _ => held) id ⟨True, InMapping d 4, False⟩ (m.field d)
      (pure (m.access.memory.u32 d)) :=
    (loadPage_tracks held d 4).bind_skip fun _ _ => tracks_pure rfl rfl
  refine hfield.load_bind fun a ha => ?_
  obtain rfl : a = m.access.memory.u32 d := ha
  exact hf

theorem tracks_throw {R : Rules XaState (Option SavedTable)} {α β : Type}
    {given : α → Multiset Piece} {π : α → β} (e : Fault) :
    Tracks R s 0 given π .skip (throw e : TraceM α) (throw e) := by
  intro L _ _ _ _
  exact ⟨0, 0, 0, .skip R _, rfl, .of_live rfl rfl rfl⟩

theorem taskLoop_tracks (hps : p.pageSize = 4096) (pidOffset tasksOffset pid listHead : U32)
    (fuel : Nat) :
    ∀ (nextProcess : U32) (s : XaState), Tracks (rules h p) s 0 accessPieces
      (Option.map Mapped.access)
      ⟨True, TasksIn h pidOffset tasksOffset pid listHead fuel nextProcess s, False⟩
      (taskLoop h pidOffset tasksOffset pid listHead fuel nextProcess)
      (XenAccess.taskLoop h pidOffset tasksOffset pid listHead fuel nextProcess) := by
  induction fuel with
  | zero =>
    intro nextProcess s
    exact tracks_throw .outOfFuel
  | succ fuel ih =>
    intro nextProcess s
    refine ((xaAccessKernelVa_tracks hps nextProcess protRead).bind (W := fun r s' =>
      ⟨True, ∀ a, r = some a → TaskIn pidOffset tasksOffset pid listHead
        (fun next => TasksIn h pidOffset tasksOffset pid listHead fuel next s') a, False⟩)
      fun r t hr => ?_).congr fun _ => ?_
    · cases r with
      | none =>
        exact (tracks_pure rfl rfl).congr fun _ => Verdict.eq_of_iff .rfl (by simp [Verdict.skip]) .rfl
      | some m =>
        by_cases hhead : listHead = m.access.memory.u32 m.access.offset
        · refine (field_bind (w := .skip) ?_).congr fun _ =>
            Verdict.eq_of_iff .rfl (by simp [Verdict.load, Verdict.skip, TaskIn, hhead]) .rfl
          simp only [Option.map_some, if_pos hhead]
          exact (munmap_page_tracks m.id).skip_bind fun _ _ => tracks_pure rfl rfl
        · by_cases hfound :
              m.access.memory.u32 (m.access.offset + pidOffset - tasksOffset) = pid
          · refine (field_bind (w := .load (InMapping (m.access.offset + pidOffset - tasksOffset) 4)
              .skip) ?_).congr fun _ =>
                Verdict.eq_of_iff .rfl (by simp [Verdict.load, Verdict.skip, TaskIn, hhead, hfound]) .rfl
            simp only [Option.map_some, if_neg hhead]
            refine field_bind ?_
            simp only [if_pos hfound]
            exact tracks_pure rfl rfl
          · refine (field_bind (w := .load (InMapping (m.access.offset + pidOffset - tasksOffset) 4)
              ⟨True, TasksIn h pidOffset tasksOffset pid listHead fuel
                (m.access.memory.u32 m.access.offset) t, False⟩) ?_).congr fun _ =>
                  Verdict.eq_of_iff .rfl (by simp [Verdict.load, TaskIn, hhead, hfound]) .rfl
            simp only [Option.map_some, if_neg hhead]
            refine field_bind ?_
            simp only [if_neg hfound]
            exact (munmap_page_tracks m.id).skip_bind fun _ _ => ih _ t
    · rw [Verdict.bind_range]
      exact Verdict.eq_of_iff .rfl (by simp [Verdict.skip, TasksIn]) .rfl

/-- The pages of `linux_get_taskstruct` hold what it reads. -/
def LinuxTasksIn (h : Host) (fuel : Nat) (pid : U32) (s : XaState) : Prop :=
  TasksIn h s.os.linuxPid s.os.linuxTasks pid s.initTask fuel s.initTask s

/-- The pages of `windows_get_EPROCESS` hold what it reads. -/
def WindowsTasksIn (h : Host) (fuel : Nat) (pid : U32) (s : XaState) : Prop :=
  TasksIn h s.os.winPid s.os.winTasks pid s.initTask fuel s.initTask s

theorem linuxGetTaskstruct_tracks (hps : p.pageSize = 4096) (fuel : Nat) (pid : U32) :
    Tracks (rules h p) s 0 accessPieces (Option.map Mapped.access)
      ⟨True, LinuxTasksIn h fuel pid s, False⟩ (linuxGetTaskstruct h fuel pid)
      (XenAccess.linuxGetTaskstruct h fuel pid) :=
  tracks_get_bind fun _ => taskLoop_tracks hps _ _ pid _ fuel _ s

theorem windowsGetEPROCESS_tracks (hps : p.pageSize = 4096) (fuel : Nat) (pid : U32) :
    Tracks (rules h p) s 0 accessPieces (Option.map Mapped.access)
      ⟨True, WindowsTasksIn h fuel pid s, False⟩ (windowsGetEPROCESS h fuel pid)
      (XenAccess.windowsGetEPROCESS h fuel pid) :=
  tracks_get_bind fun _ => taskLoop_tracks hps _ _ pid _ fuel _ s

/-! ## Page directories -/

/-- The pages of `linux_pid_to_pgd` hold what it reads. -/
def LinuxPgdIn (h : Host) (fuel : Nat) (pid : U32) (s : XaState) : Prop :=
  LinuxTasksIn h fuel pid s ∧ After (XenAccess.linuxGetTaskstruct h fuel pid) s fun r t =>
    ∀ a, r = some a → InMapping (a.offset + t.os.linuxMm - t.os.linuxTasks) 4 ∧
      After (XenAccess.xaAccessKernelVa h
        (a.memory.u32 (a.offset + t.os.linuxMm - t.os.linuxTasks) + t.os.linuxPgd) protRead) t
          fun b _ => ValueIn 4 b

theorem linuxPidToPgd_tracks (hps : p.pageSize = 4096) (fuel : Nat) (pid : U32) :
    Tracks (rules h p) s 0 (fun _ => 0) id ⟨True, LinuxPgdIn h fuel pid s, False⟩
      (linuxPidToPgd h fuel pid) (XenAccess.linuxPidToPgd h fuel pid) := by
  refine ((linuxGetTaskstruct_tracks hps fuel pid).bind (W := fun r t => ⟨True,
    ∀ a, r = some a → InMapping (a.offset + t.os.linuxMm - t.os.linuxTasks) 4 ∧
      After (XenAccess.xaAccessKernelVa h
        (a.memory.u32 (a.offset + t.os.linuxMm - t.os.linuxTasks) + t.os.linuxPgd) protRead) t
          fun b _ => ValueIn 4 b, False⟩) fun r t hr => ?_).congr fun _ => ?_
  · cases r with
    | none =>
      exact (return_tracks 0).congr fun _ => Verdict.eq_of_iff .rfl (by simp [Verdict.skip]) .rfl
    | some m =>
      refine tracks_get_bind fun ht => ?_
      refine (field_bind (w := ⟨True, After (XenAccess.xaAccessKernelVa h
          (m.access.memory.u32 (m.access.offset + t.os.linuxMm - t.os.linuxTasks) + t.os.linuxPgd)
            protRead) t fun b _ => ValueIn 4 b, False⟩) ?_).congr fun _ =>
          Verdict.eq_of_iff .rfl (by simp [Verdict.load]) .rfl
      refine (munmap_page_tracks m.id).skip_bind fun _ _ => ?_
      refine ((xaAccessKernelVa_tracks hps _ protRead).bind
        (W := fun b _ => ⟨True, ValueIn 4 b, False⟩) fun b u hb => ?_).congr fun _ =>
          Verdict.bind_range.trans (Verdict.eq_of_iff .rfl (by simp [Verdict.skip]) .rfl)
      refine (readValue_tracks 4 Access.long b).bind_skip fun pgd hpgd => ?_
      refine tracks_get_bind fun hu => ?_
      have hu' : u.toXaParams = p := hu
      rw [hu']
      refine (xaTranslateKv2p_tracks hps _).skip_bind fun m' hm' => ?_
      rw [← hpgd, id, ← hm']
      have hlift : Tracks (rules h p) u 0 (fun _ => 0) id .skip (lift (xaUpdatePidCache h pid m'))
          (xaUpdatePidCache h pid m') := tracks_lift (xaUpdatePidCache_params pid m')
      exact hlift.then_skip fun _ _ _ => return_tracks m'
  · exact Verdict.bind_range

/-- The page of a process that `windows_pid_to_pgd` finds holds its page directory. -/
def WindowsPgdIn (h : Host) (fuel : Nat) (pid : U32) (s : XaState) : Prop :=
  WindowsTasksIn h fuel pid s ∧ After (XenAccess.windowsGetEPROCESS h fuel pid) s fun r t =>
    ∀ a, r = some a → InMapping (a.offset + t.os.winPdbase - t.os.winTasks) 4

/-- `windows_get_EPROCESS` returns without a process. -/
def NoProcess (h : Host) (fuel : Nat) (pid : U32) (s : XaState) : Prop :=
  After (XenAccess.windowsGetEPROCESS h fuel pid) s fun r _ => r = none

theorem xaUpdatePidCache_ok (h : Host) (pid pgd : U32) (s : XaState) :
    ∃ r, xaUpdatePidCache h pid pgd s = .ok r := by
  simp only [xaUpdatePidCache]
  split
  · exact ⟨_, rfl⟩
  · split
    · exact ⟨_, rfl⟩
    · exact ⟨_, rfl⟩

theorem windowsPidToPgd_tracks (hps : p.pageSize = 4096) (fuel : Nat) (pid : U32) :
    Tracks (rules h p) s 0 (fun _ => 0) id
      ⟨NoProcess h fuel pid s, WindowsPgdIn h fuel pid s, False⟩
      (windowsPidToPgd h fuel pid) (XenAccess.windowsPidToPgd h fuel pid) := by
  refine ((windowsGetEPROCESS_tracks hps fuel pid).bind (W := fun r t => ⟨r = none,
    ∀ a, r = some a → InMapping (a.offset + t.os.winPdbase - t.os.winTasks) 4, False⟩)
      fun r t hr => ?_).congr fun _ => ?_
  · cases r with
    | none =>
      exact (return_tracks 0).congr fun _ => Verdict.eq_of_iff (by simp [Verdict.skip])
        (by simp [Verdict.skip]) .rfl
    | some m =>
      refine tracks_get_bind fun ht => ?_
      refine (field_bind (w := ⟨False, True, False⟩) ?_).congr fun _ =>
        Verdict.eq_of_iff (by simp [Verdict.load]) (by simp [Verdict.load]) .rfl
      exact tracks_release_twice (xaUpdatePidCache_params pid _) (xaUpdatePidCache_ok h pid _ t) m.id
        fun _ => m.access.memory.u32 (m.access.offset + t.os.winPdbase - t.os.winTasks)
  · rw [Verdict.bind_unused]
    exact Verdict.eq_of_iff (by simp [NoProcess]) .rfl .rfl

/-- What `xa_pid_to_pgd` does when the cache does not have the process. -/
def pidVerdict (h : Host) (fuel : Nat) (pid : U32) (s : XaState) : Verdict where
  clean := s.osType = .windows → NoProcess h fuel pid s
  inRange := (s.osType = .linux → LinuxPgdIn h fuel pid s) ∧
    (s.osType = .windows → WindowsPgdIn h fuel pid s)
  uses := False

theorem xaPidToPgd_tracks (hps : p.pageSize = 4096) (fuel : Nat) (pid : U32) :
    Tracks (rules h p) s 0 (fun _ => 0) id
      (.guard (pidCached s pid = false) (pidVerdict h fuel pid s))
      (xaPidToPgd h fuel pid) (XenAccess.xaPidToPgd h fuel pid) := by
  have hlift : Tracks (rules h p) s 0 (fun _ => 0) id .skip (lift (xaCheckPidCache h pid))
      (xaCheckPidCache h pid) := tracks_lift (xaCheckPidCache_params pid)
  by_cases hhit : pidCached s pid = true
  · rw [Verdict.guard_of_not (by simp [hhit]), ← Verdict.skip_seq .skip]
    obtain ⟨pgd, t, hpgd⟩ := xaCheckPidCache_hit h hhit
    refine hlift.bind_at hpgd fun r hr => ?_
    obtain rfl : r = some pgd := hr
    exact return_tracks pgd
  · have hmiss : pidCached s pid = false := by simpa using hhit
    rw [Verdict.guard_of hmiss, ← Verdict.skip_seq (pidVerdict h fuel pid s)]
    refine hlift.bind_at (xaCheckPidCache_miss h hmiss) fun r hr => ?_
    obtain rfl : r = none := hr
    refine tracks_get_bind fun _ => ?_
    cases hos : s.osType with
    | linux =>
      exact (linuxPidToPgd_tracks hps fuel pid).congr fun _ =>
        Verdict.eq_of_iff (by simp [pidVerdict, hos]) (by simp [pidVerdict, hos]) .rfl
    | windows =>
      exact (windowsPidToPgd_tracks hps fuel pid).congr fun _ =>
        Verdict.eq_of_iff (by simp [pidVerdict, hos]) (by simp [pidVerdict, hos]) .rfl
    | unknown =>
      exact (return_tracks 0).congr fun _ => Verdict.eq_of_iff
        (by simp [Verdict.skip, pidVerdict, hos]) (by simp [Verdict.skip, pidVerdict, hos]) .rfl

/-- An access by the address of a process unmaps what it maps: unless the page directory of
a Windows process has to be looked up, and the process is found. -/
def UserClean (h : Host) (fuel : Nat) (vaddr pid : U32) (s : XaState) : Prop :=
  looksUp s vaddr pid → pidCached s pid = false → s.osType = .windows → NoProcess h fuel pid s

/-- The pages of an access by the address of a process hold what it reads on its way. -/
def UserIn (h : Host) (fuel : Nat) (vaddr pid : U32) (s : XaState) : Prop :=
  looksUp s vaddr pid → pidCached s pid = false →
    (s.osType = .linux → LinuxPgdIn h fuel pid s) ∧
      (s.osType = .windows → WindowsPgdIn h fuel pid s)

theorem xaAccessUserVa_tracks (hps : p.pageSize = 4096) (fuel : Nat) (v pid prot : U32) :
    Tracks (rules h p) s 0 accessPieces (Option.map Mapped.access)
      ⟨UserClean h fuel v pid s, UserIn h fuel v pid s, False⟩
      (xaAccessUserVa h fuel v pid prot) (XenAccess.xaAccessUserVa h fuel v pid prot) :=
  (accessVa_tracks hps (xaPidToPgd_tracks hps fuel pid) v pid prot).congr fun _ =>
    Verdict.eq_of_iff .rfl .rfl (by simp [Verdict.guard, pidVerdict])

end XenAccess.Traced
