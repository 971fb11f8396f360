import XenAccess.Cache.Sound
import XenAccess.Model.Image

/-!
# The caches are transparent for virtual addresses

Every access through the caches follows the access without them (`refUserVa`), as long as
the caches are sound, and leaves them sound. The walk of the task list re-enters the
address cache, so the argument goes in the order of the calls: kernel addresses first, then
the walk by induction on its rounds, then the page directory of a process, then its
addresses. `runCalls_sound` is the induction over a sequence of calls.
-/

namespace XenAccess

open Prog

variable {h : Host} {p : XaParams} {fuel : Nat}

/-! ## One access -/

/-- The end of an access that was not answered from the cache. -/
theorem finishAccess_follows (hps : p.pageSize = 4096) {s : XaState} (hs : Sound h p fuel s)
    {v pid m : U32} (hm : refTranslate h p fuel pid v = .ok m) (prot : U32) :
    Follows (Sound h p fuel) s
      (if m = 0 then pure none
        else do
          xaUpdateCache h none v pid m
          let s ← get
          pure (xaAccessMa h s.toXaParams m prot))
      (.ok (accessTranslated h p m prot)) := by
  rw [accessTranslated]
  split
  · exact follows_pure none hs
  · obtain ⟨_, t, hupd, ht⟩ := xaUpdateCache_addr_sound hps hs (Or.inr hm)
    refine follows_of_ok (bind_of_ok hupd) ?_ ht
    show Except.ok _ = Except.ok (xaAccessMa h t.toXaParams m prot)
    rw [ht.params]

/-- The walk below a page directory as the source writes it, with `NULL` for none. -/
theorem lookupBelow_eq (h : Host) (p : XaParams) (pgd v : U32) :
    lookupBelow h p pgd v =
      match if pgd != 0 then some pgd else none with
      | some pgd => xaPagetableLookup h p pgd v
      | none => 0 := by
  rw [lookupBelow]
  split_ifs <;> rfl

/-- An access follows the one without caches when its lookup of the page directory does. -/
theorem accessVa_follows (hps : p.pageSize = 4096) {pidToPgd : XaM U32} {pid : U32}
    (hpgd : pid ≠ 0 → ∀ t, Sound h p fuel t →
      Follows (Sound h p fuel) t pidToPgd (refPidToPgd h p fuel pid))
    {s : XaState} (hs : Sound h p fuel s) (v prot : U32) :
    Follows (Sound h p fuel) s (accessVa h pidToPgd v pid prot)
      (refUserVa h p fuel v pid prot) := by
  obtain ⟨r, t, hcheck, ht, hr⟩ := xaCheckCacheVirt_sound hs v pid
  rw [Follows, accessVa, bind_of_ok hcheck]
  cases r with
  | some a =>
    -- answered from the cache
    obtain ⟨hne, htrans⟩ := hr a rfl
    refine ⟨?_, ht⟩
    rw [refUserVa, htrans, ← ht.params]
    show Except.ok (accessTranslated h t.toXaParams a prot) = _
    rw [accessTranslated, if_neg hne]
  | none =>
    show Follows (Sound h p fuel) t _ _
    by_cases hpid : pid = 0
    · subst hpid
      rw [Follows]
      simp only [if_true, pure_bind, get_bind]
      have htrans : refTranslate h p fuel 0 v = .ok (xaTranslateKv2p h p v) := rfl
      have hfin := finishAccess_follows hps ht htrans prot
      rw [← ht.params] at hfin
      rw [ht.params] at hfin ⊢
      exact hfin
    · have hx := hpgd hpid t ht
      cases hrun : pidToPgd t with
      | error e =>
        rw [Follows, hrun] at hx
        have hu : refUserVa h p fuel v pid prot = .error e := by
          rw [refUserVa, refTranslate, if_neg hpid, hx]
          rfl
        rw [hu, Follows]
        simp only [if_neg hpid, bind_of_error hrun]
      | ok r =>
        obtain ⟨pgd, t'⟩ := r
        obtain ⟨href, ht'⟩ := follows_ok hx hrun
        have htr : refTranslate h p fuel pid v = .ok (lookupBelow h p pgd v) := by
          rw [refTranslate, if_neg hpid, href]
          rfl
        have hu : refUserVa h p fuel v pid prot =
            .ok (accessTranslated h p (lookupBelow h p pgd v) prot) := by
          rw [refUserVa, htr]
          rfl
        have hlookup := lookupBelow_eq h t'.toXaParams pgd v
        rw [ht'.params] at hlookup
        have hfin := finishAccess_follows hps ht' htr prot
        rw [hu, Follows]
        rw [hlookup] at hfin ⊢
        simp only [if_neg hpid, bind_of_ok hrun, pure_bind, get_bind]
        rw [ht'.params]
        exact hfin

theorem xaAccessKernelVa_follows (hps : p.pageSize = 4096) {s : XaState}
    (hs : Sound h p fuel s) (v prot : U32) :
    Follows (Sound h p fuel) s (xaAccessKernelVa h v prot) (.ok (refKernelVa h p v prot)) :=
  accessVa_follows hps (fun hne => absurd rfl hne) hs v prot

/-! ## The walk of a task list -/

theorem taskLoop_follows (hps : p.pageSize = 4096) (pidOffset tasksOffset pid listHead : U32) :
    ∀ (n : Nat) (s : XaState) (nextProcess : U32), Sound h p fuel s →
      Follows (Sound h p fuel) s (taskLoop h pidOffset tasksOffset pid listHead n nextProcess)
        (refTaskLoop h p pidOffset tasksOffset pid listHead n nextProcess) := by
  intro n
  induction n with
  | zero =>
    intro s nextProcess _
    exact rfl
  | succ n ih =>
    intro s nextProcess hs
    obtain ⟨t, hacc, ht⟩ := follows_exists (xaAccessKernelVa_follows hps hs nextProcess protRead) rfl
    rw [Follows, taskLoop, bind_of_ok hacc, refTaskLoop]
    cases refKernelVa h p nextProcess protRead with
    | none => exact ⟨rfl, ht⟩
    | some a =>
      by_cases hhead : listHead = a.memory.u32 a.offset
      · simp only [if_pos hhead]
        exact ⟨rfl, ht⟩
      · by_cases hpid : a.memory.u32 (a.offset + pidOffset - tasksOffset) = pid
        · simp only [if_neg hhead, if_pos hpid]
          exact ⟨rfl, ht⟩
        · simp only [if_neg hhead, if_neg hpid]
          exact ih t _ ht

/-! ## Page directory of a process -/

theorem linuxPidToPgd_follows (hps : p.pageSize = 4096) (hos : p.osType = .linux) {s : XaState}
    (hs : Sound h p fuel s) (pid : U32) :
    Follows (Sound h p fuel) s (linuxPidToPgd h fuel pid) (refPidToPgd h p fuel pid) := by
  have hpar := hs.params
  have hloop := taskLoop_follows hps p.os.linuxPid p.os.linuxTasks pid p.initTask fuel s
    p.initTask hs
  have hstart : linuxGetTaskstruct h fuel pid s =
      taskLoop h p.os.linuxPid p.os.linuxTasks pid p.initTask fuel p.initTask s := by
    rw [linuxGetTaskstruct, get_bind, ← hpar]
  cases hrun : linuxGetTaskstruct h fuel pid s with
  | error e =>
    rw [Follows, ← hstart, hrun] at hloop
    rw [Follows, linuxPidToPgd, bind_of_error hrun, refPidToPgd, hos]
    simp only [hloop]
    rfl
  | ok r =>
    obtain ⟨task, t⟩ := r
    obtain ⟨href, ht⟩ := follows_ok hloop (hstart ▸ hrun)
    have hpgd : refPidToPgd h p fuel pid = .ok ((task.map (linuxTaskPgd h p)).getD 0) := by
      rw [refPidToPgd, hos]
      simp only [href]
      rfl
    rw [hpgd, Follows, linuxPidToPgd, bind_of_ok hrun]
    cases task with
    | none => exact ⟨rfl, ht⟩
    | some a =>
      simp only [get_bind, ht.params]
      obtain ⟨t', hread, ht'⟩ := follows_exists (xaAccessKernelVa_follows hps ht
        (a.memory.u32 (a.offset + p.os.linuxMm - p.os.linuxTasks) + p.os.linuxPgd) protRead) rfl
      simp only [bind_of_ok hread, get_bind, ht'.params]
      obtain ⟨_, t'', hupd, ht''⟩ := xaUpdatePidCache_sound ht' hpgd
      refine (show Follows (Sound h p fuel) t' (xaUpdatePidCache h pid _ >>= fun _ => pure _) _ from ?_)
      exact follows_of_ok (bind_of_ok hupd) rfl ht''

theorem windowsPidToPgd_follows (hps : p.pageSize = 4096) (hos : p.osType = .windows)
    {s : XaState} (hs : Sound h p fuel s) (pid : U32) :
    Follows (Sound h p fuel) s (windowsPidToPgd h fuel pid) (refPidToPgd h p fuel pid) := by
  have hpar := hs.params
  have hloop := taskLoop_follows hps p.os.winPid p.os.winTasks pid p.initTask fuel s
    p.initTask hs
  have hstart : windowsGetEPROCESS h fuel pid s =
      taskLoop h p.os.winPid p.os.winTasks pid p.initTask fuel p.initTask s := by
    rw [windowsGetEPROCESS, get_bind, ← hpar]
  cases hrun : windowsGetEPROCESS h fuel pid s with
  | error e =>
    rw [Follows, ← hstart, hrun] at hloop
    rw [Follows, windowsPidToPgd, bind_of_error hrun, refPidToPgd, hos]
    simp only [hloop]
    rfl
  | ok r =>
    obtain ⟨task, t⟩ := r
    obtain ⟨href, ht⟩ := follows_ok hloop (hstart ▸ hrun)
    have hpgd : refPidToPgd h p fuel pid = .ok ((task.map (windowsTaskPgd p)).getD 0) := by
      rw [refPidToPgd, hos]
      simp only [href]
      rfl
    rw [hpgd, Follows, windowsPidToPgd, bind_of_ok hrun]
    cases task with
    | none => exact ⟨rfl, ht⟩
    | some a =>
      simp only [get_bind, ht.params]
      obtain ⟨_, t'', hupd, ht''⟩ := xaUpdatePidCache_sound ht hpgd
      exact follows_of_ok (bind_of_ok hupd) rfl ht''

theorem xaPidToPgd_follows (hps : p.pageSize = 4096) {s : XaState} (hs : Sound h p fuel s)
    (pid : U32) :
    Follows (Sound h p fuel) s (xaPidToPgd h fuel pid) (refPidToPgd h p fuel pid) := by
  obtain ⟨r, t, hcheck, ht, hr⟩ := xaCheckPidCache_sound hs pid
  rw [Follows, xaPidToPgd, bind_of_ok hcheck]
  cases r with
  | some pgd =>
    rw [hr pgd rfl]
    exact ⟨rfl, ht⟩
  | none =>
    simp only [get_bind, ht.params]
    cases hos : p.osType with
    | linux => exact linuxPidToPgd_follows hps hos ht pid
    | windows => exact windowsPidToPgd_follows hps hos ht pid
    | unknown =>
      rw [refPidToPgd, hos]
      exact ⟨rfl, ht⟩

/-- **An access through the caches is the access without them.** -/
theorem xaAccessUserVa_follows (hps : p.pageSize = 4096) {s : XaState} (hs : Sound h p fuel s)
    (v pid prot : U32) :
    Follows (Sound h p fuel) s (xaAccessUserVa h fuel v pid prot)
      (refUserVa h p fuel v pid prot) :=
  accessVa_follows hps (fun _ _ ht => xaPidToPgd_follows hps ht pid) hs v prot

/-- `xa_access_user_va` maps an address at its translation. -/
theorem xaAccessUserVa_map (hps : p.pageSize = 4096) (hs : Sound h p fuel s) (u pid prot : U32) :
    (xaAccessUserVa h fuel u pid prot s).map Prod.fst =
      (refTranslate h p fuel pid u).map fun m => accessTranslated h p m prot := by
  have hfollows := xaAccessUserVa_follows hps hs u pid prot
  have href : refUserVa h p fuel u pid prot =
      (refTranslate h p fuel pid u).map fun m => accessTranslated h p m prot := by
    rw [refUserVa]
    cases refTranslate h p fuel pid u with
    | error e => rfl
    | ok m => rfl
  rw [← href]
  cases hacc : xaAccessUserVa h fuel u pid prot s with
  | error e =>
    rw [Follows, hacc] at hfollows
    exact hfollows.symm
  | ok r => exact (follows_ok hfollows hacc).1.symm

/-! ## Access by symbol -/

theorem linuxSystemMapSymbolToAddress_sound {s : XaState} (hs : Sound h p fuel s) (sym : CStr) :
    Returns (linuxSystemMapSymbolToAddress h sym) s fun _ s' => Sound h p fuel s' :=
  ⟨_, _, rfl, hs.params, hs.entries, hs.pids⟩

theorem linuxAccessKernelSymbol_sound (hps : p.pageSize = 4096) {s : XaState}
    (hs : Sound h p fuel s) (sym : CStr) (prot : U32) :
    Returns (linuxAccessKernelSymbol h sym prot) s fun _ s' => Sound h p fuel s' := by
  refine returns_bind (xaCheckCacheSym_sound hs sym 0) fun r t ht => ?_
  cases r with
  | some a => exact ⟨_, _, rfl, ht⟩
  | none =>
    refine returns_bind (linuxSystemMapSymbolToAddress_sound ht sym) fun r t ht => ?_
    cases r with
    | none => exact ⟨_, _, rfl, ht⟩
    | some v =>
      refine returns_bind (xaUpdateCache_sym_sound hps ht sym v 0) fun _ t ht => ?_
      obtain ⟨t', hacc, ht'⟩ := follows_exists (xaAccessKernelVa_follows hps ht v prot) rfl
      exact ⟨_, _, hacc, ht'⟩

theorem windowsAccessKernelSymbol_sound (hps : p.pageSize = 4096) {s : XaState}
    (hs : Sound h p fuel s) (sym : CStr) (prot : U32) :
    Returns (windowsAccessKernelSymbol h sym prot) s fun _ s' => Sound h p fuel s' := by
  refine returns_bind (xaCheckCacheSym_sound hs sym 0) fun r t ht => ?_
  cases r with
  | some a => exact ⟨_, _, rfl, ht⟩
  | none =>
    rw [Returns]
    simp only [get_bind]
    cases windowsSymbolToAddress h t.toXaParams sym with
    | none => exact ⟨_, _, rfl, ht⟩
    | some rva =>
      exact returns_bind (xaUpdateCache_sym_sound hps ht sym _ 0) fun _ t ht => ⟨_, _, rfl, ht⟩

theorem xaAccessKernelSym_sound (hps : p.pageSize = 4096) {s : XaState}
    (hs : Sound h p fuel s) (sym : CStr) (prot : U32) :
    Returns (xaAccessKernelSym h sym prot) s fun _ s' => Sound h p fuel s' := by
  rw [Returns, xaAccessKernelSym]
  simp only [get_bind]
  cases s.osType with
  | linux => exact linuxAccessKernelSymbol_sound hps hs sym prot
  | windows => exact windowsAccessKernelSymbol_sound hps hs sym prot
  | unknown => exact ⟨_, _, rfl, hs⟩

/-! ## Task lists that end -/

/-- The walk of a task list comes to an end within a number of rounds, whatever pid it
looks for. -/
def walkEnds (h : Host) (p : XaParams) (listHead : U32) : Nat → U32 → Bool
  | 0, _ => false
  | n + 1, nextProcess =>
    match refKernelVa h p nextProcess protRead with
    | none => true
    | some a => listHead == a.long || walkEnds h p listHead n a.long

theorem refTaskLoop_ok (pidOffset tasksOffset pid listHead : U32) (n : Nat) (nextProcess : U32)
    (hends : walkEnds h p listHead n nextProcess = true) :
    ∃ r, refTaskLoop h p pidOffset tasksOffset pid listHead n nextProcess = .ok r := by
  induction n generalizing nextProcess with
  | zero => cases hends
  | succ n ih =>
    rw [refTaskLoop]
    rw [walkEnds] at hends
    cases hacc : refKernelVa h p nextProcess protRead with
    | none => exact ⟨_, rfl⟩
    | some a =>
      simp only [hacc, Bool.or_eq_true, beq_iff_eq] at hends
      rcases hends with hhead | hrest
      · exact ⟨none, if_pos hhead⟩
      · simp only
        split_ifs
        · exact ⟨_, rfl⟩
        · exact ⟨_, rfl⟩
        · exact ih _ hrest

theorem refPidToPgd_ok (hends : walkEnds h p p.initTask fuel p.initTask = true) (pid : U32) :
    ∃ pgd, refPidToPgd h p fuel pid = .ok pgd := by
  rw [refPidToPgd]
  cases p.osType with
  | linux =>
    obtain ⟨r, hr⟩ := refTaskLoop_ok p.os.linuxPid p.os.linuxTasks pid _ _ _ hends
    simp only [hr]
    exact ⟨_, rfl⟩
  | windows =>
    obtain ⟨r, hr⟩ := refTaskLoop_ok p.os.winPid p.os.winTasks pid _ _ _ hends
    simp only [hr]
    exact ⟨_, rfl⟩
  | unknown => exact ⟨0, rfl⟩

/-- When the walk ends, the page directory of every pid is looked up in finitely many
rounds. -/
theorem xaPidToPgd_ok (s : XaState) (hps : s.pageSize = 4096)
    (hends : walkEnds h s.toXaParams s.initTask fuel s.initTask = true) (pid : U32) :
    ∃ r, xaPidToPgd h fuel pid s.clear = .ok r := by
  obtain ⟨pgd, hpgd⟩ := refPidToPgd_ok hends pid
  obtain ⟨t, hrun, -⟩ := follows_exists (xaPidToPgd_follows hps (sound_clear s) pid) hpgd
  exact ⟨_, hrun⟩

/-! ## Sequences of calls -/

/-- In a guest whose task lists end, the translation of every address is defined. -/
theorem refTranslate_ok (hterm : ∀ pid, ∃ pgd, refPidToPgd h p fuel pid = .ok pgd) (pid v : U32) :
    ∃ a, refTranslate h p fuel pid v = .ok a := by
  rw [refTranslate]
  split
  · exact ⟨_, rfl⟩
  · obtain ⟨pgd, hpgd⟩ := hterm pid
    exact ⟨lookupBelow h p pgd v, by rw [hpgd]; rfl⟩

theorem refUserVa_ok (hterm : ∀ pid, ∃ pgd, refPidToPgd h p fuel pid = .ok pgd)
    (v pid prot : U32) : ∃ r, refUserVa h p fuel v pid prot = .ok r := by
  obtain ⟨a, ha⟩ := refTranslate_ok hterm pid v
  exact ⟨accessTranslated h p a prot, by rw [refUserVa, ha]; rfl⟩

theorem call_sound (hps : p.pageSize = 4096)
    (hterm : ∀ pid, ∃ pgd, refPidToPgd h p fuel pid = .ok pgd) {s : XaState}
    (hs : Sound h p fuel s) (c : Call) :
    Returns (c.exec h fuel) s fun _ s' => Sound h p fuel s' := by
  cases c with
  | userVa v pid prot =>
    obtain ⟨r, hr⟩ := refUserVa_ok hterm v pid prot
    obtain ⟨t, hrun, ht⟩ := follows_exists (xaAccessUserVa_follows hps hs v pid prot) hr
    exact ⟨r, t, hrun, ht⟩
  | kernelVa v prot =>
    obtain ⟨t, hrun, ht⟩ := follows_exists (xaAccessKernelVa_follows hps hs v prot) rfl
    exact ⟨_, t, hrun, ht⟩
  | kernelSym sym prot => exact xaAccessKernelSym_sound hps hs sym prot

/-- Every call that returns keeps the caches sound. -/
theorem call_keeps (hps : p.pageSize = 4096) (c : Call) :
    Keeps (Sound h p fuel) (c.exec h fuel) := by
  intro s r s' hs hrun
  cases c with
  | userVa v pid prot => exact (follows_ok (xaAccessUserVa_follows hps hs v pid prot) hrun).2
  | kernelVa v prot => exact (follows_ok (xaAccessKernelVa_follows hps hs v prot) hrun).2
  | kernelSym sym prot =>
    obtain ⟨_, t, hrun', ht⟩ := xaAccessKernelSym_sound hps hs sym prot
    cases hrun.symm.trans hrun'
    exact ht

theorem runCalls_keeps (hps : p.pageSize = 4096) (calls : List Call) :
    Keeps (Sound h p fuel) (runCalls h fuel calls) := by
  induction calls with
  | nil => exact keeps_pure ()
  | cons c cs ih => exact keeps_bind (call_keeps hps c) fun _ => ih

theorem runCalls_sound (hps : p.pageSize = 4096)
    (hterm : ∀ pid, ∃ pgd, refPidToPgd h p fuel pid = .ok pgd) (calls : List Call) {s : XaState}
    (hs : Sound h p fuel s) :
    Returns (runCalls h fuel calls) s fun _ s' => Sound h p fuel s' := by
  induction calls generalizing s with
  | nil => exact returns_pure hs
  | cons c cs ih =>
    exact returns_bind (call_sound hps hterm hs c) fun _ t ht => ih ht

/-- The walks of a guest end when they do so with empty caches. -/
theorem refPidToPgd_ok_of_run (hps : p.pageSize = 4096) {s : XaState} (hs : Sound h p fuel s)
    {pid : U32} {r : U32 × XaState} (hrun : xaPidToPgd h fuel pid s = .ok r) :
    ∃ pgd, refPidToPgd h p fuel pid = .ok pgd :=
  ⟨r.1, (follows_ok (xaPidToPgd_follows hps hs pid) hrun).1⟩

/-- **Cache transparency for virtual addresses.** In a guest whose task lists end, after any
sequence of calls from empty caches, an access by virtual address returns what the same
access returns with both caches empty. -/
theorem xaAccessUserVa_cache_transparent (h : Host) (fuel : Nat) (s₀ : XaState)
    (hps : s₀.pageSize = 4096) (hterm : ∀ pid, ∃ r, xaPidToPgd h fuel pid s₀.clear = .ok r)
    (calls : List Call) (v pid prot : U32) :
    ∃ s, runCalls h fuel calls s₀.clear = .ok ((), s) ∧
      ∃ r s' s'', xaAccessUserVa h fuel v pid prot s = .ok (r, s') ∧
        xaAccessUserVa h fuel v pid prot s.clear = .ok (r, s'') := by
  have hclear : Sound h s₀.toXaParams fuel s₀.clear := sound_clear s₀
  have hterm' : ∀ pid, ∃ pgd, refPidToPgd h s₀.toXaParams fuel pid = .ok pgd := by
    intro pid
    obtain ⟨r, hr⟩ := hterm pid
    exact refPidToPgd_ok_of_run hps hclear hr
  obtain ⟨_, s, hrun, hs⟩ := runCalls_sound hps hterm' calls hclear
  have hs' : Sound h s₀.toXaParams fuel s.clear := by
    rw [← hs.params]
    exact sound_clear s
  obtain ⟨r, hr⟩ := refUserVa_ok hterm' v pid prot
  obtain ⟨t, h1, -⟩ := follows_exists (xaAccessUserVa_follows hps hs v pid prot) hr
  obtain ⟨t', h2, -⟩ := follows_exists (xaAccessUserVa_follows hps hs' v pid prot) hr
  exact ⟨s, hrun, r, t, t', h1, h2⟩

/-- A Linux guest with three tasks in its list, the second of which has pid 42 and a page
directory of its own. -/
def taskWords : Words :=
  [(0x1C00, 0x83), (0x2008, 0x00800083),
    (0x3010, 0xC0004010), (0x3018, 0),
    (0x4010, 0xC0005010), (0x4018, 42), (0x4020, 0xC0006000),
    (0x5010, 0xC0003010), (0x5018, 43),
    (0x6024, 0xC0002000)]

def taskState : XaState :=
  imageState .linux 0xC0000000 0xC0001000 0xC0003010 ⟨0x10, 0x20, 0x18, 0x24, 0, 0, 0⟩

theorem taskState_cache_transparent :
    ∃ s, runCalls (imageHost taskWords) 3
        [.kernelVa 0xC0812345 1, .userVa 0x00812345 42 1, .kernelSym (cstr "jiffies") 1,
          .userVa 0xC0812000 43 1] taskState.clear = .ok ((), s) ∧
      ∃ r s' s'', xaAccessUserVa (imageHost taskWords) 3 0x00812999 42 1 s = .ok (r, s') ∧
        xaAccessUserVa (imageHost taskWords) 3 0x00812999 42 1 s.clear = .ok (r, s'') :=
  xaAccessUserVa_cache_transparent (imageHost taskWords) 3 taskState rfl
    (xaPidToPgd_ok taskState rfl (by decide)) _ _ _ _

end XenAccess
