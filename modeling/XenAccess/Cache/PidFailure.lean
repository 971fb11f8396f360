import XenAccess.Cache.PidMap
import XenAccess.Cache.Transparency
import XenAccess.Cache.Untouched

/-!
# Failed lookups of a page directory

`xa_pid_to_pgd` returns `0` when it finds no page directory. Where the process is not found,
the lookup stops and the pid cache stays as it is. Where the process is found and only its page
directory is not, the `0` is stored for the pid, and the pid cache answers with it from then
on.
-/

namespace XenAccess

open BoundedMap Prog

variable {h : Host} {fuel : Nat} {pid : U32} {s t : XaState}

/-! ## Statement -/

/-- The lookup of `xa_pid_to_pgd` in the guest, which is made when the pid cache does not
answer. -/
def lookupPgd (h : Host) (fuel : Nat) (pid : U32) (osType : OsType) : XaM U32 :=
  match osType with
  | .linux => linuxPidToPgd h fuel pid
  | .windows => windowsPidToPgd h fuel pid
  | .unknown => pure 0

/-- A lookup that fails leaves nothing in the pid cache: it is missed there, and the next
lookup is made in the guest, whatever it looks like by then. -/
def NotRemembered (h : Host) (fuel : Nat) (pid : U32) (s : XaState) : Prop :=
  ∀ t, xaPidToPgd h fuel pid s = .ok (0, t) → ∀ h' fuel',
    xaCheckPidCache h' pid t = .ok (none, t) ∧
      xaPidToPgd h' fuel' pid t = lookupPgd h' fuel' pid t.osType t

/-- A task is found whose page directory cannot be read or is not translated. -/
def LinuxTaskWithoutPgd (h : Host) (fuel : Nat) (pid : U32) (s : XaState) : Prop :=
  ∃ a t, linuxGetTaskstruct h fuel pid s = .ok (some a, t) ∧
    ∃ r u, xaAccessKernelVa h (a.memory.u32 (a.offset + s.os.linuxMm - s.os.linuxTasks) +
        s.os.linuxPgd) protRead t = .ok (r, u) ∧
      xaTranslateKv2p h s.toXaParams ((r.map Access.long).getD 0) = 0

/-- A process is found whose page directory is `0`. -/
def WindowsProcessWithoutPgd (h : Host) (fuel : Nat) (pid : U32) (s : XaState) : Prop :=
  ∃ a t, windowsGetEPROCESS h fuel pid s = .ok (some a, t) ∧
    a.memory.u32 (a.offset + s.os.winPdbase - s.os.winTasks) = 0

/-- The process is found and its page directory is not. -/
def FoundWithoutPgd (h : Host) (fuel : Nat) (pid : U32) (s : XaState) : Prop :=
  match s.osType with
  | .linux => LinuxTaskWithoutPgd h fuel pid s
  | .windows => WindowsProcessWithoutPgd h fuel pid s
  | .unknown => False

/-! ## The pid cache in a lookup -/

theorem xaCheckPidCache_miss (h : Host) (hpid : pid ∉ keys (pidPairs s)) :
    xaCheckPidCache h pid s = .ok (none, s) := by
  rcases xaCheckPidCache_cases h pid s with ⟨pgd, t, -, hmem, -⟩ | ⟨hmiss, -⟩
  · exact absurd (mem_keys.mpr ⟨pgd, hmem⟩) hpid
  · exact hmiss

theorem xaPidToPgd_miss (h : Host) (fuel : Nat) (hpid : pid ∉ keys (pidPairs s)) :
    xaPidToPgd h fuel pid s = lookupPgd h fuel pid s.osType s := by
  rw [xaPidToPgd, bind_of_ok (xaCheckPidCache_miss h hpid)]
  show (match s.osType with
    | .linux => linuxPidToPgd h fuel pid
    | .windows => windowsPidToPgd h fuel pid
    | .unknown => pure 0 : XaM U32) s = _
  cases s.osType <;> rfl

theorem notRemembered_iff : NotRemembered h fuel pid s ↔
    ∀ t, xaPidToPgd h fuel pid s = .ok (0, t) → pid ∉ keys (pidPairs t) := by
  refine forall_congr' fun t => imp_congr_right fun _ => ?_
  constructor
  · intro hmiss
    rcases xaCheckPidCache_cases h pid t with ⟨pgd, u, hhit, -, -⟩ | ⟨-, hpid⟩
    · cases hhit.symm.trans (hmiss h fuel).1
    · exact hpid
  · exact fun hpid h' fuel' => ⟨xaCheckPidCache_miss h' hpid, xaPidToPgd_miss h' fuel' hpid⟩

/-- What a lookup in the guest does not change before it stores its result. -/
def SamePids (s t : XaState) : Prop := t.toXaParams = s.toXaParams ∧ pidPairs t = pidPairs s

theorem samePids_offCache : OffCache (SamePids s) := fun _ _ hs => hs

theorem linuxGetTaskstruct_keeps : Keeps (SamePids s) (linuxGetTaskstruct h fuel pid) :=
  keeps_bind keeps_get fun _ => taskLoop_keeps samePids_offCache _ _ _ _ _ _

theorem windowsGetEPROCESS_keeps : Keeps (SamePids s) (windowsGetEPROCESS h fuel pid) :=
  keeps_bind keeps_get fun _ => taskLoop_keeps samePids_offCache _ _ _ _ _ _

/-- Storing a page directory and returning it. -/
theorem storePgd_iff (hpid : pid ≠ 0) (pgd : U32) :
    (∀ t, (do xaUpdatePidCache h pid pgd; return pgd : XaM U32) s = .ok (0, t) →
        pid ∉ keys (pidPairs t)) ↔ pgd ≠ 0 := by
  obtain ⟨t, hupd, hput⟩ := xaUpdatePidCache_put h s hpid pgd
  have hrun : (do xaUpdatePidCache h pid pgd; return pgd : XaM U32) s = .ok (pgd, t) :=
    bind_of_ok hupd
  rw [hrun]
  constructor
  · rintro hmiss rfl
    exact hmiss t rfl (mem_keys.mpr ⟨0, hput.self⟩)
  · intro hne u hu
    exact absurd (Prod.mk.inj (Except.ok.inj hu)).1 hne

theorem linuxPidToPgd_forgets_iff (hpid : pid ≠ 0) (hnew : pid ∉ keys (pidPairs s)) :
    (∀ t, linuxPidToPgd h fuel pid s = .ok (0, t) → pid ∉ keys (pidPairs t)) ↔
      ¬LinuxTaskWithoutPgd h fuel pid s := by
  rw [linuxPidToPgd, LinuxTaskWithoutPgd]
  cases htask : linuxGetTaskstruct h fuel pid s with
  | error e =>
    rw [bind_of_error htask]
    refine iff_of_true (fun t ht => ?_) ?_
    · cases ht
    · rintro ⟨a, t, ht, -⟩
      cases ht
  | ok r =>
    obtain ⟨task, t⟩ := r
    obtain ⟨hparams, hpairs⟩ := linuxGetTaskstruct_keeps s task t ⟨rfl, rfl⟩ htask
    rw [bind_of_ok htask]
    cases task with
    | none =>
      refine iff_of_true (fun u hu => ?_) ?_
      · cases hu
        rwa [hpairs]
      · rintro ⟨a, u, hu, -⟩
        cases hu
    | some a =>
      simp only [get_bind, hparams]
      let ptr := a.memory.u32 (a.offset + s.os.linuxMm - s.os.linuxTasks)
      cases hread : xaAccessKernelVa h (ptr + s.os.linuxPgd) protRead t with
      | error e =>
        rw [bind_of_error hread]
        refine iff_of_true (fun u hu => ?_) ?_
        · cases hu
        · rintro ⟨b, t', ht', r, u, hu, -⟩
          cases ht'
          cases hread.symm.trans hu
      | ok r =>
        obtain ⟨r, u⟩ := r
        obtain ⟨hparams', -⟩ := xaAccessKernelVa_keeps samePids_offCache _ _ t r u
          ⟨rfl, rfl⟩ hread
        rw [bind_of_ok hread, get_bind]
        rw [hparams', hparams, storePgd_iff hpid]
        refine not_congr ⟨fun hzero => ⟨a, t, rfl, r, u, hread, hzero⟩, ?_⟩
        rintro ⟨b, t', ht', r', u', hu', hzero⟩
        cases ht'
        cases hread.symm.trans hu'
        exact hzero

theorem windowsPidToPgd_forgets_iff (hpid : pid ≠ 0) (hnew : pid ∉ keys (pidPairs s)) :
    (∀ t, windowsPidToPgd h fuel pid s = .ok (0, t) → pid ∉ keys (pidPairs t)) ↔
      ¬WindowsProcessWithoutPgd h fuel pid s := by
  rw [windowsPidToPgd, WindowsProcessWithoutPgd]
  cases hprocess : windowsGetEPROCESS h fuel pid s with
  | error e =>
    rw [bind_of_error hprocess]
    refine iff_of_true (fun t ht => ?_) ?_
    · cases ht
    · rintro ⟨a, t, ht, -⟩
      cases ht
  | ok r =>
    obtain ⟨process, t⟩ := r
    obtain ⟨hparams, hpairs⟩ := windowsGetEPROCESS_keeps s process t ⟨rfl, rfl⟩ hprocess
    rw [bind_of_ok hprocess]
    cases process with
    | none =>
      refine iff_of_true (fun u hu => ?_) ?_
      · cases hu
        rwa [hpairs]
      · rintro ⟨a, u, hu, -⟩
        cases hu
    | some a =>
      simp only [get_bind, hparams]
      rw [storePgd_iff hpid]
      refine not_congr ⟨fun hzero => ⟨a, t, rfl, hzero⟩, ?_⟩
      rintro ⟨b, t', ht', hzero⟩
      cases ht'
      exact hzero

/-- One lookup. -/
theorem notRemembered_of_new_iff (hpid : pid ≠ 0) (hnew : pid ∉ keys (pidPairs s)) :
    NotRemembered h fuel pid s ↔ ¬FoundWithoutPgd h fuel pid s := by
  rw [notRemembered_iff, xaPidToPgd_miss h fuel hnew]
  unfold lookupPgd FoundWithoutPgd
  cases s.osType with
  | linux => exact linuxPidToPgd_forgets_iff hpid hnew
  | windows => exact windowsPidToPgd_forgets_iff hpid hnew
  | unknown =>
    refine iff_of_true (fun t ht => ?_) not_false
    cases ht
    exact hnew

/-! ## Runs -/

/-- A call of the library. -/
inductive GuestCall where
  | access (c : Call)
  | pidToPgd (pid : U32)

def GuestCall.exec (h : Host) (fuel : Nat) : GuestCall → XaM Unit
  | .access c => do
    let _ ← c.exec h fuel
  | .pidToPgd pid => do
    let _ ← xaPidToPgd h fuel pid

/-- In a run over a guest that may change between the calls, no failed lookup of a new pid is
remembered. -/
def NeverRemembered (fuel : Nat) : List (Host × GuestCall) → XaState → Prop
  | [], _ => True
  | (h, c) :: cs, s =>
    (∀ pid, c = .pidToPgd pid → pid ≠ 0 → pid ∉ keys (pidPairs s) →
        NotRemembered h fuel pid s) ∧
      ∀ t, c.exec h fuel s = .ok ((), t) → NeverRemembered fuel cs t

/-- In such a run, no lookup of a new pid finds the process and not its page directory. -/
def PgdWithProcess (fuel : Nat) : List (Host × GuestCall) → XaState → Prop
  | [], _ => True
  | (h, c) :: cs, s =>
    (∀ pid, c = .pidToPgd pid → pid ≠ 0 → pid ∉ keys (pidPairs s) →
        ¬FoundWithoutPgd h fuel pid s) ∧
      ∀ t, c.exec h fuel s = .ok ((), t) → PgdWithProcess fuel cs t

/-- **When a failed lookup of a page directory is not remembered.** In every run from every
state, over a guest that may change between the calls, exactly if no lookup finds the process
without its page directory. -/
theorem neverRemembered_iff (fuel : Nat) (calls : List (Host × GuestCall)) (s : XaState) :
    NeverRemembered fuel calls s ↔ PgdWithProcess fuel calls s := by
  induction calls generalizing s with
  | nil => exact Iff.rfl
  | cons c calls ih =>
    obtain ⟨h, c⟩ := c
    refine and_congr ?_ (forall_congr' fun t => imp_congr_right fun _ => ih t)
    exact forall_congr' fun pid => imp_congr_right fun _ => imp_congr_right fun hpid =>
      imp_congr_right fun hnew => notRemembered_of_new_iff hpid hnew

/-- The guest of `taskWords` before the task with pid 42 has a page directory. -/
def earlyWords : Words := taskWords.filter fun w => w.1 != 0x6024

/-- A lookup that fails is stored, and the next one fails too, when the task has got its page
directory. -/
theorem earlyWords_remembered :
    (Returns (xaPidToPgd (imageHost earlyWords) 3 42) taskState.clear fun pgd t => pgd = 0 ∧
        (Returns (xaCheckPidCache (imageHost taskWords) 42) t fun r _ => r = some 0) ∧
        Returns (xaPidToPgd (imageHost taskWords) 3 42) t fun pgd _ => pgd = 0) ∧
      (Returns (xaPidToPgd (imageHost taskWords) 3 42) taskState.clear fun pgd _ => pgd ≠ 0) ∧
      ¬NeverRemembered 3 [(imageHost earlyWords, .pidToPgd 42)] taskState.clear := by
  have hearly : Returns (xaPidToPgd (imageHost earlyWords) 3 42) taskState.clear fun pgd t =>
      pgd = 0 ∧ (Returns (xaCheckPidCache (imageHost taskWords) 42) t fun r _ => r = some 0) ∧
        Returns (xaPidToPgd (imageHost taskWords) 3 42) t fun pgd _ => pgd = 0 := by decide
  refine ⟨hearly, by decide, fun hnever => ?_⟩
  obtain ⟨pgd, t, hrun, rfl, ⟨r, u, hhit, rfl⟩, -⟩ := hearly
  have hmiss := hnever.1 42 rfl (by decide) (by simp [keys, pidPairs, XaState.clear, Lru.empty]) t
    hrun (imageHost taskWords) 3
  cases hhit.symm.trans hmiss.1

end XenAccess
