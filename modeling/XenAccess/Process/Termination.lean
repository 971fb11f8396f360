import XenAccess.Cache.Transparency
import XenAccess.Lib.Orbit

/-!
# Walks of a process list that end

The loops of `linux_get_taskstruct` and `windows_get_EPROCESS` follow links that the guest
controls. `taskNext` is one round of such a loop as a partial successor: there is none when
the node cannot be mapped, has the pid, or is the last one before `init_task`. Addresses
have 32 bits, so the loop ends unless it comes to some node twice.
-/

namespace XenAccess

open Orbit Prog

variable {h : Host} {p : XaParams} {fuel : Nat}

/-! ## One round -/

/-- The node that a round goes on to. -/
def taskNext (h : Host) (p : XaParams) (pidOffset tasksOffset pid listHead node : U32) :
    Option U32 :=
  match refKernelVa h p node protRead with
  | none => none
  | some a =>
    let nextProcess := a.memory.u32 a.offset
    if listHead = nextProcess then none
    else if a.memory.u32 (a.offset + pidOffset - tasksOffset) = pid then none
    else some nextProcess

theorem refTaskLoop_goesAlong (pidOffset tasksOffset pid listHead : U32) :
    GoesAlong (taskNext h p pidOffset tasksOffset pid listHead) id
      (refTaskLoop h p pidOffset tasksOffset pid listHead) where
  late node r hr := by cases hr
  stop node hend := by
    unfold taskNext at hend
    simp only [refTaskLoop]
    cases ha : refKernelVa h p node protRead with
    | none => exact ⟨none, fun _ => rfl⟩
    | some a =>
      simp only [id_eq, ha] at hend
      split at hend
      · rename_i hhead
        exact ⟨none, fun _ => if_pos hhead⟩
      · split at hend
        · rename_i hhead hpid
          exact ⟨some a, fun _ => (if_neg hhead).trans (if_pos hpid)⟩
        · cases hend
  step n node x hnext := by
    unfold taskNext at hnext
    rw [refTaskLoop]
    cases ha : refKernelVa h p node protRead with
    | none => simp [ha] at hnext
    | some a =>
      simp only [id_eq, ha] at hnext
      split at hnext
      · cases hnext
      · split at hnext
        · cases hnext
        · rename_i hhead hpid
          rw [← Option.some.inj hnext]
          exact ⟨_, rfl, (if_neg hhead).trans (if_neg hpid)⟩

theorem taskLoop_ok_iff (hps : p.pageSize = 4096) {s : XaState} (hs : Sound h p fuel s)
    (pidOffset tasksOffset pid listHead : U32) (n : Nat) (node : U32) :
    (∃ r, taskLoop h pidOffset tasksOffset pid listHead n node s = .ok r) ↔
      nth (taskNext h p pidOffset tasksOffset pid listHead) node n = none := by
  have hfollows := taskLoop_follows hps pidOffset tasksOffset pid listHead n s node hs
  refine Iff.trans ?_ ((refTaskLoop_goesAlong pidOffset tasksOffset pid listHead).ends_iff n node)
  constructor
  · rintro ⟨⟨r, t⟩, hrun⟩
    exact ⟨r, (follows_ok hfollows hrun).1⟩
  · rintro ⟨r, hr⟩
    obtain ⟨t, hrun, -⟩ := follows_exists hfollows hr
    exact ⟨(r, t), hrun⟩

/-! ## Walks -/

/-- The loop comes to some node of the list twice. -/
def ListRepeats (h : Host) (p : XaParams) (pidOffset tasksOffset pid : U32) : Prop :=
  Repeats (taskNext h p pidOffset tasksOffset pid p.initTask) p.initTask

theorem finite_U32 : Finite U32 :=
  Finite.of_injective (fun a : U32 => a.toFin) fun _ _ => BitVec.eq_of_toFin_eq

theorem taskLoop_ends_iff (hps : p.pageSize = 4096) {s : XaState} (hs : Sound h p fuel s)
    (pidOffset tasksOffset pid : U32) :
    (∃ n r, taskLoop h pidOffset tasksOffset pid p.initTask n p.initTask s = .ok r) ↔
      ¬ListRepeats h p pidOffset tasksOffset pid := by
  have := finite_U32
  unfold ListRepeats
  rw [← ends_iff]
  exact exists_congr fun n => taskLoop_ok_iff hps hs pidOffset tasksOffset pid _ n _

/-- After calls from empty caches the caches are sound. -/
theorem sound_of_runCalls {s₀ s : XaState} (hps : s₀.pageSize = 4096) {calls : List Call}
    (hrun : runCalls h fuel calls s₀.clear = .ok ((), s)) : Sound h s₀.toXaParams fuel s :=
  runCalls_keeps hps calls s₀.clear () s (sound_clear s₀) hrun

/-- **When the walks end.** In every state reached by calls from empty caches, the loop of
`linux_get_taskstruct` ends after finitely many rounds exactly if it comes to no node twice,
and so does the loop of `windows_get_EPROCESS`. -/
theorem processLoops_end_iff (h : Host) (fuel : Nat) (s₀ s : XaState) (hps : s₀.pageSize = 4096)
    (calls : List Call) (hrun : runCalls h fuel calls s₀.clear = .ok ((), s)) (pid : U32) :
    ((∃ n r, linuxGetTaskstruct h n pid s = .ok r) ↔
        ¬ListRepeats h s₀.toXaParams s₀.os.linuxPid s₀.os.linuxTasks pid) ∧
      ((∃ n r, windowsGetEPROCESS h n pid s = .ok r) ↔
        ¬ListRepeats h s₀.toXaParams s₀.os.winPid s₀.os.winTasks pid) := by
  have hs := sound_of_runCalls hps hrun
  unfold linuxGetTaskstruct windowsGetEPROCESS
  simp only [get_bind, hs.params]
  exact ⟨taskLoop_ends_iff hps hs _ _ pid, taskLoop_ends_iff hps hs _ _ pid⟩

/-- The list of `taskWords` ends. -/
theorem taskState_loop_ends :
    ∃ n r, linuxGetTaskstruct (imageHost taskWords) n 43 taskState.clear = .ok r := by
  refine (processLoops_end_iff (imageHost taskWords) 3 taskState taskState.clear rfl [] rfl
    43).1.mpr ?_
  have := finite_U32
  unfold ListRepeats
  rw [← ends_iff]
  exact ⟨3, by decide⟩

/-- A Linux guest whose first task is followed by one that is its own successor. -/
def cyclicWords : Words :=
  [(0x1C00, 0x83), (0x3010, 0xC0004010), (0x3018, 0), (0x4010, 0xC0004010), (0x4018, 42)]

/-- The search for a pid that is not on the list never ends. -/
theorem cyclicWords_loop_endless :
    ¬∃ n r, linuxGetTaskstruct (imageHost cyclicWords) n 7 taskState.clear = .ok r := by
  have hsound : Sound (imageHost cyclicWords) taskState.toXaParams 0 taskState.clear :=
    sound_clear taskState
  intro hends
  exact (taskLoop_ends_iff rfl hsound _ _ 7).mp hends ⟨1, 2, 0xC0004010, by decide, by decide, by decide⟩

end XenAccess
