import XenAccess.Lib.Prog
import XenAccess.Model.Access

/-!
# What the address cache leaves alone

The functions of the address cache, and the walk of a task list through it, change nothing else
in the instance. So they keep every property that does not look at the address cache.
-/

namespace XenAccess

open Prog

variable {h : Host} {I : XaState → Prop}

/-- A property that does not depend on the address cache. -/
def OffCache (I : XaState → Prop) : Prop := ∀ s c, I s → I (s.setCache c)

theorem xaCheckCacheVirt_keeps (hI : OffCache I) (v pid : U32) :
    Keeps I (xaCheckCacheVirt h v pid) := by
  intro s a s' hs hrun
  simp only [xaCheckCacheVirt] at hrun
  split at hrun
  · cases hrun
    exact hI s _ hs
  · cases hrun
    exact hs

theorem xaCheckCacheSym_keeps (hI : OffCache I) (sym : CStr) (pid : U32) :
    Keeps I (xaCheckCacheSym h sym pid) := by
  intro s a s' hs hrun
  simp only [xaCheckCacheSym] at hrun
  split at hrun
  · cases hrun
    exact hI s _ hs
  · cases hrun
    exact hs

theorem updateSym_keeps (hI : OffCache I) {sym : CStr} {v pid m : U32} {s s' : XaState}
    (hs : I s) (hupd : updateSym h sym v pid m s = some s') : I s' := by
  obtain ⟨r, -, rfl⟩ := Option.map_eq_some_iff.mp hupd
  exact hI s _ hs

theorem updateVirt_keeps (hI : OffCache I) {v pid m : U32} {s s' : XaState} (hs : I s)
    (hupd : updateVirt h v pid m s = some s') : I s' := by
  obtain ⟨r, -, rfl⟩ := Option.map_eq_some_iff.mp hupd
  exact hI s _ hs

theorem xaUpdateCache_keeps (hI : OffCache I) (sym : Option CStr) (v pid m : U32) :
    Keeps I (xaUpdateCache h sym v pid m) := by
  intro s a s' hs hrun
  simp only [xaUpdateCache] at hrun
  split at hrun
  · rename_i t hsym
    cases hrun
    obtain ⟨sym', -, hupd⟩ := Option.bind_eq_some_iff.mp hsym
    exact updateSym_keeps hI hs hupd
  · split at hrun
    · rename_i t hvirt
      cases hrun
      split_ifs at hvirt
      exact updateVirt_keeps hI hs hvirt
    · split_ifs at hrun
      · cases hrun
        exact hs
      · cases hrun
        exact hI s _ hs

theorem accessVa_keeps (hI : OffCache I) {pidToPgd : XaM U32} (hpgd : Keeps I pidToPgd)
    (v pid prot : U32) : Keeps I (accessVa h pidToPgd v pid prot) := by
  refine keeps_bind (xaCheckCacheVirt_keeps hI v pid) fun hit => ?_
  have hfinish (m : U32) : Keeps I (if m = 0 then pure none else do
      xaUpdateCache h none v pid m
      let s ← get
      pure (xaAccessMa h s.toXaParams m prot) : XaM (Option Access)) := by
    split_ifs
    · exact keeps_pure none
    · exact keeps_bind (xaUpdateCache_keeps hI none v pid m) fun _ =>
        keeps_bind keeps_get fun _ => keeps_pure _
  cases hit with
  | some m => exact keeps_bind keeps_get fun _ => keeps_pure _
  | none =>
    by_cases hpid : pid = 0
    · simp only [if_pos hpid]
      exact keeps_bind keeps_get fun _ => keeps_bind (keeps_pure _) fun _ =>
        keeps_bind keeps_get fun _ => hfinish _
    · simp only [if_neg hpid]
      exact keeps_bind hpgd fun _ => keeps_bind (keeps_pure _) fun _ =>
        keeps_bind keeps_get fun _ => hfinish _

theorem xaAccessKernelVa_keeps (hI : OffCache I) (v prot : U32) :
    Keeps I (xaAccessKernelVa h v prot) :=
  accessVa_keeps hI (keeps_pure 0) v 0 prot

theorem taskLoop_keeps (hI : OffCache I) (pidOffset tasksOffset pid listHead : U32) (n : Nat)
    (next : U32) : Keeps I (taskLoop h pidOffset tasksOffset pid listHead n next) := by
  induction n generalizing next with
  | zero => exact keeps_throw
  | succ n ih =>
    refine keeps_bind (xaAccessKernelVa_keeps hI next protRead) fun r => ?_
    cases r with
    | none => exact keeps_pure _
    | some a =>
      show Keeps _ (ite _ _ (ite _ _ _))
      split_ifs
      · exact keeps_pure _
      · exact keeps_pure _
      · exact ih _

end XenAccess
