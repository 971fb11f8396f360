import XenAccess.Init.Linux
import XenAccess.Init.Prelude
import XenAccess.Init.Windows

/-!
# `helper_init` by operating system

The steps before the operating system and the steps for it, put together: how `helper_init`
ends for a Linux guest (`linuxInit_ends`) and for a Windows guest (`helperInit_search`).
-/

namespace XenAccess

open Prog

variable {h : Host} {fuel : Nat} {m : ErrorMode} {s t u : XaState} {r : Ret}

theorem helperInit_of_prelude (hpre : initPrelude h s = .ok (.success, u)) :
    helperInit h fuel s = osInit h fuel u := by
  rw [helperInit_eq, orExit_success hpre]

theorem osInit_linux (hos : s.osType = .linux) : osInit h fuel s = linuxInit h s := by
  rw [osInit, get_bind]
  simp only [hos]

theorem osInit_windows (hos : s.osType = .windows) : osInit h fuel s = windowsInit h fuel s := by
  rw [osInit, get_bind]
  simp only [hos]

theorem osInit_unknown (hos : s.osType = .unknown) : osInit h fuel s = .ok (.success, s) := by
  rw [osInit, get_bind]
  simp only [hos]
  rfl

theorem Untouched.cachesEmpty (hu : Untouched s u) (hs : CachesEmpty s) : CachesEmpty u := by
  refine ⟨?_, ?_⟩
  · rw [hu.cache]
    exact hs.cache
  · rw [hu.pidCache]
    exact hs.pidCache

/-- A Linux guest after the steps before the operating system. -/
theorem linuxReady_of_prelude (hpre : initPrelude h (startState m s) = .ok (.success, u))
    (hos : u.osType = .linux) : LinuxReady u :=
  ⟨hos, (initPrelude_pageSize hpre).1, (initPrelude_pageSize hpre).2,
    (initPrelude_untouched hpre).cachesEmpty (startState_empty m s)⟩

/-- A Windows guest after the steps before the operating system. -/
theorem windowsReady_of_prelude (hpre : initPrelude h (startState m s) = .ok (.success, u))
    (hos : u.osType = .windows) : WindowsReady u :=
  ⟨hos, (initPrelude_pageSize hpre).1,
    (initPrelude_untouched hpre).cachesEmpty (startState_empty m s)⟩

/-! ## Linux -/

/-- **How `linux_init` ends** after it went on with the page directory of `t`. -/
theorem linuxInit_ends (hs : LinuxReady s) (hfind : linuxFindKpgd h s = .ok (.success, t)) :
    ∃ t', AfterAttempts h t t' ∧ EndsWith t' (linuxInit h s)
      ((symbolVirt h s initTaskSymbol).bind (mapInitTask h t.toXaParams)) := by
  rw [linuxInit_eq, orExit_success hfind, ← hs.symbolVirt_findKpgd hfind]
  exact linuxReadInitTask_eq (hs.findKpgd hfind)

/-- What `linux_init` leaves alone: the offsets, and the name of the System.map once it has
been resolved. -/
theorem linuxInit_kept (hs : LinuxReady s) (hrun : linuxInit h s = .ok (r, t)) :
    t.osType = .linux ∧ t.os = s.os ∧ t.sysmap = sysmapName h s.toXaParams s.sysmap := by
  have hrun' := hrun
  rw [linuxInit_eq] at hrun'
  rcases orExit_ok_iff.mp hrun' with ⟨-, hfind⟩ | ⟨s₁, hfind, -⟩
  · obtain ⟨kpgd, rfl⟩ := linuxFindKpgd_state hfind
    exact ⟨hs.os, rfl, rfl⟩
  · obtain ⟨t', haft, hend⟩ := linuxInit_ends hs hfind
    have hkept : t'.osType = .linux ∧ t'.os = s.os ∧
        t'.sysmap = sysmapName h s.toXaParams s.sysmap := by
      obtain ⟨hosType, hos, -⟩ := haft.kept
      obtain ⟨kpgd, rfl⟩ := linuxFindKpgd_state hfind
      refine ⟨hosType.trans hs.os, hos, ?_⟩
      exact haft.settings.sysmap (sysmapName_idem h s.toXaParams s.sysmap)
    obtain ⟨initTask, rfl⟩ := hend.state hrun
    exact hkept

/-! ## Windows -/

/-- `windows_init` starts its search for the page directory in the state `b`. -/
def SearchStarts (h : Host) (s b : XaState) : Prop :=
  ∃ u, initPrelude h s = .ok (.success, u) ∧ u.osType = .windows ∧
    windowsFindBase h u = .ok (.success, b)

theorem SearchStarts.ready {b : XaState} (hb : SearchStarts h (startState m s) b) :
    WindowsReady b := by
  obtain ⟨u, hpre, hos, hbase⟩ := hb
  exact (windowsReady_of_prelude hpre hos).findBase hbase

theorem SearchStarts.untouched {b : XaState} (hb : SearchStarts h s b) : Untouched s b := by
  obtain ⟨u, hpre, hos, hbase⟩ := hb
  have hu := initPrelude_untouched hpre
  obtain ⟨ntoskrnl, rfl⟩ := windowsFindBase_state hbase
  exact ⟨hu.mode, hu.domainId, hu.kpgd, hu.initTask, hu.errorMode, hu.cache, hu.pidCache⟩

/-- **How `helper_init` ends** for a Windows guest after the search. -/
theorem helperInit_search (fuel : Nat) {b : XaState} (hb : SearchStarts h (startState m s) b) :
    ∃ c n, helperInit h fuel (startState m s) =
      match refFindKpgd h b.toXaParams m fuel with
      | .error e => .error e
      | .ok r => .ok (r.ret, { b with
          cache := c
          ticks := n
          kpgd := r.kpgd
          initTask := refInitTask h b.toXaParams r }) := by
  have hready := hb.ready
  have hmode : b.errorMode = m := hb.untouched.errorMode
  obtain ⟨u, hpre, hos, hbase⟩ := hb
  obtain ⟨c, n, hrun, -⟩ := windowsInit_eq fuel hbase hready.os hready.empty.cache
  refine ⟨c, n, ?_⟩
  subst hmode
  rw [helperInit_of_prelude hpre, osInit_windows hos]
  exact hrun

theorem windowsInit_osType (hs : WindowsReady s) (hrun : windowsInit h fuel s = .ok (r, t)) :
    t.osType = .windows := by
  have hrun' := hrun
  rw [windowsInit] at hrun'
  rcases orExit_ok_iff.mp hrun' with ⟨-, hbase⟩ | ⟨b, hbase, -⟩
  · exact (hs.findBase hbase).os
  · have hb := hs.findBase hbase
    obtain ⟨c, n, heq, -⟩ := windowsInit_eq fuel hbase hb.os hb.empty.cache
    rw [hrun] at heq
    split at heq
    · cases heq
    · obtain ⟨-, rfl⟩ := Prod.mk.inj (Except.ok.inj heq)
      exact hb.os

/-! ## Runs that succeed -/

/-- The steps for the operating system do not change its type. -/
theorem osInit_osType (hpre : initPrelude h (startState m s) = .ok (.success, u))
    (hrun : osInit h fuel u = .ok (r, t)) : u.osType = t.osType := by
  cases hos : u.osType with
  | linux =>
    rw [osInit_linux hos] at hrun
    exact (linuxInit_kept (linuxReady_of_prelude hpre hos) hrun).1.symm
  | windows =>
    rw [osInit_windows hos] at hrun
    exact (windowsInit_osType (windowsReady_of_prelude hpre hos) hrun).symm
  | unknown =>
    rw [osInit_unknown hos] at hrun
    cases hrun
    exact hos.symm

/-- A run that succeeds has come to the steps for the operating system. -/
theorem helperInit_success (hrun : helperInit h fuel (startState m s) = .ok (.success, t)) :
    ∃ u, initPrelude h (startState m s) = .ok (.success, u) ∧
      osInit h fuel u = .ok (.success, t) ∧ u.osType = t.osType := by
  rw [helperInit_eq] at hrun
  obtain ⟨⟨⟩, -⟩ | ⟨u, hpre, hrest⟩ := orExit_ok_iff.mp hrun
  exact ⟨u, hpre, hrest, osInit_osType hpre hrest⟩

/-- A run that succeeds and leaves a Windows guest has made the search. -/
theorem searchStarts_of_success
    (hrun : helperInit h fuel (startState m s) = .ok (.success, t)) (hos : t.osType = .windows) :
    ∃ b, SearchStarts h (startState m s) b := by
  obtain ⟨u, hpre, hrest, hsame⟩ := helperInit_success hrun
  have hosu := hsame.trans hos
  rw [osInit_windows hosu, windowsInit] at hrest
  obtain ⟨⟨⟩, -⟩ | ⟨b, hbase, -⟩ := orExit_ok_iff.mp hrest
  exact ⟨b, u, hpre, hosu, hbase⟩

theorem helperInit_strict_search {b : XaState} {sysproc value : U32}
    (hb : SearchStarts h (startState .failhard s) b)
    (hfound : systemProcess h b.toXaParams fuel = .ok (some (sysproc, value))) :
    ∃ t, helperInit h fuel (startState .failhard s) = .ok (.success, t) ∧
      t.osType = .windows ∧ t.kpgd = value + b.pageOffset := by
  have hresult := refFindKpgd_hard (h := h) (p := b.toXaParams) fuel
  rw [hfound] at hresult
  obtain ⟨c, n, hrun⟩ := helperInit_search fuel hb
  rw [show refFindKpgd h b.toXaParams .failhard fuel = _ from hresult] at hrun
  exact ⟨_, hrun, hb.ready.os, rfl⟩

/-- A strict run that succeeds has found the System process. -/
theorem systemProcess_of_success {b : XaState} (hb : SearchStarts h (startState .failhard s) b)
    (hrun : helperInit h fuel (startState .failhard s) = .ok (.success, t)) :
    ∃ sysproc value, systemProcess h b.toXaParams fuel = .ok (some (sysproc, value)) ∧
      t.kpgd = value + b.pageOffset ∧ t.initTask =
        (xaReadLongPhys h b.toXaParams (sysproc + b.os.winTasks)).getD b.initTask := by
  have hresult := refFindKpgd_hard (h := h) (p := b.toXaParams) fuel
  obtain ⟨c, n, hsearch⟩ := helperInit_search fuel hb
  rw [hrun] at hsearch
  cases hfound : systemProcess h b.toXaParams fuel with
  | error e =>
    rw [hfound] at hresult
    rw [show refFindKpgd h b.toXaParams .failhard fuel = .error e from hresult] at hsearch
    cases hsearch
  | ok found =>
    rw [hfound] at hresult
    cases found with
    | none =>
      obtain ⟨r, hr, hret⟩ := hresult
      rw [hr] at hsearch
      cases (Prod.mk.inj (Except.ok.inj hsearch)).1.trans hret
    | some found =>
      obtain ⟨sysproc, value⟩ := found
      rw [show refFindKpgd h b.toXaParams .failhard fuel = .ok _ from hresult] at hsearch
      obtain ⟨-, rfl⟩ := Prod.mk.inj (Except.ok.inj hsearch)
      exact ⟨sysproc, value, rfl, rfl, rfl⟩

end XenAccess
