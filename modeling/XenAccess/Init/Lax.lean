import XenAccess.Init.Helper
import XenAccess.Model.Image

/-!
# Lax initialisation

In lax mode a minor error becomes a success at the place where it is reported, so the code
behind that place runs as if the step had worked. Two consequences: `windows_init` never
turns to its second method, because the first one no longer fails, and `linux_init` reads
through the pointer of a mapping that was not made. A mapping of `init_task` that was made does
not make the run fault here, also when the word at `tasks_offset` lies behind the mapped page: the
load then goes through a pointer that is not `NULL`, and gives what is mapped behind the page.
-/

namespace XenAccess

open Prog

variable {h : Host} {fuel : Nat} {s t : XaState}

/-! ## Windows -/

theorem windowsFindBase_mirrors : Mirrors (windowsFindBase h) := by
  intro s t hrun
  rw [windowsFindBase, get_bind] at hrun ⊢
  by_cases hzero : s.os.ntoskrnl = 0
  · rw [if_pos (show (s.withMode .failhard).os.ntoskrnl = 0 from hzero)] at hrun
    rw [if_pos (show (s.withMode .failsoft).os.ntoskrnl = 0 from hzero)]
    simp only [set_bind] at hrun ⊢
    by_cases hbase : getNtoskrnlBase h s.toXaParams = 0
    · rw [if_pos (show getNtoskrnlBase h (s.withMode .failhard).toXaParams = 0 from hbase)] at hrun
      cases hrun
    · rw [if_neg (show ¬ getNtoskrnlBase h (s.withMode .failhard).toXaParams = 0 from hbase)]
        at hrun
      rw [if_neg (show ¬ getNtoskrnlBase h (s.withMode .failsoft).toXaParams = 0 from hbase)]
      cases hrun
      exact ⟨rfl, rfl⟩
  · rw [if_neg (show ¬ (s.withMode .failhard).os.ntoskrnl = 0 from hzero)] at hrun
    rw [if_neg (show ¬ (s.withMode .failsoft).os.ntoskrnl = 0 from hzero)]
    cases hrun
    exact ⟨rfl, rfl⟩

theorem SearchStarts.lax {b : XaState} (hb : SearchStarts h (startState .failhard s) b) :
    SearchStarts h (startState .failsoft s) (b.withMode .failsoft) := by
  obtain ⟨u, hpre, hos, hbase⟩ := hb
  obtain ⟨hu, hpre'⟩ := initPrelude_mirrors (xaInitCommon s) u hpre
  rw [hu] at hbase
  exact ⟨u.withMode .failsoft, hpre', hos, (windowsFindBase_mirrors u b hbase).2⟩

/-- Where strict initialisation of a Windows guest succeeds, lax initialisation succeeds with
the same page directory. -/
def LaxFollowsStrict (h : Host) (fuel : Nat) (s : XaState) : Prop :=
  ∀ t, helperInit h fuel (startState .failhard s) = .ok (.success, t) → t.osType = .windows →
    ∃ t', helperInit h fuel (startState .failsoft s) = .ok (.success, t') ∧ t'.kpgd = t.kpgd

/-- Where the exported pointer does not lead to the System process but the search through
memory does, the page directory of that process is the value that the first method takes in
lax mode: the word at the translation of the pointer, zero if it has none, or the old `kpgd`
if there is no such word. -/
def SecondMethodNotNeeded (h : Host) (fuel : Nat) (s : XaState) : Prop :=
  ∀ b sysproc value, SearchStarts h (startState .failhard s) b →
    pointerProcess h b.toXaParams = none →
    scannedProcess h b.toXaParams fuel = .ok (some (sysproc, value)) →
    laxDirectory h b.toXaParams = value

theorem helperInit_lax_search (fuel : Nat) {b : XaState}
    (hb : SearchStarts h (startState .failhard s) b) :
    ∃ t, helperInit h fuel (startState .failsoft s) = .ok (.success, t) ∧
      t.kpgd = laxDirectory h b.toXaParams + b.pageOffset := by
  obtain ⟨c, n, hrun⟩ := helperInit_search fuel hb.lax
  rw [refFindKpgd_soft] at hrun
  exact ⟨_, hrun, rfl⟩

/-- **When lax initialisation of a Windows guest is as capable as strict initialisation.** -/
theorem laxFollowsStrict_iff (h : Host) (fuel : Nat) (s : XaState) :
    LaxFollowsStrict h fuel s ↔ SecondMethodNotNeeded h fuel s := by
  constructor
  · intro hfollows b sysproc value hb hpointer hscan
    have hfound : systemProcess h b.toXaParams fuel = .ok (some (sysproc, value)) := by
      rw [systemProcess, hpointer]
      exact hscan
    obtain ⟨t, hstrict, hos, hkpgd⟩ := helperInit_strict_search hb hfound
    obtain ⟨t', hlax, hsame⟩ := hfollows t hstrict hos
    obtain ⟨u, hlax', hkpgd'⟩ := helperInit_lax_search fuel hb
    obtain ⟨-, rfl⟩ := Prod.mk.inj (Except.ok.inj (hlax.symm.trans hlax'))
    exact add_right_cancel (hkpgd'.symm.trans (hsame.trans hkpgd))
  · intro hnot t hstrict hos
    obtain ⟨b, hb⟩ := searchStarts_of_success hstrict hos
    obtain ⟨sysproc, value, hfound, hkpgd, -⟩ := systemProcess_of_success hb hstrict
    obtain ⟨t', hlax, hkpgd'⟩ := helperInit_lax_search fuel hb
    refine ⟨t', hlax, ?_⟩
    have hdir : laxDirectory h b.toXaParams = value := by
      rw [systemProcess] at hfound
      cases hpointer : pointerProcess h b.toXaParams with
      | some found =>
        rw [hpointer] at hfound
        cases hfound
        exact laxDirectory_of_pointer hpointer
      | none =>
        rw [hpointer] at hfound
        exact hnot b sysproc value hb hpointer hfound
    rw [hkpgd', hkpgd, hdir]

/-- The kernel exports nothing, and the System process is found by the search only. -/
theorem windowsHost_not_laxFollowsStrict :
    ¬ LaxFollowsStrict (windowsHost (systemEprocess 0x1000)) 1000 fileState := by
  intro hfollows
  have hstrict : Returns (helperInit (windowsHost (systemEprocess 0x1000)) 1000)
      (startState .failhard fileState) fun r t =>
        r = .success ∧ t.osType = .windows ∧ t.kpgd = 0x80039000 := by decide +kernel
  have hlax : Returns (helperInit (windowsHost (systemEprocess 0x1000)) 1000)
      (startState .failsoft fileState) fun _ t => t.kpgd = 0x80000000 := by decide
  obtain ⟨_, t, hrun, rfl, hos, hkpgd⟩ := hstrict
  obtain ⟨_, t', hrun', hkpgd'⟩ := hlax
  obtain ⟨u, hu, hsame⟩ := hfollows t hrun hos
  obtain ⟨-, rfl⟩ := Prod.mk.inj (Except.ok.inj (hrun'.symm.trans hu))
  rw [hkpgd, hkpgd'] at hsame
  cases hsame

/-! ## Linux -/

/-- In lax mode `linux_init` goes on whether it has a page directory or not. -/
theorem linuxFindKpgd_lax (hlax : s.errorMode = .failsoft) :
    ∃ t, linuxFindKpgd h s = .ok (.success, t) ∧ t.errorMode = .failsoft := by
  cases hk : linuxKpgd h s with
  | some kpgd => exact ⟨_, linuxFindKpgd_some hk, hlax⟩
  | none =>
    obtain ⟨kpgd, hfind, -⟩ := linuxFindKpgd_none hk
    rw [hlax] at hfind
    exact ⟨_, hfind, hlax⟩

/-- With the page directory that `linux_init` goes on with, `init_task` is in the System.map
and can be mapped: at once, or in the other PAE mode when no address was stored for it. -/
def InitTaskMapped (h : Host) (s : XaState) : Prop :=
  ∀ t, linuxFindKpgd h s = .ok (.success, t) →
    ((symbolVirt h s initTaskSymbol).bind (mapInitTask h t.toXaParams)).isSome

theorem linuxInit_lax (hs : LinuxReady s) (hlax : s.errorMode = .failsoft) :
    (InitTaskMapped h s ∧ ∃ r t, linuxInit h s = .ok (r, t)) ∨
      (¬ InitTaskMapped h s ∧ linuxInit h s = .error .nullPage) := by
  obtain ⟨s₁, hfind, hmode₁⟩ := linuxFindKpgd_lax (h := h) hlax
  obtain ⟨t, haft, hend⟩ := linuxInit_ends hs hfind
  have hmode : t.errorMode = .failsoft := haft.settings.errorMode.trans hmode₁
  cases hmap : (symbolVirt h s initTaskSymbol).bind (mapInitTask h s₁.toXaParams) with
  | some a =>
    rw [hmap] at hend
    refine Or.inl ⟨fun s₁' hfind' => ?_, _, _, hend⟩
    cases hfind.symm.trans hfind'
    rw [hmap]
    rfl
  | none =>
    rw [hmap, EndsWith, hmode] at hend
    refine Or.inr ⟨fun hmapped => ?_, hend⟩
    have := hmapped s₁ hfind
    rw [hmap] at this
    cases this

theorem windowsInit_lax (hs : WindowsReady s) (hlax : s.errorMode = .failsoft) (fuel : Nat) :
    ∃ r t, windowsInit h fuel s = .ok (r, t) := by
  have hminor : xaReportError s.errorMode .minor = .success := by
    rw [hlax]
    rfl
  have hbase : ∃ t, windowsFindBase h s = .ok (.success, t) := by
    rw [windowsFindBase, get_bind]
    split_ifs
    · simp only [set_bind]
      split_ifs
      · refine ⟨{ s with os := { s.os with w0 := getNtoskrnlBase h s.toXaParams } }, ?_⟩
        show Except.ok (xaReportError s.errorMode .minor, _) = _
        rw [hminor]
      · exact ⟨_, rfl⟩
    · exact ⟨_, rfl⟩
  obtain ⟨t, hbase⟩ := hbase
  have ht := hs.findBase hbase
  have hmode : t.errorMode = .failsoft := by
    obtain ⟨ntoskrnl, rfl⟩ := windowsFindBase_state hbase
    exact hlax
  obtain ⟨c, n, hrun, -⟩ := windowsInit_eq fuel hbase ht.os ht.empty.cache
  rw [hmode, refFindKpgd_soft] at hrun
  exact ⟨_, _, hrun⟩

/-- If the guest is a Linux one and its steps are reached, `init_task` can be mapped. -/
def LinuxGuestMapped (h : Host) (s : XaState) : Prop :=
  ∀ u, initPrelude h (startState .failsoft s) = .ok (.success, u) → u.osType = .linux →
    InitTaskMapped h u

/-- The steps for the operating system in lax mode. -/
theorem osInit_lax {u : XaState} (hpre : initPrelude h (startState .failsoft s) = .ok (.success, u))
    (fuel : Nat) :
    ((u.osType = .linux → InitTaskMapped h u) ∧ ∃ r t, osInit h fuel u = .ok (r, t)) ∨
      (u.osType = .linux ∧ ¬ InitTaskMapped h u ∧ osInit h fuel u = .error .nullPage) := by
  have hlax : u.errorMode = .failsoft := (initPrelude_untouched hpre).errorMode
  cases hos : u.osType with
  | linux =>
    rw [osInit_linux hos]
    rcases linuxInit_lax (linuxReady_of_prelude hpre hos) hlax with ⟨hm, hok⟩ | ⟨hm, herr⟩
    · exact Or.inl ⟨fun _ => hm, hok⟩
    · exact Or.inr ⟨rfl, hm, herr⟩
  | windows =>
    rw [osInit_windows hos]
    exact Or.inl ⟨by rintro ⟨⟩, windowsInit_lax (windowsReady_of_prelude hpre hos) hlax fuel⟩
  | unknown =>
    rw [osInit_unknown hos]
    exact Or.inl ⟨by rintro ⟨⟩, _, _, rfl⟩

/-- **When lax initialisation reads through a mapping that was not made**, and when it comes
back at all. -/
theorem lax_faults_iff (h : Host) (fuel : Nat) (s : XaState) :
    (helperInit h fuel (startState .failsoft s) ≠ .error .nullPage ↔ LinuxGuestMapped h s) ∧
      ((∃ r t, helperInit h fuel (startState .failsoft s) = .ok (r, t)) ↔
        LinuxGuestMapped h s ∧ StringsRead h s) := by
  have hstrings : (∃ r t, initPrelude h (startState .failsoft s) = .ok (r, t)) ↔ StringsRead h s :=
    initPrelude_lax_ok_iff rfl
  rw [← hstrings]
  cases hpre : initPrelude h (startState .failsoft s) with
  | error e =>
    have hmapped : LinuxGuestMapped h s := fun u hu => by cases hpre.symm.trans hu
    have hrun : helperInit h fuel (startState .failsoft s) = .error e := by
      rw [helperInit_eq, orExit_error hpre]
    have he := initPrelude_error _ _ hpre
    subst he
    simp [hrun, hmapped]
  | ok p =>
    obtain ⟨r, u⟩ := p
    cases r with
    | failure =>
      have hmapped : LinuxGuestMapped h s := fun u hu => by cases hpre.symm.trans hu
      have hrun : helperInit h fuel (startState .failsoft s) = .ok (.failure, u) := by
        rw [helperInit_eq, orExit_failure hpre]
      simp [hrun, hmapped]
    | success =>
      have hmapped : LinuxGuestMapped h s ↔ (u.osType = .linux → InitTaskMapped h u) := by
        constructor
        · intro hall hos
          exact hall u hpre hos
        · intro hu u' hpre' hos
          cases hpre.symm.trans hpre'
          exact hu hos
      rw [hmapped, helperInit_of_prelude hpre]
      rcases osInit_lax hpre fuel with ⟨hu, r, t, hok⟩ | ⟨hos, hu, herr⟩
      · simpa [hok] using hu
      · simp [herr, hos, hu]

/-- The System.map named in the configuration cannot be opened. -/
theorem linuxHost_nullPage :
    helperInit (linuxHost [] none) 0 (startState .failsoft fileState) = .error .nullPage := by
  rfl

end XenAccess
