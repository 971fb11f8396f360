import XenAccess.Init.First

/-!
# `helper_init` before the operating system

The steps of `helper_init` before `linux_init` and `windows_init` read the configuration and
find out about the memory of the guest. They leave the caches, `kpgd` and `init_task` alone
(`initPrelude_untouched`), can only be stopped by a string that is `NULL`
(`initPrelude_error`), and where they succeed in strict mode they do the same in lax mode
(`initPrelude_mirrors`).
-/

namespace XenAccess

open Prog

variable {h : Host} {s t : XaState} {fuel : Nat}

/-- The steps of `helper_init` before those for one operating system. -/
def initPrelude (h : Host) : XaM Ret :=
  orExit (getDomainInfo h) <|
  orExit (orReport .minor (readConfigFile h)) <|
  orExit (getMemoryLayout h) <|
  orExit (setPageOffset h) <|
  orReport .critical (getMemorySize h)

theorem helperInit_eq (h : Host) (fuel : Nat) :
    helperInit h fuel = orExit (initPrelude h) (osInit h fuel) := by
  simp only [helperInit, initPrelude, ← orExit_assoc]

def XaState.withMode (s : XaState) (errorMode : ErrorMode) : XaState := { s with errorMode }

/-- An instance as `helper_init` receives it. -/
def startState (errorMode : ErrorMode) (s : XaState) : XaState :=
  (xaInitCommon s).withMode errorMode

theorem startState_empty (errorMode : ErrorMode) (s : XaState) :
    CachesEmpty (startState errorMode s) := ⟨rfl, rfl⟩

/-! ## The steps by mode -/

theorem getDomainInfo_file (hmode : s.mode = .file) :
    getDomainInfo h s = .ok (.success, s) := by
  rw [getDomainInfo, get_bind]
  simp only [hmode]
  rfl

theorem getDomainInfo_xen (hmode : s.mode = .xen) :
    getDomainInfo h s =
      match h.xcDomainGetinfo with
      | none => .ok (xaReportError s.errorMode .critical, s)
      | some sharedInfoFrame => .ok (.success, initXenVersion h { s with sharedInfoFrame }) := by
  rw [getDomainInfo, get_bind]
  simp only [hmode]
  cases h.xcDomainGetinfo with
  | none => rfl
  | some sharedInfoFrame => rfl

theorem getMemoryLayout_file (hmode : s.mode = .file) :
    getMemoryLayout h s = .ok (.success, { s with hvm := true, pae := false }) := by
  rw [getMemoryLayout, get_bind]
  simp only [hmode]
  rfl

theorem getMemoryLayout_xen (hmode : s.mode = .xen) :
    getMemoryLayout h s = orReport .critical (getPageInfoXen h) s := by
  rw [getMemoryLayout, get_bind]
  simp only [hmode]

/-- The instance after `init_page_offset` and the query that follows it. -/
def afterPageOffset (h : Host) (s : XaState) : XaState :=
  match s.mode with
  | .xen => { initPageOffset s with hvm := xaIshvm h s.domainId }
  | .file => initPageOffset s

theorem setPageOffset_eq (s : XaState) :
    setPageOffset h s = .ok (.success, afterPageOffset h s) := by
  have hkept : (initPageOffset s).mode = s.mode := rfl
  rw [setPageOffset, modify_bind, get_bind, afterPageOffset]
  cases hmode : s.mode with
  | xen =>
    rw [hmode] at hkept
    simp only [hkept]
    rfl
  | file =>
    rw [hmode] at hkept
    simp only [hkept]
    rfl

/-- Where xenstore has the memory size of a domain. -/
def memoryTargetPath (domainId : U32) : CStr :=
  cstr "/local/domain/" ++ sprintfD domainId ++ cstr "/memory/target"

theorem getMemorySize_file (hmode : s.mode = .file) :
    getMemorySize h s =
      match h.fstat with
      | none => .ok (.failure, s)
      | some size => .ok (.success, { s with size := size.setWidth 32 }) := by
  rw [getMemorySize]
  split
  · rename_i hxen
    cases hxen.symm.trans hmode
  · rfl

theorem getMemorySize_xen (hmode : s.mode = .xen) :
    getMemorySize h s =
      match h.xsRead (memoryTargetPath s.domainId) with
      | none => .error .nullString
      | some target => .ok (if strtol10 target * 1024 = 0 then .failure else .success,
          { s with size := strtol10 target * 1024 }) := by
  rw [getMemorySize]
  split
  · rfl
  · rename_i hfile
    cases hfile.symm.trans hmode

/-! ## Steps that may fail -/

theorem orExit_ok_iff {first second : XaM Ret} {r : Ret} :
    orExit first second s = .ok (r, t) ↔
      (r = .failure ∧ first s = .ok (.failure, t)) ∨
        ∃ u, first s = .ok (.success, u) ∧ second u = .ok (r, t) := by
  constructor
  · intro hrun
    obtain ⟨r₁, u, hfirst, hrest⟩ := bind_ok_iff.mp hrun
    cases r₁ with
    | failure =>
      cases hrest
      exact Or.inl ⟨rfl, hfirst⟩
    | success => exact Or.inr ⟨u, hfirst, hrest⟩
  · rintro (⟨rfl, hfirst⟩ | ⟨u, hfirst, hsecond⟩)
    · exact orExit_failure hfirst
    · exact (orExit_success hfirst).trans hsecond

theorem orExit_error_iff {first second : XaM Ret} {e : Fault} :
    orExit first second s = .error e ↔
      first s = .error e ∨ ∃ u, first s = .ok (.success, u) ∧ second u = .error e := by
  cases hfirst : first s with
  | error e' =>
    rw [orExit_error hfirst]
    simp
  | ok p =>
    obtain ⟨r, u⟩ := p
    cases r with
    | failure =>
      rw [orExit_failure hfirst]
      simp
    | success =>
      rw [orExit_success hfirst]
      simp

theorem orReport_ok_iff {errorType : ErrorType} {step : XaM Ret} {r : Ret} :
    orReport errorType step s = .ok (r, t) ↔
      (r = .success ∧ step s = .ok (.success, t)) ∨
        r = xaReportError t.errorMode errorType ∧ step s = .ok (.failure, t) := by
  constructor
  · intro hrun
    obtain ⟨r₁, u, hstep, hrest⟩ := bind_ok_iff.mp hrun
    cases r₁ with
    | failure =>
      cases hrest
      exact Or.inr ⟨rfl, hstep⟩
    | success =>
      cases hrest
      exact Or.inl ⟨rfl, hstep⟩
  · rintro (⟨rfl, hstep⟩ | ⟨rfl, hstep⟩)
    · exact bind_of_ok hstep
    · exact bind_of_ok hstep

theorem orReport_error_iff {errorType : ErrorType} {step : XaM Ret} {e : Fault} :
    orReport errorType step s = .error e ↔ step s = .error e := by
  cases hstep : step s with
  | error e' => rw [orReport, bind_of_error hstep]
  | ok p =>
    obtain ⟨r, u⟩ := p
    have hrun : orReport errorType step s = _ := bind_of_ok hstep
    rw [hrun]
    cases r with
    | failure => simp [report]
    | success => simp

theorem keeps_orExit {I : XaState → Prop} {first second : XaM Ret} (hfirst : Keeps I first)
    (hsecond : Keeps I second) : Keeps I (orExit first second) := by
  intro s r t hI hrun
  rcases orExit_ok_iff.mp hrun with ⟨-, h1⟩ | ⟨u, h1, h2⟩
  · exact hfirst s _ t hI h1
  · exact hsecond u r t (hfirst s _ u hI h1) h2

theorem keeps_orReport {I : XaState → Prop} {errorType : ErrorType} {step : XaM Ret}
    (hstep : Keeps I step) : Keeps I (orReport errorType step) := by
  intro s r t hI hrun
  rcases orReport_ok_iff.mp hrun with ⟨-, h1⟩ | ⟨-, h1⟩
  · exact hstep s _ t hI h1
  · exact hstep s _ t hI h1

/-! ## What the steps leave alone -/

/-- The fields that only the steps for one operating system change. -/
structure Untouched (s t : XaState) : Prop where
  mode : t.mode = s.mode
  domainId : t.domainId = s.domainId
  kpgd : t.kpgd = s.kpgd
  initTask : t.initTask = s.initTask
  errorMode : t.errorMode = s.errorMode
  cache : t.cache = s.cache
  pidCache : t.pidCache = s.pidCache

theorem Untouched.refl (s : XaState) : Untouched s s := ⟨rfl, rfl, rfl, rfl, rfl, rfl, rfl⟩

theorem getDomainInfo_keeps (s₀ : XaState) : Keeps (Untouched s₀) (getDomainInfo h) := by
  intro s r t hs hrun
  cases hmode : s.mode with
  | file =>
    rw [getDomainInfo_file hmode] at hrun
    cases hrun
    exact hs
  | xen =>
    rw [getDomainInfo_xen hmode] at hrun
    split at hrun
    · cases hrun
      exact hs
    · cases hrun
      exact ⟨hs.mode, hs.domainId, hs.kpgd, hs.initTask, hs.errorMode, hs.cache, hs.pidCache⟩

theorem configName_keeps (s₀ : XaState) : Keeps (Untouched s₀) (configName h) := by
  intro s r t hs hrun
  rw [configName] at hrun
  split at hrun
  · cases hrun
    exact ⟨hs.mode, hs.domainId, hs.kpgd, hs.initTask, hs.errorMode, hs.cache, hs.pidCache⟩
  · split at hrun
    · cases hrun
    · cases hrun
      exact hs

theorem applyConfig_keeps (s₀ : XaState) (entry : XaConfigEntry) :
    Keeps (Untouched s₀) (applyConfig entry) := by
  intro s r t hs hrun
  have hset : t.toXaParams = { s.toXaParams with osType := t.osType, os := t.os } ∧
      t.errorMode = s.errorMode ∧ t.cache = s.cache ∧ t.pidCache = s.pidCache := by
    rw [applyConfig] at hrun
    split_ifs at hrun
    all_goals
      cases hrun
      exact ⟨rfl, rfl, rfl, rfl⟩
  obtain ⟨hp, hmode, hcache, hpids⟩ := hset
  exact ⟨(congrArg XaParams.mode hp).trans hs.mode,
    (congrArg XaParams.domainId hp).trans hs.domainId, (congrArg XaParams.kpgd hp).trans hs.kpgd,
    (congrArg XaParams.initTask hp).trans hs.initTask, hmode.trans hs.errorMode,
    hcache.trans hs.cache, hpids.trans hs.pidCache⟩

theorem readConfigFile_keeps (s₀ : XaState) : Keeps (Untouched s₀) (readConfigFile h) := by
  rw [readConfigFile]
  split
  · refine keeps_bind (configName_keeps s₀) fun name => ?_
    cases name with
    | none => exact keeps_pure _
    | some name =>
      simp only
      split
      · exact keeps_pure _
      · exact applyConfig_keeps s₀ _
  · exact keeps_pure _

theorem getMemoryLayout_keeps (s₀ : XaState) : Keeps (Untouched s₀) (getMemoryLayout h) := by
  have hpage : Keeps (Untouched s₀) (getPageInfoXen h) := by
    intro s r t hs hrun
    rw [getPageInfoXen] at hrun
    split at hrun
    · cases hrun
      exact hs
    · split_ifs at hrun
      · cases hrun
        exact hs
      · cases hrun
        exact ⟨hs.mode, hs.domainId, hs.kpgd, hs.initTask, hs.errorMode, hs.cache, hs.pidCache⟩
  intro s r t hs hrun
  cases hmode : s.mode with
  | xen =>
    rw [getMemoryLayout_xen hmode] at hrun
    exact keeps_orReport hpage s r t hs hrun
  | file =>
    rw [getMemoryLayout_file hmode] at hrun
    cases hrun
    exact ⟨hs.mode, hs.domainId, hs.kpgd, hs.initTask, hs.errorMode, hs.cache, hs.pidCache⟩

theorem setPageOffset_keeps (s₀ : XaState) : Keeps (Untouched s₀) (setPageOffset h) := by
  intro s r t hs hrun
  rw [setPageOffset_eq, afterPageOffset] at hrun
  split at hrun
  · cases hrun
    exact ⟨hs.mode, hs.domainId, hs.kpgd, hs.initTask, hs.errorMode, hs.cache, hs.pidCache⟩
  · cases hrun
    exact ⟨hs.mode, hs.domainId, hs.kpgd, hs.initTask, hs.errorMode, hs.cache, hs.pidCache⟩

/-- `get_memory_size` changes the size only. -/
theorem getMemorySize_state {r : Ret} (hrun : getMemorySize h s = .ok (r, t)) :
    ∃ size, t = { s with size } := by
  rw [getMemorySize] at hrun
  split at hrun
  · split at hrun
    · cases hrun
    · cases hrun
      exact ⟨_, rfl⟩
  · split at hrun
    · cases hrun
      exact ⟨s.size, rfl⟩
    · cases hrun
      exact ⟨_, rfl⟩

theorem getMemorySize_keeps (s₀ : XaState) : Keeps (Untouched s₀) (getMemorySize h) := by
  intro s r t hs hrun
  obtain ⟨size, rfl⟩ := getMemorySize_state hrun
  exact ⟨hs.mode, hs.domainId, hs.kpgd, hs.initTask, hs.errorMode, hs.cache, hs.pidCache⟩

theorem initPrelude_untouched {r : Ret} (hrun : initPrelude h s = .ok (r, t)) :
    Untouched s t := by
  have hkeeps : Keeps (Untouched s) (initPrelude h) :=
    keeps_orExit (getDomainInfo_keeps s) <|
    keeps_orExit (keeps_orReport (readConfigFile_keeps s)) <|
    keeps_orExit (getMemoryLayout_keeps s) <|
    keeps_orExit (setPageOffset_keeps s) <|
    keeps_orReport (getMemorySize_keeps s)
  exact hkeeps s r t (.refl s) hrun

/-- The last step gets the memory size, with the page sizes set. -/
theorem initPrelude_last (hrun : initPrelude h s = .ok (.success, t)) :
    ∃ u r, u.pageSize = 4096 ∧ u.pageShift = 12 ∧ getMemorySize h u = .ok (r, t) := by
  rw [initPrelude] at hrun
  obtain ⟨⟨⟩, -⟩ | ⟨s₁, -, hrun⟩ := orExit_ok_iff.mp hrun
  obtain ⟨⟨⟩, -⟩ | ⟨s₂, -, hrun⟩ := orExit_ok_iff.mp hrun
  obtain ⟨⟨⟩, -⟩ | ⟨s₃, -, hrun⟩ := orExit_ok_iff.mp hrun
  obtain ⟨⟨⟩, -⟩ | ⟨u, hoffset, hsize⟩ := orExit_ok_iff.mp hrun
  have hsizes : u.pageSize = 4096 ∧ u.pageShift = 12 := by
    rw [setPageOffset_eq, afterPageOffset] at hoffset
    split at hoffset
    · cases hoffset
      exact ⟨rfl, rfl⟩
    · cases hoffset
      exact ⟨rfl, rfl⟩
  rcases orReport_ok_iff.mp hsize with ⟨-, hstep⟩ | ⟨-, hstep⟩
  · exact ⟨u, _, hsizes.1, hsizes.2, hstep⟩
  · exact ⟨u, _, hsizes.1, hsizes.2, hstep⟩

/-- The page sizes are set when the steps for the operating system start. -/
theorem initPrelude_pageSize (hrun : initPrelude h s = .ok (.success, t)) :
    t.pageSize = 4096 ∧ t.pageShift = 12 := by
  obtain ⟨u, r, hsize, hshift, hlast⟩ := initPrelude_last hrun
  obtain ⟨size, rfl⟩ := getMemorySize_state hlast
  exact ⟨hsize, hshift⟩

/-! ## Faults -/

/-- The only fault of a step is a string that is `NULL`. -/
def OnlyNullString (step : XaM Ret) : Prop := ∀ s e, step s = .error e → e = .nullString

theorem OnlyNullString.orExit {first second : XaM Ret} (hfirst : OnlyNullString first)
    (hsecond : OnlyNullString second) : OnlyNullString (orExit first second) := by
  intro s e hrun
  rcases orExit_error_iff.mp hrun with h1 | ⟨u, -, h2⟩
  · exact hfirst s e h1
  · exact hsecond u e h2

theorem OnlyNullString.orReport {errorType : ErrorType} {step : XaM Ret}
    (hstep : OnlyNullString step) : OnlyNullString (orReport errorType step) :=
  fun s e hrun => hstep s e (orReport_error_iff.mp hrun)

theorem getDomainInfo_error {e : Fault} : getDomainInfo h s ≠ .error e := by
  intro hrun
  cases hmode : s.mode with
  | file =>
    rw [getDomainInfo_file hmode] at hrun
    cases hrun
  | xen =>
    rw [getDomainInfo_xen hmode] at hrun
    split at hrun
    · cases hrun
    · cases hrun

theorem readConfigFile_error : OnlyNullString (readConfigFile h) := by
  intro s e hrun
  rw [readConfigFile] at hrun
  split_ifs at hrun
  · cases hname : configName h s with
    | error e' =>
      rw [bind_of_error hname] at hrun
      rw [configName] at hname
      split at hname
      · cases hname
      · split at hname
        · cases hname
          exact (Except.error.inj hrun).symm
        · cases hname
    | ok p =>
      obtain ⟨name, u⟩ := p
      rw [bind_of_ok hname] at hrun
      cases name with
      | none => cases hrun
      | some name =>
        cases hparse : h.xaParseConfig name with
        | none =>
          simp only [hparse] at hrun
          cases hrun
        | some entry =>
          simp only [hparse, applyConfig] at hrun
          split_ifs at hrun
  · cases hrun

theorem getMemoryLayout_error {e : Fault} : getMemoryLayout h s ≠ .error e := by
  intro hrun
  cases hmode : s.mode with
  | file =>
    rw [getMemoryLayout_file hmode] at hrun
    cases hrun
  | xen =>
    rw [getMemoryLayout_xen hmode, orReport_error_iff, getPageInfoXen] at hrun
    split at hrun
    · cases hrun
    · split_ifs at hrun

theorem getMemorySize_error : OnlyNullString (getMemorySize h) := by
  intro s e hrun
  rw [getMemorySize] at hrun
  split at hrun
  · split at hrun
    · exact (Except.error.inj hrun).symm
    · cases hrun
  · split at hrun
    · cases hrun
    · cases hrun

theorem initPrelude_error : OnlyNullString (initPrelude h) := by
  refine .orExit (fun s e hrun => absurd hrun getDomainInfo_error) <|
    .orExit readConfigFile_error.orReport <|
    .orExit (fun s e hrun => absurd hrun getMemoryLayout_error) <|
    .orExit ?_ getMemorySize_error.orReport
  intro s e hrun
  rw [setPageOffset_eq] at hrun
  cases hrun

/-- The paging bit of the first virtual CPU can be read and is set. -/
def PagingOn (h : Host) : Prop :=
  ∃ ctxt, h.xcVcpuGetcontext = some ctxt ∧ xaGetBit ctxt.ctrlreg0 31 = true

/-- The strings that are read without a check are there: the image type of an image file, and
the memory size of a domain whose description and paging mode can be had. -/
def StringsRead (h : Host) (s : XaState) : Prop :=
  match s.mode with
  | .file => h.configFile = true → s.imageType ≠ none
  | .xen => h.xcDomainGetinfo ≠ none → PagingOn h → h.xsRead (memoryTargetPath s.domainId) ≠ none

theorem readConfigFile_file_error_iff (hmode : s.mode = .file) :
    (∃ e, readConfigFile h s = .error e) ↔ h.configFile = true ∧ s.imageType = none := by
  rw [readConfigFile]
  by_cases hopen : h.configFile = true
  · rw [if_pos hopen]
    cases himage : s.imageType with
    | none =>
      have hname : configName h s = .error .nullString := by
        rw [configName]
        simp only [hmode, himage]
      rw [bind_of_error hname]
      simp [hopen]
    | some image =>
      have hname : configName h s = .ok (some image, s) := by
        rw [configName]
        simp only [himage]
        split
        · rename_i hxen
          cases hxen.symm.trans hmode
        · rfl
      rw [bind_of_ok hname]
      cases hparse : h.xaParseConfig image with
      | none => simp [hparse]
      | some entry =>
        simp only [hparse, applyConfig]
        split_ifs
        all_goals simp
  · rw [if_neg hopen]
    simp [hopen]

theorem readConfigFile_xen_ok (hmode : s.mode = .xen) :
    ∃ r t, readConfigFile h s = .ok (r, t) := by
  cases hrun : readConfigFile h s with
  | ok p => exact ⟨p.1, p.2, rfl⟩
  | error e =>
    rw [readConfigFile] at hrun
    split_ifs at hrun
    · have hname : ∃ name t, configName h s = .ok (name, t) := by
        rw [configName]
        split
        · exact ⟨_, _, rfl⟩
        · rename_i hfile
          cases hfile.symm.trans hmode
      obtain ⟨name, t, hname⟩ := hname
      rw [bind_of_ok hname] at hrun
      cases name with
      | none => cases hrun
      | some name =>
        cases hparse : h.xaParseConfig name with
        | none =>
          simp only [hparse] at hrun
          cases hrun
        | some entry =>
          simp only [hparse, applyConfig] at hrun
          split_ifs at hrun
    · cases hrun

theorem getPageInfoXen_success_iff :
    (∃ t, getPageInfoXen h s = .ok (.success, t)) ↔ PagingOn h := by
  rw [getPageInfoXen, PagingOn]
  cases h.xcVcpuGetcontext with
  | none => simp
  | some ctxt =>
    simp only
    split_ifs with hbit
    · simp_all
    · simp_all

theorem initPrelude_file_error_iff (hmode : s.mode = .file) :
    (∃ e, initPrelude h s = .error e) ↔ h.configFile = true ∧ s.imageType = none := by
  rw [← readConfigFile_file_error_iff hmode, initPrelude, orExit_success (getDomainInfo_file hmode)]
  refine exists_congr fun e => ?_
  rw [orExit_error_iff, orReport_error_iff]
  constructor
  · rintro (hconf | ⟨u, hconf, hrest⟩)
    · exact hconf
    · exfalso
      have hu := keeps_orReport (readConfigFile_keeps s) s _ u (.refl s) hconf
      have hlayout := getMemoryLayout_file (h := h) (hu.mode.trans hmode)
      have hu₁ := getMemoryLayout_keeps s u _ _ hu hlayout
      have hu₂ := setPageOffset_keeps (h := h) s _ _ _ hu₁ (setPageOffset_eq _)
      rw [orExit_success hlayout, orExit_success (setPageOffset_eq _), orReport_error_iff,
        getMemorySize_file (hu₂.mode.trans hmode)] at hrest
      split at hrest
      · cases hrest
      · cases hrest
  · exact Or.inl

/-- In lax mode a domain is asked for its memory size unless it has no description or no
paging. -/
theorem initPrelude_xen_error_iff (hmode : s.mode = .xen) (hlax : s.errorMode = .failsoft) :
    (∃ e, initPrelude h s = .error e) ↔
      h.xcDomainGetinfo ≠ none ∧ PagingOn h ∧ h.xsRead (memoryTargetPath s.domainId) = none := by
  cases hinfo : h.xcDomainGetinfo with
  | none =>
    have hfirst := getDomainInfo_xen (h := h) hmode
    rw [hinfo, hlax] at hfirst
    rw [initPrelude, orExit_failure hfirst]
    simp
  | some sharedInfoFrame =>
    have hfirst := getDomainInfo_xen (h := h) hmode
    rw [hinfo] at hfirst
    have hs₁ := getDomainInfo_keeps s s _ _ (.refl s) hfirst
    -- the configuration may be missing, which is a minor error
    obtain ⟨r, s₂, hconf⟩ := readConfigFile_xen_ok (h := h) (hs₁.mode.trans hmode)
    have hs₂ := readConfigFile_keeps s _ _ _ hs₁ hconf
    have hconf' : orReport .minor (readConfigFile h)
        (initXenVersion h { s with sharedInfoFrame }) = .ok (.success, s₂) := by
      refine orReport_ok_iff.mpr ?_
      cases r with
      | success => exact Or.inl ⟨rfl, hconf⟩
      | failure =>
        refine Or.inr ⟨?_, hconf⟩
        rw [hs₂.errorMode, hlax]
        rfl
    have hlayout : getMemoryLayout h s₂ = orReport .critical (getPageInfoXen h) s₂ :=
      getMemoryLayout_xen (hs₂.mode.trans hmode)
    rw [initPrelude, orExit_success hfirst, orExit_success hconf']
    by_cases hpaging : PagingOn h
    · obtain ⟨s₃, hpage⟩ := (getPageInfoXen_success_iff (s := s₂)).mpr hpaging
      have hpage' : getMemoryLayout h s₂ = .ok (.success, s₃) :=
        hlayout.trans (orReport_ok_iff.mpr (Or.inl ⟨rfl, hpage⟩))
      have hs₃ := getMemoryLayout_keeps s s₂ _ s₃ hs₂ hpage'
      have hs₄ := setPageOffset_keeps (h := h) s _ _ _ hs₃ (setPageOffset_eq _)
      have hsize := getMemorySize_xen (h := h) (hs₄.mode.trans hmode)
      rw [hs₄.domainId] at hsize
      rw [orExit_success hpage', orExit_success (setPageOffset_eq _)]
      simp only [orReport_error_iff, hsize]
      cases h.xsRead (memoryTargetPath s.domainId) with
      | none => simp [hpaging]
      | some target => simp
    · have hpage : ∃ s₃, getMemoryLayout h s₂ = .ok (.failure, s₃) := by
        cases hrun : getMemoryLayout h s₂ with
        | error e => exact absurd hrun getMemoryLayout_error
        | ok p =>
          obtain ⟨r, s₃⟩ := p
          cases r with
          | failure => exact ⟨s₃, rfl⟩
          | success =>
            rcases orReport_ok_iff.mp (hlayout.symm.trans hrun) with ⟨-, hok⟩ | ⟨hrep, -⟩
            · exact absurd (getPageInfoXen_success_iff.mp ⟨s₃, hok⟩) hpaging
            · cases hm : s₃.errorMode with
              | failhard =>
                rw [hm] at hrep
                cases hrep
              | failsoft =>
                rw [hm] at hrep
                cases hrep
      obtain ⟨s₃, hpage⟩ := hpage
      rw [orExit_failure hpage]
      simp [hpaging]

/-- **In lax mode the steps before the operating system come to an end** exactly when no
string is missing. -/
theorem initPrelude_lax_ok_iff (hlax : s.errorMode = .failsoft) :
    (∃ r t, initPrelude h s = .ok (r, t)) ↔ StringsRead h s := by
  have hok : (∃ r t, initPrelude h s = .ok (r, t)) ↔ ¬ ∃ e, initPrelude h s = .error e := by
    cases initPrelude h s with
    | error e => simp
    | ok p => simpa using ⟨p.1, p.2, rfl⟩
  rw [hok, StringsRead]
  cases hmode : s.mode with
  | file =>
    rw [initPrelude_file_error_iff hmode]
    simp
  | xen =>
    rw [initPrelude_xen_error_iff hmode hlax]
    simp

/-! ## Strict and lax mode -/

/-- Where the step succeeds in strict mode, it succeeds in lax mode with the same effect. -/
def Mirrors (step : XaM Ret) : Prop :=
  ∀ s t : XaState, step (s.withMode .failhard) = .ok (.success, t) →
    t = t.withMode .failhard ∧
      step (s.withMode .failsoft) = .ok (.success, t.withMode .failsoft)

/-- The step does not look at the error mode. -/
def ModeBlind (step : XaM Ret) : Prop :=
  ∀ (s : XaState) m r t, step s = .ok (r, t) → step (s.withMode m) = .ok (r, t.withMode m)

theorem Mirrors.orExit {first second : XaM Ret} (hfirst : Mirrors first)
    (hsecond : Mirrors second) : Mirrors (orExit first second) := by
  intro s t hrun
  obtain ⟨⟨⟩, -⟩ | ⟨u, h1, h2⟩ := orExit_ok_iff.mp hrun
  obtain ⟨hu, h1'⟩ := hfirst s u h1
  rw [hu] at h2
  obtain ⟨ht, h2'⟩ := hsecond u t h2
  exact ⟨ht, orExit_ok_iff.mpr (Or.inr ⟨_, h1', h2'⟩)⟩

theorem ModeBlind.mirrors {step : XaM Ret} (hstep : ModeBlind step) : Mirrors step := by
  intro s t hrun
  have hsame := hrun.symm.trans (hstep (s.withMode .failhard) .failhard _ _ hrun)
  exact ⟨(Prod.mk.inj (Except.ok.inj hsame)).2, hstep (s.withMode .failhard) .failsoft _ _ hrun⟩

/-- In strict mode a reported failure is one of the caller. -/
theorem ModeBlind.orReport {step : XaM Ret} (hstep : ModeBlind step) (errorType : ErrorType) :
    Mirrors (orReport errorType step) := by
  intro s t hrun
  rcases orReport_ok_iff.mp hrun with ⟨-, h1⟩ | ⟨hrep, h1⟩
  · obtain ⟨ht, h1'⟩ := hstep.mirrors s t h1
    exact ⟨ht, orReport_ok_iff.mpr (Or.inl ⟨rfl, h1'⟩)⟩
  · have hsame := h1.symm.trans (hstep (s.withMode .failhard) .failhard _ _ h1)
    rw [(Prod.mk.inj (Except.ok.inj hsame)).2] at hrep
    cases errorType with
    | critical => cases hrep
    | minor => cases hrep

theorem getDomainInfo_mirrors : Mirrors (getDomainInfo h) := by
  intro s t hrun
  cases hmode : s.mode with
  | file =>
    rw [getDomainInfo_file (show (s.withMode .failhard).mode = .file from hmode)] at hrun
    rw [getDomainInfo_file (show (s.withMode .failsoft).mode = .file from hmode)]
    cases hrun
    exact ⟨rfl, rfl⟩
  | xen =>
    rw [getDomainInfo_xen (show (s.withMode .failhard).mode = .xen from hmode)] at hrun
    rw [getDomainInfo_xen (show (s.withMode .failsoft).mode = .xen from hmode)]
    cases hinfo : h.xcDomainGetinfo with
    | none =>
      simp only [hinfo] at hrun
      cases hrun
    | some sharedInfoFrame =>
      simp only [hinfo] at hrun
      cases hrun
      exact ⟨rfl, rfl⟩

theorem applyConfig_modeBlind (entry : XaConfigEntry) : ModeBlind (applyConfig entry) := by
  intro s m r t hrun
  rw [applyConfig] at hrun ⊢
  split_ifs at hrun ⊢
  all_goals
    cases hrun
    rfl

theorem readConfigFile_modeBlind : ModeBlind (readConfigFile h) := by
  intro s m r t hrun
  rw [readConfigFile] at hrun ⊢
  by_cases hopen : h.configFile = true
  · rw [if_pos hopen] at hrun ⊢
    obtain ⟨name, u, hname, hrest⟩ := bind_ok_iff.mp hrun
    have hname' : configName h (s.withMode m) = .ok (name, u.withMode m) := by
      rw [configName] at hname ⊢
      show (match s.mode with | .xen => _ | .file => _) = _
      cases hmode : s.mode with
      | xen =>
        simp only [hmode] at hname
        cases hname
        rfl
      | file =>
        simp only [hmode] at hname
        show (match s.imageType with | none => _ | some name => _) = _
        cases himage : s.imageType with
        | none =>
          simp only [himage] at hname
          cases hname
        | some image =>
          simp only [himage] at hname
          cases hname
          rfl
    rw [bind_of_ok hname']
    cases name with
    | none =>
      cases hrest
      rfl
    | some name =>
      cases hparse : h.xaParseConfig name with
      | none =>
        simp only [hparse] at hrest ⊢
        cases hrest
        rfl
      | some entry =>
        simp only [hparse] at hrest ⊢
        exact applyConfig_modeBlind entry u m r t hrest
  · rw [if_neg hopen] at hrun ⊢
    cases hrun
    rfl

theorem getPageInfoXen_modeBlind : ModeBlind (getPageInfoXen h) := by
  intro s m r t hrun
  rw [getPageInfoXen] at hrun ⊢
  cases hctxt : h.xcVcpuGetcontext with
  | none =>
    simp only [hctxt] at hrun
    cases hrun
    rfl
  | some ctxt =>
    simp only [hctxt] at hrun ⊢
    split_ifs at hrun ⊢
    all_goals
      cases hrun
      rfl

theorem getMemoryLayout_mirrors : Mirrors (getMemoryLayout h) := by
  intro s t hrun
  cases hmode : s.mode with
  | xen =>
    rw [getMemoryLayout_xen (show (s.withMode .failhard).mode = .xen from hmode)] at hrun
    rw [getMemoryLayout_xen (show (s.withMode .failsoft).mode = .xen from hmode)]
    exact getPageInfoXen_modeBlind.orReport .critical s t hrun
  | file =>
    rw [getMemoryLayout_file (show (s.withMode .failhard).mode = .file from hmode)] at hrun
    rw [getMemoryLayout_file (show (s.withMode .failsoft).mode = .file from hmode)]
    cases hrun
    exact ⟨rfl, rfl⟩

theorem setPageOffset_modeBlind : ModeBlind (setPageOffset h) := by
  intro s m r t hrun
  rw [setPageOffset_eq] at hrun ⊢
  cases hrun
  have hoffset : afterPageOffset h (s.withMode m) = (afterPageOffset h s).withMode m := by
    rw [afterPageOffset, afterPageOffset]
    show (match s.mode with | .xen => _ | .file => _) = _
    cases s.mode with
    | xen => rfl
    | file => rfl
  rw [hoffset]

theorem getMemorySize_modeBlind : ModeBlind (getMemorySize h) := by
  intro s m r t hrun
  cases hmode : s.mode with
  | xen =>
    rw [getMemorySize_xen hmode] at hrun
    rw [getMemorySize_xen (show (s.withMode m).mode = .xen from hmode)]
    show (match h.xsRead (memoryTargetPath s.domainId) with | none => _ | some target => _) = _
    cases htarget : h.xsRead (memoryTargetPath s.domainId) with
    | none =>
      simp only [htarget] at hrun
      cases hrun
    | some target =>
      simp only [htarget] at hrun
      cases hrun
      rfl
  | file =>
    rw [getMemorySize_file hmode] at hrun
    rw [getMemorySize_file (show (s.withMode m).mode = .file from hmode)]
    cases hstat : h.fstat with
    | none =>
      simp only [hstat] at hrun
      cases hrun
      rfl
    | some size =>
      simp only [hstat] at hrun
      cases hrun
      rfl

/-- **The steps before the operating system succeed in lax mode as they do in strict mode.** -/
theorem initPrelude_mirrors : Mirrors (initPrelude h) :=
  .orExit getDomainInfo_mirrors <|
  .orExit (readConfigFile_modeBlind.orReport .minor) <|
  .orExit getMemoryLayout_mirrors <|
  .orExit setPageOffset_modeBlind.mirrors <|
  getMemorySize_modeBlind.orReport .critical

end XenAccess
