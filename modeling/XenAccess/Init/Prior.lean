import XenAccess.Init.Helper
import XenAccess.Model.Image

/-!
# Earlier contents of the instance

`xa_init_vm_private` clears the instance and `xa_init_file_private` does not. What was in the
instance before shows up in the result wherever a step leaves a field as it is: an offset that
is not configured, a value that could not be read, and the page directory with which the
first translation of a Windows guest is made. The result of this module says when none of
this happens.
-/

namespace XenAccess

open Prog

variable {h : Host} {fuel : Nat} {m : ErrorMode} {s t u : XaState} {r : Ret}

/-! ## Image files with the same settings -/

/-- Parameters of an image file that agree in all that is used to read it. -/
structure SameFile (p p' : XaParams) : Prop where
  mode : p.mode = .file
  mode' : p'.mode = .file
  pageOffset : p.pageOffset = p'.pageOffset
  pageShift : p.pageShift = p'.pageShift
  pageSize : p.pageSize = p'.pageSize
  kpgd : p.kpgd = p'.kpgd
  pae : p.pae = p'.pae
  size : p.size = p'.size

variable {p p' : XaParams}

theorem SameFile.samePhys (hp : SameFile p p') (hos : p.os = p'.os) : SamePhys h p p' := by
  refine ⟨?_, hos, hp.pageSize, hp.size⟩
  funext physAddress prot
  simp only [xaAccessPa, xaMmapPfn, xaMapPage, xaMapFileRange, hp.mode, hp.mode', hp.pageShift,
    hp.pageSize, hp.size]

theorem SameFile.accessMa (hp : SameFile p p') : xaAccessMa h p = xaAccessMa h p' := by
  funext machAddress prot
  simp only [xaAccessMa, xaMmapMfn, xaMapPage, xaMapFileRange, hp.mode, hp.mode', hp.pageShift,
    hp.pageSize, hp.size]

theorem SameFile.translate (hp : SameFile p p') : xaTranslateKv2p h p = xaTranslateKv2p h p' := by
  funext v
  have hlong : xaReadLongMach h p = xaReadLongMach h p' := by
    funext maddr
    rw [xaReadLongMach, xaReadLongMach, hp.accessMa]
  have hlonglong : xaReadLongLongMach h p = xaReadLongLongMach h p' := by
    funext maddr
    rw [xaReadLongLongMach, xaReadLongLongMach, hp.accessMa]
  simp only [xaTranslateKv2p, xaPagetableLookup, xaCurrentCr3, hp.mode, hp.mode', hp.pae,
    hp.pageOffset, hp.kpgd, v2pPae, v2pPaeBody, v2pNopae, v2pNopaeBody, getPdpi, getPgdPae,
    getPgdNopae, getPtePae, getPteNopae, getLargePaddr, pgdIndex, pteIndex, hlong, hlonglong]

theorem SameFile.kernelVa (hp : SameFile p p') : refKernelVa h p = refKernelVa h p' := by
  funext v prot
  rw [refKernelVa, refKernelVa, accessTranslated, accessTranslated, hp.translate, hp.accessMa]

theorem SameFile.flipPae (hp : SameFile p p') :
    SameFile { p with pae := !p.pae } { p' with pae := !p'.pae } :=
  ⟨hp.mode, hp.mode', hp.pageOffset, hp.pageShift, hp.pageSize, hp.kpgd, congrArg (!·) hp.pae,
    hp.size⟩

theorem SameFile.mapInitTask (hp : SameFile p p') : mapInitTask h p = mapInitTask h p' := by
  funext v
  have hstored : storedMach h p v = storedMach h p' v := by
    rw [storedMach, storedMach, hp.translate, pageBase_congr hp.pageSize, pageBase_congr hp.pageSize]
  rw [XenAccess.mapInitTask, XenAccess.mapInitTask, hp.kernelVa, hp.flipPae.kernelVa, hstored]

theorem SameFile.setKpgd (hp : SameFile p p') (kpgd : U32) :
    SameFile { p with kpgd } { p' with kpgd } :=
  ⟨hp.mode, hp.mode', hp.pageOffset, hp.pageShift, hp.pageSize, rfl, hp.pae, hp.size⟩

theorem SameFile.method1 (hp : SameFile p p') (hos : p.os = p'.os) :
    refKpgdMethod1 h p m = refKpgdMethod1 h p' m := by
  have hphys := hp.samePhys (h := h) hos
  simp only [refKpgdMethod1, refStoreKpgd, hphys.pointer, hphys.readLong, hp.translate, hos,
    hp.kpgd, hp.pageOffset]

theorem SameFile.method2 (hp : SameFile p p') (hos : p.os = p'.os) (fuel : Nat) :
    refKpgdMethod2 h p m fuel = refKpgdMethod2 h p' m fuel := by
  have hphys := hp.samePhys (h := h) hos
  simp only [refKpgdMethod2, refStoreKpgd, hphys.findEprocess, hphys.readLong, hp.kpgd,
    hp.pageOffset]

theorem SameFile.findKpgd (hp : SameFile p p') (hos : p.os = p'.os) (fuel : Nat) :
    refFindKpgd h p m fuel = refFindKpgd h p' m fuel := by
  rw [refFindKpgd, refFindKpgd, hp.method1 hos,
    (hp.setKpgd (refKpgdMethod1 h p' m).kpgd).method2 hos]

/-! ## The configuration of an image file -/

/-- The entry of the configuration for an image type. -/
def configEntry (h : Host) (name : CStr) : Option XaConfigEntry :=
  if h.configFile then h.xaParseConfig name else none

/-- The operating system that an entry names. -/
def entryOs (entry : XaConfigEntry) : OsType :=
  if strncmpEq entry.ostype (cstr "Linux") configStrLength then .linux
  else if strncmpEq entry.ostype (cstr "Windows") configStrLength then .windows
  else .unknown

/-- The offsets in use for an operating system. -/
def osOffsets (osType : OsType) (os : OsUnion) : List U32 :=
  match osType with
  | .linux => [os.w0, os.w1, os.w2, os.w3, os.w4]
  | .windows => [os.w0, os.w1, os.w2, os.w3, os.w4, os.w5, os.w6]
  | .unknown => []

/-- The offsets that `read_config_file` leaves in the instance. -/
def copyOffsets (osType : OsType) (old new : OsUnion) : OsUnion :=
  match osType with
  | .linux => copyLinuxOffsets old new
  | .windows => copyWindowsOffsets old new
  | .unknown => old

theorem applyConfig_known {entry : XaConfigEntry} (hos : entryOs entry ≠ .unknown) :
    applyConfig entry s = .ok (.success, { s with
      sysmap := some entry.sysmap
      osType := entryOs entry
      os := copyOffsets (entryOs entry) s.os entry.offsets }) := by
  rw [applyConfig]
  by_cases hlinux : strncmpEq entry.ostype (cstr "Linux") configStrLength = true
  · have hentry : entryOs entry = .linux := if_pos hlinux
    rw [if_pos hlinux, hentry]
    rfl
  · by_cases hwindows : strncmpEq entry.ostype (cstr "Windows") configStrLength = true
    · have hentry : entryOs entry = .windows := by rw [entryOs, if_neg hlinux, if_pos hwindows]
      rw [if_neg hlinux, if_pos hwindows, hentry]
      rfl
    · refine absurd ?_ hos
      rw [entryOs, if_neg hlinux, if_neg hwindows]

theorem applyConfig_unknown {entry : XaConfigEntry} (hos : entryOs entry = .unknown) :
    applyConfig entry s = .ok (.failure, { s with sysmap := some entry.sysmap }) := by
  rw [applyConfig]
  by_cases hlinux : strncmpEq entry.ostype (cstr "Linux") configStrLength = true
  · rw [entryOs, if_pos hlinux] at hos
    cases hos
  · by_cases hwindows : strncmpEq entry.ostype (cstr "Windows") configStrLength = true
    · rw [entryOs, if_neg hlinux, if_pos hwindows] at hos
      cases hos
    · rw [if_neg hlinux, if_neg hwindows]

theorem readConfigFile_entry {name : CStr} (hmode : s.mode = .file)
    (himage : s.imageType = some name) :
    readConfigFile h s =
      match configEntry h name with
      | none => .ok (.failure, s)
      | some entry => applyConfig entry s := by
  have hname : configName h s = .ok (some name, s) := by
    rw [configName]
    simp only [himage]
    split
    · rename_i hxen
      cases hxen.symm.trans hmode
    · rfl
  rw [readConfigFile, configEntry]
  by_cases hopen : h.configFile = true
  · rw [if_pos hopen, if_pos hopen, bind_of_ok hname]
    simp only
    cases h.xaParseConfig name with
    | none => rfl
    | some entry => rfl
  · rw [if_neg hopen, if_neg hopen]
    rfl

/-! ## The steps before the operating system -/

/-- The instance as `xa_init_file_private` hands it to `helper_init`. -/
def fileStart (imageType : CStr) (m : ErrorMode) (s : XaState) : XaState :=
  startState m { s with mode := .file, imageType := some (imageType.take maxImageTypeLen) }

theorem xaInitFilePrivate_eq (filename imageType : CStr) :
    xaInitFilePrivate h fuel filename imageType m s =
      if h.fopenImage filename then helperInit h fuel (fileStart imageType m s)
      else .ok (.failure, { s with mode := .file, errorMode := m }) := by
  rw [xaInitFilePrivate, modify_bind]
  by_cases hopen : h.fopenImage filename = true
  · rw [if_pos hopen, if_pos hopen]
    rfl
  · rw [if_neg hopen, if_neg hopen]
    rfl

/-- The instance of an image file when the steps for the operating system start. -/
def configured (entry : XaConfigEntry) (size : U64) (s : XaState) : XaState :=
  { initPageOffset { s with
      sysmap := some entry.sysmap
      osType := entryOs entry
      os := copyOffsets (entryOs entry) s.os entry.offsets
      hvm := true
      pae := false } with
    size := size.setWidth 32 }

section prelude

variable {imageType : CStr}

theorem readConfigFile_start :
    readConfigFile h (fileStart imageType m s) =
      match configEntry h (imageType.take maxImageTypeLen) with
      | none => .ok (.failure, fileStart imageType m s)
      | some entry => applyConfig entry (fileStart imageType m s) :=
  readConfigFile_entry rfl rfl

/-- The steps after the configuration. -/
theorem initPrelude_after_config {s₁ : XaState}
    (hconf : orReport .minor (readConfigFile h) (fileStart imageType m s) = .ok (.success, s₁))
    (hmode : s₁.mode = .file) :
    initPrelude h (fileStart imageType m s) =
      orReport .critical (getMemorySize h) (initPageOffset { s₁ with hvm := true, pae := false }) := by
  have hoffset : afterPageOffset h { s₁ with hvm := true, pae := false } =
      initPageOffset { s₁ with hvm := true, pae := false } := by
    rw [afterPageOffset]
    split
    · rename_i hxen
      cases hxen.symm.trans hmode
    · rfl
  rw [initPrelude, orExit_success (getDomainInfo_file rfl), orExit_success hconf,
    orExit_success (getMemoryLayout_file hmode), orExit_success (setPageOffset_eq _), hoffset]

theorem getMemorySize_sized {size : U64} (hmode : s.mode = .file) (hsize : h.fstat = some size) :
    orReport .critical (getMemorySize h) s =
      .ok (.success, { s with size := size.setWidth 32 }) := by
  refine orReport_ok_iff.mpr (Or.inl ⟨rfl, ?_⟩)
  rw [getMemorySize_file hmode, hsize]

theorem getMemorySize_unsized (hmode : s.mode = .file) (hsize : h.fstat = none) :
    orReport .critical (getMemorySize h) s = .ok (.failure, s) := by
  refine orReport_ok_iff.mpr (Or.inr ⟨?_, ?_⟩)
  · cases s.errorMode with
    | failhard => rfl
    | failsoft => rfl
  · rw [getMemorySize_file hmode, hsize]

theorem initPrelude_known {entry : XaConfigEntry}
    (hentry : configEntry h (imageType.take maxImageTypeLen) = some entry)
    (hos : entryOs entry ≠ .unknown) :
    match h.fstat with
    | some size => initPrelude h (fileStart imageType m s) =
        .ok (.success, configured entry size (fileStart imageType m s))
    | none => ∃ t, initPrelude h (fileStart imageType m s) = .ok (.failure, t) := by
  have hread : readConfigFile h (fileStart imageType m s) = _ := readConfigFile_start
  rw [hentry] at hread
  have hconf : orReport .minor (readConfigFile h) (fileStart imageType m s) = .ok (.success, _) :=
    orReport_ok_iff.mpr (Or.inl ⟨rfl, hread.trans (applyConfig_known hos)⟩)
  rw [initPrelude_after_config hconf rfl]
  cases hsize : h.fstat with
  | some size => exact getMemorySize_sized rfl hsize
  | none => exact ⟨_, getMemorySize_unsized rfl hsize⟩

/-- Without a usable configuration the type of the operating system is the old one. -/
theorem initPrelude_unknown
    (hunknown : ∀ entry, configEntry h (imageType.take maxImageTypeLen) = some entry →
      entryOs entry = .unknown)
    (hrun : initPrelude h (fileStart imageType m s) = .ok (r, t)) : t.osType = s.osType := by
  have hread : ∃ s₁, readConfigFile h (fileStart imageType m s) = .ok (.failure, s₁) ∧
      s₁.osType = s.osType ∧ s₁.mode = .file := by
    rw [readConfigFile_start]
    cases hentry : configEntry h (imageType.take maxImageTypeLen) with
    | none => exact ⟨_, rfl, rfl, rfl⟩
    | some entry => exact ⟨_, applyConfig_unknown (hunknown entry hentry), rfl, rfl⟩
  obtain ⟨s₁, hread, hos₁, hmode₁⟩ := hread
  have hconf : orReport .minor (readConfigFile h) (fileStart imageType m s) =
      .ok (xaReportError s₁.errorMode .minor, s₁) := orReport_ok_iff.mpr (Or.inr ⟨rfl, hread⟩)
  cases hrep : xaReportError s₁.errorMode .minor with
  | failure =>
    rw [hrep] at hconf
    rw [initPrelude, orExit_success (getDomainInfo_file rfl), orExit_failure hconf] at hrun
    cases hrun
    exact hos₁
  | success =>
    rw [hrep] at hconf
    rw [initPrelude_after_config hconf hmode₁] at hrun
    rcases orReport_ok_iff.mp hrun with ⟨-, hsize⟩ | ⟨-, hsize⟩
    all_goals
      obtain ⟨size, rfl⟩ := getMemorySize_state hsize
      exact hos₁

end prelude

/-! ## Offsets -/

theorem copyOffset_of_ne {old new : U32} (hne : new ≠ 0) : copyOffset old new = new := by
  rw [copyOffset, if_pos (by simpa using hne)]

/-- A configured offset shows through different old ones. -/
theorem ne_zero_of_copyOffset {new : U32} (hsame : copyOffset 1 new = copyOffset 2 new) :
    new ≠ 0 := by
  rintro rfl
  cases hsame

/-- Seven times the same word. -/
def sameWords (w : U32) : OsUnion := ⟨w, w, w, w, w, w, w⟩

theorem osOffsets_copy {osType : OsType} {old new : OsUnion}
    (hne : ∀ w ∈ osOffsets osType new, w ≠ 0) :
    osOffsets osType (copyOffsets osType old new) = osOffsets osType new := by
  cases osType with
  | unknown => rfl
  | linux =>
    simp only [osOffsets, List.forall_mem_cons] at hne
    obtain ⟨h0, h1, h2, h3, h4, -⟩ := hne
    simp only [osOffsets, copyOffsets, copyLinuxOffsets, copyOffset_of_ne h0, copyOffset_of_ne h1,
      copyOffset_of_ne h2, copyOffset_of_ne h3, copyOffset_of_ne h4]
  | windows =>
    simp only [osOffsets, List.forall_mem_cons] at hne
    obtain ⟨h0, h1, h2, h3, h4, h5, h6, -⟩ := hne
    simp only [osOffsets, copyOffsets, copyWindowsOffsets, copyLinuxOffsets, copyOffset_of_ne h0,
      copyOffset_of_ne h1, copyOffset_of_ne h2, copyOffset_of_ne h3, copyOffset_of_ne h4,
      copyOffset_of_ne h5, copyOffset_of_ne h6]

theorem osOffsets_ne_zero {osType : OsType} {new : OsUnion}
    (hsame : osOffsets osType (copyOffsets osType (sameWords 1) new) =
      osOffsets osType (copyOffsets osType (sameWords 2) new)) :
    ∀ w ∈ osOffsets osType new, w ≠ 0 := by
  cases osType with
  | unknown => simp [osOffsets]
  | linux =>
    simp only [osOffsets, copyOffsets, copyLinuxOffsets, sameWords, List.cons.injEq, and_true]
      at hsame
    obtain ⟨h0, h1, h2, h3, h4⟩ := hsame
    simp only [osOffsets, List.forall_mem_cons]
    exact ⟨ne_zero_of_copyOffset h0, ne_zero_of_copyOffset h1, ne_zero_of_copyOffset h2,
      ne_zero_of_copyOffset h3, ne_zero_of_copyOffset h4, by simp⟩
  | windows =>
    simp only [osOffsets, copyOffsets, copyWindowsOffsets, copyLinuxOffsets, sameWords,
      List.cons.injEq, and_true] at hsame
    obtain ⟨h0, h1, h2, h3, h4, h5, h6⟩ := hsame
    simp only [osOffsets, List.forall_mem_cons]
    exact ⟨ne_zero_of_copyOffset h0, ne_zero_of_copyOffset h1, ne_zero_of_copyOffset h2,
      ne_zero_of_copyOffset h3, ne_zero_of_copyOffset h4, ne_zero_of_copyOffset h5,
      ne_zero_of_copyOffset h6, by simp⟩

/-- With all offsets of a Windows entry configured, nothing of the old ones is left. -/
theorem copyWindowsOffsets_of_ne {old new : OsUnion}
    (hne : ∀ w ∈ osOffsets .windows new, w ≠ 0) : copyWindowsOffsets old new = new := by
  simp only [osOffsets, List.forall_mem_cons] at hne
  obtain ⟨h0, h1, h2, h3, h4, h5, h6, -⟩ := hne
  simp only [copyWindowsOffsets, copyLinuxOffsets, copyOffset_of_ne h0, copyOffset_of_ne h1,
    copyOffset_of_ne h2, copyOffset_of_ne h3, copyOffset_of_ne h4, copyOffset_of_ne h5,
    copyOffset_of_ne h6]

/-! ## The result of initialisation -/

/-- What a call of `xa_init_file_private` gives: the return value, and the fields that the
steps for the operating system and the configuration set. -/
structure InitResult where
  ret : Ret
  osType : OsType
  sysmap : Option CStr
  offsets : List U32
  kpgd : U32
  initTask : U32

def initResult (r : Ret) (t : XaState) : InitResult :=
  { ret := r, osType := t.osType, sysmap := t.sysmap, offsets := osOffsets t.osType t.os
    kpgd := t.kpgd, initTask := t.initTask }

/-- For any two earlier contents of the instance, the call returns with the same result. -/
def PriorIndependent (h : Host) (fuel : Nat) (filename imageType : CStr) (m : ErrorMode) : Prop :=
  ∀ s s', ∃ r t r' t', xaInitFilePrivate h fuel filename imageType m s = .ok (r, t) ∧
    xaInitFilePrivate h fuel filename imageType m s' = .ok (r', t') ∧
    initResult r t = initResult r' t'

/-- The page directory of a Linux image is in its System.map, and under it `init_task` can be
mapped. The link of `init_task` is then loaded through that mapping; behind the end of the page it
is what is mapped there, which does not come from the instance either. -/
def LinuxFound (h : Host) (u : XaState) : Prop :=
  ∃ kpgd, linuxKpgd h u = some kpgd ∧
    ((symbolVirt h u initTaskSymbol).bind (mapInitTask h { u.toXaParams with kpgd })).isSome

/-- The place that the exported pointer is translated to with the table `k`. A pointer that
cannot be read counts as zero. -/
def pointedPlace (h : Host) (u : XaState) (k : U32) : U32 :=
  xaTranslateKv2p h { u.toXaParams with kpgd := k } ((systemProcessPointer h u.toXaParams).getD 0)

/-- The words of the image where a process structure is taken to be: its page directory, at the
given offset, and its link of the task list. -/
structure ProcessWords (h : Host) (u : XaState) (sysproc pdbase directory link : U32) : Prop where
  directory : xaReadLongPhys h u.toXaParams (sysproc + pdbase) = some directory
  link : xaReadLongPhys h u.toXaParams (sysproc + u.os.winTasks) = some link

/-- Behind each place that the exported pointer can be translated to, the image has the same page
directory and the same link of the task list. In strict mode the process that the search through
memory finds takes the place of a pointer that leads to no page directory. -/
def WindowsFound (h : Host) (fuel : Nat) (m : ErrorMode) (u : XaState) : Prop :=
  ∃ directory link, match m with
    | .failhard => directory ≠ 0 ∧ ∀ k,
        systemProcessPointer h u.toXaParams ≠ none ∧
            ProcessWords h u (pointedPlace h u k) u.os.winPdbase directory link ∨
          (systemProcessPointer h u.toXaParams = none ∨ ∀ word,
              xaReadLongPhys h u.toXaParams (pointedPlace h u k + u.os.winPdbase) = some word →
                word = 0) ∧
            ∃ sysproc, sysproc ≠ 0 ∧
              windowsFindEprocess h u.toXaParams fuel (cstr "System") = .ok sysproc ∧
              ProcessWords h u sysproc 0x18 directory link
    -- a page directory that cannot be read is the old one
    | .failsoft => ∀ k,
        (∀ word, xaReadLongPhys h u.toXaParams (pointedPlace h u k + u.os.winPdbase) = some word →
            word = directory) ∧
          (xaReadLongPhys h u.toXaParams (pointedPlace h u k + u.os.winPdbase) = none →
            k = directory) ∧
          xaReadLongPhys h u.toXaParams (pointedPlace h u k + u.os.winTasks) = some link

/-- The image and its configuration decide the result: the image can be opened and has a
size, its entry names a known operating system and sets all of its offsets, and the values
that are read are found. -/
def ImageDecides (h : Host) (fuel : Nat) (filename imageType : CStr) (m : ErrorMode) : Prop :=
  h.fopenImage filename = true ∧
    ∃ entry size, configEntry h (imageType.take maxImageTypeLen) = some entry ∧
      h.fstat = some size ∧ (∀ w ∈ osOffsets (entryOs entry) entry.offsets, w ≠ 0) ∧
      match entryOs entry with
      | .linux => LinuxFound h (configured entry size (fileStart imageType m (zeroState 0)))
      | .windows => WindowsFound h fuel m (configured entry size (fileStart imageType m (zeroState 0)))
      | .unknown => False

/-! ## The process that is taken -/

theorem directoryAt_eq_some_iff {paddr directory : U32} :
    directoryAt h p paddr = some directory ↔
      xaReadLongPhys h p paddr = some directory ∧ directory ≠ 0 := by
  rw [directoryAt, Option.filter_eq_some_iff, decide_eq_true_eq]

theorem directoryAt_eq_none_iff {paddr : U32} :
    directoryAt h p paddr = none ↔ ∀ word, xaReadLongPhys h p paddr = some word → word = 0 := by
  rw [directoryAt, Option.filter_eq_none_iff]
  simp only [decide_eq_true_eq, ne_eq, not_not]

section taken

variable {k sysproc directory : U32}

theorem pointerProcess_eq :
    pointerProcess h { u.toXaParams with kpgd := k } =
      (systemProcessPointer h u.toXaParams).bind fun _ =>
        (directoryAt h u.toXaParams (pointedPlace h u k + u.os.winPdbase)).map
          (pointedPlace h u k, ·) := by
  have hphys := samePhys_kpgd h u.toXaParams k u.initTask
  have hpointer : systemProcessPointer h { u.toXaParams with kpgd := k } =
      systemProcessPointer h u.toXaParams := hphys.pointer
  have hdirectory (paddr : U32) : directoryAt h { u.toXaParams with kpgd := k } paddr =
      directoryAt h u.toXaParams paddr := congrArg (Option.filter _) (hphys.readLong paddr)
  unfold pointerProcess pointedPlace
  rw [hpointer]
  cases systemProcessPointer h u.toXaParams with
  | none => rw [Option.bind_none, Option.bind_none]
  | some ptr => simp only [Option.bind_some, Option.getD_some, hdirectory]

theorem scannedProcess_eq_some_iff :
    scannedProcess h u.toXaParams fuel = .ok (some (sysproc, directory)) ↔
      directory ≠ 0 ∧ sysproc ≠ 0 ∧
        windowsFindEprocess h u.toXaParams fuel (cstr "System") = .ok sysproc ∧
        xaReadLongPhys h u.toXaParams (sysproc + 0x18) = some directory := by
  unfold scannedProcess
  cases windowsFindEprocess h u.toXaParams fuel (cstr "System") with
  | error e => simp
  | ok found =>
    by_cases hzero : found = 0
    · subst hzero
      simp only [if_true, Except.ok.injEq, reduceCtorEq, false_iff]
      rintro ⟨-, hne, rfl, -⟩
      exact hne rfl
    · simp only [if_neg hzero, Except.ok.injEq, Option.map_eq_some_iff, directoryAt_eq_some_iff,
        Prod.mk.injEq]
      constructor
      · rintro ⟨_, ⟨hread, hne⟩, rfl, rfl⟩
        exact ⟨hne, hzero, rfl, hread⟩
      · rintro ⟨hne, -, rfl, hread⟩
        exact ⟨directory, ⟨hread, hne⟩, rfl, rfl⟩

theorem systemProcess_eq_some_iff :
    systemProcess h { u.toXaParams with kpgd := k } fuel = .ok (some (sysproc, directory)) ↔
      directory ≠ 0 ∧ (systemProcessPointer h u.toXaParams ≠ none ∧ sysproc = pointedPlace h u k ∧
          xaReadLongPhys h u.toXaParams (sysproc + u.os.winPdbase) = some directory ∨
        (systemProcessPointer h u.toXaParams = none ∨ ∀ word,
            xaReadLongPhys h u.toXaParams (pointedPlace h u k + u.os.winPdbase) = some word →
              word = 0) ∧
          sysproc ≠ 0 ∧ windowsFindEprocess h u.toXaParams fuel (cstr "System") = .ok sysproc ∧
          xaReadLongPhys h u.toXaParams (sysproc + 0x18) = some directory) := by
  have hphys := samePhys_kpgd h u.toXaParams k u.initTask
  have hscan : scannedProcess h { u.toXaParams with kpgd := k } fuel =
      scannedProcess h u.toXaParams fuel := hphys.scannedProcess fuel
  rw [systemProcess, pointerProcess_eq, hscan]
  cases systemProcessPointer h u.toXaParams with
  | none => simp [scannedProcess_eq_some_iff]
  | some ptr =>
    rw [Option.bind_some]
    cases hdir : directoryAt h u.toXaParams (pointedPlace h u k + u.os.winPdbase) with
    | none =>
      have hzero := directoryAt_eq_none_iff.mp hdir
      simp only [Option.map_none, scannedProcess_eq_some_iff]
      constructor
      · rintro ⟨hne, hscanned⟩
        exact ⟨hne, .inr ⟨.inr hzero, hscanned⟩⟩
      · rintro ⟨hne, ⟨-, rfl, hread⟩ | ⟨-, hscanned⟩⟩
        · exact absurd (hzero directory hread) hne
        · exact ⟨hne, hscanned⟩
    | some word =>
      obtain ⟨hword, hnonzero⟩ := directoryAt_eq_some_iff.mp hdir
      simp only [Option.map_some, Except.ok.injEq, Option.some.injEq, Prod.mk.injEq]
      constructor
      · rintro ⟨rfl, rfl⟩
        exact ⟨hnonzero, .inl ⟨Option.some_ne_none ptr, rfl, hword⟩⟩
      · rintro ⟨hne, ⟨-, rfl, hread⟩ | ⟨hnone | hzero, -⟩⟩
        · exact ⟨rfl, Option.some.inj (hword.symm.trans hread)⟩
        · cases hnone
        · exact absurd (hzero word hword) hnonzero

theorem laxProcess_eq : laxProcess h { u.toXaParams with kpgd := k } = pointedPlace h u k := by
  have hpointer : systemProcessPointer h { u.toXaParams with kpgd := k } =
      systemProcessPointer h u.toXaParams := (samePhys_kpgd h u.toXaParams k u.initTask).pointer
  rw [laxProcess, pointedPlace, hpointer]

theorem laxDirectory_eq_iff :
    laxDirectory h { u.toXaParams with kpgd := k } = directory ↔
      (∀ word, xaReadLongPhys h u.toXaParams (pointedPlace h u k + u.os.winPdbase) = some word →
          word = directory) ∧
        (xaReadLongPhys h u.toXaParams (pointedPlace h u k + u.os.winPdbase) = none →
          k = directory) := by
  rw [laxDirectory, laxProcess_eq]
  show (xaReadLongPhys h u.toXaParams (pointedPlace h u k + u.os.winPdbase)).getD k = directory ↔ _
  cases xaReadLongPhys h u.toXaParams (pointedPlace h u k + u.os.winPdbase) with
  | none => simp
  | some word => simp

/-- The words decide which process is taken, and with which page directory and link. -/
theorem windowsFound_iff_taken : WindowsFound h fuel m u ↔
    ∃ directory link, ∀ k, ∃ sysproc,
      takenProcess h { u.toXaParams with kpgd := k } fuel m = .ok (some (sysproc, directory)) ∧
        xaReadLongPhys h u.toXaParams (sysproc + u.os.winTasks) = some link := by
  unfold WindowsFound
  refine exists_congr fun directory => exists_congr fun link => ?_
  cases m with
  | failhard =>
    simp only [takenProcess, systemProcess_eq_some_iff]
    constructor
    · rintro ⟨hne, hall⟩ k
      rcases hall k with ⟨hptr, hwords⟩ | ⟨hnot, sysproc, hsys, hfind, hwords⟩
      · exact ⟨_, ⟨hne, .inl ⟨hptr, rfl, hwords.directory⟩⟩, hwords.link⟩
      · exact ⟨sysproc, ⟨hne, .inr ⟨hnot, hsys, hfind, hwords.directory⟩⟩, hwords.link⟩
    · intro hall
      obtain ⟨-, ⟨hne, -⟩, -⟩ := hall 0
      refine ⟨hne, fun k => ?_⟩
      obtain ⟨sysproc, ⟨-, ⟨hptr, rfl, hread⟩ | ⟨hnot, hsys, hfind, hread⟩⟩, hlink⟩ := hall k
      · exact .inl ⟨hptr, hread, hlink⟩
      · exact .inr ⟨hnot, sysproc, hsys, hfind, hread, hlink⟩
  | failsoft =>
    refine forall_congr' fun k => ?_
    simp only [takenProcess, laxProcess_eq, Except.ok.injEq, Option.some.injEq, Prod.mk.injEq,
      laxDirectory_eq_iff]
    constructor
    · rintro ⟨hword, hnone, hlink⟩
      exact ⟨_, ⟨rfl, hword, hnone⟩, hlink⟩
    · rintro ⟨_, ⟨rfl, hword, hnone⟩, hlink⟩
      exact ⟨hword, hnone, hlink⟩

end taken

/-! ## Linux -/

section linux

variable {imageType : CStr} {entry : XaConfigEntry} {size : U64} {s' : XaState}

theorem configured_sameFile (kpgd : U32) :
    SameFile { (configured entry size (fileStart imageType m s)).toXaParams with kpgd }
      { (configured entry size (fileStart imageType m s')).toXaParams with kpgd } :=
  ⟨rfl, rfl, rfl, rfl, rfl, rfl, rfl, rfl⟩

theorem configured_sysmapName :
    sysmapName h (configured entry size (fileStart imageType m s)).toXaParams (some entry.sysmap) =
      sysmapName h (configured entry size (fileStart imageType m s')).toXaParams
        (some entry.sysmap) := by
  cases entry.sysmap with
  | nil => rfl
  | cons c name => rfl

theorem configured_linuxKpgd (s s' : XaState) :
    linuxKpgd h (configured entry size (fileStart imageType m s)) =
      linuxKpgd h (configured entry size (fileStart imageType m s')) := by
  rw [linuxKpgd_hvm (s := configured entry size (fileStart imageType m s)) rfl,
    linuxKpgd_hvm (s := configured entry size (fileStart imageType m s')) rfl]
  exact congrArg (sysmapAddress h · (cstr "swapper_pg_dir")) configured_sysmapName

theorem configured_initTask (hos : entryOs entry = .linux) :
    symbolVirt h (configured entry size (fileStart imageType m s)) initTaskSymbol =
      symbolVirt h (configured entry size (fileStart imageType m s')) initTaskSymbol := by
  rw [symbolVirt_linux (s := configured entry size (fileStart imageType m s)) hos,
    symbolVirt_linux (s := configured entry size (fileStart imageType m s')) hos]
  exact congrArg (sysmapAddress h · initTaskSymbol) configured_sysmapName

theorem linuxFound_configured (hos : entryOs entry = .linux)
    (hfound : LinuxFound h (configured entry size (fileStart imageType m s))) :
    LinuxFound h (configured entry size (fileStart imageType m s')) := by
  obtain ⟨kpgd, hk, hmap⟩ := hfound
  refine ⟨kpgd, (configured_linuxKpgd _ _).trans hk, ?_⟩
  rw [configured_initTask hos, (configured_sameFile kpgd).mapInitTask]
  exact hmap

/-- A Linux guest for which both symbols are found. -/
theorem linuxInit_found (hs : LinuxReady s) {kpgd : U32} {a : Access}
    (hk : linuxKpgd h s = some kpgd)
    (hmap : (symbolVirt h s initTaskSymbol).bind (mapInitTask h { s.toXaParams with kpgd }) =
      some a) :
    ∃ t, linuxInit h s = .ok (.success, t) ∧ t.kpgd = kpgd ∧
      t.initTask = a.memory.u32 (a.offset + s.os.linuxTasks) := by
  obtain ⟨t, haft, hend⟩ := linuxInit_ends hs (linuxFindKpgd_some hk)
  obtain ⟨-, hos, hkpgd, -⟩ := haft.kept
  have hmap' : (symbolVirt h s initTaskSymbol).bind
      (mapInitTask h ({ s.withSysmap h with kpgd } : XaState).toXaParams) = some a := hmap
  rw [hmap'] at hend
  have hrun : linuxInit h s =
      .ok (.success, { t with initTask := a.memory.u32 (a.offset + t.os.linuxTasks) }) := hend
  have hos' : t.os = s.os := hos
  rw [hos'] at hrun
  exact ⟨_, hrun, hkpgd, rfl⟩

/-- A Linux guest for which one of the symbols is not found keeps the old value. -/
theorem linuxInit_not_found (hs : LinuxReady s) (hhvm : s.hvm = true)
    (hrun : linuxInit h s = .ok (r, t)) (hnot : ¬ LinuxFound h s) :
    (linuxKpgd h s = none → t.kpgd = s.kpgd) ∧ (linuxKpgd h s ≠ none → t.initTask = s.initTask) := by
  constructor
  · intro hk
    obtain ⟨kpgd, hfind, hold⟩ := linuxFindKpgd_none hk
    cases hold hhvm
    cases hrep : xaReportError s.errorMode .minor with
    | failure =>
      rw [hrep] at hfind
      rw [linuxInit_eq, orExit_failure hfind] at hrun
      cases hrun
      rfl
    | success =>
      rw [hrep] at hfind
      obtain ⟨t', haft, hend⟩ := linuxInit_ends hs hfind
      obtain ⟨-, -, hkpgd, -⟩ := haft.kept
      obtain ⟨initTask, rfl⟩ := hend.state hrun
      exact hkpgd
  · intro hk
    obtain ⟨kpgd, hk⟩ := Option.ne_none_iff_exists'.mp hk
    obtain ⟨t', haft, hend⟩ := linuxInit_ends hs (linuxFindKpgd_some hk)
    obtain ⟨-, -, -, hinit⟩ := haft.kept
    cases hmap : (symbolVirt h s initTaskSymbol).bind
        (mapInitTask h ({ s.withSysmap h with kpgd } : XaState).toXaParams) with
    | some a => exact absurd ⟨kpgd, hk, Option.isSome_of_eq_some hmap⟩ hnot
    | none =>
      rw [hrun, hmap, EndsWith] at hend
      cases hmode : t'.errorMode with
      | failsoft =>
        simp only [hmode] at hend
        cases hend
      | failhard =>
        simp only [hmode] at hend
        obtain ⟨-, rfl⟩ := Prod.mk.inj (Except.ok.inj hend)
        exact hinit

end linux

/-! ## Windows -/

/-- What `windows_init` leaves in an instance with a configured base. -/
structure WindowsEnds (h : Host) (s t : XaState) (found : KpgdResult) : Prop where
  osType : t.osType = .windows
  os : t.os = s.os
  sysmap : t.sysmap = s.sysmap
  kpgd : t.kpgd = found.kpgd
  initTask : t.initTask = refInitTask h s.toXaParams found

theorem windowsInit_found (hs : WindowsReady s) (hne : s.os.ntoskrnl ≠ 0) {found : KpgdResult}
    (hfound : refFindKpgd h s.toXaParams s.errorMode fuel = .ok found) :
    ∃ t, windowsInit h fuel s = .ok (found.ret, t) ∧ WindowsEnds h s t found := by
  obtain ⟨c, n, hrun, -⟩ := windowsInit_eq fuel (windowsFindBase_configured (h := h) hne) hs.os
    hs.empty.cache
  rw [hfound] at hrun
  exact ⟨_, hrun, hs.os, rfl, rfl, rfl, rfl⟩

theorem windowsInit_returns (hs : WindowsReady s) (hne : s.os.ntoskrnl ≠ 0)
    (hrun : windowsInit h fuel s = .ok (r, t)) :
    ∃ found, refFindKpgd h s.toXaParams s.errorMode fuel = .ok found ∧ r = found.ret ∧
      WindowsEnds h s t found := by
  cases hfound : refFindKpgd h s.toXaParams s.errorMode fuel with
  | error e =>
    obtain ⟨c, n, hrun', -⟩ := windowsInit_eq fuel (windowsFindBase_configured (h := h) hne) hs.os
      hs.empty.cache
    rw [hfound] at hrun'
    cases hrun.symm.trans hrun'
  | ok found =>
    obtain ⟨t', hrun', hends⟩ := windowsInit_found hs hne hfound
    obtain ⟨rfl, rfl⟩ := Prod.mk.inj (Except.ok.inj (hrun.symm.trans hrun'))
    exact ⟨found, rfl, rfl, hends⟩

/-! ## Calls for a known operating system -/

section known

variable {filename imageType : CStr} {entry : XaConfigEntry} {size : U64}

theorem xaInitFilePrivate_known (hopen : h.fopenImage filename = true)
    (hentry : configEntry h (imageType.take maxImageTypeLen) = some entry)
    (hos : entryOs entry ≠ .unknown) (hsize : h.fstat = some size) :
    xaInitFilePrivate h fuel filename imageType m s =
      osInit h fuel (configured entry size (fileStart imageType m s)) := by
  have hpre := initPrelude_known (m := m) (s := s) hentry hos
  rw [hsize] at hpre
  rw [xaInitFilePrivate_eq, if_pos hopen, helperInit_of_prelude hpre]

theorem configured_readLong (s s' : XaState) (paddr : U32) :
    xaReadLongPhys h (configured entry size (fileStart imageType m s)).toXaParams paddr =
      xaReadLongPhys h (configured entry size (fileStart imageType m s')).toXaParams paddr := rfl

/-- The value that a failed read leaves in `init_task` is the one from before. -/
theorem configured_refInitTask {os : OsUnion} {found : KpgdResult}
    (hos : (configured entry size (fileStart imageType m s)).os = os) :
    refInitTask h (configured entry size (fileStart imageType m s)).toXaParams found =
      match found.ret with
      | .success => (xaReadLongPhys h
          (configured entry size (fileStart imageType m (zeroState 0))).toXaParams
          (found.sysproc + os.winTasks)).getD s.initTask
      | .failure => s.initTask := by
  rw [refInitTask, configured_readLong s (zeroState 0), hos]
  rfl

theorem configured_os {os : OsType} (hos : entryOs entry = os) (s : XaState) :
    (configured entry size (fileStart imageType m s)).os = copyOffsets os s.os entry.offsets :=
  congrArg (copyOffsets · s.os entry.offsets) hos

theorem configured_windowsOs (hos : entryOs entry = .windows)
    (hne : ∀ w ∈ osOffsets .windows entry.offsets, w ≠ 0) (s : XaState) :
    (configured entry size (fileStart imageType m s)).os = entry.offsets :=
  (configured_os hos s).trans (copyWindowsOffsets_of_ne hne)

theorem configured_linuxReady (hos : entryOs entry = .linux) :
    LinuxReady (configured entry size (fileStart imageType m s)) :=
  ⟨hos, rfl, rfl, rfl, rfl⟩

theorem configured_windowsReady (hos : entryOs entry = .windows) :
    WindowsReady (configured entry size (fileStart imageType m s)) :=
  ⟨hos, rfl, rfl, rfl⟩

/-- One result for all earlier contents. -/
theorem priorIndependent_iff_result :
    PriorIndependent h fuel filename imageType m ↔ ∃ result, ∀ s,
      Returns (xaInitFilePrivate h fuel filename imageType m) s fun r t =>
        initResult r t = result := by
  constructor
  · intro hind
    obtain ⟨r, t, -, -, hrun, -, -⟩ := hind (zeroState 0) (zeroState 0)
    refine ⟨initResult r t, fun s => ?_⟩
    obtain ⟨r₁, t₁, r₂, t₂, h1, h2, hsame⟩ := hind s (zeroState 0)
    cases hrun.symm.trans h2
    exact ⟨r₁, t₁, h1, hsame⟩
  · rintro ⟨result, hall⟩ s s'
    obtain ⟨r, t, h1, hr⟩ := hall s
    obtain ⟨r', t', h2, hr'⟩ := hall s'
    exact ⟨r, t, r', t', h1, h2, hr.trans hr'.symm⟩

theorem linux_result (hopen : h.fopenImage filename = true)
    (hentry : configEntry h (imageType.take maxImageTypeLen) = some entry)
    (hos : entryOs entry = .linux) (hsize : h.fstat = some size)
    (hne : ∀ w ∈ osOffsets .linux entry.offsets, w ≠ 0)
    (hfound : LinuxFound h (configured entry size (fileStart imageType m (zeroState 0)))) :
    ∃ result, ∀ s, Returns (xaInitFilePrivate h fuel filename imageType m) s fun r t =>
      initResult r t = result := by
  obtain ⟨kpgd, hk, hmap⟩ := hfound
  obtain ⟨a, ha⟩ := Option.isSome_iff_exists.mp hmap
  refine ⟨⟨.success, .linux,
    sysmapName h (configured entry size (fileStart imageType m (zeroState 0))).toXaParams
      (some entry.sysmap), osOffsets .linux entry.offsets, kpgd,
    a.memory.u32 (a.offset + entry.offsets.linuxTasks)⟩, fun s => ?_⟩
  have hready : LinuxReady (configured entry size (fileStart imageType m s)) :=
    configured_linuxReady hos
  have ha' : (symbolVirt h (configured entry size (fileStart imageType m s)) initTaskSymbol).bind
      (mapInitTask h { (configured entry size (fileStart imageType m s)).toXaParams with kpgd }) =
      some a := by
    rw [configured_initTask hos, (configured_sameFile kpgd).mapInitTask]
    exact ha
  obtain ⟨t, hrun, hkpgd, hinit⟩ := linuxInit_found hready ((configured_linuxKpgd _ _).trans hk) ha'
  obtain ⟨hosType, hoffsets, hsysmap⟩ := linuxInit_kept hready hrun
  have hcopy : (configured entry size (fileStart imageType m s)).os =
      copyOffsets .linux s.os entry.offsets := configured_os hos s
  have htasks : (copyOffsets .linux s.os entry.offsets).linuxTasks = entry.offsets.linuxTasks :=
    copyOffset_of_ne (hne _ (List.mem_cons_self ..))
  refine ⟨.success, t, ?_, ?_⟩
  · rw [xaInitFilePrivate_known hopen hentry (by rw [hos]; rintro ⟨⟩) hsize, osInit_linux hos]
    exact hrun
  · show initResult .success t = _
    rw [initResult, hosType, hoffsets, hcopy, osOffsets_copy hne, hkpgd, hinit, hcopy, htasks,
      hsysmap]
    exact congrArg (fun sysmap => InitResult.mk _ _ sysmap _ _ _) configured_sysmapName

theorem windows_result (hopen : h.fopenImage filename = true)
    (hentry : configEntry h (imageType.take maxImageTypeLen) = some entry)
    (hos : entryOs entry = .windows) (hsize : h.fstat = some size)
    (hne : ∀ w ∈ osOffsets .windows entry.offsets, w ≠ 0)
    (hfound : WindowsFound h fuel m (configured entry size (fileStart imageType m (zeroState 0)))) :
    ∃ result, ∀ s, Returns (xaInitFilePrivate h fuel filename imageType m) s fun r t =>
      initResult r t = result := by
  obtain ⟨directory, link, hall⟩ := windowsFound_iff_taken.mp hfound
  refine ⟨⟨.success, .windows, some entry.sysmap, osOffsets .windows entry.offsets,
    directory + (configured entry size (fileStart imageType m (zeroState 0))).pageOffset, link⟩,
    fun s => ?_⟩
  have hready : WindowsReady (configured entry size (fileStart imageType m s)) :=
    configured_windowsReady hos
  have hcopy (s : XaState) : (configured entry size (fileStart imageType m s)).os =
      entry.offsets := configured_windowsOs hos hne s
  have hbase : (configured entry size (fileStart imageType m s)).os.ntoskrnl ≠ 0 := by
    rw [hcopy]
    exact hne _ (List.mem_cons_self ..)
  have hfile :
      SameFile { (configured entry size (fileStart imageType m s)).toXaParams with kpgd := s.kpgd }
        { (configured entry size (fileStart imageType m (zeroState 0))).toXaParams with
          kpgd := s.kpgd } := configured_sameFile s.kpgd
  obtain ⟨sysproc, htaken, hread⟩ := hall s.kpgd
  have hsearch := refFindKpgd_of_taken htaken
  rw [← hfile.findKpgd ((hcopy s).trans (hcopy _).symm)] at hsearch
  obtain ⟨t, hrun, hends⟩ := windowsInit_found hready hbase hsearch
  refine ⟨.success, t, ?_, ?_⟩
  · rw [xaInitFilePrivate_known hopen hentry (by rw [hos]; rintro ⟨⟩) hsize, osInit_windows hos]
    exact hrun
  · have hinit : t.initTask = link := by
      rw [hends.initTask, configured_refInitTask (hcopy s)]
      simp only
      rw [← hcopy (zeroState 0), hread]
      rfl
    show initResult .success t = _
    rw [initResult, hends.osType, hends.os, hcopy, hends.kpgd, hinit, hends.sysmap]
    rfl

/-! ## What one result for all earlier contents implies -/

/-- An instance with the given leftovers. -/
def leftover (osType : OsType) (w kpgd initTask : U32) : XaState :=
  { zeroState 0 with osType, os := sameWords w, kpgd, initTask }

variable {result : InitResult}

/-- The image can be opened, or the type of the operating system is the old one. -/
theorem opened_of_result (hall : ∀ s, Returns (xaInitFilePrivate h fuel filename imageType m) s
      fun r t => initResult r t = result) : h.fopenImage filename = true := by
  by_contra hclosed
  have hold (s : XaState) : result.osType = s.osType := by
    obtain ⟨r, t, hrun, hr⟩ := hall s
    rw [xaInitFilePrivate_eq, if_neg hclosed] at hrun
    cases hrun
    exact (congrArg InitResult.osType hr).symm
  cases (hold (leftover .linux 0 0 0)).symm.trans (hold (leftover .windows 0 0 0))

/-- The configuration names an operating system. -/
theorem known_of_result (hopen : h.fopenImage filename = true)
    (hall : ∀ s, Returns (xaInitFilePrivate h fuel filename imageType m) s
      fun r t => initResult r t = result) :
    ∃ entry, configEntry h (imageType.take maxImageTypeLen) = some entry ∧
      entryOs entry ≠ .unknown := by
  by_contra hcon
  have hunknown : ∀ entry, configEntry h (imageType.take maxImageTypeLen) = some entry →
      entryOs entry = .unknown := by
    intro entry hentry
    by_contra hos
    exact hcon ⟨entry, hentry, hos⟩
  have hold (s : XaState) : result.osType = s.osType := by
    obtain ⟨r, t, hrun, hr⟩ := hall s
    rw [xaInitFilePrivate_eq, if_pos hopen, helperInit_eq] at hrun
    have hos : t.osType = s.osType := by
      rcases orExit_ok_iff.mp hrun with ⟨-, hpre⟩ | ⟨u, hpre, hrest⟩
      · exact initPrelude_unknown hunknown hpre
      · exact (osInit_osType hpre hrest).symm.trans (initPrelude_unknown hunknown hpre)
    exact (congrArg InitResult.osType hr).symm.trans hos
  cases (hold (leftover .linux 0 0 0)).symm.trans (hold (leftover .windows 0 0 0))

/-- The size of the image is known. -/
theorem sized_of_result (hopen : h.fopenImage filename = true)
    (hentry : configEntry h (imageType.take maxImageTypeLen) = some entry)
    (hos : entryOs entry ≠ .unknown)
    (hall : ∀ s, Returns (xaInitFilePrivate h fuel filename imageType m) s
      fun r t => initResult r t = result) : ∃ size, h.fstat = some size := by
  cases hsize : h.fstat with
  | some size => exact ⟨size, rfl⟩
  | none =>
    exfalso
    have hold (s : XaState) : result.kpgd = s.kpgd := by
      obtain ⟨r, t, hrun, hr⟩ := hall s
      have hpre := initPrelude_known (m := m) (s := s) hentry hos
      rw [hsize] at hpre
      obtain ⟨u, hpre⟩ := hpre
      rw [xaInitFilePrivate_eq, if_pos hopen, helperInit_eq, orExit_failure hpre] at hrun
      cases hrun
      exact (congrArg InitResult.kpgd hr).symm.trans (initPrelude_untouched hpre).kpgd
    cases (hold (leftover .linux 0 1 0)).symm.trans (hold (leftover .linux 0 2 0))

/-- A call for a Linux image that gives one result has found both symbols. -/
theorem linux_of_result (hopen : h.fopenImage filename = true)
    (hentry : configEntry h (imageType.take maxImageTypeLen) = some entry)
    (hos : entryOs entry = .linux) (hsize : h.fstat = some size)
    (hall : ∀ s, Returns (xaInitFilePrivate h fuel filename imageType m) s
      fun r t => initResult r t = result) :
    (∀ w ∈ osOffsets .linux entry.offsets, w ≠ 0) ∧
      LinuxFound h (configured entry size (fileStart imageType m (zeroState 0))) := by
  have hruns (s : XaState) : ∃ r t,
      linuxInit h (configured entry size (fileStart imageType m s)) = .ok (r, t) ∧
        initResult r t = result := by
    obtain ⟨r, t, hrun, hr⟩ := hall s
    rw [xaInitFilePrivate_known hopen hentry (by rw [hos]; rintro ⟨⟩) hsize, osInit_linux hos]
      at hrun
    exact ⟨r, t, hrun, hr⟩
  constructor
  · have hoffsets (s : XaState) :
        result.offsets = osOffsets .linux (copyOffsets .linux s.os entry.offsets) := by
      obtain ⟨r, t, hrun, hr⟩ := hruns s
      obtain ⟨hosType, hkept, -⟩ := linuxInit_kept (configured_linuxReady hos) hrun
      rw [← hr]
      show osOffsets t.osType t.os = _
      rw [hosType, hkept, configured_os hos]
    exact osOffsets_ne_zero ((hoffsets (leftover .linux 1 0 0)).symm.trans
      (hoffsets (leftover .linux 2 0 0)))
  · by_contra hnot
    have hold (s : XaState) :
        (linuxKpgd h (configured entry size (fileStart imageType m (zeroState 0))) = none →
          result.kpgd = s.kpgd) ∧
        (linuxKpgd h (configured entry size (fileStart imageType m (zeroState 0))) ≠ none →
          result.initTask = s.initTask) := by
      obtain ⟨r, t, hrun, hr⟩ := hruns s
      rw [configured_linuxKpgd (zeroState 0) s, ← hr]
      exact linuxInit_not_found (configured_linuxReady hos) rfl hrun
        fun hfound => hnot (linuxFound_configured hos hfound)
    by_cases hk : linuxKpgd h (configured entry size (fileStart imageType m (zeroState 0))) = none
    · cases ((hold (leftover .linux 0 1 0)).1 hk).symm.trans ((hold (leftover .linux 0 2 0)).1 hk)
    · cases ((hold (leftover .linux 0 0 1)).2 hk).symm.trans ((hold (leftover .linux 0 0 2)).2 hk)

/-- Leftovers that are not zero keep the base of the kernel from being searched for. -/
theorem configured_ntoskrnl (hos : entryOs entry = .windows) (hw : s.os.w0 ≠ 0) :
    (configured entry size (fileStart imageType m s)).os.ntoskrnl ≠ 0 := by
  rw [configured_os hos]
  show copyOffset s.os.w0 entry.offsets.w0 ≠ 0
  rw [copyOffset]
  split_ifs with hzero
  · simpa using hzero
  · exact hw

section windows

variable (hopen : h.fopenImage filename = true)
  (hentry : configEntry h (imageType.take maxImageTypeLen) = some entry)
  (hos : entryOs entry = .windows) (hsize : h.fstat = some size)
  (hall : ∀ s, Returns (xaInitFilePrivate h fuel filename imageType m) s
    fun r t => initResult r t = result)

include hopen hentry hos hsize hall

theorem windows_ends (s : XaState) (hw : s.os.w0 ≠ 0) :
    ∃ r t found,
      refFindKpgd h (configured entry size (fileStart imageType m s)).toXaParams m fuel =
        .ok found ∧ initResult r t = result ∧
      WindowsEnds h (configured entry size (fileStart imageType m s)) t found := by
  obtain ⟨r, t, hrun, hr⟩ := hall s
  rw [xaInitFilePrivate_known hopen hentry (by rw [hos]; rintro ⟨⟩) hsize, osInit_windows hos]
    at hrun
  obtain ⟨found, hfound, -, hends⟩ := windowsInit_returns (configured_windowsReady hos)
    (configured_ntoskrnl hos hw) hrun
  exact ⟨r, t, found, hfound, hr, hends⟩

/-- The offsets of a call for a Windows image that gives one result are all configured. -/
theorem windows_offsets_ne : ∀ w ∈ osOffsets .windows entry.offsets, w ≠ 0 := by
  have hoffsets (s : XaState) (hw : s.os.w0 ≠ 0) :
      result.offsets = osOffsets .windows (copyOffsets .windows s.os entry.offsets) := by
    obtain ⟨r, t, found, -, hr, hends⟩ := windows_ends hopen hentry hos hsize hall s hw
    rw [← hr]
    show osOffsets t.osType t.os = _
    rw [hends.osType, hends.os, configured_os hos]
  exact osOffsets_ne_zero ((hoffsets (leftover .linux 1 0 0) (by decide)).symm.trans
    (hoffsets (leftover .linux 2 0 0) (by decide)))

/-- The search from the page directory `k`, with the leftover `i` in `init_task`. -/
theorem windows_search (k i : U32) : ∃ found,
      refFindKpgd h { (configured entry size (fileStart imageType m (zeroState 0))).toXaParams with
        kpgd := k } m fuel = .ok found ∧ found.kpgd = result.kpgd ∧
      result.initTask = refInitTask h
        (configured entry size (fileStart imageType m (leftover .linux 1 k i))).toXaParams
        found := by
  have hne := windows_offsets_ne hopen hentry hos hsize hall
  have hw : (leftover .linux 1 k i).os.w0 ≠ 0 := by
    show (1 : U32) ≠ 0
    decide
  obtain ⟨r, t, found, hfound, hr, hends⟩ := windows_ends hopen hentry hos hsize hall
    (leftover .linux 1 k i) hw
  have hfile :
      SameFile { (configured entry size
          (fileStart imageType m (leftover .linux 1 k i))).toXaParams with kpgd := k }
        { (configured entry size (fileStart imageType m (zeroState 0))).toXaParams with
          kpgd := k } := configured_sameFile k
  have hcopy (s : XaState) : (configured entry size (fileStart imageType m s)).os =
      entry.offsets := configured_windowsOs hos hne s
  refine ⟨found, ?_, ?_, ?_⟩
  · rw [← hfile.findKpgd ((hcopy _).trans (hcopy _).symm)]
    exact hfound
  · rw [← hr]
    exact hends.kpgd.symm
  · rw [← hr]
    exact hends.initTask

/-- A call for a Windows image that gives one result has made the same search from every page
directory. -/
theorem windows_of_result :
    (∀ w ∈ osOffsets .windows entry.offsets, w ≠ 0) ∧
      WindowsFound h fuel m (configured entry size (fileStart imageType m (zeroState 0))) := by
  have hne := windows_offsets_ne hopen hentry hos hsize hall
  refine ⟨hne, windowsFound_iff_taken.mpr ⟨result.kpgd -
    (configured entry size (fileStart imageType m (zeroState 0))).pageOffset, result.initTask,
    fun k => ?_⟩⟩
  obtain ⟨found, hfound, hkpgd, h1⟩ := windows_search hopen hentry hos hsize hall k 1
  obtain ⟨found', hfound', -, h2⟩ := windows_search hopen hentry hos hsize hall k 2
  cases hfound.symm.trans hfound'
  rw [configured_refInitTask (configured_windowsOs hos hne _)] at h1 h2
  -- two different leftovers in `init_task` cannot both be the result
  cases hret : found.ret with
  | failure =>
    rw [hret] at h1 h2
    cases h1.symm.trans h2
  | success =>
    refine ⟨found.sysproc, hkpgd ▸ taken_of_refFindKpgd hfound hret, ?_⟩
    rw [hret] at h1 h2
    rw [configured_windowsOs hos hne]
    cases hread : xaReadLongPhys h
        (configured entry size (fileStart imageType m (zeroState 0))).toXaParams
        (found.sysproc + entry.offsets.winTasks) with
    | none =>
      rw [hread] at h1 h2
      cases h1.symm.trans h2
    | some word =>
      rw [hread] at h1
      exact congrArg some h1.symm

end windows

end known

/-- **When the result of `xa_init_file_private` does not depend on the earlier contents of the
instance.** -/
theorem priorIndependent_iff (h : Host) (fuel : Nat) (filename imageType : CStr) (m : ErrorMode) :
    PriorIndependent h fuel filename imageType m ↔ ImageDecides h fuel filename imageType m := by
  rw [priorIndependent_iff_result]
  constructor
  · rintro ⟨result, hall⟩
    have hopen := opened_of_result hall
    obtain ⟨entry, hentry, hknown⟩ := known_of_result hopen hall
    obtain ⟨size, hsize⟩ := sized_of_result hopen hentry hknown hall
    refine ⟨hopen, entry, size, hentry, hsize, ?_⟩
    cases hos : entryOs entry with
    | unknown => exact absurd hos hknown
    | linux => exact linux_of_result hopen hentry hos hsize hall
    | windows => exact windows_of_result hopen hentry hos hsize hall
  · rintro ⟨hopen, entry, size, hentry, hsize, hne, hfound⟩
    cases hos : entryOs entry with
    | unknown =>
      rw [hos] at hfound
      exact hfound.elim
    | linux =>
      rw [hos] at hne hfound
      exact linux_result hopen hentry hos hsize hne hfound
    | windows =>
      rw [hos] at hne hfound
      exact windows_result hopen hentry hos hsize hne hfound

/-- A Linux image whose page tables map `init_task`. -/
example : ImageDecides (linuxHost [(0x1C00, 0x83)]
    (some (cstr "c0001000 A swapper_pg_dir\nc0005000 D init_task\n"))) 0 (cstr "image")
    (cstr "guest") .failhard := by
  have hos : entryOs linuxEntry = .linux := by decide
  refine ⟨rfl, linuxEntry, 0x1000000, rfl, rfl, ?_⟩
  rw [hos]
  exact ⟨by simp [osOffsets, linuxEntry], 0xC0001000, by decide, by decide⟩

/-- A Windows image whose kernel base is not configured. -/
def unbasedHost : Host :=
  { imageHost [] with
    xaParseConfig := fun _ => some { windowsEntry with
      offsets := { windowsEntry.offsets with w0 := 0 } } }

/-- The base of the kernel is searched for only when the old one happens to be zero. -/
theorem unbasedHost_not_priorIndependent :
    ¬ PriorIndependent unbasedHost 0 (cstr "image") (cstr "guest") .failsoft := by
  intro hind
  have hfirst : Returns (xaInitFilePrivate unbasedHost 0 (cstr "image") (cstr "guest") .failsoft)
      (leftover .unknown 0x400000 0 0) fun _ t => t.osType = .windows ∧ t.os.w0 = 0x400000 := by
    decide
  have hsecond : Returns (xaInitFilePrivate unbasedHost 0 (cstr "image") (cstr "guest") .failsoft)
      (leftover .unknown 0x500000 0 0) fun _ t => t.osType = .windows ∧ t.os.w0 = 0x500000 := by
    decide
  obtain ⟨r, t, r', t', h1, h2, hsame⟩ :=
    hind (leftover .unknown 0x400000 0 0) (leftover .unknown 0x500000 0 0)
  obtain ⟨_, _, h1', hos, hw⟩ := hfirst
  obtain ⟨_, _, h2', hos', hw'⟩ := hsecond
  cases h1.symm.trans h1'
  cases h2.symm.trans h2'
  have hoffsets := congrArg InitResult.offsets hsame
  simp only [initResult, osOffsets, hos, hos', hw, hw', List.cons.injEq] at hoffsets
  cases hoffsets.1

end XenAccess
