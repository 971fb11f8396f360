import XenAccess.Lib.Prog
import XenAccess.Model.Access

/-!
# Initialisation

`xa_core.c`, `xa_error.c`, `linux_core.c` and `windows_core.c`.

Nearly every step can fail, and the code reacts in one of two ways: `xa_report_error` turns
the error into a return value by the error mode, and the caller either leaves the function
(`orExit`, the `goto error_exit` of the source) or goes on as if the step had succeeded.
-/

namespace XenAccess

variable (h : Host)

/-! ## Errors -/

/-- `xa_report_error`. -/
def xaReportError (errorMode : ErrorMode) (errorType : ErrorType) : Ret :=
  match errorMode, errorType with
  | .failhard, _ => .failure
  | .failsoft, .critical => .failure
  | .failsoft, .minor => .success

/-- Report an error of the instance at hand. -/
def report (errorType : ErrorType) : XaM Ret := do
  let s ← get
  return xaReportError s.errorMode errorType

/-- `if (XA_FAILURE == ret) goto error_exit`: the second step is made only when the first one
does not fail. -/
def orExit (first second : XaM Ret) : XaM Ret := do
  match ← first with
  | .failure => return .failure
  | .success => second

theorem orExit_success {first second : XaM Ret} {s t : XaState}
    (hfirst : first s = .ok (.success, t)) : orExit first second s = second t :=
  Prog.bind_of_ok hfirst

theorem orExit_failure {first second : XaM Ret} {s t : XaState}
    (hfirst : first s = .ok (.failure, t)) : orExit first second s = .ok (.failure, t) :=
  Prog.bind_of_ok hfirst

theorem orExit_error {first second : XaM Ret} {s : XaState} {e : Fault}
    (hfirst : first s = .error e) : orExit first second s = .error e :=
  Prog.bind_of_error hfirst

theorem orExit_assoc (first second third : XaM Ret) :
    orExit first (orExit second third) = orExit (orExit first second) third := by
  funext s
  cases hfirst : first s with
  | error e => rw [orExit_error hfirst, orExit_error (orExit_error hfirst)]
  | ok r =>
    obtain ⟨r, t⟩ := r
    cases r with
    | failure => rw [orExit_failure hfirst, orExit_failure (orExit_failure hfirst)]
    | success =>
      have hboth : orExit first second s = second t := orExit_success hfirst
      rw [orExit_success hfirst]
      cases hsecond : second t with
      | error e => rw [orExit_error hsecond, orExit_error (hboth.trans hsecond)]
      | ok r =>
        obtain ⟨r, u⟩ := r
        cases r with
        | failure => rw [orExit_failure hsecond, orExit_failure (hboth.trans hsecond)]
        | success => rw [orExit_success hsecond, orExit_success (hboth.trans hsecond)]

/-! ## Configuration -/

/-- A configured offset replaces the old one unless it is zero. -/
def copyOffset (old new : U32) : U32 := if new != 0 then new else old

/-- The offsets `read_config_file` copies for a Linux domain. -/
def copyLinuxOffsets (old new : OsUnion) : OsUnion :=
  { old with
    w0 := copyOffset old.w0 new.w0
    w1 := copyOffset old.w1 new.w1
    w2 := copyOffset old.w2 new.w2
    w3 := copyOffset old.w3 new.w3
    w4 := copyOffset old.w4 new.w4 }

/-- The offsets `read_config_file` copies for a Windows domain. -/
def copyWindowsOffsets (old new : OsUnion) : OsUnion :=
  { copyLinuxOffsets old new with
    w5 := copyOffset old.w5 new.w5
    w6 := copyOffset old.w6 new.w6 }

/-- The part of `read_config_file` that copies an entry into the instance. -/
def applyConfig (entry : XaConfigEntry) : XaM Ret := fun s =>
  if strncmpEq entry.ostype (cstr "Linux") configStrLength then
    .ok (.success, { s with
      sysmap := some entry.sysmap
      osType := .linux
      os := copyLinuxOffsets s.os entry.offsets })
  else if strncmpEq entry.ostype (cstr "Windows") configStrLength then
    .ok (.success, { s with
      sysmap := some entry.sysmap
      osType := .windows
      os := copyWindowsOffsets s.os entry.offsets })
  else .ok (.failure, { s with sysmap := some entry.sysmap })

/-- The name under which the configuration is looked up; a Xen domain has it in xenstore. -/
def configName : XaM (Option CStr) := fun s =>
  match s.mode with
  | .xen =>
    let name := h.xsRead (cstr "/local/domain/" ++ sprintfD s.domainId ++ cstr "/name")
    .ok (name, { s with imageType := name })
  | .file =>
    match s.imageType with
    | none => .error .nullString
    | some name => .ok (some name, s)

/-- `read_config_file`. -/
def readConfigFile : XaM Ret := do
  if h.configFile then
    match ← configName h with
    | none => return .failure
    | some name =>
      match h.xaParseConfig name with
      | none => return .failure
      | some entry => applyConfig entry
  else return .failure

/-! ## Memory layout -/

/-- `get_page_info_xen`. -/
def getPageInfoXen : XaM Ret := fun s =>
  match h.xcVcpuGetcontext with
  | none => .ok (.failure, s)
  | some ctxt =>
    if !xaGetBit ctxt.ctrlreg0 31 then .ok (.failure, s)
    else .ok (.success, { s with
      pae := xaGetBit ctxt.ctrlreg4 5
      pse := xaGetBit ctxt.ctrlreg4 4
      cr3 := ctxt.ctrlreg3 &&& 0xFFFFF000 })

/-- `init_page_offset`. -/
def initPageOffset (s : XaState) : XaState :=
  { s with
    pageOffset := match s.osType with
      | .linux => 0xc0000000
      | .windows => 0x80000000
      | .unknown => 0
    pageShift := 12
    pageSize := 1 <<< 12 }

/-- `get_memory_size`. -/
def getMemorySize : XaM Ret := fun s =>
  match s.mode with
  | .xen =>
    match h.xsRead (cstr "/local/domain/" ++ sprintfD s.domainId ++ cstr "/memory/target") with
    | none => .error .nullString
    | some target =>
      let size := strtol10 target * 1024
      .ok (if size = 0 then .failure else .success, { s with size })
  | .file =>
    match h.fstat with
    | none => .ok (.failure, s)
    | some stSize => .ok (.success, { s with size := stSize.setWidth 32 })

/-- Version strings that `init_xen_version` recognises. -/
def xenVersions : List (CStr × XenVersion) :=
  [(cstr "3.0.4", .v304), (cstr "3.1.0", .v310), (cstr "3.1.1", .v311), (cstr "3.1.2", .v312),
    (cstr "3.1.3", .v313), (cstr "3.1.4", .v314), (cstr "3.2.0", .v320), (cstr "3.2.1", .v321),
    (cstr "3.2.2", .v322), (cstr "3.2.3", .v323), (cstr "3.3.0", .v330), (cstr "3.3.1", .v331),
    (cstr "3.4.0", .v340)]

/-- `init_xen_version`. -/
def initXenVersion (s : XaState) : XaState :=
  { s with
    xenVersion := match xenVersions.find? (fun v => v.1.isPrefixOf h.xcVersion) with
      | some v => v.2
      | none => .unknown }

/-! ## Linux -/

/-- First step of `linux_init`: the address of `swapper_pg_dir`. -/
def linuxLookupKpgd : XaM Ret := do
  match ← linuxSystemMapSymbolToAddress h (cstr "swapper_pg_dir") with
  | some kpgd =>
    modify ({ · with kpgd })
    return .success
  | none => report .minor

/-- Second step of `linux_init`: a paravirtualised guest keeps the page directory behind the
symbol. -/
def linuxReadKpgd : XaM Ret := do
  let s ← get
  if s.hvm then return .success
  else
    let kpgd := s.kpgd - s.pageOffset
    match xaReadLongPhys h s.toXaParams kpgd with
    | some value =>
      set { s with kpgd := value }
      return .success
    | none =>
      set { s with kpgd }
      report .minor

/-- The assignment of `init_task` through the mapping of the symbol. -/
def setInitTask (a : Access) : XaM Ret := do
  modify fun s => { s with initTask := a.memory.u32 (a.offset + s.os.linuxTasks) }
  return .success

/-- The second attempt of `linux_init` at `init_task`. In lax mode the code goes on with the
pointer that is `NULL`. -/
def linuxRetryInitTask : XaM Ret := do
  match ← xaAccessKernelSym h (cstr "init_task") protRead with
  | some a => setInitTask a
  | none =>
    match ← report .minor with
    | .failure => return .failure
    | .success => throw .nullPage

/-- Last step of `linux_init`: read `init_task`, trying the other PAE mode when the symbol
cannot be mapped. -/
def linuxReadInitTask : XaM Ret := do
  match ← xaAccessKernelSym h (cstr "init_task") protRead with
  | some a => setInitTask a
  | none =>
    modify fun s => { s with pae := !s.pae }
    linuxRetryInitTask h

/-- `linux_init`. -/
def linuxInit : XaM Ret :=
  orExit (linuxLookupKpgd h) (orExit (linuxReadKpgd h) (linuxReadInitTask h))

/-! ## Windows -/

/-- The page directory of the System process read by one of the two methods: it is stored as
a virtual address, and a zero one is an error. -/
def storeKpgd (value : Option U32) (sysproc : U32) : XaM (Ret × U32) := do
  let s ← get
  let kpgd := value.getD s.kpgd + s.pageOffset
  set { s with kpgd }
  if kpgd = s.pageOffset then return (← report .minor, sysproc)
  else return (.success, sysproc)

/-- `get_kpgd_method1`, with the value it leaves in `sysproc`. -/
def getKpgdMethod1 (sysproc : U32) : XaM (Ret × U32) := do
  let value ← xaReadLongSym h (cstr "PsInitialSystemProcess")
  let s ← get
  if value = none ∧ xaReportError s.errorMode .minor = .failure then return (.failure, sysproc)
  else
    let sysproc := xaTranslateKv2p h s.toXaParams (value.getD sysproc)
    let kpgd := xaReadLongPhys h s.toXaParams (sysproc + s.os.winPdbase)
    if kpgd = none ∧ xaReportError s.errorMode .minor = .failure then return (.failure, sysproc)
    else storeKpgd kpgd sysproc

/-- `get_kpgd_method2`, with the value it leaves in `sysproc`. -/
def getKpgdMethod2 (fuel : Nat) : XaM (Ret × U32) := do
  let s ← get
  match windowsFindEprocess h s.toXaParams fuel (cstr "System") with
  | .error e => throw e
  | .ok sysproc =>
    if sysproc = 0 ∧ xaReportError s.errorMode .minor = .failure then return (.failure, sysproc)
    else
      let kpgd := xaReadLongPhys h s.toXaParams (sysproc + 0x18)
      if kpgd = none ∧ xaReportError s.errorMode .minor = .failure then return (.failure, sysproc)
      else storeKpgd kpgd sysproc

/-- First step of `windows_init`: the base of the kernel image, unless it is configured. -/
def windowsFindBase : XaM Ret := do
  let s ← get
  if s.os.ntoskrnl = 0 then
    let ntoskrnl := getNtoskrnlBase h s.toXaParams
    set { s with os := { s.os with w0 := ntoskrnl } }
    if ntoskrnl = 0 then report .minor else return .success
  else return .success

/-- Second step of `windows_init`: the kernel page directory, by the second method when the
first one fails. -/
def windowsFindKpgd (fuel : Nat) : XaM (Ret × U32) := do
  match ← getKpgdMethod1 h 0 with
  | (.success, sysproc) => return (.success, sysproc)
  | (.failure, _) =>
    match ← getKpgdMethod2 h fuel with
    | (.success, sysproc) => return (.success, sysproc)
    | (.failure, sysproc) => return (← report .minor, sysproc)

/-- Last step of `windows_init`. The return value of the read is not looked at. -/
def windowsReadInitTask (sysproc : U32) : XaM Ret := do
  let s ← get
  match xaReadLongPhys h s.toXaParams (sysproc + s.os.winTasks) with
  | some initTask => set { s with initTask }
  | none => pure ()
  return .success

/-- `windows_init`. -/
def windowsInit (fuel : Nat) : XaM Ret :=
  orExit (windowsFindBase h) do
    match ← windowsFindKpgd h fuel with
    | (.failure, _) => return .failure
    | (.success, sysproc) => windowsReadInitTask h sysproc

/-! ## All of it -/

/-- Domain information and version of Xen. -/
def getDomainInfo : XaM Ret := do
  let s ← get
  match s.mode with
  | .file => return .success
  | .xen =>
    match h.xcDomainGetinfo with
    | none => report .critical
    | some sharedInfoFrame =>
      set (initXenVersion h { s with sharedInfoFrame })
      return .success

/-- Report the failure of a step. -/
def orReport (errorType : ErrorType) (step : XaM Ret) : XaM Ret := do
  match ← step with
  | .failure => report errorType
  | .success => return .success

/-- Paging mode and page sizes. -/
def getMemoryLayout : XaM Ret := do
  let s ← get
  match s.mode with
  | .xen => orReport .critical (getPageInfoXen h)
  | .file =>
    set { s with hvm := true, pae := false }
    return .success

/-- Page offset, and for a Xen domain whether it is fully virtualised. -/
def setPageOffset : XaM Ret := do
  modify initPageOffset
  let s ← get
  match s.mode with
  | .xen => set { s with hvm := xaIshvm h s.domainId }
  | .file => pure ()
  return .success

/-- The steps for one operating system. -/
def osInit (fuel : Nat) : XaM Ret := do
  let s ← get
  match s.osType with
  | .linux => linuxInit h
  | .windows => windowsInit h fuel
  | .unknown => return .success

/-- `helper_init`. -/
def helperInit (fuel : Nat) : XaM Ret :=
  orExit (getDomainInfo h) <|
  orExit (orReport .minor (readConfigFile h)) <|
  orExit (getMemoryLayout h) <|
  orExit (setPageOffset h) <|
  orExit (orReport .critical (getMemorySize h)) <|
  osInit h fuel

/-- `xa_init_common`. -/
def xaInitCommon (s : XaState) : XaState := s.clear

/-- `xa_init_file_private`. -/
def xaInitFilePrivate (fuel : Nat) (filename imageType : CStr) (errorMode : ErrorMode) :
    XaM Ret := do
  modify ({ · with mode := .file, errorMode })
  if h.fopenImage filename then
    modify fun s => { xaInitCommon s with imageType := some (imageType.take maxImageTypeLen) }
    helperInit h fuel
  else return .failure

/-- The instance after `bzero`. -/
def zeroState (ticks : Nat) : XaState :=
  { mode := .xen, osType := .unknown, pageOffset := 0, pageShift := 0, pageSize := 0, kpgd := 0
    initTask := 0, hvm := false, pae := false, os := ⟨0, 0, 0, 0, 0, 0, 0⟩, domainId := 0
    xenVersion := .unknown, sharedInfoFrame := 0, size := 0, errorMode := .failhard
    sysmap := none, imageType := none, pse := false, cr3 := 0, cache := .empty
    pidCache := .empty, ticks }

/-- `xa_init_vm_private`. -/
def xaInitVmPrivate (fuel : Nat) (domainId : U32) (errorMode : ErrorMode) : XaM Ret := do
  modify fun s => { zeroState s.ticks with errorMode }
  if h.xcInterfaceOpen then
    modify ({ · with domainId })
    helperInit h fuel
  else return .failure

end XenAccess
