import XenAccess.Model.Cache
import XenAccess.Model.PeParse
import XenAccess.Model.Symbols

/-!
# Access by virtual address and by symbol

The entry points of `xa_memory.c`, `linux_memory.c`, `windows_memory.c` and `xa_util.c`
that go through the caches.

In the source `xa_access_user_va` calls itself: for a process it looks up the page
directory, for which the task list is walked with `xa_access_kernel_va`, that is with
`xa_access_user_va` and pid `0`. That inner call never looks up a page directory, so the
body is a definition with the lookup as an argument (`accessVa`), and both functions are
instances of it (`xaAccessKernelVa_eq` is the equation of the source).

The loop over a task list has no bound in the source and gets one here (`fuel`).
-/

namespace XenAccess

variable (h : Host)

/-! ## Virtual addresses -/

/-- Body of `xa_access_user_va`, with the lookup of the page directory of a process. -/
def accessVa (pidToPgd : XaM U32) (virtAddress pid prot : U32) : XaM (Option Access) := do
  match ← xaCheckCacheVirt h virtAddress pid with
  | some address =>
    let s ← get
    return xaAccessMa h s.toXaParams address prot
  | none =>
    let pgd ← if pid = 0 then do
        let s ← get
        pure (some (xaCurrentCr3 h s.toXaParams 0))
      else do
        let pgd ← pidToPgd
        pure (if pgd != 0 then some pgd else none)
    let s ← get
    let address := match pgd with
      | some pgd => xaPagetableLookup h s.toXaParams pgd virtAddress
      | none => 0
    if address = 0 then return none
    else
      xaUpdateCache h none virtAddress pid address
      let s ← get
      return xaAccessMa h s.toXaParams address prot

/-- `xa_access_kernel_va`. -/
def xaAccessKernelVa (virtAddress prot : U32) : XaM (Option Access) :=
  accessVa h (pure 0) virtAddress 0 prot

/-! ## Process lists -/

/-- The loop of `linux_get_taskstruct` and `windows_get_EPROCESS`: follow the list of tasks
from `nextProcess` until a task has the pid, or the next one is the head. -/
def taskLoop (pidOffset tasksOffset pid listHead : U32) : Nat → U32 → XaM (Option Access)
  | 0, _ => throw .outOfFuel
  | fuel + 1, nextProcess => do
    match ← xaAccessKernelVa h nextProcess protRead with
    | none => return none
    | some a =>
      let nextProcess := a.memory.u32 a.offset
      if listHead = nextProcess then return none
      else
        let taskPid := a.memory.u32 (a.offset + pidOffset - tasksOffset)
        if taskPid = pid then return some a
        else taskLoop pidOffset tasksOffset pid listHead fuel nextProcess

/-- `linux_get_taskstruct`. -/
def linuxGetTaskstruct (fuel : Nat) (pid : U32) : XaM (Option Access) := do
  let s ← get
  taskLoop h s.os.linuxPid s.os.linuxTasks pid s.initTask fuel s.initTask

/-- `windows_get_EPROCESS`. -/
def windowsGetEPROCESS (fuel : Nat) (pid : U32) : XaM (Option Access) := do
  let s ← get
  taskLoop h s.os.winPid s.os.winTasks pid s.initTask fuel s.initTask

/-- `linux_pid_to_pgd`. -/
def linuxPidToPgd (fuel : Nat) (pid : U32) : XaM U32 := do
  match ← linuxGetTaskstruct h fuel pid with
  | none => return 0
  | some a =>
    let s ← get
    let ptr := a.memory.u32 (a.offset + s.os.linuxMm - s.os.linuxTasks)
    -- `xa_read_long_virt` with pid 0; a failure leaves `pgd` at 0
    let pgd := ((← xaAccessKernelVa h (ptr + s.os.linuxPgd) protRead).map Access.long).getD 0
    let s ← get
    let pgd := xaTranslateKv2p h s.toXaParams pgd
    xaUpdatePidCache h pid pgd
    return pgd

/-- `windows_pid_to_pgd`. -/
def windowsPidToPgd (fuel : Nat) (pid : U32) : XaM U32 := do
  match ← windowsGetEPROCESS h fuel pid with
  | none => return 0
  | some a =>
    let s ← get
    let pgd := a.memory.u32 (a.offset + s.os.winPdbase - s.os.winTasks)
    xaUpdatePidCache h pid pgd
    return pgd

/-- `xa_pid_to_pgd`. -/
def xaPidToPgd (fuel : Nat) (pid : U32) : XaM U32 := do
  match ← xaCheckPidCache h pid with
  | some pgd => return pgd
  | none =>
    let s ← get
    match s.osType with
    | .linux => linuxPidToPgd h fuel pid
    | .windows => windowsPidToPgd h fuel pid
    | .unknown => return 0

/-- `xa_access_user_va`. -/
def xaAccessUserVa (fuel : Nat) (virtAddress pid prot : U32) : XaM (Option Access) :=
  accessVa h (xaPidToPgd h fuel pid) virtAddress pid prot

/-- `xa_access_kernel_va` is `xa_access_user_va` for pid `0`. -/
theorem xaAccessKernelVa_eq (fuel : Nat) (virtAddress prot : U32) :
    xaAccessKernelVa h virtAddress prot = xaAccessUserVa h fuel virtAddress 0 prot := by
  simp only [xaAccessKernelVa, xaAccessUserVa, accessVa, if_true]

/-! ## Symbols -/

/-- `linux_access_kernel_symbol`. -/
def linuxAccessKernelSymbol (symbol : CStr) (prot : U32) : XaM (Option Access) := do
  match ← xaCheckCacheSym h symbol 0 with
  | some address =>
    let s ← get
    return xaAccessMa h s.toXaParams address protRead
  | none =>
    match ← linuxSystemMapSymbolToAddress h symbol with
    | none => return none
    | some virtAddress =>
      xaUpdateCache h (some symbol) virtAddress 0 0
      xaAccessKernelVa h virtAddress prot

/-- `windows_access_kernel_symbol`. -/
def windowsAccessKernelSymbol (symbol : CStr) (prot : U32) : XaM (Option Access) := do
  match ← xaCheckCacheSym h symbol 0 with
  | some address =>
    let s ← get
    return xaAccessMa h s.toXaParams address protRead
  | none =>
    let s ← get
    match windowsSymbolToAddress h s.toXaParams symbol with
    | none => return none
    | some rva =>
      let physAddress := s.os.ntoskrnl + rva
      let virtAddress := physAddress + s.pageOffset
      xaUpdateCache h (some symbol) virtAddress 0 0
      let s ← get
      return xaAccessPa h s.toXaParams physAddress prot

/-- `xa_access_kernel_sym`. -/
def xaAccessKernelSym (symbol : CStr) (prot : U32) : XaM (Option Access) := do
  let s ← get
  match s.osType with
  | .linux => linuxAccessKernelSymbol h symbol prot
  | .windows => windowsAccessKernelSymbol h symbol prot
  | .unknown => return none

theorem xaAccessKernelSym_apply (symbol : CStr) (prot : U32) (s : XaState) :
    xaAccessKernelSym h symbol prot s = (match s.osType with
      | .linux => linuxAccessKernelSymbol h symbol prot
      | .windows => windowsAccessKernelSymbol h symbol prot
      | .unknown => pure none : XaM (Option Access)) s := rfl

theorem xaAccessKernelSym_linux {s : XaState} (hos : s.osType = .linux) (symbol : CStr)
    (prot : U32) :
    xaAccessKernelSym h symbol prot s = linuxAccessKernelSymbol h symbol prot s := by
  rw [xaAccessKernelSym_apply, hos]

theorem xaAccessKernelSym_windows {s : XaState} (hos : s.osType = .windows) (symbol : CStr)
    (prot : U32) :
    xaAccessKernelSym h symbol prot s = windowsAccessKernelSymbol h symbol prot s := by
  rw [xaAccessKernelSym_apply, hos]

/-- `xa_symbol_to_address`. -/
def xaSymbolToAddress (sym : CStr) : XaM (Option U32) := do
  let s ← get
  match s.osType with
  | .linux => linuxSystemMapSymbolToAddress h sym
  | .windows => return windowsSymbolToAddress h s.toXaParams sym
  | .unknown => return none

/-! ## Readers -/

/-- `xa_read_long_virt`. -/
def xaReadLongVirt (fuel : Nat) (vaddr pid : U32) : XaM (Option U32) := do
  return (← xaAccessUserVa h fuel vaddr pid protRead).map Access.long

/-- `xa_read_long_long_virt`. -/
def xaReadLongLongVirt (fuel : Nat) (vaddr pid : U32) : XaM (Option U64) := do
  return (← xaAccessUserVa h fuel vaddr pid protRead).map Access.longLong

/-- `xa_read_long_sym`. -/
def xaReadLongSym (sym : CStr) : XaM (Option U32) := do
  return (← xaAccessKernelSym h sym protRead).map Access.long

/-- `xa_read_long_long_sym`. -/
def xaReadLongLongSym (sym : CStr) : XaM (Option U64) := do
  return (← xaAccessKernelSym h sym protRead).map Access.longLong

/-! ## Process structures -/

/-- `xa_linux_taskaddr_t`. -/
structure XaLinuxTaskaddr where
  startCode : U32
  endCode : U32
  startData : U32
  endData : U32
  startBrk : U32
  brk : U32
  startStack : U32
  argStack : U32
  argEnd : U32
  envStart : U32
  envEnd : U32

/-- The structure at a displacement of a mapped page. -/
def Page.taskaddr (memory : Page) (d : U32) : XaLinuxTaskaddr where
  startCode := memory.u32 d
  endCode := memory.u32 (d + 4)
  startData := memory.u32 (d + 8)
  endData := memory.u32 (d + 12)
  startBrk := memory.u32 (d + 16)
  brk := memory.u32 (d + 20)
  startStack := memory.u32 (d + 24)
  argStack := memory.u32 (d + 28)
  argEnd := memory.u32 (d + 32)
  envStart := memory.u32 (d + 36)
  envEnd := memory.u32 (d + 40)

/-- `xa_linux_get_taskaddr`. -/
def xaLinuxGetTaskaddr (fuel : Nat) (pid : U32) : XaM (Option XaLinuxTaskaddr) := do
  match ← linuxGetTaskstruct h fuel pid with
  | none => return none
  | some a =>
    let s ← get
    let ptr := a.memory.u32 (a.offset + s.os.linuxMm - s.os.linuxTasks)
    match ← xaAccessKernelVa h ptr protRead with
    | none => return none
    | some a =>
      let s ← get
      return some (a.memory.taskaddr (a.offset + s.os.linuxAddr))

/-- `xa_windows_peb_t`. -/
structure XaWindowsPeb where
  imageBaseAddress : U32
  processHeap : U32

/-- `xa_windows_get_peb`; a read that fails leaves the field of the caller's `peb`. -/
def xaWindowsGetPeb (fuel : Nat) (pid : U32) (peb : XaWindowsPeb) : XaM (Option XaWindowsPeb) := do
  match ← windowsGetEPROCESS h fuel pid with
  | none => return none
  | some a =>
    let s ← get
    let ptr := a.memory.u32 (a.offset + s.os.winPeb - s.os.winTasks)
    let imageBaseAddress ← xaReadLongVirt h fuel (ptr + s.os.winIba) pid
    let processHeap ← xaReadLongVirt h fuel (ptr + s.os.winPh) pid
    return some
      { imageBaseAddress := imageBaseAddress.getD peb.imageBaseAddress
        processHeap := processHeap.getD peb.processHeap }

/-! ## A range of virtual addresses

`xa_access_user_va_range` maps the pages of a range one behind the other. The service it uses,
`xc_map_foreign_pages`, is a parameter: for a protection and a list of frame numbers it gives
the mapping or `NULL`. The array of frame numbers comes from `malloc`, which is taken to
succeed. -/

/-- What `xa_access_user_va_range` hands out: a mapping of frames one behind the other, and
the offset of the address in the first of them. -/
structure RangeAccess where
  pfns : List U32
  memory : Page
  offset : U32

/-- The page directory that the range is looked up in. -/
def rangePgd (fuel : Nat) (pid : U32) : XaM U32 := do
  if pid != 0 then xaPidToPgd h fuel pid
  else
    let s ← get
    return xaCurrentCr3 h s.toXaParams 0

/-- One round of the loop: the frame number of the `i`-th page. -/
def rangePfn (p : XaParams) (pgd start : U32) (i : Nat) : Option U32 :=
  let addr := start + BitVec.ofNat 32 i * p.pageSize
  if addr = 0 then none else some (xaPagetableLookup h p pgd addr >>> p.pageShift)

/-- The loop over the pages; it returns early at the address `0`. -/
def rangePfns (p : XaParams) (pgd start : U32) (numPages : Nat) : Option (List U32) :=
  (List.range numPages).mapM (rangePfn h p pgd start)

/-- `xa_access_user_va_range`. -/
def xaAccessUserVaRange (xcMapForeignPages : U32 → List U32 → Option Page) (fuel : Nat)
    (virtAddress size pid prot : U32) : XaM (Option RangeAccess) := do
  let s ← get
  let numPages := size / s.pageSize + 1
  let pgd ← rangePgd h fuel pid
  let s ← get
  let start := pageBase s.toXaParams virtAddress
  match rangePfns h s.toXaParams pgd start numPages.toNat with
  | none => return none
  | some pfns =>
    return (xcMapForeignPages prot pfns).map fun memory => ⟨pfns, memory, virtAddress - start⟩

/-! ## Sequences of calls -/

/-- A call of one of the access functions. -/
inductive Call where
  | userVa (virtAddress pid prot : U32)
  | kernelVa (virtAddress prot : U32)
  | kernelSym (symbol : CStr) (prot : U32)

def Call.exec (fuel : Nat) : Call → XaM (Option Access)
  | .userVa virtAddress pid prot => xaAccessUserVa h fuel virtAddress pid prot
  | .kernelVa virtAddress prot => xaAccessKernelVa h virtAddress prot
  | .kernelSym symbol prot => xaAccessKernelSym h symbol prot

/-- Make the calls one after the other. -/
def runCalls (fuel : Nat) : List Call → XaM Unit
  | [] => pure ()
  | c :: cs => do
    let _ ← c.exec h fuel
    runCalls fuel cs

end XenAccess
