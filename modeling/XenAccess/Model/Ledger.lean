import XenAccess.Lib.Audit
import XenAccess.Model.Access

/-!
# The functions with their mappings

The same functions once more, with the requests to map and unmap pages and the reads of
mapped memory that the other modules of the model leave out. They are programs with a ledger
(`Audit.LedgerM`): a piece is one mapped page, and a load is stray when a byte of it is not
in the pages of the mapping that it goes through.

`munmap` is called with the size of one page everywhere. The table of
`live_pfn_to_mfn_table` is the store of the ledger: `helper_pfn_to_mfn` keeps it in the
instance, and `xa_destroy` releases it.

What the caches do between mappings is taken over from `Model.Cache`.
-/

namespace XenAccess.Traced

open Audit

/-- `live_pfn_to_mfn_table` with its number of pages. -/
structure SavedTable where
  pages : Nat
  memory : Page

abbrev TraceM := LedgerM XaState Fault (Option SavedTable)

/-- `XC_PAGE_SIZE`. -/
def xcPageSize : Nat := 4096

variable (h : Host) (p : XaParams)

/-! ## Mapping and loading -/

/-- The outcome of a request for a number of pages. -/
def mapPages (pages : Nat) (memory : Option Page) : TraceM (Option (Nat × Page)) :=
  match memory with
  | none => pure none
  | some memory => do
    let id ← acquire pages
    return some (id, memory)

/-- `munmap` of one page. -/
def munmap (id : Nat) : TraceM Unit := release id

/-- Read `n` bytes at a displacement of a mapping. -/
def loadBytes (pages : Nat) (d : U32) (n : Nat) : TraceM Unit :=
  load (xcPageSize * pages) d.toNat n

/-- `xa_map_page`. -/
def xaMapPage (prot frameNum : U32) : TraceM (Option (Nat × Page)) :=
  mapPages 1 (XenAccess.xaMapPage h p prot frameNum)

/-- `xa_mmap_mfn`. -/
def xaMmapMfn (prot mfn : U32) : TraceM (Option (Nat × Page)) := xaMapPage h p prot mfn

/-- The pages of a batch; there is no mapping of no pages. -/
def batchPages (n : U32) : Nat := max n.toNat 1

/-- `xc_map_foreign_batch` of the frames whose numbers are in the first `n` words of a
mapping. -/
def xcMapForeignBatch (prot : U32) (pages : Nat) (arr : Page) (n : U32) :
    TraceM (Option (Nat × Page)) := do
  loadBytes pages 0 (4 * n.toNat)
  mapPages (batchPages n) (h.xcMapForeignBatch prot (frameNumbers arr n))

/-! ## Frames -/

/-- `nr_pfns` of `helper_pfn_to_mfn`. -/
def nrPfns (shinfo : Page) : U32 :=
  if p.xenVersion = .v310 then h.xcMemoryOp + 1 else h.sharedMaxPfn shinfo

/-- The number of frames that hold the numbers of the frames of the table. -/
def frameListSize (nrPfns : U32) : U32 := (nrPfns + fpp * fpp - 1) / (fpp * fpp)

/-- The number of frames of the table. -/
def tableSize (nrPfns : U32) : U32 := (nrPfns + fpp - 1) / fpp

/-- The end of `helper_pfn_to_mfn`, once the shared information and the list of lists are
mapped: the table is mapped and kept in the instance, and the pages on the way to it are
unmapped. -/
def mapTable (shinfo frameListList : Nat × Page) (nr pfn : U32) : TraceM U32 := do
  match ← xcMapForeignBatch h protRead 1 frameListList.2 (frameListSize nr) with
  | none =>
    munmap shinfo.1
    munmap frameListList.1
    return -1
  | some frameList =>
    match ← xcMapForeignBatch h protRead (batchPages (frameListSize nr)) frameList.2
        (tableSize nr) with
    | none =>
      munmap shinfo.1
      munmap frameListList.1
      munmap frameList.1
      return -1
    | some table =>
      keep table.1 (batchPages (tableSize nr)) (some ⟨batchPages (tableSize nr), table.2⟩)
      loadBytes (batchPages (tableSize nr)) (4 * pfn) 4
      munmap shinfo.1
      munmap frameListList.1
      munmap frameList.1
      return table.2.u32 (4 * pfn)

/-- The body of `helper_pfn_to_mfn` when the instance has no table yet. -/
def buildTable (pfn : U32) : TraceM U32 := do
  match ← xaMmapMfn h p protRead p.sharedInfoFrame with
  | none => return -1
  | some shinfo =>
    match ← xaMmapMfn h p protRead (h.sharedFrameListList shinfo.2) with
    | none =>
      munmap shinfo.1
      return -1
    | some frameListList => mapTable h shinfo frameListList (nrPfns h p shinfo.2) pfn

/-- `helper_pfn_to_mfn`; a failure is `-1`. -/
def helperPfnToMfn (pfn : U32) : TraceM U32 :=
  if p.hvm then return pfn
  else do
    match ← getStore with
    | some table =>
      loadBytes table.pages (4 * pfn) 4
      return table.memory.u32 (4 * pfn)
    | none => buildTable h p pfn

/-- `xa_mmap_pfn`, with the machine frame it maps. -/
def xaMmapPfn (prot pfn : U32) : TraceM (Option (Nat × U32 × Page)) := do
  let mfn ← match p.mode with
    | .xen => helperPfnToMfn h p pfn
    | .file => pure pfn
  if mfn = -1 then return none
  else return (← xaMapPage h p prot mfn).map fun m => (m.1, mfn, m.2)

/-! ## Addresses -/

/-- An access and the request that mapped its page. -/
structure Mapped where
  id : Nat
  access : Access

/-- `xa_access_pa`. -/
def xaAccessPa (physAddress prot : U32) : TraceM (Option Mapped) := do
  let pfn := physAddress >>> p.pageShift
  let offset := (p.pageSize - 1) &&& physAddress
  return (← xaMmapPfn h p prot pfn).map fun m => ⟨m.1, ⟨m.2.1, prot, m.2.2, offset⟩⟩

/-- `xa_access_ma`. -/
def xaAccessMa (machAddress prot : U32) : TraceM (Option Mapped) := do
  let mfn := machAddress >>> p.pageShift
  let offset := (p.pageSize - 1) &&& machAddress
  return (← xaMmapMfn h p prot mfn).map fun m => ⟨m.1, ⟨mfn, prot, m.2, offset⟩⟩

/-- Read a 32-bit field at a displacement of a mapped page. -/
def Mapped.field (m : Mapped) (d : U32) : TraceM U32 := do
  loadBytes 1 d 4
  return m.access.memory.u32 d

/-- Read a value of `n` bytes through an access and unmap it. This is the body of the
readers. -/
def readValue {α : Type} (n : Nat) (value : Access → α) : Option Mapped → TraceM (Option α)
  | none => return none
  | some m => do
    loadBytes 1 m.access.offset n
    munmap m.id
    return some (value m.access)

/-- `xa_read_long_mach`. -/
def xaReadLongMach (maddr : U32) : TraceM (Option U32) := do
  readValue 4 Access.long (← xaAccessMa h p maddr protRead)

/-- `xa_read_long_long_mach`. -/
def xaReadLongLongMach (maddr : U32) : TraceM (Option U64) := do
  readValue 8 Access.longLong (← xaAccessMa h p maddr protRead)

/-- Read a value of `n` bytes at a physical address. -/
def readPhys {α : Type} (n : Nat) (value : Access → α) (paddr : U32) : TraceM (Option α) := do
  readValue n value (← xaAccessPa h p paddr protRead)

/-- `xa_read_long_phys`. -/
def xaReadLongPhys (paddr : U32) : TraceM (Option U32) := readPhys h p 4 Access.long paddr

/-- `xa_read_long_long_phys`. -/
def xaReadLongLongPhys (paddr : U32) : TraceM (Option U64) := readPhys h p 8 Access.longLong paddr

/-! ## Page table walks -/

def getPdpi (vaddr cr3 : U32) : TraceM U64 := do
  let pdpiEntry := getPdptb cr3 + pdpiIndex vaddr
  return (← xaReadLongLongMach h p pdpiEntry).getD h.uninitLongLong

def getPgdNopae (vaddr pdpe : U32) : TraceM U32 := do
  let pgdEntry := pdbaBaseNopae pdpe + pgdIndex p vaddr
  return (← xaReadLongMach h p pgdEntry).getD h.uninitLong

def getPgdPae (vaddr : U32) (pdpe : U64) : TraceM U64 := do
  let pgdEntry : U32 := (pdbaBasePae pdpe + (pgdIndex p vaddr).setWidth 64).setWidth 32
  return (← xaReadLongLongMach h p pgdEntry).getD h.uninitLongLong

def getPteNopae (vaddr pgd : U32) : TraceM U32 := do
  let pteEntry := ptbaBaseNopae pgd + pteIndex p vaddr
  return (← xaReadLongMach h p pteEntry).getD h.uninitLong

def getPtePae (vaddr : U32) (pgd : U64) : TraceM U64 := do
  let pteEntry : U32 := (ptbaBasePae pgd + (pteIndex p vaddr).setWidth 64).setWidth 32
  return (← xaReadLongLongMach h p pteEntry).getD h.uninitLongLong

def v2pNopae (cr3 vaddr : U32) : TraceM U32 := do
  let pgd ← getPgdNopae h p vaddr cr3
  if entryPresent pgd then
    if pageSizeFlag pgd then return getLargePaddr p vaddr pgd
    else
      let pte ← getPteNopae h p vaddr pgd
      return if entryPresent pte then getPaddrNopae vaddr pte else 0
  else return 0

def v2pPae (cr3 vaddr : U32) : TraceM U32 := do
  let pdpe ← getPdpi h p vaddr cr3
  if !entryPresent (pdpe.setWidth 32) then return 0
  else
    let pgd ← getPgdPae h p vaddr pdpe
    if entryPresent (pgd.setWidth 32) then
      if pageSizeFlag (pgd.setWidth 32) then return getLargePaddr p vaddr (pgd.setWidth 32)
      else
        let pte ← getPtePae h p vaddr pgd
        return if entryPresent (pte.setWidth 32) then (getPaddrPae vaddr pte).setWidth 32 else 0
    else return 0

/-- `xa_pagetable_lookup`. -/
def xaPagetableLookup (cr3 vaddr : U32) : TraceM U32 :=
  if p.pae then v2pPae h p cr3 vaddr else v2pNopae h p cr3 vaddr

/-- `xa_translate_kv2p`. -/
def xaTranslateKv2p (virtAddress : U32) : TraceM U32 :=
  xaPagetableLookup h p (xaCurrentCr3 h p 0) virtAddress

/-! ## Virtual addresses -/

/-- Whether `xa_update_cache` stores an entry for a symbol: it finds one with the name, or
none with the page and makes one. -/
def storesSymbol (symbolName : Option CStr) (virtAddress pid machAddress : U32) (s : XaState) :
    Bool :=
  match symbolName with
  | none => false
  | some sym =>
    (updateSym h sym virtAddress pid machAddress s).isSome ||
      !(virtAddress != 0 && (updateVirt h virtAddress pid machAddress s).isSome)

/-- `xa_update_cache`. An entry for a symbol without a machine address is translated. -/
def xaUpdateCache (symbolName : Option CStr) (virtAddress pid machAddress : U32) : TraceM Unit := do
  let s ← get
  if machAddress == 0 && storesSymbol h symbolName virtAddress pid machAddress s then
    let _ ← xaTranslateKv2p h s.toXaParams virtAddress
    lift (XenAccess.xaUpdateCache h symbolName virtAddress pid machAddress)
  else lift (XenAccess.xaUpdateCache h symbolName virtAddress pid machAddress)

/-- The lookup below a page directory that may not have been found. -/
def lookupBelow (pgd virtAddress : U32) : TraceM U32 :=
  if pgd != 0 then xaPagetableLookup h p pgd virtAddress else pure 0

/-- The end of `xa_access_user_va`: store the translation and map the page. -/
def finishVa (virtAddress pid prot address : U32) : TraceM (Option Mapped) :=
  if address = 0 then return none
  else do
    xaUpdateCache h none virtAddress pid address
    let s ← get
    xaAccessMa h s.toXaParams address prot

/-- Body of `xa_access_user_va`. -/
def accessVa (pidToPgd : TraceM U32) (virtAddress pid prot : U32) : TraceM (Option Mapped) := do
  match ← lift (xaCheckCacheVirt h virtAddress pid) with
  | some address =>
    let s ← get
    xaAccessMa h s.toXaParams address prot
  | none =>
    if pid = 0 then
      let s ← get
      let address ← xaTranslateKv2p h s.toXaParams virtAddress
      finishVa h virtAddress pid prot address
    else
      let pgd ← pidToPgd
      let s ← get
      let address ← lookupBelow h s.toXaParams pgd virtAddress
      finishVa h virtAddress pid prot address

/-- `xa_access_kernel_va`. -/
def xaAccessKernelVa (virtAddress prot : U32) : TraceM (Option Mapped) :=
  accessVa h (pure 0) virtAddress 0 prot

/-! ## Process lists -/

/-- The loop of `linux_get_taskstruct` and `windows_get_EPROCESS`. The page of the task that
is found stays mapped. -/
def taskLoop (pidOffset tasksOffset pid listHead : U32) : Nat → U32 → TraceM (Option Mapped)
  | 0, _ => throw .outOfFuel
  | fuel + 1, nextProcess => do
    match ← xaAccessKernelVa h nextProcess protRead with
    | none => return none
    | some m =>
      let nextProcess ← m.field m.access.offset
      if listHead = nextProcess then
        munmap m.id
        return none
      else
        let taskPid ← m.field (m.access.offset + pidOffset - tasksOffset)
        if taskPid = pid then return some m
        else
          munmap m.id
          taskLoop pidOffset tasksOffset pid listHead fuel nextProcess

/-- `linux_get_taskstruct`. -/
def linuxGetTaskstruct (fuel : Nat) (pid : U32) : TraceM (Option Mapped) := do
  let s ← get
  taskLoop h s.os.linuxPid s.os.linuxTasks pid s.initTask fuel s.initTask

/-- `windows_get_EPROCESS`. -/
def windowsGetEPROCESS (fuel : Nat) (pid : U32) : TraceM (Option Mapped) := do
  let s ← get
  taskLoop h s.os.winPid s.os.winTasks pid s.initTask fuel s.initTask

/-- `linux_pid_to_pgd`. -/
def linuxPidToPgd (fuel : Nat) (pid : U32) : TraceM U32 := do
  match ← linuxGetTaskstruct h fuel pid with
  | none => return 0
  | some m =>
    let s ← get
    let ptr ← m.field (m.access.offset + s.os.linuxMm - s.os.linuxTasks)
    munmap m.id
    let pgd ← readValue 4 Access.long (← xaAccessKernelVa h (ptr + s.os.linuxPgd) protRead)
    let s ← get
    let pgd ← xaTranslateKv2p h s.toXaParams (pgd.getD 0)
    lift (xaUpdatePidCache h pid pgd)
    return pgd

/-- `windows_pid_to_pgd`. The exit of the function unmaps the page that was unmapped
before. -/
def windowsPidToPgd (fuel : Nat) (pid : U32) : TraceM U32 := do
  match ← windowsGetEPROCESS h fuel pid with
  | none => return 0
  | some m =>
    let s ← get
    let pgd ← m.field (m.access.offset + s.os.winPdbase - s.os.winTasks)
    munmap m.id
    lift (xaUpdatePidCache h pid pgd)
    munmap m.id
    return pgd

/-- `xa_pid_to_pgd`. -/
def xaPidToPgd (fuel : Nat) (pid : U32) : TraceM U32 := do
  match ← lift (xaCheckPidCache h pid) with
  | some pgd => return pgd
  | none =>
    let s ← get
    match s.osType with
    | .linux => linuxPidToPgd h fuel pid
    | .windows => windowsPidToPgd h fuel pid
    | .unknown => return 0

/-- `xa_access_user_va`. -/
def xaAccessUserVa (fuel : Nat) (virtAddress pid prot : U32) : TraceM (Option Mapped) :=
  accessVa h (xaPidToPgd h fuel pid) virtAddress pid prot

/-- `xa_read_long_virt`. -/
def xaReadLongVirt (fuel : Nat) (vaddr pid : U32) : TraceM (Option U32) := do
  readValue 4 Access.long (← xaAccessUserVa h fuel vaddr pid protRead)

/-- `xa_read_long_long_virt`. -/
def xaReadLongLongVirt (fuel : Nat) (vaddr pid : U32) : TraceM (Option U64) := do
  readValue 8 Access.longLong (← xaAccessUserVa h fuel vaddr pid protRead)

/-- `xa_linux_get_taskaddr`. -/
def xaLinuxGetTaskaddr (fuel : Nat) (pid : U32) : TraceM (Option XaLinuxTaskaddr) := do
  match ← linuxGetTaskstruct h fuel pid with
  | none => return none
  | some m =>
    let s ← get
    let ptr ← m.field (m.access.offset + s.os.linuxMm - s.os.linuxTasks)
    munmap m.id
    match ← xaAccessKernelVa h ptr protRead with
    | none => return none
    | some m =>
      let s ← get
      -- `sizeof(xa_linux_taskaddr_t)`
      loadBytes 1 (m.access.offset + s.os.linuxAddr) 44
      munmap m.id
      return some (m.access.memory.taskaddr (m.access.offset + s.os.linuxAddr))

/-- `xa_windows_get_peb`. -/
def xaWindowsGetPeb (fuel : Nat) (pid : U32) (peb : XaWindowsPeb) :
    TraceM (Option XaWindowsPeb) := do
  match ← windowsGetEPROCESS h fuel pid with
  | none => return none
  | some m =>
    let s ← get
    let ptr ← m.field (m.access.offset + s.os.winPeb - s.os.winTasks)
    munmap m.id
    let imageBaseAddress ← xaReadLongVirt h fuel (ptr + s.os.winIba) pid
    let processHeap ← xaReadLongVirt h fuel (ptr + s.os.winPh) pid
    return some
      { imageBaseAddress := imageBaseAddress.getD peb.imageBaseAddress
        processHeap := processHeap.getD peb.processHeap }

/-! ## The kernel image of a Windows guest -/

/-- The number of bytes `strnlen` reads: the string with its terminator, or the bound. -/
def strnlenBytes (memory : Page) (d : U32) (n : Nat) : Nat :=
  min ((memory.cstr d n).length + 1) n

/-- `rva_to_string`. -/
def rvaToString (rva : U32) : TraceM (Option CStr) := do
  match ← xaAccessPa h p (p.os.ntoskrnl + rva) protRead with
  | none => return none
  | some m =>
    let a := m.access
    let maxLength := p.pageSize - a.offset - 1
    loadBytes 1 a.offset (strnlenBytes a.memory a.offset maxLength.toNat)
    munmap m.id
    match a.memory.cstr a.offset maxLength.toNat with
    | [] => return none
    | str => return some str

/-- `get_export_rva`. -/
def getExportRva (aofIndex : U32) (et : ExportTable) : TraceM (Option U32) :=
  xaReadLongPhys h p (p.os.ntoskrnl + et.addressOfFunctions + aofIndex * 4)

/-- `get_aof_index`. -/
def getAofIndex (aonIndex : U32) (et : ExportTable) : TraceM (Option U32) := do
  let aofIndex ← xaReadLongPhys h p (p.os.ntoskrnl + et.addressOfNameOrdinals + aonIndex * 2)
  return aofIndex.map (· &&& 0xffff)

/-- The loop of `get_aon_index`. -/
def aonLoop (symbol : CStr) (et : ExportTable) : Nat → U32 → TraceM (Option U32)
  | 0, _ => return none
  | n + 1, i => do
    let strRva := (← xaReadLongPhys h p (p.os.ntoskrnl + et.addressOfNames + i * 4)).getD 0
    if strRva != 0 then
      match ← rvaToString h p strRva with
      | some name =>
        if strncmpEq name symbol name.length then return some i else aonLoop symbol et n (i + 1)
      | none => aonLoop symbol et n (i + 1)
    else aonLoop symbol et n (i + 1)

/-- `get_aon_index`. -/
def getAonIndex (symbol : CStr) (et : ExportTable) : TraceM (Option U32) :=
  aonLoop h p symbol et et.numberOfNames.toNat 0

/-- The export table at an access. -/
def exportTableAt (et : Access) : ExportTable where
  name := et.memory.u32 (et.offset + 12)
  numberOfNames := et.memory.u32 (et.offset + 24)
  addressOfFunctions := et.memory.u32 (et.offset + 28)
  addressOfNames := et.memory.u32 (et.offset + 32)
  addressOfNameOrdinals := et.memory.u32 (et.offset + 36)

/-- `get_export_table`. It copies a `struct optional_header` of 224 bytes and a
`struct export_table` of 40 bytes. -/
def getExportTable (baseAddr : U32) : TraceM (Option ExportTable) := do
  let value := (← xaReadLongPhys h p (baseAddr + 60)).getD 0
  let signatureLocation := baseAddr + value
  let optionalHeaderLocation := signatureLocation + 4 + 20
  match ← readPhys h p 224 (fun oh => oh.memory.u32 (oh.offset + 96)) optionalHeaderLocation with
  | none => return none
  | some exportHeaderRva => readPhys h p 40 exportTableAt (baseAddr + exportHeaderRva)

/-- `windows_export_to_rva`. -/
def windowsExportToRva (symbol : CStr) : TraceM (Option U32) := do
  match ← getExportTable h p p.os.ntoskrnl with
  | none => return none
  | some et =>
    match ← getAonIndex h p symbol et with
    | none => return none
    | some aonIndex =>
      match ← getAofIndex h p aonIndex et with
      | none => return none
      | some aofIndex => getExportRva h p aofIndex et

/-- `windows_symbol_to_address`. -/
def windowsSymbolToAddress (symbol : CStr) : TraceM (Option U32) := windowsExportToRva h p symbol

/-- `windows_get_eprocess_name`, which does not unmap the page. -/
def windowsGetEprocessName (paddr : U32) : TraceM (Option CStr) := do
  match ← xaAccessPa h p (paddr + 0x174) protRead with
  | none => return none
  | some m =>
    let a := m.access
    loadBytes 1 a.offset (strnlenBytes a.memory a.offset 50)
    return some (a.memory.cstr a.offset 50)

/-- The test of one address in `windows_find_eprocess`. -/
def eprocessFound (name : CStr) (offset value : U32) : TraceM Bool :=
  if value = 0x001b0003 ∨ value = 0x00200003 then do
    match ← windowsGetEprocessName h p offset with
    | some procname => return strncmpEq procname name 50
    | none => return false
  else return false

/-- The loop of `windows_find_eprocess`. -/
def eprocessLoop (name : CStr) : Nat → (offset value : U32) → TraceM U32
  | 0, _, _ => throw .outOfFuel
  | n + 1, offset, value =>
    if offset < p.size then do
      let value := (← xaReadLongPhys h p offset).getD value
      let found ← eprocessFound h p name offset value
      if found then return offset else eprocessLoop name n (offset + 8) value
    else return 0

/-- `windows_find_eprocess`. -/
def windowsFindEprocess (fuel : Nat) (name : CStr) : TraceM U32 := eprocessLoop h p name fuel 0 0

/-! ## Symbols -/

/-- `linux_access_kernel_symbol`. -/
def linuxAccessKernelSymbol (symbol : CStr) (prot : U32) : TraceM (Option Mapped) := do
  match ← lift (xaCheckCacheSym h symbol 0) with
  | some address =>
    let s ← get
    xaAccessMa h s.toXaParams address protRead
  | none =>
    match ← lift (linuxSystemMapSymbolToAddress h symbol) with
    | none => return none
    | some virtAddress =>
      xaUpdateCache h (some symbol) virtAddress 0 0
      xaAccessKernelVa h virtAddress prot

/-- `windows_access_kernel_symbol`. -/
def windowsAccessKernelSymbol (symbol : CStr) (prot : U32) : TraceM (Option Mapped) := do
  match ← lift (xaCheckCacheSym h symbol 0) with
  | some address =>
    let s ← get
    xaAccessMa h s.toXaParams address protRead
  | none =>
    let s ← get
    match ← windowsSymbolToAddress h s.toXaParams symbol with
    | none => return none
    | some rva =>
      let physAddress := s.os.ntoskrnl + rva
      let virtAddress := physAddress + s.pageOffset
      xaUpdateCache h (some symbol) virtAddress 0 0
      let s ← get
      xaAccessPa h s.toXaParams physAddress prot

/-- `xa_access_kernel_sym`. -/
def xaAccessKernelSym (symbol : CStr) (prot : U32) : TraceM (Option Mapped) := do
  let s ← get
  match s.osType with
  | .linux => linuxAccessKernelSymbol h symbol prot
  | .windows => windowsAccessKernelSymbol h symbol prot
  | .unknown => return none

/-- `xa_read_long_sym`. -/
def xaReadLongSym (sym : CStr) : TraceM (Option U32) := do
  readValue 4 Access.long (← xaAccessKernelSym h sym protRead)

/-- `xa_read_long_long_sym`. -/
def xaReadLongLongSym (sym : CStr) : TraceM (Option U64) := do
  readValue 8 Access.longLong (← xaAccessKernelSym h sym protRead)

/-! ## Calls -/

/-- The calls that unmap what they map. -/
inductive Op where
  | readLongMach (maddr : U32)
  | readLongLongMach (maddr : U32)
  | readLongPhys (paddr : U32)
  | readLongLongPhys (paddr : U32)
  | readLongVirt (vaddr pid : U32)
  | readLongLongVirt (vaddr pid : U32)
  | readLongSym (sym : CStr)
  | readLongLongSym (sym : CStr)
  | linuxPidToPgd (pid : U32)
  | windowsPidToPgd (pid : U32)
  | linuxGetTaskaddr (pid : U32)
  | windowsGetPeb (pid : U32) (peb : XaWindowsPeb)
  | getExportTable (baseAddr : U32)
  | getAofIndex (aonIndex : U32) (et : ExportTable)
  | windowsExportToRva (symbol : CStr)
  | windowsFindEprocess (name : CStr)

/-- What a call returns. -/
def Op.Result : Op → Type
  | .readLongMach _ | .readLongPhys _ | .readLongVirt _ _ | .readLongSym _ => Option U32
  | .readLongLongMach _ | .readLongLongPhys _ | .readLongLongVirt _ _ | .readLongLongSym _ =>
    Option U64
  | .linuxPidToPgd _ | .windowsPidToPgd _ | .windowsFindEprocess _ => U32
  | .linuxGetTaskaddr _ => Option XaLinuxTaskaddr
  | .windowsGetPeb _ _ => Option XaWindowsPeb
  | .getExportTable _ => Option ExportTable
  | .getAofIndex _ _ | .windowsExportToRva _ => Option U32

/-- A call with its mappings. -/
def Op.run (fuel : Nat) : (op : Op) → TraceM op.Result
  | .readLongMach maddr => do xaReadLongMach h (← get).toXaParams maddr
  | .readLongLongMach maddr => do xaReadLongLongMach h (← get).toXaParams maddr
  | .readLongPhys paddr => do xaReadLongPhys h (← get).toXaParams paddr
  | .readLongLongPhys paddr => do xaReadLongLongPhys h (← get).toXaParams paddr
  | .readLongVirt vaddr pid => xaReadLongVirt h fuel vaddr pid
  | .readLongLongVirt vaddr pid => xaReadLongLongVirt h fuel vaddr pid
  | .readLongSym sym => xaReadLongSym h sym
  | .readLongLongSym sym => xaReadLongLongSym h sym
  | .linuxPidToPgd pid => Traced.linuxPidToPgd h fuel pid
  | .windowsPidToPgd pid => Traced.windowsPidToPgd h fuel pid
  | .linuxGetTaskaddr pid => xaLinuxGetTaskaddr h fuel pid
  | .windowsGetPeb pid peb => xaWindowsGetPeb h fuel pid peb
  | .getExportTable baseAddr => do Traced.getExportTable h (← get).toXaParams baseAddr
  | .getAofIndex aonIndex et => do Traced.getAofIndex h (← get).toXaParams aonIndex et
  | .windowsExportToRva symbol => do Traced.windowsExportToRva h (← get).toXaParams symbol
  | .windowsFindEprocess name => do Traced.windowsFindEprocess h (← get).toXaParams fuel name

/-- The call without its mappings. -/
def Op.exec (fuel : Nat) : (op : Op) → XaM op.Result
  | .readLongMach maddr => do return XenAccess.xaReadLongMach h (← get).toXaParams maddr
  | .readLongLongMach maddr => do return XenAccess.xaReadLongLongMach h (← get).toXaParams maddr
  | .readLongPhys paddr => do return XenAccess.xaReadLongPhys h (← get).toXaParams paddr
  | .readLongLongPhys paddr => do return XenAccess.xaReadLongLongPhys h (← get).toXaParams paddr
  | .readLongVirt vaddr pid => XenAccess.xaReadLongVirt h fuel vaddr pid
  | .readLongLongVirt vaddr pid => XenAccess.xaReadLongLongVirt h fuel vaddr pid
  | .readLongSym sym => XenAccess.xaReadLongSym h sym
  | .readLongLongSym sym => XenAccess.xaReadLongLongSym h sym
  | .linuxPidToPgd pid => XenAccess.linuxPidToPgd h fuel pid
  | .windowsPidToPgd pid => XenAccess.windowsPidToPgd h fuel pid
  | .linuxGetTaskaddr pid => XenAccess.xaLinuxGetTaskaddr h fuel pid
  | .windowsGetPeb pid peb => XenAccess.xaWindowsGetPeb h fuel pid peb
  | .getExportTable baseAddr => do return XenAccess.getExportTable h (← get).toXaParams baseAddr
  | .getAofIndex aonIndex et => do
    return XenAccess.getAofIndex h (← get).toXaParams aonIndex et
  | .windowsExportToRva symbol => do
    return XenAccess.windowsExportToRva h (← get).toXaParams symbol
  | .windowsFindEprocess name => do
    StateT.lift (XenAccess.windowsFindEprocess h (← get).toXaParams fuel name)

end XenAccess.Traced
