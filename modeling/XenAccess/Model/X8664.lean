import XenAccess.Model.Types

/-!
# Page table walks of x86-64 guests

`arch/x86_64/memory.c` of the patch for 64-bit hosts, with the readers it goes through. Addresses
and entries are 64 bits wide. Tables below the first one are read by machine address; the first one
too for the kernel, but for a process its address is one of the kernel's address space. A walk
gives `0` for pages of 1 GiB and of 2 MiB, which the library does not support. The patch switches
the caches off, so nothing here has a state.
-/

namespace XenAccess.X8664

/-- The services of the host, with the widths of a 64-bit build. -/
structure Host where
  /-- `xc_map_foreign_range`: protection, machine frame -/
  xcMapForeignRange : U32 → U64 → Option Page
  /-- `mmap` of one page of the image: protection, file offset -/
  mmap : U32 → U64 → Option Page
  /-- `ctrlreg[3]` of the first virtual CPU -/
  xcVcpuGetcontext : Option U64
  /-- contents of an uninitialised `xa_long_long` -/
  uninitLongLong : U64

/-- The fields of the instance of a Linux guest that address translation reads. -/
structure Params where
  mode : Mode
  pageOffset : U64
  pageShift : U32
  pageSize : U32
  kpgd : U64
  initTask : U64
  tasksOffset : U32
  mmOffset : U32
  pidOffset : U32
  pgdOffset : U32
  size : U32

/-- The mapping of a frame with the offset of the address in it. -/
structure Access where
  memory : Page
  offset : U32

variable (h : Host) (p : Params)

/-! ## Frames -/

/-- `xa_map_file_range`; the comparison with the size is one of signed numbers. -/
def xaMapFileRange (prot : U32) (pfn : U64) : Option Page :=
  let address := pfn <<< p.pageShift
  if (p.size.setWidth 64).sle address then none else h.mmap prot address

/-- `xa_mmap_mfn` and `xa_map_page`. -/
def xaMmapMfn (prot : U32) (mfn : U64) : Option Page :=
  match p.mode with
  | .xen => h.xcMapForeignRange prot mfn
  | .file => xaMapFileRange h p prot mfn

/-- `xa_access_ma`. -/
def xaAccessMa (machAddress : U64) (prot : U32) : Option Access :=
  let mfn := machAddress >>> p.pageShift
  let offset := (p.pageSize - 1).setWidth 64 &&& machAddress
  (xaMmapMfn h p prot mfn).map fun memory => ⟨memory, offset.setWidth 32⟩

/-- The value a reader finds through the access it made. -/
def Access.longLong (a : Access) : U64 := a.memory.u64 a.offset

/-- `xa_read_long_long_mach`. -/
def xaReadLongLongMach (maddr : U64) : Option U64 :=
  (xaAccessMa h p maddr protRead).map Access.longLong

/-! ## Entries -/

/-- `xa_get_bit`. -/
def xaGetBit (reg : U64) (bit : Nat) : Bool := reg &&& ((1 : U64) <<< bit) != 0

def entryPresent (entry : U64) : Bool := xaGetBit entry 0

def pageSizeFlag (entry : U64) : Bool := xaGetBit entry 7

/-- `xa_current_cr3`; when the context of the virtual CPU cannot be read, the caller's value
`cr3` stays. -/
def xaCurrentCr3 (cr3 : U64) : U64 :=
  match p.mode with
  | .xen =>
    match h.xcVcpuGetcontext with
    | none => cr3
    | some ctrlreg3 => ctrlreg3 &&& 0xFFFFFFFFFFFFF000
  | .file => p.kpgd - p.pageOffset

def getPml4tb (pml4r : U64) : U64 := pml4r &&& 0xFFFFFFFFFFFFF000

def pml4iIndex (pml4i : U64) : U64 := ((pml4i >>> 39) &&& 0x1FF) * 8

/-- `get_pml4i`; `readVirt` is `xa_read_long_long_virt` for the kernel, which only lookups for
processes call. -/
def getPml4i (readVirt : U64 → Option U64) (vaddr cr3 : U64) (kernel : Bool) : U64 :=
  let pml4iEntry := getPml4tb cr3 + pml4iIndex vaddr
  let value := if kernel then xaReadLongLongMach h p pml4iEntry else readVirt pml4iEntry
  value.getD h.uninitLongLong

/-! ## Page directory pointer table -/

def getPdptb (pdpr : U64) : U64 := pdpr &&& 0xFFFFFFFFFF000

def pdpiIndex (pdpi : U64) : U64 := ((pdpi >>> 30) &&& 0x1FF) * 8

def pdbaBasePae (pdpe : U64) : U64 := pdpe &&& 0xFFFFFFFFFF000

def getPdpi (vaddr pml4e : U64) : U64 :=
  let pdpiEntry := getPdptb pml4e + pdpiIndex vaddr
  (xaReadLongLongMach h p pdpiEntry).getD h.uninitLongLong

/-! ## Page directory -/

def pgdIndex (address : U64) : U64 := ((address >>> 21) &&& 0x1FF) * 8

def ptbaBasePae (pde : U64) : U64 := pde &&& 0xFFFFFFFFFF000

def getPgdPae (vaddr pdpe : U64) : U64 :=
  let pgdEntry := pdbaBasePae pdpe + pgdIndex vaddr
  (xaReadLongLongMach h p pgdEntry).getD h.uninitLongLong

/-! ## Page table -/

def pteIndex (address : U64) : U64 := ((address >>> 12) &&& 0x1FF) * 8

def getPtePae (vaddr pgd : U64) : U64 :=
  let pteEntry := ptbaBasePae pgd + pteIndex vaddr
  (xaReadLongLongMach h p pteEntry).getD h.uninitLongLong

def ptePfnPae (pte : U64) : U64 := pte &&& 0xFFFFFFFFFF000

def getPaddrPae (vaddr pte : U64) : U64 := ptePfnPae pte ||| (vaddr &&& 0xFFF)

/-! ## Translation -/

def v2pPae (readVirt : U64 → Option U64) (cr3 vaddr : U64) (k : Bool) : U64 :=
  let pml4e := getPml4i h p readVirt vaddr cr3 k
  if !entryPresent pml4e then 0
  else
    let pdpe := getPdpi h p vaddr pml4e
    if !entryPresent pdpe then 0
    else if pageSizeFlag pdpe then 0
    else
      let pgd := getPgdPae h p vaddr pdpe
      if entryPresent pgd then
        if pageSizeFlag pgd then 0
        else
          let pte := getPtePae h p vaddr pgd
          if entryPresent pte then getPaddrPae vaddr pte else 0
      else 0

/-- `xa_translate_kv2p`. -/
def xaTranslateKv2p (virtAddress : U64) : U64 :=
  v2pPae h p (fun _ => none) (xaCurrentCr3 h p 0) virtAddress true

/-- What `xa_access_user_va` maps for a machine address. -/
def accessTranslated (address : U64) (prot : U32) : Option Access :=
  if address = 0 then none else xaAccessMa h p address prot

/-- `xa_access_kernel_va`, and `xa_access_user_va` for pid 0. -/
def xaAccessKernelVa (virtAddress : U64) (prot : U32) : Option Access :=
  accessTranslated h p (xaTranslateKv2p h p virtAddress) prot

/-- `xa_read_long_virt` and `xa_read_long_long_virt` for pid 0; both read 64 bits. -/
def xaReadLongKernel (vaddr : U64) : Option U64 :=
  (xaAccessKernelVa h p vaddr protRead).map Access.longLong

/-- `xa_pagetable_lookup`. -/
def xaPagetableLookup (cr3 vaddr : U64) (kernel : Bool) : U64 :=
  v2pPae h p (xaReadLongKernel h p) cr3 vaddr kernel

/-! ## Processes -/

/-- The loop of `linux_get_taskstruct`, from the node `nextProcess`. -/
def taskLoop (pid : U32) : Nat → U64 → Except Fault (Option Access)
  | 0, _ => .error .outOfFuel
  | fuel + 1, nextProcess =>
    match xaAccessKernelVa h p nextProcess protRead with
    | none => .ok none
    | some a =>
      let nextProcess := a.memory.u64 a.offset
      if p.initTask = nextProcess then .ok none
      else if a.memory.u32 (a.offset + p.pidOffset - p.tasksOffset) = pid then .ok (some a)
      else taskLoop pid fuel nextProcess

/-- `linux_get_taskstruct`. -/
def linuxGetTaskstruct (fuel : Nat) (pid : U32) : Except Fault (Option Access) :=
  taskLoop h p pid fuel p.initTask

/-- `linux_get_taskmm`. -/
def linuxGetTaskmm (fuel : Nat) (pid : U32) : Except Fault U64 :=
  (linuxGetTaskstruct h p fuel pid).map fun task =>
    (task.map fun a => a.memory.u64 (a.offset + p.mmOffset - p.tasksOffset)).getD 0

/-- `linux_pid_to_pgd`. -/
def linuxPidToPgd (fuel : Nat) (pid : U32) : Except Fault U64 :=
  (linuxGetTaskmm h p fuel pid).map fun ptr =>
    if ptr = 0 then 0
    else (xaReadLongKernel h p (ptr + p.pgdOffset.signExtend 64)).getD 0

/-- `xa_access_user_va`. -/
def xaAccessUserVa (fuel : Nat) (virtAddress : U64) (pid prot : U32) :
    Except Fault (Option Access) :=
  if pid = 0 then .ok (xaAccessKernelVa h p virtAddress prot)
  else (linuxPidToPgd h p fuel pid).map fun pgd =>
    let address := if pgd = 0 then 0 else xaPagetableLookup h p pgd virtAddress false
    accessTranslated h p address prot

/-- `xa_read_long_virt` and `xa_read_long_long_virt`. -/
def xaReadLongVirt (fuel : Nat) (vaddr : U64) (pid : U32) : Except Fault (Option U64) :=
  (xaAccessUserVa h p fuel vaddr pid protRead).map fun a => a.map Access.longLong

end XenAccess.X8664
