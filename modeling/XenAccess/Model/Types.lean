import Mathlib.Data.BitVec
import Mathlib.Data.List.TakeWhile
import XenAccess.Lib.Lru

/-!
# Data of libxa

The types of `xenaccess.h` and `xa_private.h` for the 32-bit build with Xen support, and
the outside world as the library sees it (`Host`).

The fields of `xa_instance_t` are kept in two structures. `XaParams` holds those that
address translation reads; `XaInstance` adds the rest, with the two caches as lists in the
order from head to tail. The union `os` is kept as its seven words (`OsUnion`), because
`linux_instance` and `windows_instance` share them.

A mapped page is a function from displacements to bytes (`Page`). Displacements below the
page size are the page; the others are what the library's own address space holds around
the mapping, which the code can read when it runs over the end of a page.
-/

namespace XenAccess

abbrev U8 := BitVec 8
abbrev U32 := BitVec 32
abbrev U64 := BitVec 64

/-! ## Strings -/

/-- A C string without its terminator. -/
abbrev CStr := List U8

def cstr (s : String) : CStr := s.toList.map fun c => BitVec.ofNat 8 c.toNat

/-- `strncmp(a, b, n) == 0` on terminated strings. -/
def strncmpEq (a b : CStr) (n : Nat) : Bool := a.take n == b.take n

/-- The comparison is exact for a name shorter than its bound. -/
theorem strncmpEq_iff {name : CStr} {n : Nat} (hlen : name.length < n) (candidate : CStr) :
    strncmpEq name candidate n = true ↔ candidate = name := by
  unfold strncmpEq
  rw [beq_iff_eq, List.take_of_length_le hlen.le]
  constructor
  · intro heq
    have hshort : candidate.length ≤ n := by
      have hlength := congrArg List.length heq
      rw [List.length_take] at hlength
      omega
    rw [List.take_of_length_le hshort] at heq
    exact heq.symm
  · rintro rfl
    exact (List.take_of_length_le hlen.le).symm

theorem strncmpEq_comm (a b : CStr) (n : Nat) : strncmpEq a b n = strncmpEq b a n :=
  BEq.comm

/-- The string that starts at the head of a stretch of bytes. -/
def cstrOf (bytes : List U8) : CStr := bytes.takeWhile (· != 0)

theorem cstrOf_eq_self_iff {name : CStr} : cstrOf name = name ↔ 0 ∉ name := by
  rw [cstrOf, List.takeWhile_eq_self_iff]
  constructor
  · intro hall hzero
    exact absurd (hall 0 hzero) (by decide)
  · rintro hzero b hb
    rw [bne_iff_ne]
    rintro rfl
    exact hzero hb

/-- A string ends at its terminator, whatever follows. -/
theorem cstrOf_append_zero (name rest : List U8) : cstrOf (name ++ 0 :: rest) = cstrOf name := by
  unfold cstrOf
  rw [List.takeWhile_append]
  split
  · rename_i hall
    rw [List.takeWhile_cons_of_neg (by simp), List.append_nil,
      (List.takeWhile_prefix (· != 0)).eq_of_length hall]
  · rfl

/-! ## Mapped memory -/

/-- The bytes around a mapping, by displacement from its start. -/
abbrev Page := U32 → U8

/-- The 32-bit value at a displacement. -/
def Page.u32 (memory : Page) (d : U32) : U32 :=
  memory (d + 3) ++ memory (d + 2) ++ memory (d + 1) ++ memory d

/-- The 64-bit value at a displacement. -/
def Page.u64 (memory : Page) (d : U32) : U64 := memory.u32 (d + 4) ++ memory.u32 d

/-- At most `n` bytes of the string at a displacement, as `strnlen` and `strndup` read it. -/
def Page.cstr (memory : Page) (d : U32) : Nat → CStr
  | 0 => []
  | n + 1 => if memory d = 0 then [] else memory d :: memory.cstr (d + 1) n

/-- What `xa_access_*` hand out: the mapping of one frame, the protection it was requested
with, and the offset of the address in it. -/
structure Access where
  frame : U32
  prot : U32
  memory : Page
  offset : U32

def protRead : U32 := 1

/-! ## Constants -/

/-- `XA_SUCCESS` and `XA_FAILURE`. -/
inductive Ret where
  | success
  | failure
  deriving DecidableEq, Repr

inductive Mode where
  | xen
  | file
  deriving DecidableEq, Repr

inductive ErrorMode where
  | failhard
  | failsoft
  deriving DecidableEq, Repr

/-- `XA_ECRITICAL` and `XA_EMINOR`. -/
inductive ErrorType where
  | critical
  | minor
  deriving DecidableEq, Repr

inductive OsType where
  | unknown
  | linux
  | windows
  deriving DecidableEq, Repr

/-- `XA_XENVER_*`. -/
inductive XenVersion where
  | unknown
  | v304
  | v310
  | v311
  | v312
  | v313
  | v314
  | v320
  | v321
  | v322
  | v323
  | v330
  | v331
  | v340
  deriving DecidableEq, Repr

def xaCacheSize : Nat := 25
def xaPidCacheSize : Nat := 5
def maxSymLen : Nat := 512
def maxRowLength : Nat := 200
def configStrLength : Nat := 1024
def maxImageTypeLen : Nat := 256

/-- `fpp`, the number of frame numbers that fit on one frame. -/
def fpp : U32 := 1024

/-! ## Configuration -/

/-- The seven words of the union of `linux_offsets` and `windows_offsets`, and of the union
`os` of the instance, which has the same layout. -/
structure OsUnion where
  w0 : U32
  w1 : U32
  w2 : U32
  w3 : U32
  w4 : U32
  w5 : U32
  w6 : U32
  deriving DecidableEq, Repr

namespace OsUnion

/-! `linux_instance` -/

def linuxTasks (u : OsUnion) : U32 := u.w0
def linuxMm (u : OsUnion) : U32 := u.w1
def linuxPid (u : OsUnion) : U32 := u.w2
def linuxPgd (u : OsUnion) : U32 := u.w3
def linuxAddr (u : OsUnion) : U32 := u.w4

/-! `windows_instance` -/

def ntoskrnl (u : OsUnion) : U32 := u.w0
def winTasks (u : OsUnion) : U32 := u.w1
def winPdbase (u : OsUnion) : U32 := u.w2
def winPid (u : OsUnion) : U32 := u.w3
def winPeb (u : OsUnion) : U32 := u.w4
def winIba (u : OsUnion) : U32 := u.w5
def winPh (u : OsUnion) : U32 := u.w6

end OsUnion

/-- `xa_config_entry_t`, the block of the configuration file for one domain. -/
structure XaConfigEntry where
  sysmap : CStr
  ostype : CStr
  offsets : OsUnion

/-! ## The outside world -/

/-- Control registers of the first virtual CPU. -/
structure VcpuContext where
  ctrlreg0 : U32
  ctrlreg3 : U32
  ctrlreg4 : U32

/-- One guest together with the services the library calls. Nothing here changes while the
library runs; the clock is a sequence of readings. -/
structure Host where
  /-- whether `xc_interface_open` succeeds -/
  xcInterfaceOpen : Bool
  /-- `xc_map_foreign_range`: protection, machine frame -/
  xcMapForeignRange : U32 → U32 → Option Page
  /-- `xc_map_foreign_batch`: protection, machine frames mapped one behind the other -/
  xcMapForeignBatch : U32 → List U32 → Option Page
  xcVcpuGetcontext : Option VcpuContext
  /-- `shared_info_frame` of the domain, when `xc_domain_getinfo` finds it -/
  xcDomainGetinfo : Option U32
  /-- `xc_memory_op` with `XENMEM_maximum_gpfn` -/
  xcMemoryOp : U32
  /-- major, minor and extra version as one string -/
  xcVersion : CStr
  /-- `arch.max_pfn` of a `shared_info_t` -/
  sharedMaxPfn : Page → U32
  /-- `arch.pfn_to_mfn_frame_list_list` of a `shared_info_t` -/
  sharedFrameListList : Page → U32
  /-- xenstore, by path -/
  xsRead : CStr → Option CStr
  /-- whether the image file can be opened -/
  fopenImage : CStr → Bool
  /-- size of the image file in bytes -/
  fstat : Option U64
  /-- `mmap` of one page of the image: protection, file offset -/
  mmap : U32 → U32 → Option Page
  /-- text files by name -/
  fopen : CStr → Option (List U8)
  /-- whether `/etc/xenaccess.conf` can be opened -/
  configFile : Bool
  /-- `xa_parse_config` and `xa_get_config` for a domain name -/
  xaParseConfig : CStr → Option XaConfigEntry
  /-- successive readings of `time(NULL)` -/
  time : Nat → Int
  /-- contents of an uninitialised `uint32_t` -/
  uninitLong : U32
  /-- contents of an uninitialised `uint64_t` -/
  uninitLongLong : U64
  /-- contents of a fresh block from `malloc` -/
  mallocRow : List U8
  /-- what follows the terminator of a string on the heap -/
  heapTail : List U8

/-! ## The instance -/

/-- `struct xa_cache_entry`. -/
structure CacheEntry where
  lastUsed : Int
  symbolName : CStr
  virtAddress : U32
  machAddress : U32
  pid : U32
  deriving DecidableEq, Repr

/-- `struct xa_pid_cache_entry`. -/
structure PidCacheEntry where
  lastUsed : Int
  pid : U32
  pgd : U32
  deriving DecidableEq, Repr

/-- The fields of `xa_instance_t` that address translation reads. `size` is `m.xen.size` or
`m.file.size`, by the mode. -/
structure XaParams where
  mode : Mode
  osType : OsType
  pageOffset : U32
  pageShift : U32
  pageSize : U32
  kpgd : U32
  initTask : U32
  hvm : Bool
  pae : Bool
  os : OsUnion
  domainId : U32
  xenVersion : XenVersion
  sharedInfoFrame : U32
  size : U32

/-- `xa_instance_t`. -/
structure XaInstance extends XaParams where
  errorMode : ErrorMode
  sysmap : Option CStr
  imageType : Option CStr
  pse : Bool
  cr3 : U32
  cache : Lru CacheEntry xaCacheSize
  pidCache : Lru PidCacheEntry xaPidCacheSize

/-- An instance and the number of clock readings made so far. -/
structure XaState extends XaInstance where
  ticks : Nat

/-! ## Programs -/

/-- Ways in which a call does not come back. -/
inductive Fault where
  /-- a page pointer is dereferenced whose mapping call returned `NULL` -/
  | nullPage
  /-- `NULL` is passed where a string is read -/
  | nullString
  /-- a loop takes more rounds than it was given -/
  | outOfFuel
  deriving DecidableEq, Repr

abbrev XaM := StateT XaState (Except Fault)

/-- The state with both caches empty. -/
def XaState.clear (s : XaState) : XaState :=
  { s with cache := .empty, pidCache := .empty }

end XenAccess
