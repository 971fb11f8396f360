import XenAccess.Model.Ledger
import XenAccess.Model.Programs

/-!
# The example programs with their mappings

`process-list`, `module-list` and `dump-memory` once more, with the pages that they map and unmap.
A `main` has one variable for its mapping: behind the label `error_exit` it unmaps that page, if
the variable is not null, also when it has unmapped it before.
-/

namespace XenAccess.Traced

open Audit

variable (h : Host)

/-! ## Lists of the guest -/

/-- The loop of the listings. What becomes of the page of a node is up to the row. -/
def listLoop (row : Mapped → TraceM (List CStr)) (listHead : U32) :
    Nat → U32 → TraceM (List CStr × Bool)
  | 0, _ => throw .outOfFuel
  | fuel + 1, next => do
    match ← xaAccessKernelVa h next protRead with
    | none => return ([], false)
    | some m =>
      let next ← m.field m.access.offset
      if listHead = next then
        munmap m.id
        return ([], true)
      else
        let lines ← row m
        let (rest, done) ← listLoop row listHead fuel next
        return (lines ++ rest, done)

/-- A row of `process-list`: behind a negative pid the loop goes on without unmapping. -/
def processRow (o : ListOffsets) (m : Mapped) : TraceM (List CStr) := do
  let name := m.access.memory.str (m.access.offset + o.name - o.tasks)
  let pid ← m.field (m.access.offset + o.pid - o.tasks)
  if pid.msb then return []
  else
    loadBytes 1 (m.access.offset + o.name - o.tasks) (name.length + 1)
    munmap m.id
    return [printProcess pid name]

/-- The line for the structure that the list of Windows starts with. -/
def firstRow (o : ListOffsets) (m : Mapped) : TraceM (List CStr) := do
  let name := m.access.memory.str (m.access.offset + o.name)
  let pid ← m.field (m.access.offset + o.pid)
  loadBytes 1 (m.access.offset + o.name) (name.length + 1)
  return [printProcess pid name]

/-- The list from a structure on, whose page is unmapped before the loop. -/
def processListFrom (o : ListOffsets) (first : Mapped → TraceM (List CStr)) (fuel : Nat) :
    Option Mapped → TraceM (List CStr × Bool)
  | none => return ([], false)
  | some m => do
    let next ← m.field (m.access.offset + o.tasks)
    let line ← first m
    munmap m.id
    let (lines, done) ← listLoop h (processRow o) next fuel next
    return (line ++ lines, done)

/-- `main` of `process-list`, once the library is initialised. -/
def processList (fuel : Nat) : TraceM (List CStr × Bool) := do
  let s ← get
  let o := listOffsets h s.toXaParams
  match s.osType with
  | .linux =>
    processListFrom h o (fun _ => return []) fuel
      (← xaAccessKernelSym h (cstr "init_task") protRead)
  | .windows =>
    let listHead := (← xaReadLongSym h (cstr "PsInitialSystemProcess")).getD h.uninitLong
    processListFrom h o (firstRow o) fuel (← xaAccessKernelVa h listHead protRead)
  | .unknown => listLoop h (processRow o) h.uninitLong fuel h.uninitLong

/-- `print_unicode_string`. -/
def printUnicodeString (len : BitVec 16) (addr : U32) : TraceM (List CStr) := do
  match ← xaAccessKernelVa h addr protRead with
  | none => return []
  | some m =>
    loadBytes 1 m.access.offset len.toNat
    munmap m.id
    let tmpname := (List.range len.toNat).map fun i =>
      m.access.memory (m.access.offset + BitVec.ofNat 32 i)
    return [unicodeText h tmpname ++ [10]]

/-- A row of `module-list` for a Linux guest. -/
def linuxModuleRow (m : Mapped) : TraceM (List CStr) := do
  let name := m.access.memory.str (m.access.offset + 8)
  loadBytes 1 (m.access.offset + 8) (name.length + 1)
  munmap m.id
  return [name ++ [10]]

/-- A row of `module-list` for a Windows guest. -/
def windowsModuleRow (m : Mapped) : TraceM (List CStr) := do
  let length : BitVec 16 :=
    m.access.memory (m.access.offset + 0x2d) ++ m.access.memory (m.access.offset + 0x2c)
  loadBytes 1 (m.access.offset + 0x2c) 2
  let bufferAddr ← m.field (m.access.offset + 0x30)
  let lines ← printUnicodeString h length bufferAddr
  munmap m.id
  return lines

/-- `main` of `module-list`, once the library is initialised. -/
def moduleList (fuel : Nat) : TraceM (List CStr × Bool) := do
  let s ← get
  match s.osType with
  | .linux =>
    let next := (← xaReadLongSym h (cstr "modules")).getD h.uninitLong
    listLoop h linuxModuleRow next fuel next
  | .windows =>
    match ← xaAccessKernelVa h (if s.pae then 0x805533a0 else 0x8055a620) protRead with
    | none => return ([], false)
    | some m =>
      let next ← m.field m.access.offset
      munmap m.id
      listLoop h (windowsModuleRow h) next fuel next
  | .unknown =>
    -- no name is printed
    listLoop h (fun m => do
      munmap m.id
      return []) h.uninitLong fuel h.uninitLong

/-! ## dump-memory -/

variable (p : XaParams) (fwrite : Nat → Nat)

/-- The loop of `dump-memory`. `memory` is the variable for the mapping, which keeps its value
when the page has been unmapped. -/
def dumpLoop : (memory : Option Nat) → Nat → Nat → U32 → TraceM (List U8)
  | _, 0, _, _ => throw .outOfFuel
  | memory, fuel + 1, n, address =>
    if address < p.size then do
      match ← xaAccessPa h p address protRead with
      | some m =>
        let bytes := (dumpPage p (some m.access)).take (fwrite n)
        loadBytes 1 0 p.pageSize.toNat
        munmap m.id
        if bytes.length ≠ p.pageSize.toNat then return bytes
        else
          let rest ← dumpLoop (some m.id) fuel (n + 1) (address + p.pageSize)
          return bytes ++ rest
      | none =>
        let bytes := (dumpPage p none).take (fwrite n)
        if bytes.length ≠ p.pageSize.toNat then return bytes
        else
          let rest ← dumpLoop none fuel (n + 1) (address + p.pageSize)
          return bytes ++ rest
    else
      match memory with
      | none => return []
      | some id => do
        munmap id
        return []

/-- `main` of `dump-memory`, once the library is initialised. -/
def dumpMemory (fuel : Nat) : TraceM (List U8) := dumpLoop h p fwrite none fuel 0 0

end XenAccess.Traced
