import XenAccess.Config.Numbers
import XenAccess.Model.Access

/-!
# The example programs

What the programs under `examples/` do once the library is initialised: `dump-memory.c`,
`process-list.c` and `module-list.c`. The listings differ in the list they follow and in what they
print of a node, so the loop over a list is one definition with the printing as an argument.

A listing returns the lines it prints, and whether its loop came back to the head of the list;
it does not when a node cannot be mapped. What lies behind a block of `malloc` is
`Host.heapTail`, and a local that is not assigned holds `Host.uninitLong`.
-/

namespace XenAccess

variable (h : Host)

/-! ## Text -/

/-- `%5d` of an `int`. -/
def printPid (pid : U32) : CStr :=
  let text := if pid.msb then cstr "-" ++ digits 10 pid.toInt.natAbs else digits 10 pid.toNat
  List.replicate (5 - text.length) 32 ++ text

/-- The string at a displacement, as `%s` reads it. Displacements have 32 bits. -/
def Page.str (memory : Page) (d : U32) : CStr := memory.cstr d (2 ^ 32)

/-! ## dump-memory -/

/-- The bytes that `dump-memory` writes for one page: zeros when it is not mapped. -/
def dumpPage (p : XaParams) : Option Access → List U8
  | some a => (List.range p.pageSize.toNat).map fun i => a.memory (BitVec.ofNat 32 i)
  | none => List.replicate p.pageSize.toNat 0

/-- The loop of `dump-memory`, with the contents of the file. `fwrite n` is the number of bytes
of the page that the `n`-th call of `fwrite` writes. -/
def dumpLoop (p : XaParams) (fwrite : Nat → Nat) :
    Nat → Nat → U32 → Except Fault (List U8)
  | 0, _, _ => .error .outOfFuel
  | fuel + 1, n, address =>
    if address < p.size then do
      let bytes := (dumpPage p (xaAccessPa h p address protRead)).take (fwrite n)
      if bytes.length ≠ p.pageSize.toNat then return bytes
      else
        let rest ← dumpLoop p fwrite fuel (n + 1) (address + p.pageSize)
        return bytes ++ rest
    else .ok []

/-- `main` of `dump-memory`, once the library is initialised: the file it leaves. -/
def dumpMemory (p : XaParams) (fwrite : Nat → Nat) (fuel : Nat) : Except Fault (List U8) :=
  dumpLoop h p fwrite fuel 0 0

/-! ## Lists of the guest -/

/-- The loop of the listings from `next` on: map the node, read its link, and print the node
unless the link leads back to the head. -/
def listLoop (row : Access → XaM (List CStr)) (listHead : U32) :
    Nat → U32 → XaM (List CStr × Bool)
  | 0, _ => throw .outOfFuel
  | fuel + 1, next => do
    match ← xaAccessKernelVa h next protRead with
    | none => return ([], false)
    | some a =>
      let next := a.memory.u32 a.offset
      if listHead = next then return ([], true)
      else
        let lines ← row a
        let (rest, done) ← listLoop row listHead fuel next
        return (lines ++ rest, done)

/-! ## process-list -/

/-- The offsets in the structure of a process that a listing uses. -/
structure ListOffsets where
  tasks : U32
  pid : U32
  name : U32

/-- `printf("[%5d] %s\n", pid, name)`. -/
def printProcess (pid : U32) (name : CStr) : CStr :=
  cstr "[" ++ printPid pid ++ cstr "] " ++ name ++ [10]

/-- The line for a process whose link has been mapped; there is none for a negative pid. -/
def processLines (o : ListOffsets) (a : Access) : List CStr :=
  let name := a.memory.str (a.offset + o.name - o.tasks)
  let pid := a.memory.u32 (a.offset + o.pid - o.tasks)
  if pid.msb then [] else [printProcess pid name]

/-- The line for a process whose structure has been mapped at its start. -/
def firstProcessLine (o : ListOffsets) (a : Access) : CStr :=
  printProcess (a.memory.u32 (a.offset + o.pid)) (a.memory.str (a.offset + o.name))

/-- The list from the structure of a process on, the one that `a` maps. -/
def processListFrom (o : ListOffsets) (first : Access → List CStr) (fuel : Nat) :
    Option Access → XaM (List CStr × Bool)
  | none => return ([], false)
  | some a => do
    let next := a.memory.u32 (a.offset + o.tasks)
    let (lines, done) ← listLoop h (fun a => return processLines o a) next fuel next
    return (first a ++ lines, done)

/-- The offsets of `process-list` for the operating system of the guest. -/
def listOffsets (p : XaParams) : ListOffsets :=
  match p.osType with
  | .linux => ⟨p.os.linuxTasks, p.os.linuxPid, 0x194⟩
  | .windows => ⟨p.os.winTasks, p.os.winPid, 0x174⟩
  | .unknown => ⟨h.uninitLong, h.uninitLong, h.uninitLong⟩

/-- `main` of `process-list`, once the library is initialised. -/
def processList (fuel : Nat) : XaM (List CStr × Bool) := do
  let s ← get
  let o := listOffsets h s.toXaParams
  match s.osType with
  | .linux =>
    processListFrom h o (fun _ => []) fuel (← xaAccessKernelSym h (cstr "init_task") protRead)
  | .windows =>
    let listHead := (← xaReadLongSym h (cstr "PsInitialSystemProcess")).getD h.uninitLong
    processListFrom h o (fun a => [firstProcessLine o a]) fuel
      (← xaAccessKernelVa h listHead protRead)
  | .unknown => listLoop h (fun a => return processLines o a) h.uninitLong fuel h.uninitLong

/-! ## module-list -/

/-- The loop of `print_unicode_string`: each second byte, from the first one on. -/
def copyEven (tmpname name : List U8) : List U8 :=
  (List.range tmpname.length).foldl
    (fun name i => if i % 2 = 0 then name.set (i / 2) (tmpname.getD i 0) else name) name

/-- What `print_unicode_string` prints of the bytes of a string, without the end of the line.
The block `name` is as long as the string, and read up to a terminator. -/
def unicodeText (tmpname : List U8) : CStr :=
  cstrOf (copyEven tmpname (List.replicate tmpname.length 0) ++ h.heapTail)

/-- `print_unicode_string`. -/
def printUnicodeString (len : BitVec 16) (addr : U32) : XaM (List CStr) := do
  match ← xaAccessKernelVa h addr protRead with
  | none => return []
  | some a =>
    let tmpname := (List.range len.toNat).map fun i => a.memory (a.offset + BitVec.ofNat 32 i)
    return [unicodeText h tmpname ++ [10]]

/-- The line for a module of a Linux guest: its name follows the two links. -/
def linuxModuleLines (a : Access) : List CStr := [a.memory.str (a.offset + 8) ++ [10]]

/-- The line for a module of a Windows guest, with the offsets of Windows XP SP2. -/
def windowsModuleLines (a : Access) : XaM (List CStr) :=
  let length : BitVec 16 := a.memory (a.offset + 0x2d) ++ a.memory (a.offset + 0x2c)
  printUnicodeString h length (a.memory.u32 (a.offset + 0x30))

/-- `main` of `module-list`, once the library is initialised. -/
def moduleList (fuel : Nat) : XaM (List CStr × Bool) := do
  let s ← get
  match s.osType with
  | .linux =>
    let next := (← xaReadLongSym h (cstr "modules")).getD h.uninitLong
    listLoop h (fun a => return linuxModuleLines a) next fuel next
  | .windows =>
    match ← xaAccessKernelVa h (if s.pae then 0x805533a0 else 0x8055a620) protRead with
    | none => return ([], false)
    | some a =>
      let next := a.memory.u32 a.offset
      listLoop h (windowsModuleLines h) next fuel next
  | .unknown => listLoop h (fun _ => return []) h.uninitLong fuel h.uninitLong

end XenAccess
