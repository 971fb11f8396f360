import XenAccess.Config.Numbers

/-!
# The offsets of a kernel

`findoffsets.c`, a module for the kernel of a guest. It prints an entry for the configuration
file with the offsets of the fields of a process in that kernel. In place of the name of the
domain and of the path of its map it prints what the user has to fill in there.
-/

namespace XenAccess

/-- Where the fields of `task_struct` and of `mm_struct` are in a kernel. -/
structure KernelLayout where
  comm : Nat
  tasks : Nat
  mm : Nat
  pid : Nat
  pgd : Nat
  startCode : Nat

/-- `%x`. -/
def printX (v : U32) : CStr := digits 16 v.toNat

variable {w : Nat}

/-- `(unsigned long)(&(p->field)) - (unsigned long)(p)`, for a `long` of the guest. -/
def fieldOffset (p : BitVec w) (field : Nat) : BitVec w := p + BitVec.ofNat w field - p

/-- A line with an offset, which is cast to `unsigned int`. -/
def offsetLine (key : CStr) (offset : BitVec w) : CStr :=
  key ++ (cstr " = 0x" ++ (printX (offset.setWidth 32) ++ cstr ";\n"))

/-- The entry that `my_init_module` prints for the process `p` with the memory `mm`, with a name
and a path filled in. -/
def offsetsEntry (name sysmap : CStr) (p mm : BitVec w) (layout : KernelLayout) : List CStr :=
  let commOffset := fieldOffset p layout.comm
  let tasksOffset := fieldOffset p layout.tasks
  let mmOffset := fieldOffset p layout.mm
  let pidOffset := fieldOffset p layout.pid
  let pgdOffset := fieldOffset mm layout.pgd
  let addrOffset := fieldOffset mm layout.startCode
  [name ++ cstr " \x7b\n",
    cstr "    ostype = \"Linux\";\n",
    cstr "    sysmap = \"" ++ (sysmap ++ cstr "\";\n"),
    offsetLine (cstr "#    linux_name") commOffset,
    offsetLine (cstr "    linux_tasks") tasksOffset,
    offsetLine (cstr "    linux_mm") mmOffset,
    offsetLine (cstr "    linux_pid") pidOffset,
    offsetLine (cstr "    linux_pgd") pgdOffset,
    offsetLine (cstr "    linux_addr") addrOffset,
    cstr "\x7d\n"]

/-- `my_init_module`: what it prints, where `p` is `current` and `mm` is `p->mm`. -/
def myInitModule (p mm : BitVec w) (layout : KernelLayout) : List CStr :=
  cstr "Module FindOffsets  loaded.\n\n" ::
    if p ≠ 0 then offsetsEntry (cstr "[domain name]") (cstr "[insert path here]") p mm layout
    else [cstr "FindOffsets : found no process to populate task_struct.\n"]

end XenAccess
