import XenAccess.Model.Access

/-!
# Translation without caches

What the access functions compute when nothing is ever taken from a cache. These are
programs without state: the task list is walked with the kernel page tables, and each
address is translated anew. They state what the caches are for: an access through the
caches must give what `refUserVa` gives.
-/

namespace XenAccess

variable (h : Host) (p : XaParams)

/-- The access to a translated address; `0` is no address. -/
def accessTranslated (address prot : U32) : Option Access :=
  if address = 0 then none else xaAccessMa h p address prot

/-- Kernel access without caches. -/
def refKernelVa (virtAddress prot : U32) : Option Access :=
  accessTranslated h p (xaTranslateKv2p h p virtAddress) prot

/-- Walk of a task list without caches. -/
def refTaskLoop (pidOffset tasksOffset pid listHead : U32) :
    Nat → U32 → Except Fault (Option Access)
  | 0, _ => .error .outOfFuel
  | fuel + 1, nextProcess =>
    match refKernelVa h p nextProcess protRead with
    | none => .ok none
    | some a =>
      let nextProcess := a.memory.u32 a.offset
      if listHead = nextProcess then .ok none
      else if a.memory.u32 (a.offset + pidOffset - tasksOffset) = pid then .ok (some a)
      else refTaskLoop pidOffset tasksOffset pid listHead fuel nextProcess

/-- Page directory of a Linux task. -/
def linuxTaskPgd (a : Access) : U32 :=
  let ptr := a.memory.u32 (a.offset + p.os.linuxMm - p.os.linuxTasks)
  xaTranslateKv2p h p (((refKernelVa h p (ptr + p.os.linuxPgd) protRead).map Access.long).getD 0)

/-- Page directory of a Windows process. -/
def windowsTaskPgd (a : Access) : U32 :=
  a.memory.u32 (a.offset + p.os.winPdbase - p.os.winTasks)

/-- Page directory of a process without caches; `0` when it is not found. -/
def refPidToPgd (fuel : Nat) (pid : U32) : Except Fault U32 :=
  match p.osType with
  | .linux => do
    let task ← refTaskLoop h p p.os.linuxPid p.os.linuxTasks pid p.initTask fuel p.initTask
    return (task.map (linuxTaskPgd h p)).getD 0
  | .windows => do
    let task ← refTaskLoop h p p.os.winPid p.os.winTasks pid p.initTask fuel p.initTask
    return (task.map (windowsTaskPgd p)).getD 0
  | .unknown => .ok 0

/-- Lookup below a page directory that may not have been found. -/
def lookupBelow (pgd virtAddress : U32) : U32 :=
  if pgd != 0 then xaPagetableLookup h p pgd virtAddress else 0

/-- Machine address of a virtual address of a process without caches. -/
def refTranslate (fuel : Nat) (pid virtAddress : U32) : Except Fault U32 :=
  if pid = 0 then .ok (xaTranslateKv2p h p virtAddress)
  else do
    let pgd ← refPidToPgd h p fuel pid
    return lookupBelow h p pgd virtAddress

/-- `xa_access_user_va` without caches. -/
def refUserVa (fuel : Nat) (virtAddress pid prot : U32) : Except Fault (Option Access) := do
  let address ← refTranslate h p fuel pid virtAddress
  return accessTranslated h p address prot

theorem refUserVa_kernel (fuel : Nat) (virtAddress prot : U32) :
    refUserVa h p fuel virtAddress 0 prot = .ok (refKernelVa h p virtAddress prot) := rfl

end XenAccess
