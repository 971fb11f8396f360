import XenAccess.Model.Memory

/-!
# Range readers of the Python bindings

`pyxa_read` (`pyxamodule.c`) and the two readers over it that go page by page: `zread` of
`PyXaFS` (`pyxafs.py`) and `read` of `PyXaAddressSpace` (`pyxa_volatility.patch`). Integers of
Python are unbounded, and those that are given here are not negative.
-/

namespace XenAccess

variable (h : Host) (p : XaParams)

/-- A string of Python. -/
abbrev PyStr := List U8

/-- The exceptions that the bindings raise. -/
inductive PyError where
  | valueError
  deriving DecidableEq, Repr

/-- A call that can raise an exception, and that can return `None`. -/
abbrev Py := ExceptT PyError Option

/-- `pyxa_read`. The format "I" takes any integer modulo `2^32`. -/
def pyxaRead (pfn : Nat) : Py PyStr :=
  match xaAccessPa h p (BitVec.ofNat 32 pfn) protRead with
  | none => throw .valueError
  | some acc => pure ((List.range (0x1000 - acc.offset).toNat).map fun i =>
      acc.memory (acc.offset + BitVec.ofNat 32 i))

/-- The loop over the full blocks, with the string and the address it changes. -/
def blockLoop (block : Nat → Py PyStr) : Nat → PyStr → Nat → Py (PyStr × Nat)
  | 0, stuffRead, newAddr => pure (stuffRead, newAddr)
  | n + 1, stuffRead, newAddr => do
    let newStuff ← block newAddr
    blockLoop block n (stuffRead ++ newStuff) (newAddr + 0x1000)

namespace PyXaFS

/-- `self.xai.read` in the `try` of `zread`. -/
def xaiRead (addr : Nat) : Py PyStr :=
  tryCatch (pyxaRead h p addr) fun
    | .valueError => pure (List.replicate 0x1000 0)

/-- `PyXaFS.zread`. -/
def zread (addr length : Nat) : Py PyStr := do
  let firstBlock := 0x1000 - addr % 0x1000
  let fullBlocks : Int := ((length + addr % 0x1000) / 0x1000 : Nat) - 1
  let leftOver := (length + addr) % 0x1000
  if length < firstBlock then
    let stuffRead ← xaiRead h p addr
    return stuffRead.take length
  else
    let stuffRead ← xaiRead h p addr
    let (stuffRead, newAddr) ←
      blockLoop (xaiRead h p) fullBlocks.toNat stuffRead (addr + firstBlock)
    if 0 < leftOver then
      let newStuff ← xaiRead h p newAddr
      return stuffRead ++ newStuff.take leftOver
    else return stuffRead

/-! ### The file system -/

/-- The error numbers that the calls return, negated. -/
inductive Errno where
  | enoent
  | eacces
  deriving DecidableEq, Repr

/-- `MyStat`; the fields that stay `0` are left out. -/
structure MyStat where
  stMode : Nat
  stNlink : Nat
  stSize : Nat
  deriving DecidableEq, Repr

def memPath : PyStr := cstr "/mem"

/-- `PyXaFS.getattr`. `pyxa_get_size` returns the size as an unsigned number. -/
def getattr (path : PyStr) : Except Errno MyStat :=
  if path = cstr "/" then .ok { stMode := 0o040000 ||| 0o755, stNlink := 2, stSize := 0 }
  else if path = memPath then
    .ok { stMode := 0o100000 ||| 0o444, stNlink := 1, stSize := p.size.toNat }
  else .error .enoent

/-- `PyXaFS.open`, with the flags of `open`. -/
def «open» (path : PyStr) (flags : U32) : Except Errno Unit :=
  if path ≠ memPath then .error .enoent
  else if flags &&& 3 ≠ 0 then .error .eacces
  else .ok ()

/-- `PyXaFS.read`. -/
def read (path : PyStr) (size offset : Nat) : Except Errno (Py PyStr) :=
  if path ≠ memPath then .error .enoent else .ok (zread h p offset size)

end PyXaFS

namespace PyXaAddressSpace

/-- `PyXaAddressSpace.read`. Behind the first block it reads at `addr` again, not at
`new_addr`. -/
def read (addr length : Nat) : Py PyStr := do
  let firstBlock := 0x1000 - addr % 0x1000
  let fullBlocks : Int := ((length + addr % 0x1000) / 0x1000 : Nat) - 1
  let leftOver := (length + addr) % 0x1000
  if length < firstBlock then
    let stuffRead ← pyxaRead h p addr
    return stuffRead.take length
  else
    let stuffRead ← pyxaRead h p addr
    let (stuffRead, _) ←
      blockLoop (fun _ => pyxaRead h p addr) fullBlocks.toNat stuffRead (addr + firstBlock)
    if 0 < leftOver then
      let newStuff ← pyxaRead h p addr
      return stuffRead ++ newStuff.take leftOver
    else return stuffRead

end PyXaAddressSpace

end XenAccess
