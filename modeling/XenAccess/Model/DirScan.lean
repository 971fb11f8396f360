import XenAccess.Lib.Scan
import XenAccess.Model.DiskMonitor

/-!
# Scans of a directory block

The three loops over the records of a block, `parse_block_dir`, `xa_linux_ext2_finddir` and
`xa_linux_ext2_listdirs`, with a check of every byte that is read of the block. The guest
writes the block, and none of the loops checks a record.
-/

namespace XenAccess.Disk.Checked

open Scan

/-- Ways in which a scan goes wrong. -/
inductive ScanFault where
  /-- a byte is read that is not in the block -/
  | outside
  /-- an entry is written behind the table -/
  | overflow
  /-- the bound on the number of rounds is reached -/
  | late
  deriving DecidableEq, Repr

variable (data : Block)

/-! ## Records -/

def byte (d : Nat) : Except ScanFault U8 :=
  if hd : d < blockBytes then .ok (data ⟨d, hd⟩) else .error .outside

def u16 (d : Nat) : Except ScanFault (BitVec 16) := do
  let low ← byte data d
  let high ← byte data (d + 1)
  return high ++ low

def u32 (d : Nat) : Except ScanFault U32 := do
  let b0 ← byte data d
  let b1 ← byte data (d + 1)
  let b2 ← byte data (d + 2)
  let b3 ← byte data (d + 3)
  return b3 ++ b2 ++ b1 ++ b0

/-- `xa_linux_ext2_dir_gettype`. -/
def dirGettype (d : Nat) : Except ScanFault U8 := byte data (d + 7)

/-- `xa_linux_ext2_dir_getinode`. -/
def dirGetinode (d : Nat) : Except ScanFault U32 := u32 data d

/-- `xa_linux_ext2_dir_getreclen`. -/
def dirGetreclen (d : Nat) : Except ScanFault (BitVec 16) := u16 data (d + 4)

/-- `xa_linux_ext2_dir_getnamelen`. -/
def dirGetnamelen (d : Nat) : Except ScanFault U8 := byte data (d + 6)

/-! ## Names -/

/-- `strncpy` from the block: it reads up to the first zero byte. -/
def strncpy : Nat → Nat → Except ScanFault CStr
  | 0, _ => .ok []
  | n + 1, d => do
    let c ← byte data d
    if c = 0 then return []
    else
      let res ← strncpy n (d + 1)
      return c :: res

/-- `!strncmp` of the block with a string: it reads up to the first difference. -/
def strncmpEq : CStr → Nat → Except ScanFault Bool
  | [], _ => .ok true
  | c :: name, d => do
    let b ← byte data d
    if b = c then strncmpEq name (d + 1) else return false

/-- The loop of `xa_linux_ext2_listdirs` that prints a name. -/
def putName : Nat → Nat → Except ScanFault CStr
  | 0, _ => .ok []
  | n + 1, d => do
    let c ← byte data d
    let res ← putName n (d + 1)
    return c :: res

/-- `parse_name`. -/
def parseName (d : Nat) : Except ScanFault CStr := do
  let len ← dirGetnamelen data d
  strncpy data len.toNat (d + 8)

/-! ## The loops -/

variable (dirSize : Nat)

/-- A round of `parse_block_dir`, with the index of the entry and the place of the record. -/
def parseRound : Nat × Nat → Except ScanFault (Round (Nat × Nat) DirEntry Unit)
  | (i, block) =>
    if block < dirSize then do
      if dirMax ≤ i then throw .overflow
      let inode ← dirGetinode data block
      let type ← dirGettype data block
      let pathElem ← parseName data block
      let len ← dirGetreclen data block
      return .more { inode, type, pathElem } (i + 1, block + len.toNat)
    else return .done ()

/-- `parse_block_dir`, with a bound on the rounds. -/
def parseBlockDir (rounds : Nat) : Except ScanFault (List DirEntry × Unit) :=
  run (parseRound data dirSize) .late rounds (0, 0)

/-- A round of `xa_linux_ext2_finddir`. -/
def finddirRound (name : CStr) (pos : Nat) : Except ScanFault (Round Nat Unit (Option Nat)) :=
  if pos < dirSize then do
    let len ← dirGetnamelen data pos
    let found ← if name.length = len.toNat then strncmpEq data name (pos + 8) else pure false
    if found then return .done (some pos)
    let len ← dirGetreclen data pos
    return .more () (pos + len.toNat)
  else return .done none

/-- `xa_linux_ext2_finddir`, with a bound on the rounds. -/
def finddir (name : CStr) (rounds : Nat) : Except ScanFault (List Unit × Option Nat) :=
  run (finddirRound data dirSize name) .late rounds 0

/-- What `xa_linux_ext2_listdirs` prints of a record. -/
structure DirLine where
  name : CStr
  nameLen : U8
  inode : U32
  type : U8
  recLen : BitVec 16
  deriving DecidableEq, Repr

/-- A round of `xa_linux_ext2_listdirs`. -/
def listdirsRound (pos : Nat) : Except ScanFault (Round Nat DirLine Unit) :=
  if pos < dirSize then do
    let nameLen ← dirGetnamelen data pos
    let name ← putName data nameLen.toNat (pos + 8)
    let inode ← dirGetinode data pos
    let type ← dirGettype data pos
    let recLen ← dirGetreclen data pos
    return .more { name, nameLen, inode, type, recLen } (pos + recLen.toNat)
  else return .done ()

/-- `xa_linux_ext2_listdirs`, with a bound on the rounds. -/
def listdirs (rounds : Nat) : Except ScanFault (List DirLine × Unit) :=
  run (listdirsRound data dirSize) .late rounds 0

end XenAccess.Disk.Checked
