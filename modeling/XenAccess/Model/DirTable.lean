import Mathlib.Logic.Function.Basic
import XenAccess.Model.Types

/-!
# Directory tables of libxadisk

`xadisk_parse.c`, with the functions of `xadisk_linux_ext2.c` that read the fields of a
directory record. A block is parsed into a table of entries, a table is sorted by name, and
two sorted tables are compared.

A `dir_table` of the source is an array of `DIRMAX` slots with a size; here it is the list of
the slots in use, and a write behind the last slot is a fault. `sort_dir` is also given on the
array itself (`sortTable`).
-/

namespace XenAccess.Disk

/-- The bytes from an address on. -/
abbrev Mem := Nat → U8

/-- Ways in which a call does not come back. -/
inductive DiskFault where
  /-- a write behind the end of an array -/
  | overflow
  /-- a loop that does not end -/
  | diverges
  /-- a pointer is dereferenced that `mmap` returned as `MAP_FAILED` -/
  | mapFailed
  /-- a division by zero -/
  | divByZero
  /-- a watch is unset that is not set -/
  | notSet
  deriving DecidableEq, Repr

def dirMax : Nat := 256
def opMax : Nat := dirMax
def maxPathLen : Nat := 256

/-! ## Records -/

def Mem.u32 (m : Mem) (d : Nat) : U32 := m (d + 3) ++ m (d + 2) ++ m (d + 1) ++ m d

def Mem.u16 (m : Mem) (d : Nat) : BitVec 16 := m (d + 1) ++ m d

/-- `n` bytes from a displacement on. -/
def Mem.bytes (m : Mem) (d n : Nat) : List U8 := (List.range n).map fun i => m (d + i)

/-- `xa_linux_ext2_dir_gettype`. -/
def dirGettype (m : Mem) (d : Nat) : U8 := m (d + 7)

/-- `xa_linux_ext2_dir_getinode`. -/
def dirGetinode (m : Mem) (d : Nat) : U32 := m.u32 d

/-- `xa_linux_ext2_dir_getreclen`. -/
def dirGetreclen (m : Mem) (d : Nat) : BitVec 16 := m.u16 (d + 4)

/-- `xa_linux_ext2_dir_getnamelen`. -/
def dirGetnamelen (m : Mem) (d : Nat) : U8 := m (d + 6)

/-- `xa_linux_ext2_dir_getname`, with the number of bytes that are read of it. -/
def dirGetname (m : Mem) (d n : Nat) : List U8 := m.bytes (d + 8) n

/-- `parse_name`: `strncpy` stops at the first zero byte. -/
def parseName (m : Mem) (d : Nat) : CStr := cstrOf (dirGetname m d (dirGetnamelen m d).toNat)

/-! ## Tables -/

/-- `dir_entry`. -/
structure DirEntry where
  inode : U32
  type : U8
  pathElem : CStr
  deriving DecidableEq, Repr

/-- The entry `parse_block_dir` makes of the record at a displacement. -/
def parseEntry (m : Mem) (d : Nat) : DirEntry where
  inode := dirGetinode m d
  type := dirGettype m d
  pathElem := parseName m d

/-- The loop of `parse_block_dir`, with the number of slots that are left. -/
def parseLoop (m : Mem) (limit : Nat) : Nat → Nat → Except DiskFault (List DirEntry)
  | 0, block => if block < limit then .error .overflow else .ok []
  | slots + 1, block =>
    if block < limit then
      (parseLoop m limit slots (block + (dirGetreclen m block).toNat)).map (parseEntry m block :: ·)
    else .ok []

/-- `parse_block_dir`. -/
def parseBlockDir (m : Mem) (dirSize : Nat) : Except DiskFault (List DirEntry) :=
  parseLoop m dirSize dirMax 0

/-- `strcmp(a, b) < 0`; bytes are compared without sign. -/
def strcmpLt : CStr → CStr → Bool
  | _, [] => false
  | [], _ :: _ => true
  | x :: a, y :: b => if x = y then strcmpLt a b else decide (x < y)

/-- The inner loop of `sort_dir`: move the entries behind the place of `aux` up by one. The
sorted part is given from its last entry to its first. -/
def shiftUp (aux : DirEntry) : List DirEntry → List DirEntry
  | [] => [aux]
  | e :: l => if strcmpLt aux.pathElem e.pathElem then e :: shiftUp aux l else aux :: e :: l

/-- `sort_dir`. -/
def sortDir (table : List DirEntry) : List DirEntry :=
  (table.foldl (fun sorted aux => shiftUp aux sorted) []).reverse

/-! ## Sorting in place

The loops of `sort_dir` move entries from slot to slot, so between two steps an entry stands in
two slots and the one in `aux` in none. The indices that are used are recorded. -/

/-- The array `table` of a `dir_table`. -/
abbrev DirSlots := Nat → DirEntry

/-- The array while it is sorted, and the indices used so far, the latest first. -/
structure SortState where
  table : DirSlots
  used : List Nat

/-- Read `dir->table[i]`. -/
def readSlot (i : Nat) : StateM SortState DirEntry := fun s =>
  (s.table i, { s with used := i :: s.used })

/-- Assign `dir->table[i]`. -/
def writeSlot (i : Nat) (e : DirEntry) : StateM SortState Unit := fun s =>
  ((), { table := Function.update s.table i e, used := i :: s.used })

/-- The inner loop of `sort_dir` and the assignment behind it. The argument is `j + 1`, the slot
that is free. -/
def shiftLoop (aux : DirEntry) : Nat → StateM SortState Unit
  | 0 => writeSlot 0 aux
  | j + 1 => do
    let e ← readSlot j
    if strcmpLt aux.pathElem e.pathElem then
      let e ← readSlot j
      writeSlot (j + 1) e
      shiftLoop aux j
    else writeSlot (j + 1) aux

/-- The outer loop from `i` on, with the number of rounds that are left. -/
def sortLoop : Nat → Nat → StateM SortState Unit
  | 0, _ => pure ()
  | rounds + 1, i => do
    let aux ← readSlot i
    shiftLoop aux i
    sortLoop rounds (i + 1)

/-- `sort_dir` on a table of a size: the array at the end and the indices that were used. -/
def sortTable (size : Nat) (table : DirSlots) : SortState :=
  ((sortLoop (size - 1) 1).run { table, used := [] }).2

/-! ## Comparison

The result table comes from `malloc`. A field `op` that is not assigned keeps what was there,
and so do the bytes of `path_elem` behind the terminator that `strcpy` writes. The copy is a
fault when the name and its terminator are longer than the array. -/

/-- `dir_op` as it is read, less the field `inode`, which is never set. -/
structure DirOp where
  op : U8
  pathElem : CStr
  deriving DecidableEq, Repr

def opMkdir : U8 := 0
def opRmdir : U8 := 1
def opMkfile : U8 := 2
def opRmfile : U8 := 3

/-- A slot of a `dir_optable`, less the field `inode`, which is never set. -/
structure OpSlot where
  op : U8
  pathElem : Fin maxPathLen → U8

/-- The array `table` of a `dir_optable`. -/
abbrev OpSlots := Nat → OpSlot

/-- `strcpy` into a field `path_elem`. -/
def strcpyElem (dst : Fin maxPathLen → U8) (src : CStr) :
    Except DiskFault (Fin maxPathLen → U8) :=
  if src.length + 1 ≤ maxPathLen then
    .ok fun i => if i.val = src.length then 0 else src.getD i.val (dst i)
  else .error .overflow

/-- Assign the slot `k` from an entry, with the operations for a file and for a directory. -/
def assignSlot (opFile opDir : U8) (e : DirEntry) (k : Nat) (table : OpSlots) :
    Except DiskFault OpSlots :=
  if k < opMax then
    let op := if e.type = 1 then opFile else if e.type = 2 then opDir else (table k).op
    (strcpyElem (table k).pathElem e.pathElem).map fun pathElem =>
      fun i => if i = k then { op, pathElem } else table i
  else .error .overflow

/-- The loops of `compare_dirs` from the slot `k` on, with the table and the size at the end. -/
def compareInto : List DirEntry → List DirEntry → Nat → OpSlots → Except DiskFault (OpSlots × Nat)
  | [], [], k, table => .ok (table, k)
  | x :: old, [], k, table => do
    let table ← assignSlot opRmfile opRmdir x k table
    compareInto old [] (k + 1) table
  | [], y :: new, k, table => do
    let table ← assignSlot opMkfile opMkdir y k table
    compareInto [] new (k + 1) table
  | x :: old, y :: new, k, table =>
    if strcmpLt x.pathElem y.pathElem then do
      let table ← assignSlot opRmfile opRmdir x k table
      compareInto old (y :: new) (k + 1) table
    else if strcmpLt y.pathElem x.pathElem then do
      let table ← assignSlot opMkfile opMkdir y k table
      compareInto (x :: old) new (k + 1) table
    else compareInto old new k table
termination_by old new => old.length + new.length

/-- What `xadisk_core` reads of a slot. -/
def OpSlot.read (slot : OpSlot) : DirOp where
  op := slot.op
  pathElem := cstrOf (List.ofFn slot.pathElem)

/-- `compare_dirs` on a table with some content, and the operations read from it afterwards. -/
def compareTable (init : OpSlots) (dirOld dirNew : List DirEntry) :
    Except DiskFault (List DirOp) :=
  (compareInto dirOld dirNew 0 init).map fun r => (List.range r.2).map fun i => (r.1 i).read

/-- The field `size` of a `dir_table` or `dir_optable`, a `short`. -/
def tableSize {α : Type} (table : List α) : Int := (BitVec.ofNat 16 table.length).toInt

end XenAccess.Disk
