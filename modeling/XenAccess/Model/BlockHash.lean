import XenAccess.Model.DirTable

/-!
# The table of watched blocks

`xadisk_hash.c`. Each of the `HASH_SIZE` buckets is a list of nodes sorted by block number,
with a flag that tells whether the list is empty. A node is put before the nodes of the same
block, and the first node of a block is the one that is found and the one that is removed.
-/

namespace XenAccess.Disk

def hashSize : Nat := 32768

/-- `block_node`. `id` stands for the address of the node; every `malloc` returns a new one. -/
structure BlockNode where
  id : Nat
  block : U32
  inode : U32
  type : U8
  path : CStr
  dir : List DirEntry
  deriving DecidableEq, Repr

/-- `hash_entry`. -/
structure HashEntry where
  active : U8
  list : List BlockNode
  deriving DecidableEq, Repr

/-- The array `ht`; indices from `hashSize` on are not used. -/
abbrev HashTable := Nat → HashEntry

def hashBlock (block : U32) : Nat := block.toNat % hashSize

def HashTable.set (ht : HashTable) (i : Nat) (e : HashEntry) : HashTable :=
  fun j => if j = i then e else ht j

/-- `init_hash`. The table also starts like this, as a static array. -/
def initHash : HashTable := fun _ => { active := 0, list := [] }

/-- `destroy_list`. -/
def destroyList : List BlockNode → List BlockNode
  | [] => []
  | _ :: l => destroyList l

/-- `destroy_hash`. -/
def destroyHash (ht : HashTable) : HashTable := fun i =>
  if i < hashSize then { active := 0, list := destroyList (ht i).list } else ht i

def insertList (b : BlockNode) : List BlockNode → List BlockNode
  | [] => [b]
  | q :: l => if q.block < b.block then q :: insertList b l else b :: q :: l

def insertHash (b : BlockNode) (ht : HashTable) : HashTable :=
  let i := hashBlock b.block
  ht.set i { active := (ht i).active ||| 0xFF, list := insertList b (ht i).list }

def removeList (block : U32) : List BlockNode → List BlockNode
  | [] => []
  | q :: l =>
    if q.block < block then q :: removeList block l else if q.block = block then l else q :: l

def removeHash (block : U32) (ht : HashTable) : HashTable :=
  let i := hashBlock block
  let list := removeList block (ht i).list
  ht.set i { active := if list = [] then (ht i).active &&& 0x00 else (ht i).active, list }

def checkList (block : U32) : List BlockNode → Option BlockNode
  | [] => none
  | q :: l =>
    if q.block < block then checkList block l else if q.block = block then some q else none

def checkHash (block : U32) (ht : HashTable) : Option BlockNode :=
  if (ht (hashBlock block)).active = 0 then none else checkList block (ht (hashBlock block)).list

/-- Store a table into the node that `check_list` finds. -/
def setDirList (block : U32) (dir : List DirEntry) : List BlockNode → List BlockNode
  | [] => []
  | q :: l =>
    if q.block < block then q :: setDirList block dir l
    else if q.block = block then { q with dir } :: l
    else q :: l

/-- Store a table into the node that `check_hash` finds. -/
def setDirHash (block : U32) (dir : List DirEntry) (ht : HashTable) : HashTable :=
  let i := hashBlock block
  ht.set i { ht i with list := setDirList block dir (ht i).list }

/-! ## Sequences of calls -/

/-- A call that changes the table. The node of an insertion is a new one. -/
inductive HashOp where
  | init
  | insert (b : BlockNode)
  | remove (block : U32)
  | destroy

def HashOp.exec : HashOp → HashTable → HashTable
  | .init, _ => initHash
  | .insert b, ht => insertHash b ht
  | .remove block, ht => removeHash block ht
  | .destroy, ht => destroyHash ht

/-- The table after a sequence of calls. -/
def runHash (ops : List HashOp) : HashTable := ops.foldl (fun ht op => op.exec ht) initHash

end XenAccess.Disk
