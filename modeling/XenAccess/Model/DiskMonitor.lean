import XenAccess.Model.Ext2

/-!
# The disk monitor

`xadisk_core.c` and the logging drivers `block-logsync.c` and `block-logaio.c`. A driver
writes one record of 5009 bytes into a FIFO for every write of the guest. The monitor reads
records and, when the block written is watched, compares the directory written with the one
it has stored for the block.
-/

namespace XenAccess.Disk

def bufSize : Nat := 5009
def blockBytes : Nat := 4096
def sectorBytes : Nat := 512

/-- The content of a block of 4096 bytes. -/
abbrev Block := Fin blockBytes → U8

variable (host : DiskHost) (x : Xadisk)

/-! ## Watches -/

/-- `xadisk_obj_t`. -/
structure XadiskObj where
  path : CStr
  inode : U32
  blocks : List U32
  deriving DecidableEq, Repr

/-- The hash table and the number of nodes allocated so far. -/
structure DiskState where
  ht : HashTable
  mallocs : Nat

def DiskState.init : DiskState := { ht := initHash, mallocs := 0 }

/-- The node `xadisk_set_watch` makes for a block. -/
def watchNode (id : Nat) (path : CStr) (inode block : U32) : Except DiskFault BlockNode := do
  let dir ← parseBlockDir (host.read (block.setWidth 64 * 4096)) blockBytes
  return { id, block, inode, type := 2, path, dir := sortDir dir }

/-- The loop of `xadisk_set_watch`, with the nodes it creates. -/
def insertBlocks (path : CStr) (inode : U32) :
    List U32 → DiskState → Except DiskFault (List BlockNode × DiskState)
  | [], s => .ok ([], s)
  | block :: blocks, s => do
    let node ← watchNode host s.mallocs path inode block
    let (nodes, s) ← insertBlocks path inode blocks
      { ht := insertHash node s.ht, mallocs := s.mallocs + 1 }
    return (node :: nodes, s)

/-- `xadisk_set_watch`, with the nodes it creates. -/
def xadiskSetWatch (path : CStr) (s : DiskState) :
    Except DiskFault (Option (XadiskObj × List BlockNode) × DiskState) := do
  match ← ext2Dir host x path with
  | none => return (none, s)
  | some (blocks, inode) =>
    let (nodes, s) ← insertBlocks host path inode blocks s
    return (some ({ path, inode, blocks }, nodes), s)

/-- The loop of `xadisk_unset_watch`. -/
def removeBlocks (blocks : List U32) (ht : HashTable) : HashTable :=
  blocks.foldl (fun ht block => removeHash block ht) ht

/-- `xadisk_unset_watch`. -/
def xadiskUnsetWatch (obj : XadiskObj) (s : DiskState) : DiskState :=
  { s with ht := removeBlocks obj.blocks s.ht }

/-! ## Records of the drivers -/

/-- `block_op`. -/
@[ext]
structure BlockOp where
  op : U8
  sector : U64
  nbSectors : U32
  data : Block

/-- `parse_op`. -/
def parseOp (buf : Mem) : BlockOp where
  op := buf 0
  sector := buf 8 ++ buf 7 ++ buf 6 ++ buf 5 ++ buf 4 ++ buf 3 ++ buf 2 ++ buf 1
  nbSectors := buf 12 ++ buf 11 ++ buf 10 ++ buf 9
  data i := buf (13 + i.val)

/-- The bytes of a value in memory, lowest first. -/
def leBytes {w : Nat} (v : BitVec w) (n : Nat) : List U8 :=
  (List.range n).map fun i => (v >>> (8 * i)).setWidth 8

/-- The record that `tdlogsync_queue_write` and `tdlogaio_queue_write` send for a write of the
guest. `buf` is the memory from the data of the guest on, and `stack` the old content of the
array the record is made in. -/
def tdlogQueueWrite (stack : Mem) (sector : U64) (nbSectors : U32) (buf : Mem) : List U8 :=
  [1] ++ leBytes sector 8 ++ leBytes nbSectors 4 ++ buf.bytes 0 blockBytes ++
    stack.bytes (13 + blockBytes) (bufSize - 13 - blockBytes)

/-! ## The monitor -/

/-- A line the monitor writes: an operation and the path of the entry. -/
structure DiskEvent where
  op : U8
  path : CStr
  pathElem : CStr
  deriving DecidableEq, Repr

/-- What `xadisk_core` prints of an operation, nothing for one that it does not know. -/
def opText (op : U8) : CStr :=
  if op = opMkdir then cstr "MKDIR: "
  else if op = opRmdir then cstr "RMDIR: "
  else if op = opMkfile then cstr "MKFILE: "
  else if op = opRmfile then cstr "RMFILE: "
  else []

/-- A line without its end. -/
def DiskEvent.text (e : DiskEvent) : CStr := opText e.op ++ (e.path ++ 47 :: e.pathElem)

/-- The log, as it is written to the file. -/
def logText (events : List DiskEvent) : CStr := events.flatMap fun e => e.text ++ [10]

/-- The memory from the data of a `block_op` on. -/
def dataMem (data : Block) : Mem := fun d =>
  if hd : d < blockBytes then data ⟨d, hd⟩ else host.stackTail (d - blockBytes)

/-- The block number `xadisk_core` looks up; it is a `uint32_t`. -/
def BlockOp.block (op : BlockOp) : U32 := (op.sector / 8).setWidth 32

/-- One round of `xadisk_core`. -/
def coreStep (op : BlockOp) (ht : HashTable) : Except DiskFault (List DiskEvent × HashTable) := do
  match checkHash op.block ht with
  | none => return ([], ht)
  | some b =>
    let t ← parseBlockDir (dataMem host op.data) blockBytes
    let diff ← compareTable host.freshSlots b.dir (sortDir t)
    if 0 < diff.length then
      return (diff.map fun d => { op := d.op, path := b.path, pathElem := d.pathElem },
        setDirHash op.block (sortDir t) ht)
    else return ([], ht)

/-- The loop of `xadisk_core` over the operations it obtains. -/
def coreRun : List BlockOp → HashTable → Except DiskFault (List DiskEvent × HashTable)
  | [], ht => .ok ([], ht)
  | op :: ops, ht => do
    let (events, ht) ← coreStep host op ht
    let (events', ht) ← coreRun ops ht
    return (events ++ events', ht)

/-- One `read` of at most `BUFSIZE` bytes from the FIFO: the bytes go to the start of the
buffer, the rest of which stays. -/
def readInto (bytes : List U8) (buf : Mem) : Mem := fun i => bytes.getD i (buf i)

/-- The operations `xadisk_core` obtains from successive results of `read`. The number of
bytes read is not looked at. -/
def obtained (buf : Mem) : List (List U8) → List BlockOp
  | [] => []
  | bytes :: reads => parseOp (readInto bytes buf) :: obtained (readInto bytes buf) reads

end XenAccess.Disk
