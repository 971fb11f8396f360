import XenAccess.Model.BlockHash

/-!
# Directories of an ext2 image

The lookup of a directory by its path in `xadisk_linux_ext2.c`, and the opening of an image.
What the library sees of the image and of its own memory is a `DiskHost`; the image does not
change.
-/

namespace XenAccess.Disk

/-- The image file and uninitialised memory. -/
structure DiskHost where
  /-- `mmap` of a part of the image: length and file offset. The bytes behind the length are
  what the library's own address space holds there. -/
  mmap : U32 → U64 → Option Mem
  /-- `read_buf` after 4096 bytes were read at a file offset -/
  read : U64 → Mem
  /-- the slots of a fresh `dir_optable` -/
  freshSlots : OpSlots
  /-- what follows the data of a `block_op` on the stack -/
  stackTail : Nat → U8

/-- `xa_linux_ext2_sb`. -/
structure Ext2Sb where
  blocksTotal : U32
  blockSize : U32
  blocksPerGroup : U32
  inodesPerGroup : U32
  inodeSize : BitVec 16

/-- The fields of `xadisk_t` the lookup reads. `iTables` is an array in memory and can be read
at any index. -/
structure Xadisk where
  sb : Ext2Sb
  iTables : U32 → U32

def ext2RootInode : U32 := 2
def ext2Nblocks : Nat := 15

/-- The character `/`. -/
def slash : U8 := 47

variable (host : DiskHost) (x : Xadisk)

/-- `xa_linux_ext2_dir_getgroup`. -/
def dirGetgroup (sb : Ext2Sb) (inode : U32) : U64 :=
  (inode / sb.inodesPerGroup).signExtend 64 * sb.blocksPerGroup.setWidth 64 *
    sb.blockSize.setWidth 64

/-- `xa_linux_ext2_findinode`, as the displacement from the group. -/
def findinode (sb : Ext2Sb) (firstInode inode : U32) : U32 :=
  (firstInode % sb.blocksPerGroup) * sb.blockSize +
    (inode % sb.inodesPerGroup - 1) * sb.inodeSize.setWidth 32

/-- `xa_linux_ext2_datablocks` on the array `blocks` of an `xadisk_obj_t`. -/
def datablocks (m : Mem) (inode : Nat) : Except DiskFault (List U32) :=
  let nblocks := (m.u32 (inode + 28) / 8).toNat
  if ext2Nblocks < nblocks then .error .overflow
  else .ok ((List.range nblocks).map fun i => m.u32 (inode + 40 + 4 * i))

/-- The loop of `xa_linux_ext2_finddir`. A record length of zero is the only way to make more
rounds than there are bytes. -/
def finddirLoop (m : Mem) (name : CStr) (limit : Nat) : Nat → Nat → Except DiskFault (Option Nat)
  | 0, pos => if pos < limit then .error .diverges else .ok none
  | rounds + 1, pos =>
    if pos < limit then
      if name.length = (dirGetnamelen m pos).toNat &&
          strncmpEq (cstrOf (dirGetname m pos name.length)) name name.length then .ok (some pos)
      else finddirLoop m name limit rounds (pos + (dirGetreclen m pos).toNat)
    else .ok none

/-- `xa_linux_ext2_finddir`; `dir_size` is a `short`. -/
def finddir (m : Mem) (name : CStr) (dirSize : BitVec 16) : Except DiskFault (Option Nat) :=
  finddirLoop m name dirSize.toInt.toNat dirSize.toInt.toNat 0

/-- The search for a name in the data blocks of a directory; the result is the block and the
place of the record in it. -/
def findInBlocks (sb : Ext2Sb) (name : CStr) : List U32 → Except DiskFault (Option (Mem × Nat))
  | [] => .ok none
  | block :: blocks => do
    match host.mmap sb.blockSize (block.setWidth 64 * sb.blockSize.setWidth 64) with
    | none =>
      -- with an empty range to search, the pointer is not used
      if 0 < (sb.blockSize.setWidth 16).toInt then throw .mapFailed
      else findInBlocks sb name blocks
    | some m =>
      match ← finddir m name (sb.blockSize.setWidth 16) with
      | some pos => return some (m, pos)
      | none => findInBlocks sb name blocks

/-- The next component of a path, at most `MAX_PATH_LEN` characters of it. -/
def pathElem (dirpath : CStr) : CStr := (dirpath.take maxPathLen).takeWhile (· != slash)

/-- The loop of `xa_linux_ext2_dir`, which takes a component off the path in every round. The
result is the data blocks and the inode. -/
def ext2DirLoop : Nat → CStr → U32 → Except DiskFault (Option (List U32 × U32))
  | 0, _, _ => .error .diverges
  | rounds + 1, dirpath, curinode => do
    if x.sb.inodesPerGroup = 0 ∨ x.sb.blocksPerGroup = 0 then throw .divByZero
    let group := curinode / x.sb.inodesPerGroup
    match host.mmap (x.sb.blocksPerGroup * x.sb.blockSize) (dirGetgroup x.sb curinode) with
    | none => throw .mapFailed
    | some groupPtr =>
      let inodePtr := (findinode x.sb (x.iTables group) curinode).toNat
      let blocks ← datablocks groupPtr inodePtr
      let dirpath := dirpath.dropWhile (· == slash)
      if dirpath = [] then return some (blocks, curinode)
      let elem := pathElem dirpath
      match ← findInBlocks host x.sb elem blocks with
      | none => return none
      | some (m, pos) =>
        -- an entry that is no directory leaves the current inode as it is
        let curinode := if dirGettype m pos = 2 then dirGetinode m pos else curinode
        ext2DirLoop rounds (dirpath.drop elem.length) curinode

/-- `xa_linux_ext2_dir`; the result `-1` is `none`. -/
def ext2Dir (dirpath : CStr) : Except DiskFault (Option (List U32 × U32)) :=
  ext2DirLoop host x (dirpath.length + 1) dirpath ext2RootInode

/-! ## Opening an image

The superblock and the group descriptors are read from mappings of the image. A value of C type
`int` is 32 bits here and wraps, and a shift takes its distance modulo 32. -/

def ext2SuperblockOffset : Nat := 1024
def ext2GroupdescSize : U32 := 32

/-- `xa_linux_ext2_read_sb`. -/
def readSb : Except DiskFault Ext2Sb :=
  match host.mmap 4096 0 with
  | none => .error .mapFailed
  | some q =>
    let p := ext2SuperblockOffset + 4
    .ok {
      blocksTotal := q.u32 p
      blockSize := 1024 * ((1 : U32) <<< ((q.u32 (p + 24)).toNat % 32))
      blocksPerGroup := q.u32 (p + 24 + 8)
      inodesPerGroup := q.u32 (p + 24 + 8 + 4)
      inodeSize := q.u16 (p + 24 + 8 + 4 + 48) }

/-- `xa_linux_ext2_read_groupdesc`; `heap` is what the memory holds where the array is put, and
behind it. -/
def readGroupdesc (heap : U32 → U32) (sb : Ext2Sb) : Except DiskFault (U32 → U32) :=
  if sb.blocksPerGroup = 0 then .error .divByZero
  else
    let ngroups := sb.blocksTotal / sb.blocksPerGroup + 1
    match host.mmap (ngroups * ext2GroupdescSize) 4096 with
    | none =>
      -- without a group to read, the pointer is not used
      if 0 < ngroups.toInt then .error .mapFailed else .ok heap
    | some p => .ok fun i =>
        if i.toNat < ngroups.toInt.toNat then p.u32 (8 + ext2GroupdescSize.toNat * i.toNat)
        else heap i

/-- `xa_linux_ext2_init`. -/
def ext2Init (heap : U32 → U32) : Except DiskFault Xadisk := do
  let sb ← readSb host
  let iTables ← readGroupdesc host heap sb
  return { sb, iTables }

end XenAccess.Disk
