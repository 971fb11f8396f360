import XenAccess.Model.Ext2

/-!
# Data blocks of a directory inode

An inode has twelve slots for numbers of data blocks, and three for blocks that hold the numbers
of further blocks. Its count of sectors takes in those blocks and a block of extended attributes
as well. `xa_linux_ext2_datablocks` takes as many slots as there are blocks by that count.
-/

namespace XenAccess.Disk

variable {m : Mem} {d n : Nat} {word : U32 → Nat → U32}

/-- The slot `i` of an inode. -/
def slot (m : Mem) (d i : Nat) : U32 := m.u32 (d + 40 + 4 * i)

/-- The number of the data block `k` of an inode, where `word b j` is the word `j` of the block
with the number `b`. A block has 1024 words. -/
def dataBlock (word : U32 → Nat → U32) (m : Mem) (d k : Nat) : U32 :=
  if k < 12 then slot m d k
  else if k < 12 + 1024 then word (slot m d 12) (k - 12)
  else word (word (slot m d 13) ((k - 12 - 1024) / 1024)) ((k - 12 - 1024) % 1024)

def dataBlocks (word : U32 → Nat → U32) (m : Mem) (d n : Nat) : List U32 :=
  (List.range n).map (dataBlock word m d)

/-- The number of indirect blocks behind the slots 12 and 13, for `n` data blocks. -/
def indirectBlocks (n : Nat) : Nat :=
  if n ≤ 12 then 0
  else if n ≤ 12 + 1024 then 1
  else 2 + (n - 12 - 1024 + 1023) / 1024

/-- The number of blocks with extended attributes, by the field `i_file_acl`. -/
def attributeBlocks (m : Mem) (d : Nat) : Nat := if m.u32 (d + 104) = 0 then 0 else 1

/-- The inode of a directory with `n` data blocks. As its size is a number of 32 bits, a slot for
indirection in three levels is not in use. -/
structure DirInode (m : Mem) (d n : Nat) : Prop where
  directory : m.u16 d &&& 0xF000 = 0x4000
  size : (m.u32 (d + 4)).toNat = 4096 * n
  sectors : (m.u32 (d + 28)).toNat = 8 * (n + indirectBlocks n + attributeBlocks m d)

/-- The blocks are extracted within the array, and for the inode of a directory they are its data
blocks. -/
def Extracts (word : U32 → Nat → U32) (m : Mem) (d : Nat) : Prop :=
  ∃ blocks, datablocks m d = .ok blocks ∧ blocks.length ≤ ext2Nblocks ∧
    ∀ n, DirInode m d n → blocks = dataBlocks word m d n

theorem datablocks_ok (hcount : (m.u32 (d + 28)).toNat / 8 ≤ ext2Nblocks) :
    datablocks m d = .ok ((List.range ((m.u32 (d + 28)).toNat / 8)).map (slot m d)) := by
  have hdiv : (m.u32 (d + 28) / 8).toNat = (m.u32 (d + 28)).toNat / 8 := BitVec.toNat_udiv
  rw [datablocks, hdiv]
  exact if_neg (by omega)

theorem datablocks_overflow (hcount : ¬ (m.u32 (d + 28)).toNat / 8 ≤ ext2Nblocks) :
    datablocks m d = .error .overflow := by
  have hdiv : (m.u32 (d + 28) / 8).toNat = (m.u32 (d + 28)).toNat / 8 := BitVec.toNat_udiv
  rw [datablocks, hdiv]
  exact if_pos (by omega)

theorem indirectBlocks_eq_zero : indirectBlocks n = 0 ↔ n ≤ 12 := by
  rw [indirectBlocks]
  split
  · rename_i hn
    exact iff_of_true rfl hn
  · rename_i hn
    refine iff_of_false ?_ hn
    split <;> omega

theorem attributeBlocks_eq_zero : attributeBlocks m d = 0 ↔ m.u32 (d + 104) = 0 := by
  rw [attributeBlocks]
  split
  · rename_i hacl
    exact iff_of_true rfl hacl
  · rename_i hacl
    exact iff_of_false (by decide) hacl

/-- Without other blocks, the slots are the data blocks. -/
theorem DirInode.slots (hinode : DirInode m d n) (hn : n ≤ 12) (hacl : m.u32 (d + 104) = 0) :
    (List.range ((m.u32 (d + 28)).toNat / 8)).map (slot m d) = dataBlocks word m d n := by
  have hcount : (m.u32 (d + 28)).toNat / 8 = n := by
    rw [hinode.sectors, indirectBlocks_eq_zero.mpr hn, attributeBlocks_eq_zero.mpr hacl]
    omega
  rw [hcount, dataBlocks]
  refine List.map_congr_left fun k hk => ?_
  rw [dataBlock, if_pos]
  exact Nat.lt_of_lt_of_le (List.mem_range.mp hk) hn

/-- **When the data blocks are extracted.** Exactly if the count is that of at most 15 blocks, and
a directory has at most 12 data blocks and no block of extended attributes. -/
theorem extracts_iff (word : U32 → Nat → U32) (m : Mem) (d : Nat) :
    Extracts word m d ↔ (m.u32 (d + 28)).toNat / 8 ≤ ext2Nblocks ∧
      ∀ n, DirInode m d n → n ≤ 12 ∧ m.u32 (d + 104) = 0 := by
  constructor
  · rintro ⟨blocks, hrun, -, hall⟩
    by_cases hcount : (m.u32 (d + 28)).toNat / 8 ≤ ext2Nblocks
    · rw [datablocks_ok hcount] at hrun
      refine ⟨hcount, fun n hinode => ?_⟩
      have hlen := congrArg List.length (hall n hinode)
      rw [← Except.ok.inj hrun, dataBlocks, List.length_map, List.length_map, List.length_range,
        List.length_range, hinode.sectors] at hlen
      rw [← indirectBlocks_eq_zero, ← attributeBlocks_eq_zero]
      omega
    · rw [datablocks_overflow hcount] at hrun
      cases hrun
  · rintro ⟨hcount, hall⟩
    refine ⟨_, datablocks_ok hcount, ?_, fun n hinode => ?_⟩
    · rw [List.length_map, List.length_range]
      exact hcount
    · exact hinode.slots (hall n hinode).1 (hall n hinode).2

/-- The inode of a directory with 13 data blocks, the last of them behind the block 200. -/
def longDir : Mem := fun i =>
  if i = 0 then 0xED
  else if i = 1 then 0x41
  else if i = 5 then 0xD0
  else if i = 28 then 112
  else if i = 88 then 200
  else if 40 ≤ i ∧ i < 88 ∧ i % 4 = 0 then BitVec.ofNat 8 (100 + (i - 40) / 4)
  else 0

/-- The block 200 starts with the number 112. -/
def longDirWord (b : U32) (j : Nat) : U32 := if b = 200 ∧ j = 0 then 112 else 0

/-- An inode with the count of sectors of 16 blocks, and nothing else. -/
def sixteenBlocks : Mem := fun i => if i = 28 then 128 else 0

/-- The indirect block is among the blocks of the directory; with a larger count, numbers are
written behind the array. -/
theorem longDir_not_extracts :
    DirInode longDir 0 13 ∧
      datablocks longDir 0 =
        .ok [100, 101, 102, 103, 104, 105, 106, 107, 108, 109, 110, 111, 200, 0] ∧
      dataBlocks longDirWord longDir 0 13 =
        [100, 101, 102, 103, 104, 105, 106, 107, 108, 109, 110, 111, 112] ∧
      ¬ Extracts longDirWord longDir 0 ∧
      datablocks sixteenBlocks 0 = .error .overflow ∧ ¬ Extracts longDirWord sixteenBlocks 0 := by
  have hinode : DirInode longDir 0 13 := ⟨by decide, by decide, by decide⟩
  have hrun : datablocks longDir 0 =
      .ok [100, 101, 102, 103, 104, 105, 106, 107, 108, 109, 110, 111, 200, 0] := by decide
  have hdata : dataBlocks longDirWord longDir 0 13 =
      [100, 101, 102, 103, 104, 105, 106, 107, 108, 109, 110, 111, 112] := by decide
  have hfull : datablocks sixteenBlocks 0 = .error .overflow := by decide
  refine ⟨hinode, hrun, hdata, ?_, hfull, ?_⟩
  · rintro ⟨blocks, hblocks, -, hall⟩
    have heq := (Except.ok.inj (hrun.symm.trans hblocks)).trans (hall 13 hinode)
    rw [hdata] at heq
    revert heq
    decide
  · rintro ⟨blocks, hblocks, -⟩
    rw [hfull] at hblocks
    cases hblocks

end XenAccess.Disk
