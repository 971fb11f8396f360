import Mathlib.Algebra.Order.Ring.Nat
import XenAccess.Model.Ext2

/-!
# The place of an inode

Inodes are numbered from `1`, groups and the places in a group from `0`. The code takes `1` off
for the place in the group, but not for the group: the last inode of each group is looked for
in the next one.
-/

namespace XenAccess.Disk

variable {x : Xadisk} {ngroups : Nat}

/-! ## Statement -/

/-- A geometry whose groups and inode tables have less than `2^32` bytes, with the inode table
of every group in the group. -/
structure Geometry (x : Xadisk) (ngroups : Nat) : Prop where
  blockSize_pos : 0 < x.sb.blockSize.toNat
  blocksPerGroup_pos : 0 < x.sb.blocksPerGroup.toNat
  inodesPerGroup_pos : 0 < x.sb.inodesPerGroup.toNat
  inodeSize_pos : 0 < x.sb.inodeSize.toNat
  groupBytes : x.sb.blocksPerGroup.toNat * x.sb.blockSize.toNat < 2 ^ 32
  tableBytes : x.sb.inodesPerGroup.toNat * x.sb.inodeSize.toNat < 2 ^ 32
  tables : ∀ g < ngroups,
    g * x.sb.blocksPerGroup.toNat ≤ (x.iTables (BitVec.ofNat 32 g)).toNat ∧
      (x.iTables (BitVec.ofNat 32 g)).toNat < (g + 1) * x.sb.blocksPerGroup.toNat

/-- The group of an inode in ext2. -/
def inodeGroup (x : Xadisk) (n : U32) : Nat := (n.toNat - 1) / x.sb.inodesPerGroup.toNat

/-- The offset of an inode from the start of the inode table of its group. -/
def inodeDisplacement (x : Xadisk) (n : U32) : Nat :=
  (n.toNat - 1) % x.sb.inodesPerGroup.toNat * x.sb.inodeSize.toNat

/-- The inode table of the group of an inode. -/
def inodeTable (x : Xadisk) (n : U32) : Nat :=
  (x.iTables (BitVec.ofNat 32 (inodeGroup x n))).toNat

/-- `xa_linux_ext2_dir` takes the group of an inode and finds it where ext2 has it: at its
place in the inode table of the group. -/
structure InodeLocated (x : Xadisk) (n : U32) : Prop where
  group : (n / x.sb.inodesPerGroup).toNat = inodeGroup x n
  offset : (dirGetgroup x.sb n).toNat +
      (findinode x.sb (x.iTables (n / x.sb.inodesPerGroup)) n).toNat =
    inodeTable x n * x.sb.blockSize.toNat + inodeDisplacement x n

/-! ## Arithmetic -/

/-- Taking off `1` stays in the group, unless the number is the last of it. -/
theorem pred_div_mod {n k : Nat} (hk : 0 < k) (hmod : n % k ≠ 0) :
    (n - 1) / k = n / k ∧ (n - 1) % k = n % k - 1 := by
  have hn := Nat.div_add_mod n k
  have hlt := Nat.mod_lt n hk
  have hlast : n % k - 1 < k := by omega
  have hsplit : n - 1 = k * (n / k) + (n % k - 1) := by omega
  rw [hsplit]
  constructor
  · rw [Nat.mul_add_div hk, Nat.div_eq_of_lt hlast, Nat.add_zero]
  · rw [Nat.mul_add_mod, Nat.mod_eq_of_lt hlast]

theorem pred_div_of_mod_eq_zero {n k : Nat} (hn : 0 < n) (hmod : n % k = 0) :
    (n - 1) / k ≠ n / k := by
  have hdiv := Nat.div_add_mod n k
  rw [hmod, Nat.add_zero] at hdiv
  intro heq
  have hle := Nat.mul_div_le (n - 1) k
  rw [heq] at hle
  omega

/-- A group of which the code computes the offset without overflow. -/
theorem dirGetgroup_toNat (hx : Geometry x ngroups) {n : U32}
    (hgroup : (n / x.sb.inodesPerGroup).toNat < 2 ^ 31) :
    (dirGetgroup x.sb n).toNat =
      (n / x.sb.inodesPerGroup).toNat * (x.sb.blocksPerGroup.toNat * x.sb.blockSize.toNat) := by
  have hmsb : (n / x.sb.inodesPerGroup).msb = false := by
    rw [BitVec.msb_eq_decide]
    simpa using hgroup
  have hext : ((n / x.sb.inodesPerGroup).signExtend 64).toNat =
      (n / x.sb.inodesPerGroup).toNat := by
    rw [BitVec.signExtend_eq_setWidth_of_msb_false hmsb, BitVec.toNat_setWidth, Nat.mod_eq_of_lt (by omega)]
  have hbytes := hx.groupBytes
  have hbound : (n / x.sb.inodesPerGroup).toNat *
      (x.sb.blocksPerGroup.toNat * x.sb.blockSize.toNat) < 2 ^ 31 * 2 ^ 32 :=
    Nat.mul_lt_mul'' hgroup hbytes
  have hsmall (y : U32) : y.toNat % 2 ^ 64 = y.toNat := Nat.mod_eq_of_lt (by have := y.isLt; omega)
  rw [dirGetgroup, BitVec.toNat_mul, BitVec.toNat_mul, hext, BitVec.toNat_setWidth,
    BitVec.toNat_setWidth, hsmall, hsmall, Nat.mod_mul_mod, Nat.mul_assoc,
    Nat.mod_eq_of_lt (by omega)]

theorem findinode_toNat {firstInode n : U32}
    (hmod : n.toNat % x.sb.inodesPerGroup.toNat ≠ 0) :
    (findinode x.sb firstInode n).toNat =
      (firstInode.toNat % x.sb.blocksPerGroup.toNat * x.sb.blockSize.toNat +
        (n.toNat % x.sb.inodesPerGroup.toNat - 1) * x.sb.inodeSize.toNat) % 2 ^ 32 := by
  have hlast : (n % x.sb.inodesPerGroup - 1).toNat = n.toNat % x.sb.inodesPerGroup.toNat - 1 := by
    have hle : (1 : U32) ≤ n % x.sb.inodesPerGroup := by
      rw [BitVec.le_def, BitVec.toNat_umod]
      exact Nat.one_le_iff_ne_zero.mpr hmod
    rw [BitVec.toNat_sub_of_le hle, BitVec.toNat_umod]
    rfl
  have hsize : (x.sb.inodeSize.setWidth 32).toNat = x.sb.inodeSize.toNat := by
    have := x.sb.inodeSize.isLt
    rw [BitVec.toNat_setWidth, Nat.mod_eq_of_lt (by omega)]
  rw [findinode, BitVec.toNat_add, BitVec.toNat_mul, BitVec.toNat_mul, BitVec.toNat_umod, hlast,
    hsize, ← Nat.add_mod]

/-! ## Location -/

/-- The table of a group lies as far behind the start of the group as its number says. -/
theorem table_offset (hx : Geometry x ngroups) {g : Nat} (hg : g < ngroups) :
    (x.iTables (BitVec.ofNat 32 g)).toNat =
      g * x.sb.blocksPerGroup.toNat +
        (x.iTables (BitVec.ofNat 32 g)).toNat % x.sb.blocksPerGroup.toNat := by
  obtain ⟨hlow, hhigh⟩ := hx.tables g hg
  have hdiv : (x.iTables (BitVec.ofNat 32 g)).toNat / x.sb.blocksPerGroup.toNat = g :=
    Nat.div_eq_of_lt_le hlow hhigh
  have hsum := Nat.div_add_mod (x.iTables (BitVec.ofNat 32 g)).toNat x.sb.blocksPerGroup.toNat
  rw [hdiv, Nat.mul_comm] at hsum
  exact hsum.symm

/-- **When an inode is found where ext2 has it.** Exactly if it is not the last of its group,
and the offset from the start of the group is below `2^32`. -/
theorem located_iff (x : Xadisk) (ngroups : Nat) (hx : Geometry x ngroups) (n : U32)
    (hone : 1 ≤ n.toNat) (hn : n.toNat ≤ ngroups * x.sb.inodesPerGroup.toNat) :
    InodeLocated x n ↔ n.toNat % x.sb.inodesPerGroup.toNat ≠ 0 ∧
      inodeTable x n % x.sb.blocksPerGroup.toNat * x.sb.blockSize.toNat + inodeDisplacement x n <
        2 ^ 32 := by
  by_cases hmod : n.toNat % x.sb.inodesPerGroup.toNat = 0
  · refine iff_of_false (fun hloc => ?_) fun hcond => hcond.1 hmod
    have hgroup := hloc.group
    rw [BitVec.toNat_udiv] at hgroup
    exact pred_div_of_mod_eq_zero hone hmod hgroup.symm
  · obtain ⟨hdiv, hlast⟩ := pred_div_mod hx.inodesPerGroup_pos hmod
    have hgroup : (n / x.sb.inodesPerGroup).toNat = inodeGroup x n := by
      rw [BitVec.toNat_udiv, inodeGroup, hdiv]
    have hlt : inodeGroup x n < ngroups :=
      Nat.div_lt_of_lt_mul (by rw [Nat.mul_comm]; omega)
    -- with one inode a group, every inode is the last one of its group
    have htwo : 2 ≤ x.sb.inodesPerGroup.toNat := by
      by_contra hone'
      have heq : x.sb.inodesPerGroup.toNat = 1 := by
        have := hx.inodesPerGroup_pos
        omega
      exact hmod (by rw [heq, Nat.mod_one])
    have hsmall : (n / x.sb.inodesPerGroup).toNat < 2 ^ 31 := by
      have hn32 := n.isLt
      rw [BitVec.toNat_udiv]
      apply Nat.div_lt_of_lt_mul
      exact Nat.lt_of_lt_of_le hn32 (Nat.mul_le_mul_right (2 ^ 31) htwo)
    have htable : x.iTables (n / x.sb.inodesPerGroup) =
        x.iTables (BitVec.ofNat 32 (inodeGroup x n)) := by
      rw [← hgroup, BitVec.ofNat_toNat, BitVec.setWidth_eq]
    have hoffset : (dirGetgroup x.sb n).toNat +
        (findinode x.sb (x.iTables (n / x.sb.inodesPerGroup)) n).toNat =
          inodeGroup x n * (x.sb.blocksPerGroup.toNat * x.sb.blockSize.toNat) +
            (inodeTable x n % x.sb.blocksPerGroup.toNat * x.sb.blockSize.toNat +
              inodeDisplacement x n) % 2 ^ 32 := by
      rw [dirGetgroup_toNat hx hsmall, findinode_toNat hmod, hgroup, htable, inodeTable,
        inodeDisplacement, hlast]
    have hplace : inodeTable x n * x.sb.blockSize.toNat + inodeDisplacement x n =
        inodeGroup x n * (x.sb.blocksPerGroup.toNat * x.sb.blockSize.toNat) +
          (inodeTable x n % x.sb.blocksPerGroup.toNat * x.sb.blockSize.toNat +
            inodeDisplacement x n) := by
      conv_lhs => rw [inodeTable, table_offset hx hlt, Nat.add_mul, Nat.mul_assoc, Nat.add_assoc]
      rfl
    rw [and_iff_right hmod]
    constructor
    · intro hloc
      have heq := hloc.offset
      rw [hoffset, hplace] at heq
      have := Nat.mod_lt (inodeTable x n % x.sb.blocksPerGroup.toNat * x.sb.blockSize.toNat +
        inodeDisplacement x n) (Nat.two_pow_pos 32)
      omega
    · intro hbound
      refine ⟨hgroup, ?_⟩
      rw [hoffset, hplace, Nat.mod_eq_of_lt hbound]

/-- Two groups of 1712 inodes of 128 bytes, in blocks of 4096 bytes. -/
def twoGroups : Xadisk where
  sb := ⟨65536, 4096, 32768, 1712, 128⟩
  iTables g := if g = 0 then 5 else 32773

theorem twoGroups_geometry : Geometry twoGroups 2 where
  blockSize_pos := by decide
  blocksPerGroup_pos := by decide
  inodesPerGroup_pos := by decide
  inodeSize_pos := by decide
  groupBytes := by decide
  tableBytes := by decide
  tables := by decide

theorem twoGroups_located : InodeLocated twoGroups 1711 :=
  (located_iff twoGroups 2 twoGroups_geometry 1711 (by decide) (by decide)).mpr (by decide)

/-- The last inode of the first group is looked for in the second group, in front of its
table. -/
theorem twoGroups_not_located :
    (1712 / twoGroups.sb.inodesPerGroup).toNat = 1 ∧ inodeGroup twoGroups 1712 = 0 ∧
      ¬InodeLocated twoGroups 1712 := by
  refine ⟨by decide, by decide, fun hloc => ?_⟩
  exact absurd hloc.group (by decide)

end XenAccess.Disk
