import Mathlib.Data.Nat.Basic
import XenAccess.Model.Ext2

/-!
# The superblock and the group descriptors

The block size is taken from the size of a fragment, the blocks of a group from its fragments,
and the descriptors from the second page of the image, which is the second block of it only if
blocks have the size of a page.
-/

namespace XenAccess.Disk

variable {image : Mem} {host : DiskHost} {heap : U32 → U32}

/-! ## The image -/

/-- The fields of a superblock that say where things are. -/
structure Superblock where
  blocksCount : U32
  firstDataBlock : U32
  logBlockSize : U32
  logFragSize : U32
  blocksPerGroup : U32
  fragsPerGroup : U32
  inodesPerGroup : U32
  inodeSize : BitVec 16
  deriving DecidableEq, Repr

/-- The superblock of an image, at byte 1024 of it. -/
def superblock (image : Mem) : Superblock where
  blocksCount := image.u32 (1024 + 4)
  firstDataBlock := image.u32 (1024 + 20)
  logBlockSize := image.u32 (1024 + 24)
  logFragSize := image.u32 (1024 + 28)
  blocksPerGroup := image.u32 (1024 + 32)
  fragsPerGroup := image.u32 (1024 + 36)
  inodesPerGroup := image.u32 (1024 + 40)
  inodeSize := image.u16 (1024 + 88)

namespace Superblock

def blockSize (sb : Superblock) : Nat := 1024 * 2 ^ sb.logBlockSize.toNat

/-- The number of block groups. -/
def groups (sb : Superblock) : Nat :=
  (sb.blocksCount.toNat - sb.firstDataBlock.toNat + sb.blocksPerGroup.toNat - 1) /
    sb.blocksPerGroup.toNat

/-- The place of the group descriptors: the block that follows the block of the superblock. -/
def descriptors (sb : Superblock) : Nat := (sb.firstDataBlock.toNat + 1) * sb.blockSize

/-- The first data block is the block of the superblock, the second one if blocks have 1024
bytes. -/
structure Valid (sb : Superblock) : Prop where
  logBlockSize : sb.logBlockSize.toNat ≤ 6
  firstDataBlock : sb.firstDataBlock.toNat = 1024 / sb.blockSize
  blocksPerGroup : 0 < sb.blocksPerGroup.toNat
  inodesPerGroup : 0 < sb.inodesPerGroup.toNat

end Superblock

/-- The block of the inode table in the descriptor of a group. -/
def inodeTableBlock (image : Mem) (g : Nat) : U32 :=
  image.u32 ((superblock image).descriptors + 32 * g + 8)

/-- A host on which parts of the image can be mapped from a page on, with the bytes of the
image in them. -/
structure MapsImage (host : DiskHost) (image : Mem) : Prop where
  maps : ∀ len off : Nat, 0 < len → len < 2 ^ 32 → off < 2 ^ 64 → off % 4096 = 0 →
    ∃ m, host.mmap (BitVec.ofNat 32 len) (BitVec.ofNat 64 off) = some m
  shows : ∀ (len : U32) (off : U64) m, host.mmap len off = some m →
    ∀ i < len.toNat, m i = image (off.toNat + i)

/-! ## Statement -/

/-- What `xa_linux_ext2_init` should have read. -/
structure Decoded (image : Mem) (x : Xadisk) : Prop where
  blocksTotal : x.sb.blocksTotal = (superblock image).blocksCount
  blockSize : x.sb.blockSize.toNat = (superblock image).blockSize
  blocksPerGroup : x.sb.blocksPerGroup = (superblock image).blocksPerGroup
  inodesPerGroup : x.sb.inodesPerGroup = (superblock image).inodesPerGroup
  inodeSize : x.sb.inodeSize = (superblock image).inodeSize
  iTables : ∀ g < (superblock image).groups,
    x.iTables (BitVec.ofNat 32 g) = inodeTableBlock image g

/-- Wherever the image can be mapped, `xa_linux_ext2_init` reads its geometry. -/
def InitDecodes (image : Mem) : Prop :=
  ∀ host heap, MapsImage host image → ∃ x, ext2Init host heap = .ok x ∧ Decoded image x

/-- Fragments are blocks, the descriptors have less than `2^32` bytes, and blocks have 4096
bytes or the second page of the image holds the inode tables of the descriptors too. -/
structure PageGeometry (image : Mem) : Prop where
  logFragSize : (superblock image).logFragSize.toNat % 32 = (superblock image).logBlockSize.toNat
  fragsPerGroup : (superblock image).fragsPerGroup = (superblock image).blocksPerGroup
  few : (superblock image).blocksCount.toNat / (superblock image).blocksPerGroup.toNat + 1 < 2 ^ 27
  descriptors : (superblock image).blockSize = 4096 ∨
    ∀ g < (superblock image).groups, image.u32 (4096 + 32 * g + 8) = inodeTableBlock image g

/-! ## The superblock -/

theorem Mem.u32_congr {m m' : Mem} {d d' : Nat} (hsame : ∀ i < 4, m (d + i) = m' (d' + i)) :
    m.u32 d = m'.u32 d' := by
  have h0 : m d = m' d' := hsame 0 (by decide)
  rw [Mem.u32, Mem.u32, hsame 3 (by decide), hsame 2 (by decide), hsame 1 (by decide), h0]

theorem Mem.u16_congr {m m' : Mem} {d d' : Nat} (hsame : ∀ i < 2, m (d + i) = m' (d' + i)) :
    m.u16 d = m'.u16 d' := by
  have h0 : m d = m' d' := hsame 0 (by decide)
  rw [Mem.u16, Mem.u16, hsame 1 (by decide), h0]

/-- The superblock as the code reads it. -/
def readFields (image : Mem) : Ext2Sb where
  blocksTotal := (superblock image).blocksCount
  blockSize := 1024 * ((1 : U32) <<< ((superblock image).logFragSize.toNat % 32))
  blocksPerGroup := (superblock image).fragsPerGroup
  inodesPerGroup := (superblock image).inodesPerGroup
  inodeSize := (superblock image).inodeSize

theorem readFields_count
    (hfrags : (superblock image).fragsPerGroup = (superblock image).blocksPerGroup) :
    (readFields image).blocksTotal.toNat / (readFields image).blocksPerGroup.toNat =
      (superblock image).blocksCount.toNat / (superblock image).blocksPerGroup.toNat := by
  rw [← hfrags]
  rfl

theorem readSb_eq (hhost : MapsImage host image) : readSb host = .ok (readFields image) := by
  obtain ⟨q, hq⟩ := hhost.maps 4096 0 (by decide) (by decide) (by decide) (by decide)
  have hbyte (i : Nat) (hi : i < 4096) : q i = image i := by
    have := hhost.shows _ _ q hq i hi
    rwa [show (BitVec.ofNat 64 0).toNat = 0 from rfl, Nat.zero_add] at this
  have hword (d : Nat) (hd : d + 4 ≤ 4096) : q.u32 d = image.u32 d :=
    Mem.u32_congr fun i hi => hbyte _ (by omega)
  have hhalf (d : Nat) (hd : d + 2 ≤ 4096) : q.u16 d = image.u16 d :=
    Mem.u16_congr fun i hi => hbyte _ (by omega)
  have hq' : host.mmap 4096 0 = some q := hq
  rw [readSb, hq']
  show Except.ok (Ext2Sb.mk (q.u32 1028) (1024 * ((1 : U32) <<< ((q.u32 1052).toNat % 32)))
    (q.u32 1060) (q.u32 1064) (q.u16 1112)) = _
  rw [hword 1028 (by decide), hword 1052 (by decide), hword 1060 (by decide),
    hword 1064 (by decide), hhalf 1112 (by decide)]
  rfl

/-- The block size is right if the exponent is. -/
theorem blockSize_eq_iff {f k : Nat} (hk : k ≤ 6) :
    ((1024 : U32) * ((1 : U32) <<< (f % 32))).toNat = 1024 * 2 ^ k ↔ f % 32 = k := by
  have hall : ∀ r < 32, ∀ k < 7,
      (((1024 : U32) * ((1 : U32) <<< r)).toNat = 1024 * 2 ^ k ↔ r = k) := by decide
  exact hall (f % 32) (Nat.mod_lt f (by decide)) k (Nat.lt_succ_of_le hk)

/-! ## The group descriptors -/

theorem firstDataBlock_le (hvalid : (superblock image).Valid) :
    (superblock image).firstDataBlock.toNat ≤ 1 := by
  have hpow := Nat.two_pow_pos (superblock image).logBlockSize.toNat
  rw [hvalid.firstDataBlock, Superblock.blockSize]
  exact Nat.div_le_of_le_mul (by omega)

/-- The code counts at least as many groups as there are. -/
theorem groups_le (hvalid : (superblock image).Valid) : (superblock image).groups ≤
    (superblock image).blocksCount.toNat / (superblock image).blocksPerGroup.toNat + 1 := by
  have hpos := hvalid.blocksPerGroup
  have hlt := Nat.lt_div_mul_add hpos (a := (superblock image).blocksCount.toNat)
  rw [Superblock.groups]
  refine Nat.le_of_lt_succ ((Nat.div_lt_iff_lt_mul hpos).mpr ?_)
  rw [Nat.succ_mul, Nat.succ_mul]
  omega

/-- There is at most one group less than the code divides out. -/
theorem le_groups (hvalid : (superblock image).Valid) :
    (superblock image).blocksCount.toNat / (superblock image).blocksPerGroup.toNat ≤
      (superblock image).groups + 1 := by
  have hpos := hvalid.blocksPerGroup
  have hfirst := firstDataBlock_le hvalid
  have hmul := Nat.div_mul_le_self (superblock image).blocksCount.toNat
    (superblock image).blocksPerGroup.toNat
  rw [Superblock.groups, ← Nat.sub_le_iff_le_add, Nat.le_div_iff_mul_le hpos, Nat.sub_mul]
  omega

/-- With blocks of 4096 bytes the descriptors are on the second page. -/
theorem descriptors_of_blockSize (hvalid : (superblock image).Valid)
    (hsize : (superblock image).blockSize = 4096) :
    (superblock image).descriptors = 4096 := by
  rw [Superblock.descriptors, hvalid.firstDataBlock, hsize]

/-- The number of groups as the code computes it. -/
theorem ngroups_toNat {sb : Ext2Sb}
    (hfew : sb.blocksTotal.toNat / sb.blocksPerGroup.toNat + 1 < 2 ^ 27) :
    (sb.blocksTotal / sb.blocksPerGroup + 1).toNat =
      sb.blocksTotal.toNat / sb.blocksPerGroup.toNat + 1 := by
  rw [BitVec.toNat_add, BitVec.toNat_udiv]
  exact Nat.mod_eq_of_lt (by
    show _ + 1 < 2 ^ 32
    omega)

/-- As long as the mapping has the size of the table, the entries are those on the second page. -/
theorem readGroupdesc_eq (hhost : MapsImage host image) (heap : U32 → U32) (sb : Ext2Sb)
    (hpos : 0 < sb.blocksPerGroup.toNat)
    (hfew : sb.blocksTotal.toNat / sb.blocksPerGroup.toNat + 1 < 2 ^ 27) :
    ∃ iTables, readGroupdesc host heap sb = .ok iTables ∧
      ∀ g ≤ sb.blocksTotal.toNat / sb.blocksPerGroup.toNat,
        iTables (BitVec.ofNat 32 g) = image.u32 (4096 + 32 * g + 8) := by
  have hn := ngroups_toNat hfew
  generalize hc : sb.blocksTotal.toNat / sb.blocksPerGroup.toNat = c at hfew hn ⊢
  have hint : (sb.blocksTotal / sb.blocksPerGroup + 1).toInt.toNat = c + 1 := by
    rw [BitVec.toInt_eq_toNat_of_lt (by omega), hn]
    rfl
  have hlen : ((sb.blocksTotal / sb.blocksPerGroup + 1) * ext2GroupdescSize).toNat =
      32 * (c + 1) := by
    rw [BitVec.toNat_mul, hn, show ext2GroupdescSize.toNat = 32 from rfl, Nat.mul_comm]
    exact Nat.mod_eq_of_lt (by omega)
  obtain ⟨p, hp⟩ := hhost.maps (32 * (c + 1)) 4096 (by omega) (by omega) (by decide) (by decide)
  have hp' : host.mmap ((sb.blocksTotal / sb.blocksPerGroup + 1) * ext2GroupdescSize) 4096 =
      some p := by
    rw [← hp, ← hlen, BitVec.ofNat_toNat, BitVec.setWidth_eq]
    rfl
  have hbpg : ¬sb.blocksPerGroup = 0 := by
    intro hzero
    rw [hzero] at hpos
    exact absurd hpos (by decide)
  refine ⟨_, by rw [readGroupdesc, if_neg hbpg]; simp only [hp']; rfl, fun g hg => ?_⟩
  have hgn : (BitVec.ofNat 32 g).toNat = g := by
    rw [BitVec.toNat_ofNat, Nat.mod_eq_of_lt (by omega)]
  show (if (BitVec.ofNat 32 g).toNat < (sb.blocksTotal / sb.blocksPerGroup + 1).toInt.toNat then
    p.u32 (8 + 32 * (BitVec.ofNat 32 g).toNat) else _) = _
  rw [hgn, hint, if_pos (by omega)]
  apply Mem.u32_congr
  intro i hi
  rw [hhost.shows _ _ p hp' _ (by omega)]
  exact congrArg image (by rw [show (4096 : U64).toNat = 4096 from rfl]; omega)

theorem ext2Init_eq (hhost : MapsImage host image) {iTables : U32 → U32}
    (htables : readGroupdesc host heap (readFields image) = .ok iTables) :
    ext2Init host heap = .ok { sb := readFields image, iTables } := by
  rw [ext2Init, readSb_eq hhost]
  show Except.bind (readGroupdesc host heap (readFields image)) _ = _
  rw [htables]
  rfl

theorem initDecodes_of_page (hvalid : (superblock image).Valid) (hpage : PageGeometry image) :
    InitDecodes image := by
  intro host heap hhost
  have hpos : 0 < (readFields image).blocksPerGroup.toNat := by
    show 0 < (superblock image).fragsPerGroup.toNat
    rw [hpage.fragsPerGroup]
    exact hvalid.blocksPerGroup
  have hcount := readFields_count hpage.fragsPerGroup
  obtain ⟨iTables, htables, hwords⟩ := readGroupdesc_eq hhost heap (readFields image) hpos
    (hcount ▸ hpage.few)
  refine ⟨_, ext2Init_eq hhost htables, rfl, ?_, hpage.fragsPerGroup, rfl, rfl, fun g hg => ?_⟩
  · exact (blockSize_eq_iff hvalid.logBlockSize).mpr hpage.logFragSize
  · have hle := groups_le hvalid
    refine (hwords g (by omega)).trans ?_
    rcases hpage.descriptors with hsize | hsame
    · rw [inodeTableBlock, descriptors_of_blockSize hvalid hsize]
    · exact hsame g hg

/-! ## Other geometries -/

/-- A host that has chosen bytes behind each mapping. -/
def pageHost (image tail : Mem) : DiskHost where
  mmap len off :=
    if len = 0 then none
    else some fun i => if i < len.toNat then image (off.toNat + i) else tail i
  read off i := image (off.toNat + i)
  freshSlots _ := { op := 0, pathElem := fun _ => 0 }
  stackTail := tail

theorem pageHost_maps (image tail : Mem) : MapsImage (pageHost image tail) image where
  maps := by
    intro len off hpos hlen _ _
    have hne : BitVec.ofNat 32 len ≠ 0 := by
      intro hzero
      have := congrArg BitVec.toNat hzero
      rw [BitVec.toNat_ofNat, Nat.mod_eq_of_lt hlen, show (0 : U32).toNat = 0 from rfl] at this
      omega
    exact ⟨_, if_neg hne⟩
  shows := by
    intro len off m hm i hi
    by_cases hzero : len = 0
    · rw [show (pageHost image tail).mmap len off = none from if_pos hzero] at hm
      cases hm
    · rw [show (pageHost image tail).mmap len off = some _ from if_neg hzero] at hm
      obtain rfl := Option.some.inj hm
      exact if_pos hi

/-- An entry behind the mapping is what happens to be in memory there. -/
theorem readGroupdesc_behind {tail : Mem} {sb : Ext2Sb} {iTables : U32 → U32}
    (htables : readGroupdesc (pageHost image tail) heap sb = .ok iTables) {g : U32}
    (hg : ((sb.blocksTotal / sb.blocksPerGroup + 1) * ext2GroupdescSize).toNat ≤ 8 + 32 * g.toNat) :
    iTables g = heap g ∨ iTables g = tail.u32 (8 + 32 * g.toNat) := by
  rw [readGroupdesc] at htables
  split at htables
  · cases htables
  · dsimp only at htables
    split at htables
    · split at htables
      · cases htables
      · exact .inl (congrFun (Except.ok.inj htables) g).symm
    · rename_i p hp
      obtain rfl := Except.ok.inj htables
      have hne : ¬(sb.blocksTotal / sb.blocksPerGroup + 1) * ext2GroupdescSize = 0 := by
        intro hzero
        rw [show (pageHost image tail).mmap _ 4096 = none from if_pos hzero] at hp
        cases hp
      rw [show (pageHost image tail).mmap _ 4096 = some _ from if_neg hne] at hp
      obtain rfl := Option.some.inj hp
      dsimp only
      split
      · refine .inr (Mem.u32_congr fun i _ => if_neg ?_)
        show ¬8 + 32 * g.toNat + i < _
        omega
      · exact .inl rfl

theorem ne_not (v : U32) : v ≠ ~~~v := by
  intro heq
  have := congrArg BitVec.toNat heq
  rw [BitVec.toNat_not] at this
  omega

theorem Mem.u32_not (m : Mem) (d : Nat) : Mem.u32 (fun i => ~~~m i) d = ~~~m.u32 d := by
  rw [Mem.u32, Mem.u32, BitVec.not_append, BitVec.not_append, BitVec.not_append]

theorem of_ext2Init (hhost : MapsImage host image) {x : Xadisk} (hx : ext2Init host heap = .ok x) :
    x.sb = readFields image ∧ readGroupdesc host heap (readFields image) = .ok x.iTables := by
  rw [ext2Init, readSb_eq hhost] at hx
  change Except.bind (readGroupdesc host heap (readFields image)) _ = _ at hx
  cases htables : readGroupdesc host heap (readFields image) with
  | error e => rw [htables] at hx; cases hx
  | ok iTables =>
    rw [htables] at hx
    obtain rfl := Except.ok.inj hx
    exact ⟨rfl, rfl⟩

/-- A table whose length does not fit into 32 bits is not read as a whole. -/
theorem few_of_decodes (hvalid : (superblock image).Valid) (hdec : InitDecodes image)
    (hfrags : (superblock image).fragsPerGroup = (superblock image).blocksPerGroup) :
    (superblock image).blocksCount.toNat / (superblock image).blocksPerGroup.toNat + 1 <
      2 ^ 27 := by
  by_contra hmany
  have hlow := le_groups hvalid
  have hhigh := groups_le hvalid
  have hcount := (superblock image).blocksCount.isLt
  have hdiv := Nat.div_le_self (superblock image).blocksCount.toNat
    (superblock image).blocksPerGroup.toNat
  have hudiv : ((readFields image).blocksTotal / (readFields image).blocksPerGroup).toNat =
      (superblock image).blocksCount.toNat / (superblock image).blocksPerGroup.toNat := by
    rw [BitVec.toNat_udiv, readFields_count hfrags]
  generalize (superblock image).blocksCount.toNat / (superblock image).blocksPerGroup.toNat = c
    at hmany hlow hhigh hdiv hudiv
  obtain ⟨g, hg⟩ : ∃ g, (superblock image).groups = g + 1 := Nat.exists_eq_add_one.mpr (by omega)
  have hgn : (BitVec.ofNat 32 g).toNat = g := by
    rw [BitVec.toNat_ofNat, Nat.mod_eq_of_lt (by omega)]
  -- every byte that is not of the mapping is wrong
  let tail : Mem := fun i => ~~~image ((superblock image).descriptors + i)
  let heap : U32 → U32 := fun i => ~~~inodeTableBlock image i.toNat
  have hhost := pageHost_maps image tail
  obtain ⟨x, hx, hright⟩ := hdec (pageHost image tail) heap hhost
  obtain ⟨-, htables⟩ := of_ext2Init hhost hx
  have hbehind : (((readFields image).blocksTotal / (readFields image).blocksPerGroup + 1) *
      ext2GroupdescSize).toNat ≤ 8 + 32 * (BitVec.ofNat 32 g).toNat := by
    rw [hgn, BitVec.toNat_mul, BitVec.toNat_add, hudiv, show ext2GroupdescSize.toNat = 32 from rfl,
      show (1 : U32).toNat = 1 from rfl]
    omega
  have hwrong : x.iTables (BitVec.ofNat 32 g) = ~~~inodeTableBlock image g := by
    rcases readGroupdesc_behind htables hbehind with hheap | htail
    · rw [hheap]
      show ~~~inodeTableBlock image (BitVec.ofNat 32 g).toNat = _
      rw [hgn]
    · rw [htail, Mem.u32_not (fun i => image ((superblock image).descriptors + i)), hgn]
      refine congrArg (~~~·) (Mem.u32_congr fun i _ => congrArg image ?_)
      omega
  rw [hright.iTables g (by omega)] at hwrong
  exact ne_not _ hwrong

/-- **When the superblock and the group descriptors are read right.** Exactly if fragments are
blocks, the table of descriptors is small enough, and it is on the second page of the image. -/
theorem initDecodes_iff (image : Mem) (hvalid : (superblock image).Valid) :
    InitDecodes image ↔ PageGeometry image := by
  refine ⟨fun hdec => ?_, initDecodes_of_page hvalid⟩
  have hhost := pageHost_maps image image
  obtain ⟨x, hx, hright⟩ := hdec (pageHost image image) (fun _ => 0) hhost
  obtain ⟨hsb, htables⟩ := of_ext2Init hhost hx
  have hfrags : (superblock image).fragsPerGroup = (superblock image).blocksPerGroup := by
    rw [← hright.blocksPerGroup, hsb]
    rfl
  have hfew := few_of_decodes hvalid hdec hfrags
  refine ⟨?_, hfrags, hfew, .inr fun g hg => ?_⟩
  · refine (blockSize_eq_iff hvalid.logBlockSize).mp (Eq.trans ?_ hright.blockSize)
    rw [hsb, readFields]
  · have hcount := readFields_count hfrags
    have hpos : 0 < (superblock image).fragsPerGroup.toNat := hfrags ▸ hvalid.blocksPerGroup
    obtain ⟨iTables, htables', hwords⟩ := readGroupdesc_eq hhost (fun _ => 0)
      (readFields image) hpos (hcount ▸ hfew)
    obtain rfl := Except.ok.inj (htables'.symm.trans htables)
    have hle := groups_le hvalid
    rw [← hright.iTables g hg]
    exact (hwords g (by omega)).symm

/-- An image with one group of 8192 blocks and 1712 inodes, whose descriptors are at a place in
it and tell block 5 for the inode table. -/
def oneGroup (firstDataBlock logBlockSize : U8) (descriptors : Nat) : Mem := fun d =>
  (List.lookup d [(1029, 0x20), (1044, firstDataBlock), (1048, logBlockSize), (1052, logBlockSize),
    (1057, 0x20), (1061, 0x20), (1064, 0xB0), (1065, 0x06), (1112, 0x80),
    (descriptors + 8, 5)]).getD 0

theorem oneGroup_decodes : InitDecodes (oneGroup 0 2 4096) :=
  (initDecodes_iff (oneGroup 0 2 4096) ⟨by decide, by decide, by decide, by decide⟩).mpr
    ⟨by decide, by decide, by decide, .inl (by decide)⟩

/-- With blocks of 1024 bytes the descriptors are at byte 2048, and the second page has nothing
of them. -/
theorem oneGroup_not_decodes :
    (superblock (oneGroup 1 0 2048)).Valid ∧ inodeTableBlock (oneGroup 1 0 2048) 0 = 5 ∧
      (∀ host heap x, MapsImage host (oneGroup 1 0 2048) → ext2Init host heap = .ok x →
        x.iTables 0 = 0) ∧
      ¬InitDecodes (oneGroup 1 0 2048) := by
  have htable : inodeTableBlock (oneGroup 1 0 2048) 0 = 5 := by decide
  have hzero : ∀ host heap x, MapsImage host (oneGroup 1 0 2048) → ext2Init host heap = .ok x →
      x.iTables 0 = 0 := by
    intro host heap x hhost hx
    obtain ⟨iTables, htables, hwords⟩ := readGroupdesc_eq hhost heap
      (readFields (oneGroup 1 0 2048)) (by decide) (by decide)
    obtain rfl := Except.ok.inj (htables.symm.trans (of_ext2Init hhost hx).2)
    exact (hwords 0 (Nat.zero_le _)).trans (by decide)
  refine ⟨⟨by decide, by decide, by decide, by decide⟩, htable, hzero, fun hdec => ?_⟩
  have hhost := pageHost_maps (oneGroup 1 0 2048) fun _ => 0
  obtain ⟨x, hx, hright⟩ := hdec (pageHost (oneGroup 1 0 2048) fun _ => 0) (fun _ => 0) hhost
  have hentry := hright.iTables 0 (by decide)
  rw [htable] at hentry
  exact absurd (hentry.symm.trans (hzero _ _ x hhost hx)) (by decide)

end XenAccess.Disk
