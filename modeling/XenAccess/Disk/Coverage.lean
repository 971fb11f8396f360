import XenAccess.Disk.Framing
import XenAccess.Disk.Hash

/-!
# Which blocks a write of the guest reaches

A write covers any number of sectors from any sector on. The driver sends the first 4096 bytes
from the start of its data, and the monitor takes them for the content of one block, the one
the first sector lies in, with its number cut to 32 bits. For which sectors this is right,
whatever the data and the disk, depends on the numbers alone.
-/

namespace XenAccess.Disk

variable {host : DiskHost} {ht ht' : HashTable} {w : GuestWrite} {block : U32}

/-- The write reaches a sector of the block. -/
def Overlaps (sector : U64) (nbSectors : U32) (block : Nat) : Prop :=
  8 * block < sector.toNat + nbSectors.toNat ∧ sector.toNat < 8 * block + 8

instance (sector : U64) (nbSectors : U32) (block : Nat) :
    Decidable (Overlaps sector nbSectors block) :=
  inferInstanceAs (Decidable (_ ∧ _))

/-- The disk after the write. -/
def diskAfter (w : GuestWrite) (disk : Mem) : Mem := fun pos =>
  if sectorBytes * w.sector.toNat ≤ pos ∧
      pos < sectorBytes * (w.sector.toNat + w.nbSectors.toNat) then
    w.buf (pos - sectorBytes * w.sector.toNat)
  else disk pos

/-- The content of a block after the write. -/
def contentAfter (w : GuestWrite) (disk : Mem) (block : Nat) : Block := fun i =>
  diskAfter w disk (blockBytes * block + i.val)

/-- The monitor sees the write as it is: a watched block that it reaches is looked up and
compared with its new content, and no other block is compared or updated. A round in which
anything happens is about a watched block that the write reaches. -/
structure Seen (host : DiskHost) (ht : HashTable) (w : GuestWrite) (disk : Mem) : Prop where
  watched : ∀ b, InTable b ht → Overlaps w.sector w.nbSectors b.block.toNat →
    w.op.block = b.block ∧ w.op.data = contentAfter w disk b.block.toNat
  compared : ∀ b, checkHash w.op.block ht = some b → Overlaps w.sector w.nbSectors b.block.toNat
  updated : ∀ events ht' block, coreStep host w.op ht = .ok (events, ht') →
    nodesOf block ht' ≠ nodesOf block ht → Overlaps w.sector w.nbSectors block.toNat
  round : coreStep host w.op ht ≠ .ok ([], ht) → ∃ b, checkHash w.op.block ht = some b ∧
    InTable b ht ∧ Overlaps w.sector w.nbSectors b.block.toNat

/-- The write starts with a block and covers it, that block is the only watched one it
reaches, and no watched block has a number that agrees with that of the first block in the
low 32 bits only. -/
structure Covers (ht : HashTable) (sector : U64) (nbSectors : U32) : Prop where
  whole : ∀ b, InTable b ht → Overlaps sector nbSectors b.block.toNat →
    sector.toNat = 8 * b.block.toNat ∧ 8 ≤ nbSectors.toNat
  narrow : ∀ b, InTable b ht → b.block = (sector / 8).setWidth 32 → sector.toNat / 8 < 2 ^ 32

theorem toNat_block (sector : U64) :
    ((sector / 8).setWidth 32 : U32).toNat = sector.toNat / 8 % 2 ^ 32 := by
  rw [BitVec.toNat_setWidth, BitVec.toNat_udiv]
  rfl

/-- A watched block that the write reaches has the number of a block the write can start in. -/
theorem narrow_of_overlaps {sector : U64} {nbSectors : U32}
    (hover : Overlaps sector nbSectors block.toNat) : sector.toNat / 8 < 2 ^ 32 := by
  have hlt := block.isLt
  have := hover.2
  omega

theorem inTable_of_checkHash (hv : Valid ht) {b : BlockNode} (hb : checkHash block ht = some b) :
    InTable b ht ∧ b.block = block := by
  rw [checkHash_eq hv] at hb
  have hmem := List.mem_of_mem_head? hb
  have hblock : b.block = block := of_decide_eq_true (List.mem_filter.mp hmem).2
  refine ⟨(inTable_iff hv).mpr ?_, hblock⟩
  rw [hblock]
  exact hmem

/-- Without a node for the block, nothing happens. -/
theorem coreStep_of_none {op : BlockOp} (hnone : checkHash op.block ht = none) :
    coreStep host op ht = .ok ([], ht) := by
  rw [coreStep, hnone]
  rfl

/-- A round of the monitor changes the nodes of the block looked up only, and only if there is
one. -/
theorem coreStep_frame {op : BlockOp} {events : List DiskEvent}
    (hrun : coreStep host op ht = .ok (events, ht')) (hne : nodesOf block ht' ≠ nodesOf block ht) :
    op.block = block ∧ ∃ b, checkHash op.block ht = some b := by
  cases hcheck : checkHash op.block ht with
  | none =>
    cases (coreStep_of_none hcheck).symm.trans hrun
    exact absurd rfl hne
  | some b =>
    refine ⟨?_, b, rfl⟩
    by_contra hblock
    rw [coreStep, hcheck] at hrun
    simp only [bind, Except.bind, pure, Except.pure] at hrun
    split at hrun
    · cases hrun
    · split at hrun
      · cases hrun
      · split at hrun
        · cases hrun
          exact hne (nodesOf_setDir hblock)
        · cases hrun
          exact hne rfl

/-- The data the driver sends, when the write covers the block. -/
theorem data_eq_contentAfter {disk : Mem} {block : Nat} (hstart : w.sector.toNat = 8 * block)
    (hlen : 8 ≤ w.nbSectors.toNat) : w.op.data = contentAfter w disk block := by
  funext i
  have hi : i.val < 4096 := i.isLt
  have hpos : sectorBytes * w.sector.toNat = blockBytes * block := by
    rw [hstart, sectorBytes, blockBytes]
    omega
  have hlt : i.val < sectorBytes * w.nbSectors.toNat := by
    rw [sectorBytes]
    omega
  rw [contentAfter, diskAfter, if_pos ?_, hpos, Nat.add_sub_cancel_left]
  · rfl
  · rw [Nat.mul_add, hpos]
    exact ⟨Nat.le_add_right _ _, Nat.add_lt_add_left hlt _⟩

theorem seen_of_covers (hv : Valid ht) (hnb : 1 ≤ w.nbSectors.toNat)
    (hcov : Covers ht w.sector w.nbSectors) (disk : Mem) : Seen host ht w disk := by
  have hlook {b : BlockNode} (hb : checkHash w.op.block ht = some b) :
      Overlaps w.sector w.nbSectors b.block.toNat := by
    obtain ⟨htable, hblock⟩ := inTable_of_checkHash hv hb
    have hlt := hcov.narrow b htable hblock
    have hnum : b.block.toNat = w.sector.toNat / 8 := by
      rw [hblock]
      exact (toNat_block w.sector).trans (Nat.mod_eq_of_lt hlt)
    rw [hnum]
    exact ⟨by omega, by omega⟩
  constructor
  · intro b hb hover
    obtain ⟨hstart, hlen⟩ := hcov.whole b hb hover
    refine ⟨?_, data_eq_contentAfter hstart hlen⟩
    have hlt := narrow_of_overlaps hover
    apply BitVec.eq_of_toNat_eq
    refine (toNat_block w.sector).trans ?_
    omega
  · exact fun b hb => hlook hb
  · intro events ht' block hrun hne
    obtain ⟨hblock, b, hb⟩ := coreStep_frame hrun hne
    have := hlook hb
    rwa [(inTable_of_checkHash hv hb).2, hblock] at this
  · intro hround
    cases hb : checkHash w.op.block ht with
    | none => exact absurd (coreStep_of_none hb) hround
    | some b => exact ⟨b, rfl, (inTable_of_checkHash hv hb).1, hlook hb⟩

/-- Data of ones, written onto a disk of zeros, show whether the block was covered. -/
theorem covers_of_seen {sector : U64} {nbSectors : U32} (hv : Valid ht)
    (hseen : Seen host ht ⟨sector, nbSectors, fun _ => 1, fun _ => 0⟩ fun _ => 0) :
    Covers ht sector nbSectors := by
  constructor
  · intro b hb hover
    obtain ⟨hblock, hdata⟩ := hseen.watched b hb hover
    have hlt := narrow_of_overlaps hover
    have hnum : b.block.toNat = sector.toNat / 8 := by
      rw [← hblock]
      exact (toNat_block sector).trans (Nat.mod_eq_of_lt hlt)
    have hin (i : Fin blockBytes) :
        sectorBytes * sector.toNat ≤ blockBytes * b.block.toNat + i.val ∧
          blockBytes * b.block.toNat + i.val < sectorBytes * (sector.toNat + nbSectors.toNat) := by
      by_contra hnot
      have hi : (1 : U8) = 0 := (congrFun hdata i).trans (if_neg hnot)
      cases hi
    have hfirst := (hin ⟨0, by decide⟩).1
    have hlast := (hin ⟨4095, by decide⟩).2
    simp only [sectorBytes, blockBytes] at hfirst hlast
    exact ⟨by omega, by omega⟩
  · intro b hb hblock
    have hmem := (inTable_iff hv).mp hb
    cases hcheck : checkHash b.block ht with
    | none =>
      rw [checkHash_eq hv, List.head?_eq_none_iff] at hcheck
      rw [hcheck] at hmem
      cases hmem
    | some c =>
      have hc := (inTable_of_checkHash hv hcheck).2
      have hover := hseen.compared c (by rw [← hcheck, hblock]; rfl)
      rw [hc] at hover
      exact narrow_of_overlaps hover

/-- An image of zeros. -/
def zeroHost : DiskHost where
  mmap _ _ := none
  read _ _ := 0
  freshSlots _ := { op := 0, pathElem := fun _ => 0 }
  stackTail _ := 0

/-- A write is seen as it is, whatever its data and the disk, if and only if it covers the one
watched block that it reaches. -/
theorem seen_iff (ht : HashTable) (hr : Reachable ht) (sector : U64) (nbSectors : U32)
    (hnb : 1 ≤ nbSectors.toNat) :
    (∀ host buf stack disk, Seen host ht ⟨sector, nbSectors, buf, stack⟩ disk) ↔
      Covers ht sector nbSectors := by
  constructor
  · intro hseen
    exact covers_of_seen hr.valid (hseen zeroHost (fun _ => 1) (fun _ => 0) fun _ => 0)
  · intro hcov host buf stack disk
    exact seen_of_covers hr.valid hnb hcov disk

/-- The block 1, watched. -/
def oneWatch : HashTable :=
  insertHash { id := 0, block := 1, inode := 2, type := 2, path := [slash], dir := [] } initHash

theorem oneWatch_seen_iff :
    (∀ host buf stack disk, Seen host oneWatch ⟨8, 8, buf, stack⟩ disk) ↔ Covers oneWatch 8 8 :=
  seen_iff oneWatch (.insert _ .init) 8 8 (by decide)

/-- Eight sectors from the middle of block 0 on: block 1 is reached, and block 0 looked up. -/
theorem unaligned_not_seen :
    ¬ Seen zeroHost oneWatch ⟨4, 8, fun _ => 0, fun _ => 0⟩ fun _ => 0 := by
  intro hseen
  have hin : InTable ⟨0, 1, 2, 2, [slash], []⟩ oneWatch := ⟨1, by decide, by decide⟩
  have hlook := (hseen.watched _ hin (by decide)).1
  revert hlook
  decide

end XenAccess.Disk
