import XenAccess.Lib.Hierarchy
import XenAccess.Maps.KernelPage
import XenAccess.Model.X8664

/-!
# The x86-64 walk against the format

In long mode an address is mapped by four levels of tables, and a page has 4 KiB, 2 MiB or 1 GiB.
`longMode` is this format over a memory with numbers of any size. The library does not support the
two larger sizes and does not look at the upper 16 bits of an address.
`xaPagetableLookup_long_exact` says for which addresses it gives the address of the format for all
that.
-/

namespace XenAccess.X8664

open Paging

variable {h : Host} {p : Params} {mem : Nat → Option U64}

/-! ## The format -/

/-- The physical address in an entry for a table or a page of 4 KiB. -/
def entryBase (entry : U64) : Nat := entry.toNat / 2 ^ 12 % 2 ^ 40 * 2 ^ 12

/-- The physical address in an entry for a larger page. -/
def largeBase (level : Nat) (entry : U64) : Nat :=
  entry.toNat % 2 ^ 52 / 2 ^ (12 + level * 9) * 2 ^ (12 + level * 9)

/-- Levels `1` and `2`, the page directory and the table above it, can have entries for pages. -/
def decodeEntry (level : Nat) (entry : U64) : Entry :=
  if !entry.getLsbD 0 then .absent
  else if level = 0 then .page (entryBase entry)
  else if entry.getLsbD 7 && level < 3 then .page (largeBase level entry)
  else .table (entryBase entry)

/-- The tables of long mode. -/
def longMode : Format U64 where
  shift := 12
  digit := 9
  width := 8
  decode := decodeEntry

/-- The upper bits of an address repeat bit 47. -/
def Canonical (v : U64) : Prop := (v.setWidth 48).signExtend 64 = v

instance (v : U64) : Decidable (Canonical v) := inferInstanceAs (Decidable (_ = _))

/-- `mem` is what the library reads by machine address. -/
def GuestMemory (h : Host) (p : Params) (mem : Nat → Option U64) : Prop :=
  ∀ a : U64, a.toNat % 8 = 0 → xaReadLongLongMach h p a = mem a.toNat

/-- The address for a page of 4 KiB, and `0` for all that the library does not support. -/
def smallTarget : Option (Nat × Nat) → Nat
  | some (0, address) => address
  | _ => 0

/-- What a lookup has to give for an address whose low bits are walked to a target. -/
def expectedTarget (v : U64) (target : Option (Nat × Nat)) : Nat :=
  if Canonical v then (target.map Prod.snd).getD 0 else 0

/-! ## Entries -/

theorem xaGetBit_eq (reg : U64) {bit : Nat} (hbit : bit < 64) :
    xaGetBit reg bit = reg.getLsbD bit := by
  have htwo : (1 : U64) <<< bit = BitVec.twoPow 64 bit := rfl
  rw [xaGetBit, htwo, BitVec.and_twoPow]
  cases hr : reg.getLsbD bit with
  | false => rfl
  | true =>
    have hne : BitVec.twoPow 64 bit ≠ 0 := by
      intro hzero
      have := congrArg (fun x => x.getLsbD bit) hzero
      simp [hbit] at this
    simpa using hne

theorem entryPresent_eq (entry : U64) : entryPresent entry = entry.getLsbD 0 :=
  xaGetBit_eq entry (by decide)

theorem pageSizeFlag_eq (entry : U64) : pageSizeFlag entry = entry.getLsbD 7 :=
  xaGetBit_eq entry (by decide)

theorem toNat_and_base (x : U64) : (x &&& 0xFFFFFFFFFF000).toNat = entryBase x := by
  simpa [entryBase] using Bits.toNat_and_field x (k := 12) (n := 52) (by omega) (by omega)

theorem toNat_and_root (x : U64) :
    (x &&& 0xFFFFFFFFFFFFF000).toNat = x.toNat / 4096 * 4096 := by
  simpa using Bits.toNat_and_high x (k := 12) (by omega)

theorem entryBase_mod (entry : U64) : entryBase entry % 4096 = 0 := by
  rw [entryBase]
  omega

/-- The displacement of an entry in a table of 512 entries. -/
theorem tableIndex_toNat (v : U64) (k : Nat) :
    (((v >>> k) &&& 0x1FF) * 8).toNat = v.toNat / 2 ^ k % 512 * 8 := by
  have hmask : (v >>> k &&& 0x1FF).toNat = (v >>> k).toNat % 2 ^ 9 :=
    Bits.toNat_and_low (v >>> k) (k := 9) (by omega)
  rw [BitVec.toNat_mul, hmask, BitVec.toNat_ushiftRight, Nat.shiftRight_eq_div_pow]
  show v.toNat / 2 ^ k % 2 ^ 9 * 8 % 2 ^ 64 = _
  omega

/-- A table is read where the format says. -/
theorem readSlot (hmem : GuestMemory h p mem) {base v : U64} (hbase : base.toNat % 4096 = 0)
    {level k : Nat} (hk : longMode.span level = k) {entry : U64}
    (hread : mem (longMode.slot level base.toNat v.toNat) = some entry) :
    xaReadLongLongMach h p (base + ((v >>> k) &&& 0x1FF) * 8) = some entry := by
  have hindex := tableIndex_toNat v k
  have hlt := base.isLt
  have haddress : (base + ((v >>> k) &&& 0x1FF) * 8).toNat =
      longMode.slot level base.toNat v.toNat := by
    rw [BitVec.toNat_add, hindex, Format.slot, hk]
    show _ = base.toNat + v.toNat / 2 ^ k % 2 ^ 9 * 8
    omega
  have hmod : longMode.slot level base.toNat v.toNat % 8 = 0 := by
    rw [← haddress, BitVec.toNat_add, hindex]
    omega
  rw [hmem _ (haddress ▸ hmod), haddress, hread]

theorem readBelow (hmem : GuestMemory h p mem) {above v : U64} {level k : Nat}
    (hk : longMode.span level = k) {entry : U64}
    (hread : mem (longMode.slot level (entryBase above) v.toNat) = some entry) :
    xaReadLongLongMach h p ((above &&& 0xFFFFFFFFFF000) + ((v >>> k) &&& 0x1FF) * 8) =
      some entry := by
  have hbase := toNat_and_base above
  apply readSlot hmem _ hk
  · rwa [hbase]
  · rw [hbase, entryBase_mod]

theorem decode_absent {entry : U64} (hpresent : entry.getLsbD 0 = false) (level : Nat) :
    longMode.decode level entry = .absent := by
  simp only [longMode, decodeEntry, hpresent]
  rfl

theorem decode_page {entry : U64} (hpresent : entry.getLsbD 0 = true) :
    longMode.decode 0 entry = .page (entryBase entry) := by
  simp only [longMode, decodeEntry, hpresent]
  rfl

theorem decode_first {entry : U64} (hpresent : entry.getLsbD 0 = true) :
    longMode.decode (2 + 1) entry = .table (entryBase entry) := by
  simp only [longMode, decodeEntry, hpresent, lt_irrefl, decide_false, Bool.and_false]
  rfl

theorem decode_large {entry : U64} (hpresent : entry.getLsbD 0 = true)
    (hlarge : entry.getLsbD 7 = true) {level : Nat} (hlevel : level ∈ [1, 2]) :
    longMode.decode level entry = .page (largeBase level entry) := by
  simp only [longMode, decodeEntry, hpresent, hlarge]
  rcases List.mem_pair.mp hlevel with rfl | rfl
  · rfl
  · rfl

theorem decode_table {entry : U64} (hpresent : entry.getLsbD 0 = true)
    (hlarge : entry.getLsbD 7 = false) (level : Nat) :
    longMode.decode (level + 1) entry = .table (entryBase entry) := by
  simp only [longMode, decodeEntry, hpresent, hlarge]
  rfl

theorem getPaddrPae_toNat (v pte : U64) :
    (getPaddrPae v pte).toNat = entryBase pte + v.toNat % 2 ^ 12 := by
  have hlow : (v &&& 0xFFF).toNat = v.toNat % 2 ^ 12 := by
    simpa using Bits.toNat_and_low v (k := 12) (by omega)
  exact Bits.toNat_or_of_parts (k := 12) (toNat_and_base pte) hlow

/-! ## The walk below each level -/

variable (h p) in
/-- The part of `v2p_pae` below an entry of the page directory. -/
def belowPgd (vaddr pgd : U64) : U64 :=
  let pte := getPtePae h p vaddr pgd
  if entryPresent pte then getPaddrPae vaddr pte else 0

variable (h p) in
/-- The part of `v2p_pae` below an entry of the page directory pointer table. -/
def belowPdpe (vaddr pdpe : U64) : U64 :=
  let pgd := getPgdPae h p vaddr pdpe
  if entryPresent pgd then
    if pageSizeFlag pgd then 0 else belowPgd h p vaddr pgd
  else 0

variable (h p) in
/-- The part of `v2p_pae` below an entry of the first table. -/
def belowPml4e (vaddr pml4e : U64) : U64 :=
  let pdpe := getPdpi h p vaddr pml4e
  if !entryPresent pdpe then 0
  else if pageSizeFlag pdpe then 0
  else belowPdpe h p vaddr pdpe

theorem v2pPae_eq (readVirt : U64 → Option U64) (cr3 v : U64) (k : Bool) :
    v2pPae h p readVirt cr3 v k =
      if !entryPresent (getPml4i h p readVirt v cr3 k) then 0
      else belowPml4e h p v (getPml4i h p readVirt v cr3 k) := rfl

section

variable (hmem : GuestMemory h p mem) {v : U64} {target : Option (Nat × Nat)}
include hmem

theorem belowPgd_eq {pgd : U64}
    (hwalk : longMode.walk mem v.toNat 0 (entryBase pgd) = some target) :
    (belowPgd h p v pgd).toNat = smallTarget target := by
  obtain ⟨pte, hread⟩ := Format.walk_readable hwalk
  rw [Format.walk_zero hread] at hwalk
  have hpte : getPtePae h p v pgd = pte :=
    congrArg (Option.getD · _) (readBelow hmem rfl hread)
  simp only [belowPgd, hpte, entryPresent_eq]
  cases hpresent : pte.getLsbD 0 with
  | false =>
    rw [decode_absent hpresent] at hwalk
    cases hwalk
    rfl
  | true =>
    rw [decode_page hpresent] at hwalk
    cases hwalk
    exact getPaddrPae_toNat v pte

theorem belowPdpe_eq {pdpe : U64}
    (hwalk : longMode.walk mem v.toNat 1 (entryBase pdpe) = some target) :
    (belowPdpe h p v pdpe).toNat = smallTarget target := by
  obtain ⟨pgd, hread⟩ := Format.walk_readable hwalk
  rw [Format.walk_succ hread] at hwalk
  have hpgd : getPgdPae h p v pdpe = pgd :=
    congrArg (Option.getD · _) (readBelow hmem rfl hread)
  simp only [belowPdpe, hpgd, entryPresent_eq, pageSizeFlag_eq]
  cases hpresent : pgd.getLsbD 0 with
  | false =>
    rw [decode_absent hpresent] at hwalk
    cases hwalk
    rfl
  | true =>
    cases hlarge : pgd.getLsbD 7 with
    | true =>
      rw [decode_large hpresent hlarge (by decide)] at hwalk
      cases hwalk
      rfl
    | false =>
      rw [decode_table hpresent hlarge] at hwalk
      exact belowPgd_eq hmem hwalk

theorem belowPml4e_eq {pml4e : U64}
    (hwalk : longMode.walk mem v.toNat 2 (entryBase pml4e) = some target) :
    (belowPml4e h p v pml4e).toNat = smallTarget target := by
  obtain ⟨pdpe, hread⟩ := Format.walk_readable hwalk
  rw [Format.walk_succ hread] at hwalk
  have hpdpe : getPdpi h p v pml4e = pdpe :=
    congrArg (Option.getD · _) (readBelow hmem rfl hread)
  simp only [belowPml4e, hpdpe, entryPresent_eq, pageSizeFlag_eq]
  cases hpresent : pdpe.getLsbD 0 with
  | false =>
    rw [decode_absent hpresent] at hwalk
    cases hwalk
    rfl
  | true =>
    cases hlarge : pdpe.getLsbD 7 with
    | true =>
      rw [decode_large hpresent hlarge (by decide)] at hwalk
      cases hwalk
      rfl
    | false =>
      rw [decode_table hpresent hlarge] at hwalk
      exact belowPdpe_eq hmem hwalk

/-- The lookup gives the address of the format for pages of 4 KiB. -/
theorem v2pPae_eq_walk {readVirt : U64 → Option U64} {cr3 : U64}
    (hwalk : longMode.walk mem v.toNat 3 (cr3.toNat / 4096 * 4096) = some target) :
    (v2pPae h p readVirt cr3 v true).toNat = smallTarget target := by
  obtain ⟨pml4e, hread⟩ := Format.walk_readable hwalk
  rw [Format.walk_succ hread] at hwalk
  have hroot : (getPml4tb cr3).toNat = cr3.toNat / 4096 * 4096 := toNat_and_root cr3
  have hmod : (getPml4tb cr3).toNat % 4096 = 0 := by rw [hroot, Nat.mul_mod_left]
  rw [← hroot] at hread
  have hspan : longMode.span 3 = 39 := rfl
  have hmach : xaReadLongLongMach h p (getPml4tb cr3 + pml4iIndex v) = some pml4e := by
    rw [pml4iIndex]
    exact readSlot hmem hmod hspan hread
  have hpml4e : getPml4i h p readVirt v cr3 true = pml4e := by
    simp only [getPml4i, if_true, hmach, Option.getD_some]
  rw [v2pPae_eq, hpml4e, entryPresent_eq]
  cases hpresent : pml4e.getLsbD 0 with
  | false =>
    rw [decode_absent hpresent] at hwalk
    cases hwalk
    rfl
  | true =>
    rw [decode_first hpresent] at hwalk
    simp only [Bool.not_true, Bool.false_eq_true, if_false]
    exact belowPml4e_eq hmem hwalk

end

/-! ## Exactness -/

theorem smallTarget_eq_iff (v : U64) (target : Option (Nat × Nat)) :
    smallTarget target = expectedTarget v target ↔
      ∀ level address, target = some (level, address) → address ≠ 0 →
        (level = 0 ↔ Canonical v) := by
  rw [expectedTarget]
  cases target with
  | none => simp [smallTarget]
  | some place =>
    obtain ⟨level, address⟩ := place
    simp only [Option.some.injEq, Prod.mk.injEq, Option.map_some, Option.getD_some]
    constructor
    · rintro heq _ _ ⟨rfl, rfl⟩ hne
      cases level with
      | zero =>
        split at heq
        · rename_i hcanonical
          exact iff_of_true rfl hcanonical
        · exact absurd heq hne
      | succ level =>
        split at heq
        · exact absurd heq.symm hne
        · rename_i hcanonical
          exact iff_of_false (by omega) hcanonical
    · intro hall
      by_cases hzero : address = 0
      · subst hzero
        cases level with
        | zero => simp [smallTarget]
        | succ level => simp [smallTarget]
      · have hlevel := hall level address ⟨rfl, rfl⟩ hzero
        cases level with
        | zero => rw [if_pos (hlevel.mp rfl), smallTarget]
        | succ level =>
          rw [if_neg (fun hcanonical => absurd (hlevel.mpr hcanonical) (by omega))]
          rfl

/-- **When a lookup for the kernel is exact.** For a hierarchy whose tables can be read, the lookup
gives the address of the format exactly if the address is canonical and on a page of 4 KiB, or
neither of them, or not mapped to anything but the address 0. -/
theorem xaPagetableLookup_long_exact (h : Host) (p : Params) (mem : Nat → Option U64)
    (hmem : GuestMemory h p mem) (cr3 v : U64) (target : Option (Nat × Nat))
    (hwalk : longMode.walk mem v.toNat 3 (cr3.toNat / 4096 * 4096) = some target) :
    (xaPagetableLookup h p cr3 v true).toNat = expectedTarget v target ↔
      ∀ level address, target = some (level, address) → address ≠ 0 →
        (level = 0 ↔ Canonical v) := by
  rw [xaPagetableLookup, v2pPae_eq_walk hmem hwalk]
  exact smallTarget_eq_iff v target

/-- What the library reads, as a memory with numbers of any size. -/
def readMemory (h : Host) (p : Params) (address : Nat) : Option U64 :=
  xaReadLongLongMach h p (BitVec.ofNat 64 address)

theorem guestMemory_readMemory : GuestMemory h p (readMemory h p) := by
  intro a _
  rw [readMemory, BitVec.ofNat_toNat, BitVec.setWidth_eq]

/-- A guest whose memory is given by its 64-bit words, and `0` elsewhere. -/
def longHost (words : List (U64 × U64)) : Host where
  xcMapForeignRange _ mfn := some fun d =>
    let address := (mfn <<< 12) + d.setWidth 64
    (((words.lookup (address &&& 0xFFFFFFFFFFFFFFF8)).getD 0) >>> (8 * (address &&& 7))).setWidth 8
  mmap _ _ := none
  xcVcpuGetcontext := some 0x1000
  uninitLongLong := 0

/-- A Linux guest with four levels of tables for a page of its kernel, and a large page behind
it. -/
def longWords : List (U64 × U64) :=
  [(0x1810, 0x2001), (0x2000, 0x3001), (0x3000, 0x4001), (0x4028, 0x5001), (0x3008, 0x200081)]

def longParams : Params where
  mode := .xen
  pageOffset := 0xFFFF810000000000
  pageShift := 12
  pageSize := 4096
  kpgd := 0
  initTask := 0xFFFF810000005200
  tasksOffset := 0x60
  mmOffset := 0x78
  pidOffset := 0x9C
  pgdOffset := 0x40
  size := 0

theorem longHost_exact :
    (xaPagetableLookup (longHost longWords) longParams 0x1000 0xFFFF810000005018 true).toNat =
      expectedTarget 0xFFFF810000005018 (some (0, 0x5018)) :=
  (xaPagetableLookup_long_exact (longHost longWords) longParams _ guestMemory_readMemory 0x1000
    0xFFFF810000005018 (some (0, 0x5018)) (by decide)).mpr (by
      rintro level address ⟨⟩ -
      decide)

/-- The large page is not found. -/
example : xaPagetableLookup (longHost longWords) longParams 0x1000 0xFFFF810000200000 true = 0 ∧
    longMode.walk (readMemory (longHost longWords) longParams) 0xFFFF810000200000 3 0x1000 =
      some (some (1, 0x200000)) := by decide

/-! ## Pages -/

section

variable {u v : U64}

theorem pml4iIndex_congr (huv : SamePage 12 u v) : pml4iIndex u = pml4iIndex v := by
  rw [pml4iIndex, pml4iIndex, huv.ushiftRight (by omega)]

theorem getPml4i_congr (huv : SamePage 12 u v) (readVirt : U64 → Option U64) (cr3 : U64)
    (k : Bool) : getPml4i h p readVirt u cr3 k = getPml4i h p readVirt v cr3 k := by
  simp only [getPml4i, pml4iIndex_congr huv]

theorem getPdpi_congr (huv : SamePage 12 u v) (pml4e : U64) :
    getPdpi h p u pml4e = getPdpi h p v pml4e := by
  simp only [getPdpi, pdpiIndex, huv.ushiftRight (n := 30) (by omega)]

theorem getPgdPae_congr (huv : SamePage 12 u v) (pdpe : U64) :
    getPgdPae h p u pdpe = getPgdPae h p v pdpe := by
  simp only [getPgdPae, pgdIndex, huv.ushiftRight (n := 21) (by omega)]

theorem getPtePae_congr (huv : SamePage 12 u v) (pgd : U64) :
    getPtePae h p u pgd = getPtePae h p v pgd := by
  simp only [getPtePae, pteIndex, huv.ushiftRight (n := 12) (by omega)]

/-- Two addresses of one page have no translation, or the same entry of a page table. -/
theorem v2pPae_samePage (huv : SamePage 12 u v) (readVirt : U64 → Option U64) (cr3 : U64)
    (k : Bool) : (v2pPae h p readVirt cr3 u k = 0 ∧ v2pPae h p readVirt cr3 v k = 0) ∨
      ∃ pte, v2pPae h p readVirt cr3 u k = getPaddrPae u pte ∧
        v2pPae h p readVirt cr3 v k = getPaddrPae v pte := by
  simp only [v2pPae_eq, belowPml4e, belowPdpe, belowPgd, getPml4i_congr huv, getPdpi_congr huv,
    getPgdPae_congr huv, getPtePae_congr huv]
  split
  · exact Or.inl ⟨rfl, rfl⟩
  split
  · exact Or.inl ⟨rfl, rfl⟩
  split
  · exact Or.inl ⟨rfl, rfl⟩
  split
  · split
    · exact Or.inl ⟨rfl, rfl⟩
    split
    · exact Or.inr ⟨_, rfl, rfl⟩
    · exact Or.inl ⟨rfl, rfl⟩
  · exact Or.inl ⟨rfl, rfl⟩

/-- The frame found for one address of a page serves all of them. -/
theorem v2pPae_frame (huv : SamePage 12 u v) {readVirt : U64 → Option U64} {cr3 : U64} {k : Bool}
    (hne : v2pPae h p readVirt cr3 u k ≠ 0) :
    (v2pPae h p readVirt cr3 u k).toNat % 4096 = u.toNat % 4096 ∧
      (v2pPae h p readVirt cr3 v k).toNat =
        (v2pPae h p readVirt cr3 u k).toNat / 4096 * 4096 + v.toNat % 4096 := by
  rcases v2pPae_samePage huv readVirt cr3 k with ⟨hu, -⟩ | ⟨pte, hu, hv⟩
  · exact absurd hu hne
  · have hmod := entryBase_mod pte
    rw [hu, hv, getPaddrPae_toNat, getPaddrPae_toNat]
    omega

end

/-! ## The root of a process -/

theorem getPml4tb_toNat (x : U64) : (getPml4tb x).toNat = x.toNat / 4096 * 4096 := toNat_and_root x

/-- The entries of the first table lie in its page. -/
theorem rootEntry_toNat (x v : U64) :
    (getPml4tb x + pml4iIndex v).toNat = x.toNat / 4096 * 4096 + (pml4iIndex v).toNat ∧
      (pml4iIndex v).toNat < 4096 := by
  have hindex : (pml4iIndex v).toNat = v.toNat / 2 ^ 39 % 512 * 8 := tableIndex_toNat v 39
  have hlt := x.isLt
  rw [BitVec.toNat_add, getPml4tb_toNat]
  omega

/-- The entries of the first table of a process, by machine address. -/
theorem xaTranslateKv2p_rootEntry {root pgd : U64}
    (hroot : xaTranslateKv2p h p (getPml4tb pgd) = root) (hne : root ≠ 0) (v : U64) :
    xaTranslateKv2p h p (getPml4tb pgd + pml4iIndex v) = getPml4tb root + pml4iIndex v ∧
      getPml4tb root + pml4iIndex v ≠ 0 := by
  obtain ⟨hentry, hindex⟩ := rootEntry_toNat pgd v
  obtain ⟨hentry', -⟩ := rootEntry_toNat root v
  have hbase := getPml4tb_toNat pgd
  have hsame : SamePage 12 (getPml4tb pgd) (getPml4tb pgd + pml4iIndex v) := by
    rw [SamePage, hentry, hbase]
    omega
  subst hroot
  obtain ⟨hmod, hframe⟩ := v2pPae_frame hsame hne
  constructor
  · apply BitVec.eq_of_toNat_eq
    rw [hentry', xaTranslateKv2p, hframe, hentry, ← xaTranslateKv2p]
    omega
  · intro hzero
    have hsum := congrArg BitVec.toNat hzero
    have hpos : (xaTranslateKv2p h p (getPml4tb pgd)).toNat ≠ 0 := fun hnone =>
      hne (BitVec.eq_of_toNat_eq hnone)
    rw [hentry'] at hsum
    rw [← xaTranslateKv2p] at hmod
    have hsum' : (xaTranslateKv2p h p (getPml4tb pgd)).toNat / 4096 * 4096 +
        (pml4iIndex v).toNat = 0 := hsum
    omega

/-- **Lookups for a process.** The root of a process is an address of the kernel. When it is mapped,
lookups go through the tables at the machine address that it is mapped to. -/
theorem xaPagetableLookup_process {root pgd : U64}
    (hroot : xaTranslateKv2p h p (getPml4tb pgd) = root) (hne : root ≠ 0) (v : U64) :
    xaPagetableLookup h p pgd v false = xaPagetableLookup h p root v true := by
  obtain ⟨haddress, hnonzero⟩ := xaTranslateKv2p_rootEntry hroot hne v
  have hpml4i : getPml4i h p (xaReadLongKernel h p) v pgd false =
      getPml4i h p (xaReadLongKernel h p) v root true := by
    simp only [getPml4i, if_true, Bool.false_eq_true, if_false]
    rw [xaReadLongKernel, xaAccessKernelVa, haddress, accessTranslated, if_neg hnonzero]
    rfl
  rw [xaPagetableLookup, xaPagetableLookup, v2pPae_eq, v2pPae_eq, hpml4i]

/-! ## Reads -/

/-- The byte at a machine address. -/
def machByte (h : Host) (p : Params) (address : Nat) : Option U8 :=
  (xaMmapMfn h p protRead (BitVec.ofNat 64 (address / 4096))).map fun memory =>
    memory (BitVec.ofNat 32 (address % 4096))

/-- The 64-bit value at a machine address. -/
def MachU64 (h : Host) (p : Params) (address : Nat) (value : U64) : Prop :=
  ∀ i < 8, machByte h p (address + i) = some (value.extractLsb' (8 * i) 8)

instance (address : Nat) (value : U64) : Decidable (MachU64 h p address value) :=
  inferInstanceAs (Decidable (∀ i < 8, _ = _))

section

variable (hps : p.pageSize = 4096) (hshift : p.pageShift = 12)
include hps hshift

theorem xaAccessMa_eq (m : U64) : xaAccessMa h p m protRead =
    (xaMmapMfn h p protRead (BitVec.ofNat 64 (m.toNat / 4096))).map fun memory =>
      ⟨memory, BitVec.ofNat 32 (m.toNat % 4096)⟩ := by
  have hframe : m >>> p.pageShift = BitVec.ofNat 64 (m.toNat / 4096) := by
    apply BitVec.eq_of_toNat_eq
    have hlt := m.isLt
    rw [hshift, BitVec.toNat_ofNat]
    simp [Nat.shiftRight_eq_div_pow]
    omega
  have hoffset : ((p.pageSize - 1).setWidth 64 &&& m).setWidth 32 =
      BitVec.ofNat 32 (m.toNat % 4096) := by
    apply BitVec.eq_of_toNat_eq
    have hmask : ((4096 : U32) - 1).setWidth 64 = (0xFFF : U64) := by decide
    have hlow : (m &&& 0xFFF).toNat = m.toNat % 4096 := by
      simpa using Bits.toNat_and_low m (k := 12) (by omega)
    rw [hps, hmask, BitVec.and_comm, BitVec.toNat_setWidth, hlow, BitVec.toNat_ofNat]
  rw [xaAccessMa, hframe, hoffset]

/-- A 64-bit read in a page is right, and fails if one of the bytes is missing. -/
theorem xaReadLongLongMach_iff {m : U64} (hroom : m.toNat % 4096 + 8 ≤ 4096) (value : U64) :
    xaReadLongLongMach h p m = some value ↔ MachU64 h p m.toNat value := by
  have hbyte (i : Nat) (hi : i < 8) : machByte h p (m.toNat + i) =
      (xaMmapMfn h p protRead (BitVec.ofNat 64 (m.toNat / 4096))).map fun memory =>
        memory (BitVec.ofNat 32 (m.toNat % 4096) + BitVec.ofNat 32 i) := by
    have hframe : (m.toNat + i) / 4096 = m.toNat / 4096 := by omega
    have hoffset : (m.toNat + i) % 4096 = m.toNat % 4096 + i := by omega
    rw [machByte, hframe, hoffset, BitVec.ofNat_add]
  rw [xaReadLongLongMach, xaAccessMa_eq hps hshift, Option.map_map]
  cases hmap : xaMmapMfn h p protRead (BitVec.ofNat 64 (m.toNat / 4096)) with
  | none =>
    rw [hmap] at hbyte
    constructor
    · intro hsome
      cases hsome
    · intro hall
      cases (hbyte 0 (by decide)).symm.trans (hall 0 (by decide))
  | some memory =>
    rw [hmap] at hbyte
    have hvalue (i : Nat) (hi : i < 8) := Traced.longLong_littleEndian memory
      (BitVec.ofNat 32 (m.toNat % 4096)) i hi
    rw [Option.map_some, Option.some.injEq]
    constructor
    · rintro rfl i hi
      rw [hbyte i hi, Option.map_some, ← hvalue i hi]
      rfl
    · intro hall
      apply eq_of_bytes (n := 8)
      intro i hi
      have heq := (hbyte i hi).symm.trans (hall i hi)
      rw [Option.map_some, Option.some.injEq, ← hvalue i hi] at heq
      exact heq

/-- A read through a translation: what stands at the address for a page of 4 KiB. -/
theorem accessTranslated_iff {m v : U64} {target : Option (Nat × Nat)}
    (htarget : m.toNat = smallTarget target) (hroom : m ≠ 0 → m.toNat % 4096 = v.toNat % 4096)
    (hv : v.toNat % 4096 + 8 ≤ 4096) (value : U64) :
    (accessTranslated h p m protRead).map Access.longLong = some value ↔
      ∃ address, target = some (0, address) ∧ address ≠ 0 ∧ MachU64 h p address value := by
  rw [accessTranslated]
  by_cases hzero : m = 0
  · rw [if_pos hzero, Option.map_none]
    constructor
    · intro hnone
      cases hnone
    · rintro ⟨address, rfl, hne, -⟩
      rw [hzero] at htarget
      exact absurd htarget.symm hne
  · have hmod := hroom hzero
    have hin : m.toNat % 4096 + 8 ≤ 4096 := by omega
    have hread := xaReadLongLongMach_iff (h := h) hps hshift hin value
    rw [if_neg hzero]
    refine hread.trans ?_
    constructor
    · intro hvalue
      cases target with
      | none => exact absurd (BitVec.eq_of_toNat_eq htarget) hzero
      | some place =>
        obtain ⟨level, address⟩ := place
        cases level with
        | succ level => exact absurd (BitVec.eq_of_toNat_eq htarget) hzero
        | zero =>
          have haddress : m.toNat = address := htarget
          refine ⟨address, rfl, ?_, haddress ▸ hvalue⟩
          rintro rfl
          exact hzero (BitVec.eq_of_toNat_eq haddress)
    · rintro ⟨address, rfl, -, hvalue⟩
      have haddress : m.toNat = address := htarget
      rwa [haddress]

end

/-- A lookup keeps the displacement in the page. -/
theorem xaPagetableLookup_mod {cr3 v : U64} {k : Bool} (hne : xaPagetableLookup h p cr3 v k ≠ 0) :
    (xaPagetableLookup h p cr3 v k).toNat % 4096 = v.toNat % 4096 :=
  (v2pPae_frame (show SamePage 12 v v from rfl) hne).1

/-- **What is read from the memory of a process.** Let the tables of a process be readable, from the
machine address that its root is mapped to. A read of 64 bits that stay in a page returns exactly
what stands at the address of the format, when that is on a page of 4 KiB. It returns nothing for
an address that is not mapped, and for one on a larger page. -/
theorem processMemory_long (h : Host) (p : Params) (hps : p.pageSize = 4096)
    (hshift : p.pageShift = 12) (mem : Nat → Option U64) (hmem : GuestMemory h p mem) (fuel : Nat)
    (pid : U32) (hpid : pid ≠ 0) (pgd root : U64) (hpgd : linuxPidToPgd h p fuel pid = .ok pgd)
    (hne : pgd ≠ 0) (hroot : xaTranslateKv2p h p (getPml4tb pgd) = root) (hmapped : root ≠ 0)
    (v : U64) (hv : v.toNat % 4096 + 8 ≤ 4096) (target : Option (Nat × Nat))
    (hwalk : longMode.walk mem v.toNat 3 (root.toNat / 4096 * 4096) = some target) :
    ∃ r, xaReadLongVirt h p fuel v pid = .ok r ∧ ∀ value, r = some value ↔
      ∃ address, target = some (0, address) ∧ address ≠ 0 ∧ MachU64 h p address value := by
  have hlookup := xaPagetableLookup_process hroot hmapped v
  have htarget : (xaPagetableLookup h p pgd v false).toNat = smallTarget target := by
    rw [hlookup, xaPagetableLookup]
    exact v2pPae_eq_walk hmem hwalk
  refine ⟨(accessTranslated h p (xaPagetableLookup h p pgd v false) protRead).map Access.longLong,
    ?_, fun value => accessTranslated_iff hps hshift htarget xaPagetableLookup_mod hv value⟩
  rw [xaReadLongVirt, xaAccessUserVa, if_neg hpid, hpgd]
  simp only [Except.map, if_neg hne]

/-- The guest with a process that has its own tables, and a program header in its memory. -/
def processWords : List (U64 × U64) :=
  longWords ++ [(0x5260, 0xFFFF810000005800), (0x5298, 0x100000000), (0x5278, 0xFFFF810000005400),
    (0x5440, 0xFFFF810000006000), (0x4030, 0x6001), (0x6000, 0x7001), (0x7000, 0x8001),
    (0x8010, 0x9001), (0x9000, 0xA001), (0xA000, 0x00010102464C457F)]

def processParams : Params := { longParams with initTask := 0xFFFF810000005260 }

theorem longHost_processMemory :
    ∃ r, xaReadLongVirt (longHost processWords) processParams 1 0x400000 1 = .ok r ∧
      ∀ value, r = some value ↔ ∃ address, some (0, 0xA000) = some (0, address) ∧ address ≠ 0 ∧
        MachU64 (longHost processWords) processParams address value :=
  processMemory_long (longHost processWords) processParams rfl rfl _ guestMemory_readMemory 1 1
    (by decide) 0xFFFF810000006000 0x6000 (by decide) (by decide) (by decide) (by decide) 0x400000
    (by decide) (some (0, 0xA000)) (by decide)

end XenAccess.X8664
