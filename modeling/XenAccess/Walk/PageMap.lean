import XenAccess.Model.PageTable
import XenAccess.Lib.Paging

/-!
# A page table walk is a page map

Both walks of `xa_memory.c`, with their masks and truncations, act page by page:
`xaPagetableLookup_translates` gives for every root the partial map from page numbers to
frame numbers that the lookup computes. Nothing is assumed about the tables; a frame that
cannot be mapped counts with the value its read leaves behind.
-/

namespace XenAccess

open Paging

variable (h : Host) (p : XaParams)

/-! ## Masks -/

theorem toNat_and_fff (x : U32) : (x &&& 0xFFF).toNat = x.toNat % 4096 := by
  simpa using Bits.toNat_and_low x (k := 12) (by omega)

theorem toNat_and_fffff000 (x : U32) : (x &&& 0xFFFFF000).toNat = x.toNat / 4096 * 4096 := by
  simpa using Bits.toNat_and_high x (k := 12) (by omega)

theorem toNat_and_ffffffe0 (x : U32) : (x &&& 0xFFFFFFE0).toNat = x.toNat / 32 * 32 := by
  simpa using Bits.toNat_and_high x (k := 5) (by omega)

theorem toNat_and_ffffff000 (x : U64) :
    (x &&& 0xFFFFFF000).toNat = x.toNat / 4096 % 2 ^ 24 * 4096 := by
  simpa using Bits.toNat_and_field x (k := 12) (n := 36) (by omega) (by omega)

variable {p} in
/-- The frame of an address. -/
theorem frame_eq_ofNat (hshift : p.pageShift = 12) (a : U32) :
    a >>> p.pageShift = BitVec.ofNat 32 (a.toNat / 4096) := by
  apply BitVec.eq_of_toNat_eq
  rw [hshift]
  simp [Nat.shiftRight_eq_div_pow]
  omega

variable {p} in
/-- The offset of an address in its frame. -/
theorem offset_eq_ofNat (hsize : p.pageSize = 4096) (a : U32) :
    (p.pageSize - 1) &&& a = BitVec.ofNat 32 (a.toNat % 4096) := by
  apply BitVec.eq_of_toNat_eq
  have hmask : (4096 : U32) - 1 = 0xFFF := by decide
  rw [hsize, hmask, BitVec.and_comm, toNat_and_fff, BitVec.toNat_ofNat]
  omega

theorem getPaddrNopae_toNat (v pte : U32) :
    (getPaddrNopae v pte).toNat = pte.toNat / 4096 * 4096 + v.toNat % 4096 := by
  rw [getPaddrNopae, ptePfnNopae]
  exact Bits.toNat_or_of_parts (k := 12) (toNat_and_fffff000 pte) (toNat_and_fff v)

theorem getPaddrPae_toNat (v : U32) (pte : U64) :
    (getPaddrPae v pte).toNat = pte.toNat / 4096 % 2 ^ 24 * 4096 + v.toNat % 4096 := by
  have hv : ((v &&& 0xFFF).setWidth 64).toNat = v.toNat % 4096 := by
    rw [BitVec.toNat_setWidth, toNat_and_fff]
    omega
  rw [getPaddrPae, ptePfnPae]
  exact Bits.toNat_or_of_parts (k := 12) (toNat_and_ffffff000 pte) hv

theorem getLargePaddr_toNat_nopae (hpae : p.pae = false) (v pgd : U32) :
    (getLargePaddr p v pgd).toNat = pgd.toNat / 2 ^ 22 * 2 ^ 22 + v.toNat % 2 ^ 22 := by
  have hlow : (v &&& 0x3FFFFF).toNat = v.toNat % 2 ^ 22 := by
    simpa using Bits.toNat_and_low v (k := 22) (by omega)
  have hhigh : (pgd &&& 0xFFC00000).toNat = pgd.toNat / 2 ^ 22 * 2 ^ 22 := by
    simpa using Bits.toNat_and_high pgd (k := 22) (by omega)
  simp only [getLargePaddr, hpae, Bool.not_false, if_true]
  exact Bits.toNat_or_of_parts hhigh hlow

theorem getLargePaddr_toNat_pae (hpae : p.pae = true) (v pgd : U32) :
    (getLargePaddr p v pgd).toNat = pgd.toNat / 2 ^ 21 * 2 ^ 21 + v.toNat % 2 ^ 21 := by
  have hlow : (v &&& 0x1FFFFF).toNat = v.toNat % 2 ^ 21 := by
    simpa using Bits.toNat_and_low v (k := 21) (by omega)
  have hhigh : (pgd &&& 0xFFE00000).toNat = pgd.toNat / 2 ^ 21 * 2 ^ 21 := by
    simpa using Bits.toNat_and_high pgd (k := 21) (by omega)
  simp only [getLargePaddr, hpae, Bool.not_true, Bool.false_eq_true, if_false]
  exact Bits.toNat_or_of_parts hhigh hlow

/-! ## Table indices -/

theorem pdpiIndex_congr {u v : U32} (huv : SamePage 12 u v) : pdpiIndex u = pdpiIndex v := by
  rw [pdpiIndex, pdpiIndex, huv.ushiftRight (by omega)]

theorem pgdIndex_congr {u v : U32} (huv : SamePage 12 u v) : pgdIndex p u = pgdIndex p v := by
  rw [pgdIndex, pgdIndex, huv.ushiftRight (n := 21) (by omega),
    huv.ushiftRight (n := 22) (by omega)]

theorem pteIndex_congr {u v : U32} (huv : SamePage 12 u v) : pteIndex p u = pteIndex p v := by
  rw [pteIndex, pteIndex, huv.ushiftRight (n := 12) (by omega)]

theorem getPdpi_congr {u v : U32} (huv : SamePage 12 u v) (cr3 : U32) :
    getPdpi h p u cr3 = getPdpi h p v cr3 := by
  simp only [getPdpi, pdpiIndex_congr huv]

theorem getPgdNopae_congr {u v : U32} (huv : SamePage 12 u v) (pdpe : U32) :
    getPgdNopae h p u pdpe = getPgdNopae h p v pdpe := by
  simp only [getPgdNopae, pgdIndex_congr p huv]

theorem getPgdPae_congr {u v : U32} (huv : SamePage 12 u v) (pdpe : U64) :
    getPgdPae h p u pdpe = getPgdPae h p v pdpe := by
  simp only [getPgdPae, pgdIndex_congr p huv]

theorem getPteNopae_congr {u v : U32} (huv : SamePage 12 u v) (pgd : U32) :
    getPteNopae h p u pgd = getPteNopae h p v pgd := by
  simp only [getPteNopae, pteIndex_congr p huv]

theorem getPtePae_congr {u v : U32} (huv : SamePage 12 u v) (pgd : U64) :
    getPtePae h p u pgd = getPtePae h p v pgd := by
  simp only [getPtePae, pteIndex_congr p huv]

/-! ## The frame of a page -/

/-- Frame number found by the walk without PAE, `none` when an entry is not present. -/
def nopaeFrame (cr3 v : U32) : Option Nat :=
  let pgd := getPgdNopae h p v cr3
  if entryPresent pgd then
    if pageSizeFlag pgd then some (pgd.toNat / 2 ^ 22 * 1024 + v.toNat / 4096 % 1024)
    else
      let pte := getPteNopae h p v pgd
      if entryPresent pte then some (pte.toNat / 4096) else none
  else none

/-- Frame number found by the walk with PAE, as far as its 32-bit results hold it. -/
def paeFrame (cr3 v : U32) : Option Nat :=
  let pdpe := getPdpi h p v cr3
  if !entryPresent (pdpe.setWidth 32) then none
  else
    let pgd := getPgdPae h p v pdpe
    if entryPresent (pgd.setWidth 32) then
      if pageSizeFlag (pgd.setWidth 32) then
        some ((pgd.setWidth 32).toNat / 2 ^ 21 * 512 + v.toNat / 4096 % 512)
      else
        let pte := getPtePae h p v pgd
        if entryPresent (pte.setWidth 32) then some (pte.toNat / 4096 % 2 ^ 20) else none
    else none

theorem nopaeFrame_congr {u v : U32} (huv : SamePage 12 u v) (cr3 : U32) :
    nopaeFrame h p cr3 u = nopaeFrame h p cr3 v := by
  have hdiv : u.toNat / 4096 = v.toNat / 4096 := huv
  simp only [nopaeFrame, getPgdNopae_congr h p huv, getPteNopae_congr h p huv, hdiv]

theorem paeFrame_congr {u v : U32} (huv : SamePage 12 u v) (cr3 : U32) :
    paeFrame h p cr3 u = paeFrame h p cr3 v := by
  have hdiv : u.toNat / 4096 = v.toNat / 4096 := huv
  simp only [paeFrame, getPdpi_congr h p huv, getPgdPae_congr h p huv, getPtePae_congr h p huv,
    hdiv]

theorem v2pNopae_toNat (hpae : p.pae = false) (cr3 v : U32) :
    (v2pNopae h p cr3 v).toNat = match nopaeFrame h p cr3 v with
      | none => 0
      | some q => q * 2 ^ 12 + v.toNat % 2 ^ 12 := by
  simp only [v2pNopae, v2pNopaeBody, nopaeFrame]
  split_ifs
  · simp only [getLargePaddr_toNat_nopae p hpae]
    omega
  · simp only [getPaddrNopae_toNat]
    omega
  · rfl
  · rfl

theorem v2pPae_toNat (hpae : p.pae = true) (cr3 v : U32) :
    (v2pPae h p cr3 v).toNat = match paeFrame h p cr3 v with
      | none => 0
      | some q => q * 2 ^ 12 + v.toNat % 2 ^ 12 := by
  simp only [v2pPae, v2pPaeBody, paeFrame]
  split_ifs
  · rfl
  · simp only [getLargePaddr_toNat_pae p hpae]
    omega
  · simp only [BitVec.toNat_setWidth, getPaddrPae_toNat]
    omega
  · rfl
  · rfl

/-! ## The page map of a root -/

/-- The partial map from page numbers to frame numbers that the tables at `cr3` define. -/
def pageMap (cr3 : U32) (page : Nat) : Option Nat :=
  let v := BitVec.ofNat 32 (page * 2 ^ 12)
  if p.pae then paeFrame h p cr3 v else nopaeFrame h p cr3 v

/-- **The walk is a page map.** -/
theorem xaPagetableLookup_translates (cr3 : U32) :
    Translates 12 (pageMap h p cr3) (xaPagetableLookup h p cr3) := by
  cases hpae : p.pae with
  | false =>
    have hlookup : xaPagetableLookup h p cr3 = v2pNopae h p cr3 := by
      funext v
      simp [xaPagetableLookup, hpae]
    have hmap : pageMap h p cr3 = fun n => nopaeFrame h p cr3 (BitVec.ofNat 32 (n * 2 ^ 12)) := by
      funext n
      simp [pageMap, hpae]
    rw [hlookup, hmap]
    exact translates_of_frame (fun u v huv => nopaeFrame_congr h p huv cr3)
      (v2pNopae_toNat h p hpae cr3)
  | true =>
    have hlookup : xaPagetableLookup h p cr3 = v2pPae h p cr3 := by
      funext v
      simp [xaPagetableLookup, hpae]
    have hmap : pageMap h p cr3 = fun n => paeFrame h p cr3 (BitVec.ofNat 32 (n * 2 ^ 12)) := by
      funext n
      simp [pageMap, hpae]
    rw [hlookup, hmap]
    exact translates_of_frame (fun u v huv => paeFrame_congr h p huv cr3)
      (v2pPae_toNat h p hpae cr3)

end XenAccess
