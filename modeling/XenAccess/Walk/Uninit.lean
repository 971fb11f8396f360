import XenAccess.Walk.Pae

/-!
# Tables that cannot be mapped

The five readers of table entries do not look at the status of the read, and return a local
that a failed read has not written. Here a lookup is run with the contents of these locals
as an argument (`Stack`), one for each reader; a lookup calls each of them at most once.
`xaPagetableLookup` of the model is the lookup on the contents that the host gives.

`checkedLookup` is the lookup that stops when a read fails. On a walk whose tables can all
be mapped the two agree whatever the stack holds. On every other walk some stack makes the
lookup return an address that nobody wrote.
-/

namespace XenAccess

variable (h : Host) (p : XaParams)

/-! ## Lookups on a stack -/

/-- The contents of the local of each reader before it is called. -/
structure Stack where
  pdpi : U64
  pgdNopae : U32
  pgdPae : U64
  pteNopae : U32
  ptePae : U64

/-- The host with given contents of an uninitialised `uint32_t`. -/
def Host.withLong (value : U32) : Host := { h with uninitLong := value }

/-- The host with given contents of an uninitialised `uint64_t`. -/
def Host.withLongLong (value : U64) : Host := { h with uninitLongLong := value }

/-- `v2p_nopae` on a stack. -/
def v2pNopaeOn (st : Stack) (cr3 vaddr : U32) : U32 :=
  v2pNopaeBody p (getPgdNopae (h.withLong st.pgdNopae) p) (getPteNopae (h.withLong st.pteNopae) p)
    cr3 vaddr

/-- `v2p_pae` on a stack. -/
def v2pPaeOn (st : Stack) (cr3 vaddr : U32) : U32 :=
  v2pPaeBody p (getPdpi (h.withLongLong st.pdpi) p) (getPgdPae (h.withLongLong st.pgdPae) p)
    (getPtePae (h.withLongLong st.ptePae) p) cr3 vaddr

/-- `xa_pagetable_lookup` on a stack. -/
def xaPagetableLookupOn (st : Stack) (cr3 vaddr : U32) : U32 :=
  if p.pae then v2pPaeOn h p st cr3 vaddr else v2pNopaeOn h p st cr3 vaddr

/-- The stack of a host. -/
def Host.stack : Stack where
  pdpi := h.uninitLongLong
  pgdNopae := h.uninitLong
  pgdPae := h.uninitLongLong
  pteNopae := h.uninitLong
  ptePae := h.uninitLongLong

theorem xaPagetableLookup_eq_on (cr3 vaddr : U32) :
    xaPagetableLookup h p cr3 vaddr = xaPagetableLookupOn h p h.stack cr3 vaddr := rfl

/-! ## Lookups that stop -/

/-- The walk without PAE that stops at the first table that cannot be mapped. -/
def checkedNopae (cr3 vaddr : U32) : Option U32 := do
  let pgd ← xaReadLongMach h p (pdbaBaseNopae cr3 + pgdIndex p vaddr)
  if entryPresent pgd then
    if pageSizeFlag pgd then return getLargePaddr p vaddr pgd
    else
      let pte ← xaReadLongMach h p (ptbaBaseNopae pgd + pteIndex p vaddr)
      return if entryPresent pte then getPaddrNopae vaddr pte else 0
  else return 0

/-- The part of the walk with PAE below an entry of the pointer table. -/
def checkedBelow (vaddr : U32) (pdpe : U64) : Option U32 := do
  let pgd ← xaReadLongLongMach h p
    ((pdbaBasePae pdpe + (pgdIndex p vaddr).setWidth 64).setWidth 32)
  if entryPresent (pgd.setWidth 32) then
    if pageSizeFlag (pgd.setWidth 32) then return getLargePaddr p vaddr (pgd.setWidth 32)
    else
      let pte ← xaReadLongLongMach h p
        ((ptbaBasePae pgd + (pteIndex p vaddr).setWidth 64).setWidth 32)
      return if entryPresent (pte.setWidth 32) then (getPaddrPae vaddr pte).setWidth 32 else 0
  else return 0

/-- The walk with PAE that stops at the first table that cannot be mapped. -/
def checkedPae (cr3 vaddr : U32) : Option U32 := do
  let pdpe ← xaReadLongLongMach h p (getPdptb cr3 + pdpiIndex vaddr)
  if !entryPresent (pdpe.setWidth 32) then return 0 else checkedBelow h p vaddr pdpe

/-- The lookup that stops at the first table that cannot be mapped. -/
def checkedLookup (cr3 vaddr : U32) : Option U32 :=
  if p.pae then checkedPae h p cr3 vaddr else checkedNopae h p cr3 vaddr

variable {h p}

/-- Every table that the walk comes to can be mapped. -/
def TablesReadable (h : Host) (p : XaParams) (cr3 vaddr : U32) : Prop :=
  checkedLookup h p cr3 vaddr ≠ none

/-! ## Walks over tables that can be mapped -/

theorem v2pNopaeOn_of_checked {cr3 v r : U32} (hr : checkedNopae h p cr3 v = some r) (st : Stack) :
    v2pNopaeOn h p st cr3 v = r := by
  obtain ⟨pgd, hpgd, hrest⟩ := Option.bind_eq_some_iff.mp hr
  have hget : getPgdNopae (h.withLong st.pgdNopae) p v cr3 = pgd :=
    congrArg (Option.getD · st.pgdNopae) hpgd
  unfold v2pNopaeOn v2pNopaeBody
  simp only [hget]
  by_cases hpresent : entryPresent pgd = true
  · rw [if_pos hpresent] at hrest ⊢
    by_cases hlarge : pageSizeFlag pgd = true
    · rw [if_pos hlarge] at hrest ⊢
      exact Option.some.inj hrest
    · rw [if_neg hlarge] at hrest ⊢
      obtain ⟨pte, hpte, hend⟩ := Option.bind_eq_some_iff.mp hrest
      have hgetPte : getPteNopae (h.withLong st.pteNopae) p v pgd = pte :=
        congrArg (Option.getD · st.pteNopae) hpte
      rw [hgetPte]
      exact Option.some.inj hend
  · rw [if_neg hpresent] at hrest ⊢
    exact Option.some.inj hrest

theorem v2pPaeOn_of_checked {cr3 v r : U32} (hr : checkedPae h p cr3 v = some r) (st : Stack) :
    v2pPaeOn h p st cr3 v = r := by
  obtain ⟨pdpe, hpdpe, hrest⟩ := Option.bind_eq_some_iff.mp hr
  have hget : getPdpi (h.withLongLong st.pdpi) p v cr3 = pdpe :=
    congrArg (Option.getD · st.pdpi) hpdpe
  unfold v2pPaeOn v2pPaeBody
  simp only [hget]
  by_cases habsent : (!entryPresent (pdpe.setWidth 32)) = true
  · rw [if_pos habsent] at hrest ⊢
    exact Option.some.inj hrest
  · rw [if_neg habsent] at hrest ⊢
    obtain ⟨pgd, hpgd, hend⟩ := Option.bind_eq_some_iff.mp hrest
    have hgetPgd : getPgdPae (h.withLongLong st.pgdPae) p v pdpe = pgd :=
      congrArg (Option.getD · st.pgdPae) hpgd
    rw [hgetPgd]
    by_cases hpresent : entryPresent (pgd.setWidth 32) = true
    · rw [if_pos hpresent] at hend ⊢
      by_cases hlarge : pageSizeFlag (pgd.setWidth 32) = true
      · rw [if_pos hlarge] at hend ⊢
        exact Option.some.inj hend
      · rw [if_neg hlarge] at hend ⊢
        obtain ⟨pte, hpte, hlast⟩ := Option.bind_eq_some_iff.mp hend
        have hgetPte : getPtePae (h.withLongLong st.ptePae) p v pgd = pte :=
          congrArg (Option.getD · st.ptePae) hpte
        rw [hgetPte]
        exact Option.some.inj hlast
    · rw [if_neg hpresent] at hend ⊢
      exact Option.some.inj hend

/-- On a walk over tables that can be mapped, the stack does not matter. -/
theorem xaPagetableLookupOn_of_checked {cr3 v r : U32} (hr : checkedLookup h p cr3 v = some r)
    (st : Stack) : xaPagetableLookupOn h p st cr3 v = r := by
  unfold checkedLookup at hr
  unfold xaPagetableLookupOn
  split_ifs at hr ⊢
  · exact v2pPaeOn_of_checked hr st
  · exact v2pNopaeOn_of_checked hr st

/-! ## Walks that come to a table that cannot be mapped -/

theorem getLargePaddr_ne_zero (p : XaParams) (v : U32) : getLargePaddr p v 0xFFC00081 ≠ 0 := by
  intro hzero
  have hnat := congrArg BitVec.toNat hzero
  cases hpae : p.pae with
  | false =>
    rw [getLargePaddr_toNat_nopae p hpae] at hnat
    change 0xFFC00081 / 2 ^ 22 * 2 ^ 22 + v.toNat % 2 ^ 22 = 0 at hnat
    omega
  | true =>
    rw [getLargePaddr_toNat_pae p hpae] at hnat
    change 0xFFC00081 / 2 ^ 21 * 2 ^ 21 + v.toNat % 2 ^ 21 = 0 at hnat
    omega

theorem getPaddrNopae_ne_zero (v : U32) : getPaddrNopae v 0xFFFFF001 ≠ 0 := by
  intro hzero
  have hnat := congrArg BitVec.toNat hzero
  rw [getPaddrNopae_toNat] at hnat
  change 0xFFFFF001 / 4096 * 4096 + v.toNat % 4096 = 0 at hnat
  omega

theorem getPaddrPae_ne_zero (v : U32) : (getPaddrPae v 0xFFFFF001).setWidth 32 ≠ 0 := by
  intro hzero
  have hnat := congrArg BitVec.toNat hzero
  rw [BitVec.toNat_setWidth, getPaddrPae_toNat] at hnat
  change (0xFFFFF001 / 4096 % 2 ^ 24 * 4096 + v.toNat % 4096) % 2 ^ 32 = 0 at hnat
  omega

/-- The stack that holds a present entry for each reader: the pointer table entry `pdpi`, a
large page in the page directories, a page in the page tables. -/
def presentStack (pdpi : U64) : Stack where
  pdpi := pdpi
  pgdNopae := 0xFFC00081
  pgdPae := 0xFFC00081
  pteNopae := 0xFFFFF001
  ptePae := 0xFFFFF001

theorem v2pNopaeOn_ne_zero {cr3 v : U32} (hnone : checkedNopae h p cr3 v = none) (pdpi : U64) :
    v2pNopaeOn h p (presentStack pdpi) cr3 v ≠ 0 := by
  unfold checkedNopae at hnone
  unfold v2pNopaeOn v2pNopaeBody
  cases hpgd : xaReadLongMach h p (pdbaBaseNopae cr3 + pgdIndex p v) with
  | none =>
    have hget : getPgdNopae (h.withLong (presentStack pdpi).pgdNopae) p v cr3 = 0xFFC00081 :=
      congrArg (Option.getD · (0xFFC00081 : U32)) hpgd
    simp only [hget]
    exact getLargePaddr_ne_zero p v
  | some pgd =>
    have hget : getPgdNopae (h.withLong (presentStack pdpi).pgdNopae) p v cr3 = pgd :=
      congrArg (Option.getD · (0xFFC00081 : U32)) hpgd
    rw [hpgd, Option.bind_eq_bind, Option.bind_some] at hnone
    simp only [hget]
    by_cases hpresent : entryPresent pgd = true
    · rw [if_pos hpresent] at hnone ⊢
      by_cases hlarge : pageSizeFlag pgd = true
      · rw [if_pos hlarge] at hnone
        cases hnone
      · rw [if_neg hlarge] at hnone ⊢
        cases hpte : xaReadLongMach h p (ptbaBaseNopae pgd + pteIndex p v) with
        | none =>
          have hgetPte :
              getPteNopae (h.withLong (presentStack pdpi).pteNopae) p v pgd = 0xFFFFF001 :=
            congrArg (Option.getD · (0xFFFFF001 : U32)) hpte
          simp only [hgetPte]
          exact getPaddrNopae_ne_zero v
        | some pte =>
          rw [hpte] at hnone
          cases hnone
    · rw [if_neg hpresent] at hnone
      cases hnone

/-- A walk with PAE through an entry of the pointer table that is present, to a table that
cannot be mapped. -/
theorem v2pPaeOn_ne_zero_of_below {cr3 v : U32} {pdpi pdpe : U64}
    (hget : getPdpi (h.withLongLong pdpi) p v cr3 = pdpe)
    (hpdpe : entryPresent (pdpe.setWidth 32) = true) (hnone : checkedBelow h p v pdpe = none) :
    v2pPaeOn h p (presentStack pdpi) cr3 v ≠ 0 := by
  have hget' : getPdpi (h.withLongLong (presentStack pdpi).pdpi) p v cr3 = pdpe := hget
  unfold checkedBelow at hnone
  unfold v2pPaeOn v2pPaeBody
  simp only [hget', hpdpe, Bool.not_true, Bool.false_eq_true, if_false]
  cases hpgd : xaReadLongLongMach h p
      ((pdbaBasePae pdpe + (pgdIndex p v).setWidth 64).setWidth 32) with
  | none =>
    have hgetPgd :
        getPgdPae (h.withLongLong (presentStack pdpi).pgdPae) p v pdpe = 0xFFC00081 :=
      congrArg (Option.getD · (0xFFC00081 : U64)) hpgd
    simp only [hgetPgd]
    exact getLargePaddr_ne_zero p v
  | some pgd =>
    have hgetPgd : getPgdPae (h.withLongLong (presentStack pdpi).pgdPae) p v pdpe = pgd :=
      congrArg (Option.getD · (0xFFC00081 : U64)) hpgd
    rw [hpgd, Option.bind_eq_bind, Option.bind_some] at hnone
    simp only [hgetPgd]
    by_cases hpresent : entryPresent (pgd.setWidth 32) = true
    · rw [if_pos hpresent] at hnone ⊢
      by_cases hlarge : pageSizeFlag (pgd.setWidth 32) = true
      · rw [if_pos hlarge] at hnone
        cases hnone
      · rw [if_neg hlarge] at hnone ⊢
        cases hpte : xaReadLongLongMach h p
            ((ptbaBasePae pgd + (pteIndex p v).setWidth 64).setWidth 32) with
        | none =>
          have hgetPte :
              getPtePae (h.withLongLong (presentStack pdpi).ptePae) p v pgd = 0xFFFFF001 :=
            congrArg (Option.getD · (0xFFFFF001 : U64)) hpte
          simp only [hgetPte]
          exact getPaddrPae_ne_zero v
        | some pte =>
          rw [hpte] at hnone
          cases hnone
    · rw [if_neg hpresent] at hnone
      cases hnone

/-- A present entry that points to the frame of an address. -/
def entryInto (a : U32) : U64 := BitVec.ofNat 64 (a.toNat / 4096 * 4096 + 1)

theorem entryInto_present (a : U32) : entryPresent ((entryInto a).setWidth 32) = true := by
  rw [entryPresent_setWidth, entryInto, BitVec.getLsbD_ofNat]
  simp only [Nat.testBit_zero, decide_eq_true_eq, Bool.and_eq_true]
  omega

/-- No entry can be read through `entryInto` when the frame cannot be mapped. -/
theorem checkedBelow_entryInto (hpae : p.pae = true) (hshift : p.pageShift = 12) {a : U32}
    (hnone : xaReadLongLongMach h p a = none) (v : U32) :
    checkedBelow h p v (entryInto a) = none := by
  have hlt := a.isLt
  have hindex := pgdIndex_toNat hpae v
  have hbase : (pdbaBasePae (entryInto a)).toNat = a.toNat / 4096 * 4096 := by
    rw [pdbaBasePae, toNat_and_ffffff000, entryInto, BitVec.toNat_ofNat]
    omega
  have haddr := entryAddress_toNat (pdbaBasePae (entryInto a)) (pgdIndex p v) (by omega) (by omega)
    (by omega)
  have hframe : ((pdbaBasePae (entryInto a) + (pgdIndex p v).setWidth 64).setWidth 32) >>>
      p.pageShift = a >>> p.pageShift := by
    rw [frame_eq_ofNat hshift, frame_eq_ofNat hshift, haddr]
    exact congrArg _ (by omega)
  have hread : xaReadLongLongMach h p
      ((pdbaBasePae (entryInto a) + (pgdIndex p v).setWidth 64).setWidth 32) = none := by
    unfold xaReadLongLongMach xaAccessMa at hnone ⊢
    simp only [Option.map_eq_none_iff] at hnone ⊢
    rw [hframe]
    exact hnone
  unfold checkedBelow
  rw [hread]
  rfl

theorem v2pPaeOn_ne_zero (hpae : p.pae = true) (hshift : p.pageShift = 12) {cr3 v : U32}
    (hnone : checkedPae h p cr3 v = none) :
    ∃ pdpi, v2pPaeOn h p (presentStack pdpi) cr3 v ≠ 0 := by
  unfold checkedPae at hnone
  cases hpdpe : xaReadLongLongMach h p (getPdptb cr3 + pdpiIndex v) with
  | none =>
    -- the local of `get_pdpi` leads back to the frame that cannot be mapped
    refine ⟨entryInto (getPdptb cr3 + pdpiIndex v), v2pPaeOn_ne_zero_of_below ?_
      (entryInto_present _) (checkedBelow_entryInto hpae hshift hpdpe v)⟩
    exact congrArg (Option.getD · (entryInto (getPdptb cr3 + pdpiIndex v))) hpdpe
  | some pdpe =>
    rw [hpdpe, Option.bind_eq_bind, Option.bind_some] at hnone
    cases hpresent : entryPresent (pdpe.setWidth 32) with
    | false =>
      rw [hpresent] at hnone
      cases hnone
    | true =>
      rw [hpresent] at hnone
      exact ⟨0, v2pPaeOn_ne_zero_of_below (congrArg (Option.getD · (0 : U64)) hpdpe) hpresent hnone⟩

/-- On a walk to a table that cannot be mapped, the stack can make up an address. -/
theorem xaPagetableLookupOn_ne_zero (hshift : p.pageShift = 12) {cr3 v : U32}
    (hnone : checkedLookup h p cr3 v = none) : ∃ st, xaPagetableLookupOn h p st cr3 v ≠ 0 := by
  unfold checkedLookup at hnone
  unfold xaPagetableLookupOn
  cases hpae : p.pae with
  | false =>
    rw [hpae] at hnone
    exact ⟨presentStack 0, v2pNopaeOn_ne_zero hnone 0⟩
  | true =>
    rw [hpae] at hnone
    obtain ⟨pdpi, hne⟩ := v2pPaeOn_ne_zero hpae hshift hnone
    exact ⟨presentStack pdpi, hne⟩

/-! ## Failure and dependence -/

/-- What a caller relies on: a lookup over a table that cannot be mapped gives `0`, and no
lookup depends on the stack. -/
structure FailsSafe (h : Host) (p : XaParams) (cr3 vaddr : U32) : Prop where
  zero : ¬TablesReadable h p cr3 vaddr → ∀ st, xaPagetableLookupOn h p st cr3 vaddr = 0
  same : ∀ st st', xaPagetableLookupOn h p st cr3 vaddr = xaPagetableLookupOn h p st' cr3 vaddr

/-- **Failed reads.** A lookup reports failures as `0` and does not depend on what its
locals held before, exactly if no read of a table fails. -/
theorem failsSafe_iff (h : Host) (p : XaParams) (hshift : p.pageShift = 12) (cr3 v : U32) :
    FailsSafe h p cr3 v ↔ TablesReadable h p cr3 v := by
  constructor
  · intro hsafe hnone
    obtain ⟨st, hne⟩ := xaPagetableLookupOn_ne_zero hshift hnone
    exact hne (hsafe.zero (fun hread => hread hnone) st)
  · intro hread
    obtain ⟨r, hr⟩ := Option.ne_none_iff_exists'.mp hread
    refine ⟨fun hnot => absurd hread hnot, ?_⟩
    intro st st'
    rw [xaPagetableLookupOn_of_checked hr st, xaPagetableLookupOn_of_checked hr st']

/-- A guest of whose memory no frame can be mapped. -/
def unmappableHost : Host := { imageHost [] with xcMapForeignRange := fun _ _ => none }

theorem paeParams_failsSafe : FailsSafe (imageHost paeWords) paeParams 0x1000 0x1234 :=
  (failsSafe_iff (imageHost paeWords) paeParams rfl 0x1000 0x1234).mpr (by
    unfold TablesReadable
    decide)

/-- The pointer table at `0x1000` cannot be mapped. With one stack the lookup returns an
address, with another it fails. -/
theorem unmappableHost_not_failsSafe :
    checkedLookup unmappableHost paeParams 0x1000 0x1234 = none ∧
      xaPagetableLookupOn unmappableHost paeParams ⟨0x2001, 0, 0x7FE00081, 0, 0⟩ 0x1000 0x1234 =
        0x7FE01234 ∧
      xaPagetableLookupOn unmappableHost paeParams ⟨0, 0, 0, 0, 0⟩ 0x1000 0x1234 = 0 ∧
      ¬FailsSafe unmappableHost paeParams 0x1000 0x1234 := by
  have hnone : checkedLookup unmappableHost paeParams 0x1000 0x1234 = none := by decide
  refine ⟨hnone, by decide, by decide, fun hsafe => ?_⟩
  have hzero := hsafe.zero (fun hread => hread hnone) ⟨0x2001, 0, 0x7FE00081, 0, 0⟩
  revert hzero
  decide

end XenAccess
