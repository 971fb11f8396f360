import XenAccess.Maps.Frames
import XenAccess.Model.Image
import XenAccess.Walk.PageMap

/-!
# The table of a paravirtualised guest

The machine frames of a paravirtualised guest are listed in a tree of three levels: a list of
lists, lists of frames, and the leaf frames with the entries. `helper_pfn_to_mfn` maps the
leaves one behind the other as one table, keeps it, and reads the entry of a frame number from
it. The number of entries, `nr_pfns`, is kept too, but nothing compares a frame number with it.
-/

namespace XenAccess.Traced

open Audit

variable {h : Host} {p : XaParams} {s : XaState}

/-! ## Frames one behind the other -/

/-- The pages of a list of frames follow each other in a mapping. -/
def Consecutive (frame : U32 → Page) (mfns : List U32) (memory : Page) : Prop :=
  ∀ i (hi : i < mfns.length), ∀ d < 4096,
    memory (BitVec.ofNat 32 (4096 * i + d)) = frame mfns[i] (BitVec.ofNat 32 d)

theorem u32_ofNat (memory : Page) (n : Nat) :
    memory.u32 (BitVec.ofNat 32 n) =
      memory (BitVec.ofNat 32 (n + 3)) ++ memory (BitVec.ofNat 32 (n + 2)) ++
        memory (BitVec.ofNat 32 (n + 1)) ++ memory (BitVec.ofNat 32 n) := by
  rw [Page.u32, BitVec.ofNat_add, BitVec.ofNat_add, BitVec.ofNat_add]
  rfl

/-- The words of the frames follow each other too. -/
theorem Consecutive.u32 {frame : U32 → Page} {mfns : List U32} {memory : Page}
    (hmem : Consecutive frame mfns memory) {i : Nat} (hi : i / 1024 < mfns.length) :
    memory.u32 (BitVec.ofNat 32 (4 * i)) =
      (frame mfns[i / 1024]).u32 (BitVec.ofNat 32 (4 * (i % 1024))) := by
  have hbyte (k : Nat) (hk : k < 4) : memory (BitVec.ofNat 32 (4 * i + k)) =
      frame mfns[i / 1024] (BitVec.ofNat 32 (4 * (i % 1024) + k)) := by
    rw [← hmem (i / 1024) hi _ (by omega)]
    exact congrArg (fun n => memory (BitVec.ofNat 32 n)) (by omega)
  rw [u32_ofNat, u32_ofNat, hbyte 3 (by omega), hbyte 2 (by omega), hbyte 1 (by omega)]
  exact congrArg _ (hbyte 0 (by omega))

/-! ## The tree -/

/-- The tree from frame numbers to machine frames. -/
structure P2mTree where
  /-- `nr_pfns` -/
  nr : U32
  /-- the frame with the list of lists -/
  listList : U32
  /-- the machine frames of the guest -/
  frame : U32 → Page

namespace P2mTree

variable (t : P2mTree)

/-- The `k`-th list of frames. -/
def listFrame (k : Nat) : U32 := (t.frame t.listList).u32 (BitVec.ofNat 32 (4 * k))

/-- The `j`-th leaf. -/
def leafFrame (j : Nat) : U32 :=
  (t.frame (t.listFrame (j / 1024))).u32 (BitVec.ofNat 32 (4 * (j % 1024)))

/-- The entry of a frame number in its leaf. -/
def entry (i : Nat) : U32 :=
  (t.frame (t.leafFrame (i / 1024))).u32 (BitVec.ofNat 32 (4 * (i % 1024)))

/-- What a lookup should give: the entry of a frame number that the guest has, else `-1`. -/
def mfn (pfn : U32) : U32 := if pfn < t.nr then t.entry pfn.toNat else -1

/-- The number of leaves. -/
def leaves : Nat := (t.nr.toNat + 1023) / 1024

end P2mTree

/-- The guest is a paravirtualised one with the tree, and its frames can be mapped: a list of
frames one behind the other, and no pages are not mapped at all. -/
structure HasTree (h : Host) (p : XaParams) (t : P2mTree) : Prop where
  mode : p.mode = .xen
  hvm : p.hvm = false
  /-- the list of lists is one frame -/
  size : t.nr.toNat ≤ 1024 * 1024 * 1024
  shinfo : ∃ shinfo, XenAccess.xaMmapMfn h p protRead p.sharedInfoFrame = some shinfo ∧
    nrPfns h p shinfo = t.nr ∧ h.sharedFrameListList shinfo = t.listList
  listList : ∃ memory, XenAccess.xaMmapMfn h p protRead t.listList = some memory ∧
    Consecutive t.frame [t.listList] memory
  batch : ∀ mfns, mfns ≠ [] → mfns.length ≤ 1024 * 1024 →
    ∃ memory, h.xcMapForeignBatch protRead mfns = some memory ∧ Consecutive t.frame mfns memory
  noBatch : h.xcMapForeignBatch protRead [] = none

variable {t : P2mTree}

/-! ## The table -/

theorem frameListSize_toNat (ht : HasTree h p t) :
    (frameListSize t.nr).toNat = (t.nr.toNat + 1048575) / 1048576 := by
  have hsize := ht.size
  rw [frameListSize, BitVec.toNat_udiv, BitVec.toNat_sub, BitVec.toNat_add]
  show (4294967296 - 1 + (t.nr.toNat + 1048576) % 4294967296) % 4294967296 / 1048576 = _
  omega

theorem tableSize_toNat (ht : HasTree h p t) : (tableSize t.nr).toNat = t.leaves := by
  have hsize := ht.size
  rw [tableSize, BitVec.toNat_udiv, BitVec.toNat_sub, BitVec.toNat_add]
  show (4294967296 - 1 + (t.nr.toNat + 1024) % 4294967296) % 4294967296 / 1024 = _
  rw [P2mTree.leaves]
  omega

theorem length_frameNumbers (memory : Page) (n : U32) :
    (frameNumbers memory n).length = n.toNat := by
  simp [frameNumbers]

theorem getElem_frameNumbers {memory : Page} {n : U32} {i : Nat}
    (hi : i < (frameNumbers memory n).length) :
    (frameNumbers memory n)[i] = memory.u32 (BitVec.ofNat 32 (4 * i)) := by
  simp [frameNumbers]

theorem frameListList_eq (ht : HasTree h p t) : ∃ arr, frameListList h p = some (t.nr, arr) ∧
    Consecutive t.frame [t.listList] arr := by
  obtain ⟨shinfo, hshinfo, hnr, hlist⟩ := ht.shinfo
  obtain ⟨arr, harr, hcons⟩ := ht.listList
  refine ⟨arr, ?_, hcons⟩
  rw [frameListList, hshinfo]
  simp [hlist, harr, hnr]

/-- Without entries there is no table. -/
theorem pfnTable_eq_none (ht : HasTree h p t) (hnr : t.nr = 0) : pfnTable h p = none := by
  obtain ⟨arr, hlist, -⟩ := frameListList_eq ht
  apply pfnTable_of_none
  rw [frameList_of_some hlist, hnr]
  exact congrArg (Option.map _) ht.noBatch

/-- The table has the entries of the tree. -/
theorem pfnTable_eq_some (ht : HasTree h p t) (hnr : t.nr ≠ 0) :
    ∃ table, pfnTable h p = some table ∧ table.pages = t.leaves ∧
      ∀ i < 1024 * t.leaves, table.memory.u32 (BitVec.ofNat 32 (4 * i)) = t.entry i := by
  obtain ⟨arr, hlist, harr⟩ := frameListList_eq ht
  have hsize := ht.size
  have hpos : 0 < t.nr.toNat := Nat.pos_of_ne_zero fun hzero => hnr (BitVec.eq_of_toNat_eq hzero)
  have hlists := frameListSize_toNat ht
  have hleaves := tableSize_toNat ht
  have hdef : t.leaves = (t.nr.toNat + 1023) / 1024 := rfl
  have hlen := length_frameNumbers arr (frameListSize t.nr)
  obtain ⟨list, hmap, hcons⟩ := ht.batch (frameNumbers arr (frameListSize t.nr))
    (List.ne_nil_of_length_pos (by omega)) (by omega)
  have hframes : frameList h p = some (t.nr, list) := by
    rw [frameList_of_some hlist, hmap]
    rfl
  have hlen' := length_frameNumbers list (tableSize t.nr)
  obtain ⟨table, hmap', hcons'⟩ := ht.batch (frameNumbers list (tableSize t.nr))
    (List.ne_nil_of_length_pos (by omega)) (by omega)
  refine ⟨⟨batchPages (tableSize t.nr), table⟩, ?_, ?_, ?_⟩
  · rw [pfnTable_of_some hframes, hmap']
    rfl
  · show max (tableSize t.nr).toNat 1 = t.leaves
    omega
  · intro i hi
    have hlistFrame (k : Nat) (hk : k < 1024) :
        arr.u32 (BitVec.ofNat 32 (4 * k)) = t.listFrame k := by
      rw [harr.u32 (by simp; omega), P2mTree.listFrame]
      simp [Nat.div_eq_of_lt hk, Nat.mod_eq_of_lt hk]
    have hleafFrame (j : Nat) (hj : j < t.leaves) :
        list.u32 (BitVec.ofNat 32 (4 * j)) = t.leafFrame j := by
      rw [hcons.u32 (by omega), getElem_frameNumbers, hlistFrame _ (by omega), P2mTree.leafFrame]
    show table.u32 _ = _
    rw [hcons'.u32 (by omega), getElem_frameNumbers, hleafFrame _ (by omega), P2mTree.entry]

/-! ## One lookup -/

/-- A lookup gives the entry of the tree, or `-1` and then no mapping, and reads inside of the
table. -/
structure LookupExact (h : Host) (p : XaParams) (t : P2mTree) (pfn : U32) (s : XaState)
    (L : Ledger (Option SavedTable)) : Prop where
  value : (helperPfnToMfn h p pfn s L).1 = .ok (t.mfn pfn, s)
  inside : (helperPfnToMfn h p pfn s L).2.strayLoads = L.strayLoads
  null : t.nr ≤ pfn → ∀ prot, (xaMmapPfn h p prot pfn s L).1 = .ok (none, s)

/-- The guest has the frame number, or it stands behind the last one in the last leaf with the
entry `-1`, or there is no table. -/
def P2mTree.Has (t : P2mTree) (pfn : U32) : Prop :=
  pfn < t.nr ∨ t.nr = 0 ∨ (pfn.toNat < 1024 * t.leaves ∧ t.entry pfn.toNat = -1)

/-- The lists of the tree are long enough for what is read of them. -/
theorem listsIn_of_tree (ht : HasTree h p t) (store : Option SavedTable) : ListsIn h p store := by
  intro _
  have hsize := ht.size
  have hlists := frameListSize_toNat ht
  have hleaves := tableSize_toNat ht
  have hdef : t.leaves = (t.nr.toNat + 1023) / 1024 := rfl
  obtain ⟨arr, hlist, -⟩ := frameListList_eq ht
  constructor
  · intro r hr
    cases hlist.symm.trans hr
    show 4 * (frameListSize t.nr).toNat ≤ 4096
    omega
  · intro r hr
    rw [frameList_of_some hlist] at hr
    obtain ⟨memory, -, rfl⟩ := Option.map_eq_some_iff.mp hr
    show 4 * (tableSize t.nr).toNat ≤ 4096 * max (frameListSize t.nr).toNat 1
    omega

theorem word_eq_ofNat (pfn : U32) : 4 * pfn = BitVec.ofNat 32 (4 * pfn.toNat) := by
  apply BitVec.eq_of_toNat_eq
  rw [BitVec.toNat_mul, BitVec.toNat_ofNat]
  rfl

/-- What the tables of the tree give for a frame number, and when its entry is in them. -/
theorem lookup_cases (ht : HasTree h p t) {pfn : U32} (hpfn : pfn.toNat < 1024 * 1024) :
    XenAccess.helperPfnToMfn h p pfn = t.mfn pfn ∧ TableHas h p pfn ↔ t.Has pfn := by
  have hdef : t.leaves = (t.nr.toNat + 1023) / 1024 := rfl
  rw [helperPfnToMfn_eq h p ht.hvm]
  by_cases hnr : t.nr = 0
  · have htable := pfnTable_eq_none ht hnr
    rw [htable]
    refine iff_of_true ⟨?_, fun table hsome => ?_⟩ (Or.inr (Or.inl hnr))
    · rw [P2mTree.mfn, if_neg (by simp [hnr])]
      rfl
    · cases htable.symm.trans hsome
  · obtain ⟨table, htable, hpages, hentry⟩ := pfnTable_eq_some ht hnr
    have hhas : TableHas h p pfn ↔ pfn.toNat < 1024 * t.leaves := by
      have hword : (4 * pfn).toNat = 4 * pfn.toNat := by
        rw [word_eq_ofNat, BitVec.toNat_ofNat]
        omega
      simp only [TableHas, htable, Option.some.injEq, forall_eq', hpages, hword]
      show 4 * pfn.toNat + 4 ≤ 4096 * t.leaves ↔ _
      omega
    rw [hhas, htable, Option.map_some, Option.getD_some, word_eq_ofNat, P2mTree.mfn, P2mTree.Has]
    by_cases hin : pfn.toNat < 1024 * t.leaves
    · rw [hentry _ hin]
      by_cases hlt : pfn < t.nr
      · simp [hlt, hin]
      · simp only [hlt, hin, hnr, if_false, false_or, true_and, and_true]
    · have hlt : ¬pfn < t.nr := by
        intro hlt
        have : pfn.toNat < t.nr.toNat := hlt
        omega
      simp only [hin, hlt, hnr, and_false, false_or, false_and]

/-- **When a lookup is exact**, with the table built or not. -/
theorem lookupExact_iff (ht : HasTree h p t) (hs : s.toXaParams = p)
    {L : Ledger (Option SavedTable)} (hL : L.WF) (hfits : (rules h p).fits L.store) {pfn : U32}
    (hpfn : pfn.toNat < 1024 * 1024) : LookupExact h p t pfn s L ↔ t.Has pfn := by
  have htracks := helperPfnToMfn_tracks (h := h) (s := s) ht.mode pfn
  have hvalue := htracks.outcome_eq hL hs hfits
  have hloads := htracks.strayLoads_iff hL hs hfits
  have hin : (helperPfnToMfn h p pfn s L).2.strayLoads = L.strayLoads ↔ TableHas h p pfn := by
    rw [hloads]
    exact ⟨fun hall => hall.1 ht.mode ht.hvm, fun hall => ⟨fun _ _ => hall, fun _ =>
      listsIn_of_tree ht L.store⟩⟩
  have hpure (m : U32) : ((pure m : XaM U32) s = .ok (t.mfn pfn, s)) ↔ m = t.mfn pfn := by
    constructor
    · intro heq
      exact (Prod.mk.inj (Except.ok.inj heq)).1
    · rintro rfl
      rfl
  rw [← lookup_cases ht hpfn, ← hin, ← hpure, ← hvalue]
  constructor
  · intro hexact
    exact ⟨hexact.value, hexact.inside⟩
  · rintro ⟨hval, hins⟩
    refine ⟨hval, hins, fun hle prot => ?_⟩
    rcases hrun : helperPfnToMfn h p pfn s L with ⟨r, L'⟩
    rw [hrun] at hval
    have hminus : t.mfn pfn = -1 := if_neg (BitVec.not_lt.mpr hle)
    rw [hminus] at hval
    replace hrun : helperPfnToMfn h p pfn s L = (.ok (-1, s), L') := hrun.trans (by rw [← hval])
    have hmmap := bind_of_ok (f := fun mfn => if mfn = -1 then pure none
      else do return (← xaMapPage h p prot mfn).map fun m => (m.1, mfn, m.2)) hrun
    rw [xaMmapPfn, ht.mode]
    exact congrArg Prod.fst hmmap

/-! ## Runs -/

/-- Every lookup of a run of `xa_access_pa` is exact. -/
def ExactThroughout (h : Host) (p : XaParams) (t : P2mTree) :
    List (U32 × U32) → XaState → Ledger (Option SavedTable) → Prop
  | [], _, _ => True
  | (physAddress, prot) :: calls, s, L =>
    LookupExact h p t (physAddress >>> p.pageShift) s L ∧ ∀ r s' L',
      xaAccessPa h p physAddress prot s L = (.ok (r, s'), L') → ExactThroughout h p t calls s' L'

/-- An access leaves the instance ready for the next one. -/
theorem xaAccessPa_ready (hs : s.toXaParams = p) {L L' : Ledger (Option SavedTable)} (hL : L.WF)
    (hfits : (rules h p).fits L.store) {physAddress prot : U32} {r : Option Mapped} {s' : XaState}
    (hrun : xaAccessPa h p physAddress prot s L = (.ok (r, s'), L')) :
    s'.toXaParams = p ∧ L'.WF ∧ (rules h p).fits L'.store := by
  obtain ⟨leaked, strays, loads, -, hresult⟩ :=
    xaAccessPa_tracks (h := h) (s := s) physAddress prot L hL hs hfits (Multiset.zero_le _)
  rw [hrun] at hresult
  obtain ⟨-, hL', hs', hstored, -⟩ := hresult
  exact ⟨hs', hL', hstored.fits⟩

/-- `xa_access_pa` of a guest with a tree returns. -/
theorem xaAccessPa_returns (hs : s.toXaParams = p) {L : Ledger (Option SavedTable)} (hL : L.WF)
    (hfits : (rules h p).fits L.store) (physAddress prot : U32) :
    ∃ r s' L', xaAccessPa h p physAddress prot s L = (.ok (r, s'), L') := by
  obtain ⟨leaked, strays, loads, -, hresult⟩ :=
    xaAccessPa_tracks (h := h) (s := s) physAddress prot L hL hs hfits (Multiset.zero_le _)
  rcases hrun : xaAccessPa h p physAddress prot s L with ⟨e | ⟨r, s'⟩, L'⟩
  · rw [hrun] at hresult
    cases hresult.1
  · exact ⟨r, s', L', rfl⟩

theorem pfn_lt (hshift : p.pageShift = 12) (physAddress : U32) :
    (physAddress >>> p.pageShift).toNat < 1024 * 1024 := by
  have hlt := physAddress.isLt
  rw [frame_eq_ofNat hshift, BitVec.toNat_ofNat]
  omega

/-- **When the lookups of a paravirtualised guest are exact.** In every run of `xa_access_pa`
from a fresh instance, or from one that has the table, exactly if the frame number of each
access is one of the guest, or one behind these in the last leaf whose entry is `-1`, or the
tree is empty. -/
theorem exactThroughout_iff (h : Host) (p : XaParams) (t : P2mTree) (ht : HasTree h p t)
    (hshift : p.pageShift = 12) (s : XaState) (hs : s.toXaParams = p)
    (L : Ledger (Option SavedTable)) (hL : L.WF)
    (hfits : ∀ table, L.store = some table → pfnTable h p = some table)
    (calls : List (U32 × U32)) :
    ExactThroughout h p t calls s L ↔ ∀ c ∈ calls, t.Has (c.1 >>> p.pageShift) := by
  induction calls generalizing s L with
  | nil => exact iff_of_true trivial fun c hc => by cases hc
  | cons c calls ih =>
    obtain ⟨physAddress, prot⟩ := c
    rw [List.forall_mem_cons, ExactThroughout]
    refine and_congr (lookupExact_iff ht hs hL hfits (pfn_lt hshift physAddress)) ?_
    obtain ⟨r, s', L', hrun⟩ := xaAccessPa_returns hs hL hfits physAddress prot
    obtain ⟨hs', hL', hfits'⟩ := xaAccessPa_ready hs hL hfits hrun
    rw [← ih s' hs' L' hL' hfits']
    constructor
    · intro hall
      exact hall r s' L' hrun
    · rintro hrest r₂ s₂ L₂ hrun₂
      cases hrun.symm.trans hrun₂
      exact hrest

/-! ### A guest with a tree -/

/-- A paravirtualised guest with the given memory and the list of lists in frame `1`. -/
def p2mHost (words : Words) (nr : U32) : Host :=
  { imageHost words with
    sharedMaxPfn := fun _ => nr
    sharedFrameListList := fun _ => 1
    xcMapForeignBatch := fun _ mfns =>
      if mfns = [] then none
      else some fun d =>
        imagePage words (mfns.getD (d.toNat / 4096) 0 <<< 12) (BitVec.ofNat 32 (d.toNat % 4096)) }

def p2mState : XaState :=
  { zeroState 0 with mode := .xen, pageShift := 12, pageSize := 4096, hvm := false }

def p2mTree (words : Words) (nr : U32) : P2mTree := ⟨nr, 1, fun mfn => imagePage words (mfn <<< 12)⟩

theorem p2mHost_hasTree (words : Words) (nr : U32) (hnr : nr.toNat ≤ 1024 * 1024 * 1024) :
    HasTree (p2mHost words nr) p2mState.toXaParams (p2mTree words nr) where
  mode := rfl
  hvm := rfl
  size := hnr
  shinfo := ⟨_, rfl, rfl, rfl⟩
  listList := by
    refine ⟨_, rfl, fun i hi d hd => ?_⟩
    obtain rfl : i = 0 := Nat.lt_one_iff.mp hi
    rw [Nat.mul_zero, Nat.zero_add]
    rfl
  batch := by
    intro mfns hne hlen
    refine ⟨_, if_neg hne, fun i hi d hd => ?_⟩
    have hd' : (BitVec.ofNat 32 (4096 * i + d)).toNat = 4096 * i + d := by
      rw [BitVec.toNat_ofNat]
      omega
    have hdiv : (4096 * i + d) / 4096 = i := by omega
    have hmod : (4096 * i + d) % 4096 = d := by omega
    simp only [hd', hdiv, hmod, p2mTree, List.getD_eq_getElem _ _ hi]
  noBatch := rfl

/-- One leaf, in frame `3`, for a guest of 1000 frames. -/
def leafWords : Words := [(0x1000, 2), (0x2000, 3), (0x3014, 0x77)]

theorem leafWords_exact :
    ExactThroughout (p2mHost leafWords 1000) p2mState.toXaParams (p2mTree leafWords 1000)
      [(0x5123, 1), (0x3E7000, 1)] p2mState (Ledger.empty none) := by
  have hempty : ∀ table, (Ledger.empty (none : Option SavedTable)).store = some table →
      pfnTable (p2mHost leafWords 1000) p2mState.toXaParams = some table := by
    intro table htable
    cases htable
  refine (exactThroughout_iff (p2mHost leafWords 1000) p2mState.toXaParams _
    (p2mHost_hasTree leafWords _ (by decide)) rfl p2mState rfl (Ledger.empty none) (.empty none)
    hempty _).mpr ?_
  simp only [List.forall_mem_cons, List.not_mem_nil, false_imp_iff, implies_true, and_true]
  exact ⟨Or.inl (by decide), Or.inl (by decide)⟩

/-- Of a guest of 1000 frames, frame number 1001 is looked up behind the last entry of the leaf,
and frame number 2000 behind the leaf. -/
theorem leafWords_not_exact :
    ¬ExactThroughout (p2mHost leafWords 1000) p2mState.toXaParams (p2mTree leafWords 1000)
        [(0x3E9000, 1)] p2mState (Ledger.empty none) ∧
      ¬ExactThroughout (p2mHost leafWords 1000) p2mState.toXaParams (p2mTree leafWords 1000)
        [(0x7D0000, 1)] p2mState (Ledger.empty none) := by
  have htree := p2mHost_hasTree leafWords 1000 (by decide)
  have hempty : (rules (p2mHost leafWords 1000) p2mState.toXaParams).fits none := by
    intro table htable
    cases htable
  constructor
  · intro hexact
    have hhas := (lookupExact_iff htree rfl (.empty none) hempty (by decide)).mp hexact.1
    rcases hhas with hlt | hzero | ⟨-, hentry⟩
    · exact absurd hlt (by decide)
    · exact absurd hzero (by decide)
    · exact absurd hentry (by decide)
  · intro hexact
    have hhas := (lookupExact_iff htree rfl (.empty none) hempty (by decide)).mp hexact.1
    rcases hhas with hlt | hzero | ⟨hin, -⟩
    · exact absurd hlt (by decide)
    · exact absurd hzero (by decide)
    · exact absurd hin (by decide)

end XenAccess.Traced
