import XenAccess.Cache.Protection
import XenAccess.Model.Ledger

/-!
# Mappings of single frames

What the functions up to the page table walks do to the ledger. A machine frame is mapped
and unmapped without any defect. For a pseudo-physical frame of a paravirtualised guest the
first use builds the table of `helper_pfn_to_mfn`, whose list of frames is unmapped by one
page only (`rules`).
-/

namespace XenAccess.Traced

open Audit Prog

variable (h : Host) (p : XaParams)

/-! ## The table of `helper_pfn_to_mfn` -/

/-- `nr_pfns` and the page of `live_pfn_to_mfn_frame_list_list`, if they are reached. -/
def frameListList : Option (U32 × Page) := do
  let shinfo ← XenAccess.xaMmapMfn h p protRead p.sharedInfoFrame
  let memory ← XenAccess.xaMmapMfn h p protRead (h.sharedFrameListList shinfo)
  return (nrPfns h p shinfo, memory)

/-- `nr_pfns` and the pages of `live_pfn_to_mfn_frame_list`, if they are reached. -/
def frameList : Option (U32 × Page) := do
  let (nr, arr) ← frameListList h p
  let memory ← h.xcMapForeignBatch protRead (frameNumbers arr (frameListSize nr))
  return (nr, memory)

/-- The table, if it can be built. -/
def pfnTable : Option SavedTable := do
  let (nr, arr) ← frameList h p
  let memory ← h.xcMapForeignBatch protRead (frameNumbers arr (tableSize nr))
  return ⟨batchPages (tableSize nr), memory⟩

variable {h p} in
theorem frameList_of_none (hlist : frameListList h p = none) : frameList h p = none := by
  rw [frameList, hlist]
  rfl

variable {h p} in
theorem pfnTable_of_none (hframes : frameList h p = none) : pfnTable h p = none := by
  rw [pfnTable, hframes]
  rfl

variable {h p} in
theorem frameList_of_some {nr : U32} {arr : Page} (hlist : frameListList h p = some (nr, arr)) :
    frameList h p = (h.xcMapForeignBatch protRead (frameNumbers arr (frameListSize nr))).map
      fun memory => (nr, memory) := by
  rw [frameList, hlist, Option.map_eq_bind]
  rfl

variable {h p} in
theorem pfnTable_of_some {nr : U32} {arr : Page} (hframes : frameList h p = some (nr, arr)) :
    pfnTable h p = (h.xcMapForeignBatch protRead (frameNumbers arr (tableSize nr))).map
      fun memory => ⟨batchPages (tableSize nr), memory⟩ := by
  rw [pfnTable, hframes, Option.map_eq_bind]
  rfl

theorem helperPfnToMfn_eq (hhvm : p.hvm = false) (pfn : U32) :
    XenAccess.helperPfnToMfn h p pfn =
      ((pfnTable h p).map fun table => table.memory.u32 (4 * pfn)).getD (-1) := by
  rw [XenAccess.helperPfnToMfn, if_neg (by simp [hhvm])]
  simp only [pfnTable, frameList, frameListList, nrPfns, frameListSize, tableSize]
  cases XenAccess.xaMmapMfn h p protRead p.sharedInfoFrame with
  | none => rfl
  | some shinfo =>
    simp only [Option.bind_eq_bind, Option.bind_some]
    cases XenAccess.xaMmapMfn h p protRead (h.sharedFrameListList shinfo) with
    | none => rfl
    | some arr =>
      simp only [Option.bind_some, Option.pure_def]
      generalize h.xcMapForeignBatch protRead (frameNumbers arr _) = list
      cases list with
      | none => rfl
      | some list =>
        simp only [Option.bind_some]
        generalize h.xcMapForeignBatch protRead (frameNumbers list _) = table
        cases table with
        | none => rfl
        | some table => rfl

/-- A paravirtualised guest whose table has not been built. -/
def BuildsTable (t : Option SavedTable) : Prop := p.mode = .xen ∧ p.hvm = false ∧ t = none

/-- If the table is built, its list of frames has one page, which is what is unmapped of it. -/
def ListReleased (t : Option SavedTable) : Prop :=
  BuildsTable p t → ∀ r, frameList h p = some r → batchPages (frameListSize r.1) = 1

/-- If the table is built, the list of lists and the list of frames are long enough for what
is read of them. -/
def ListsIn (t : Option SavedTable) : Prop :=
  BuildsTable p t →
    (∀ r, frameListList h p = some r → 4 * (frameListSize r.1).toNat ≤ xcPageSize) ∧
    ∀ r, frameList h p = some r →
      4 * (tableSize r.1).toNat ≤ xcPageSize * batchPages (frameListSize r.1)

/-- The rules of the ledger: the table that is kept is the one of the guest, and the first
use of it has the conditions of its building. -/
def rules : Rules XaState (Option SavedTable) where
  inv := HasParams p
  fits t := ∀ table, t = some table → pfnTable h p = some table
  clean := ListReleased h p
  inRange := ListsIn h p

/-- The table has an entry for a frame. -/
def TableHas (pfn : U32) : Prop :=
  ∀ table, pfnTable h p = some table → (4 * pfn).toNat + 4 ≤ xcPageSize * table.pages

variable {h p} {s : XaState} {R : Rules XaState (Option SavedTable)}

/-! ## Requests -/

/-- The pages that the outcome of a request holds. -/
def requestPieces (pages : Nat) : Option (Nat × Page) → Multiset Piece
  | none => 0
  | some m => pieces m.1 pages

theorem mapPages_tracks (held : Multiset Piece) (pages : Nat) (memory : Option Page) :
    Tracks R s held (fun m => held + requestPieces pages m) (Option.map Prod.snd) .skip
      (mapPages pages memory) (pure memory) := by
  cases memory with
  | none => exact tracks_pure (Multiset.add_zero held).symm rfl
  | some memory =>
    refine (tracks_acquire R s held pages).skip_bind fun id _ => ?_
    exact tracks_pure rfl rfl

theorem return_tracks {α : Type} (a : α) :
    Tracks R s 0 (fun _ => 0) id .skip (pure a : TraceM α) (pure a) :=
  tracks_pure rfl rfl

theorem munmap_tracks (held : Multiset Piece) (id : Nat) :
    Tracks R s (held + pieces id 1) (fun _ => held) (fun _ => ()) .skip (munmap id) (pure ()) :=
  tracks_release R s held id

theorem munmap_page_tracks (id : Nat) :
    Tracks R s (pieces id 1) (fun _ => 0) (fun _ => ()) .skip (munmap id) (pure ()) :=
  (Multiset.zero_add (pieces id 1)) ▸ munmap_tracks 0 id

theorem loadBytes_tracks (held : Multiset Piece) (pages : Nat) (d : U32) (n : Nat) :
    Tracks R s held (fun _ => held) (fun _ => ()) ⟨True, d.toNat + n ≤ xcPageSize * pages, False⟩
      (loadBytes pages d n) (pure ()) :=
  tracks_load R s held _ _ _

theorem xaMmapMfn_tracks (held : Multiset Piece) (prot mfn : U32) :
    Tracks R s held (fun m => held + requestPieces 1 m) (Option.map Prod.snd) .skip
      (xaMmapMfn h p prot mfn) (pure (XenAccess.xaMmapMfn h p prot mfn)) :=
  mapPages_tracks held 1 _

theorem xcMapForeignBatch_tracks (held : Multiset Piece) (prot : U32) (pages : Nat) (arr : Page)
    (n : U32) :
    Tracks R s held (fun m => held + requestPieces (batchPages n) m) (Option.map Prod.snd)
      ⟨True, 4 * n.toNat ≤ xcPageSize * pages, False⟩ (xcMapForeignBatch h prot pages arr n)
      (pure (h.xcMapForeignBatch prot (frameNumbers arr n))) := by
  refine ((loadBytes_tracks held pages 0 (4 * n.toNat)).bind_skip fun _ _ =>
    mapPages_tracks held _ _).congr fun _ => ?_
  exact Verdict.eq_of_iff .rfl (by simp) .rfl

/-! ## Building the table -/

/-- The rules while the table is built: nothing is asked of the store. -/
def buildRules (h : Host) (p : XaParams) : Rules XaState (Option SavedTable) :=
  { rules h p with clean := fun _ => True, inRange := fun _ => True }

/-- What building the table does well, and the entry read from it. -/
def buildVerdict (h : Host) (p : XaParams) (pfn : U32) : Verdict where
  clean := ∀ r, frameList h p = some r → batchPages (frameListSize r.1) = 1
  inRange := ((∀ r, frameListList h p = some r → 4 * (frameListSize r.1).toNat ≤ xcPageSize) ∧
    ∀ r, frameList h p = some r →
      4 * (tableSize r.1).toNat ≤ xcPageSize * batchPages (frameListSize r.1)) ∧ TableHas h p pfn
  uses := True

/-- `munmap` of a batch. -/
theorem munmap_batch_tracks (held : Multiset Piece) (id : Nat) (n : U32) :
    Tracks R s (held + pieces id (batchPages n)) (fun _ => held) (fun _ => ())
      ⟨batchPages n = 1, True, False⟩ (munmap id) (pure ()) := by
  obtain ⟨k, hk⟩ : ∃ k, batchPages n = k + 1 := ⟨batchPages n - 1, by rw [batchPages]; omega⟩
  rw [hk]
  refine (tracks_release_first R s held id k).congr fun _ => ?_
  exact Verdict.eq_of_iff (by omega) .rfl .rfl

/-- The three pages that the building of the table unmaps at its end. -/
theorem munmap_lists_tracks (a b c : Nat) (n mfn : U32) :
    Tracks R s (pieces a 1 + pieces b 1 + pieces c (batchPages n)) (fun _ => 0) id
      ⟨batchPages n = 1, True, False⟩
      (do
        munmap a
        munmap b
        munmap c
        return mfn)
      (pure mfn) := by
  have hab : pieces a 1 + pieces b 1 + pieces c (batchPages n) =
      0 + pieces c (batchPages n) + pieces b 1 + pieces a 1 := by abel
  rw [hab]
  refine (munmap_tracks _ a).skip_bind fun _ _ => ?_
  refine (munmap_tracks _ b).skip_bind fun _ _ => ?_
  exact (munmap_batch_tracks 0 c n).bind_skip fun _ _ => return_tracks mfn

/-- While the table is built it does not matter which steps use the store. -/
theorem tracks_uses {α β : Type} {π : α → β} {v : Verdict} {x : TraceM α} {y : XaM β}
    {taken : Multiset Piece} {given : α → Multiset Piece} {C D : Prop}
    (hx : Tracks (buildRules h p) s taken given π v x y) (hclean : v.clean ↔ C)
    (hrange : v.inRange ↔ D) : Tracks (buildRules h p) s taken given π ⟨C, D, True⟩ x y :=
  (hx.weaken_uses (fun _ => trivial) (fun _ => trivial) True fun _ => trivial).congr fun _ =>
    Verdict.eq_of_iff hclean hrange .rfl

theorem munmap_two_tracks (a b : Nat) (mfn : U32) :
    Tracks R s (pieces a 1 + pieces b 1) (fun _ => 0) id .skip
      (do
        munmap a
        munmap b
        return mfn)
      (pure mfn) := by
  have hab : pieces a 1 + pieces b 1 = 0 + pieces b 1 + pieces a 1 := by abel
  rw [hab]
  refine (munmap_tracks _ a).skip_bind fun _ _ => ?_
  exact (munmap_tracks 0 b).skip_bind fun _ _ => return_tracks mfn

theorem mapTable_tracks {nr : U32} (shinfo arr : Nat × Page) (pfn : U32)
    (hlist : frameListList h p = some (nr, arr.2)) :
    Tracks (buildRules h p) s (pieces shinfo.1 1 + pieces arr.1 1) (fun _ => 0) id
      (buildVerdict h p pfn) (mapTable h shinfo arr nr pfn)
      (pure (((pfnTable h p).map fun table => table.memory.u32 (4 * pfn)).getD (-1))) := by
  have hmap := frameList_of_some hlist
  let rest : Verdict :=
    ⟨(buildVerdict h p pfn).clean, (∀ r, frameList h p = some r →
      4 * (tableSize r.1).toNat ≤ xcPageSize * batchPages (frameListSize r.1)) ∧
        TableHas h p pfn, True⟩
  refine tracks_uses ((xcMapForeignBatch_tracks _ protRead 1 arr.2
    (frameListSize nr)).pure_bind (w := rest) fun c hc => ?_) ?_ ?_
  · rw [← hc] at hmap
    cases c with
    | none =>
      have htable := pfnTable_of_none hmap
      rw [htable]
      refine tracks_uses (munmap_two_tracks shinfo.1 arr.1 _) ?_ ?_
      · simp [buildVerdict, Verdict.skip, hmap]
      · simp [Verdict.skip, TableHas, hmap, htable]
    | some list =>
      have htable := pfnTable_of_some hmap
      let last : Verdict := ⟨batchPages (frameListSize nr) = 1, TableHas h p pfn, True⟩
      refine tracks_uses ((xcMapForeignBatch_tracks _ protRead _ list.2
        (tableSize nr)).pure_bind (w := last) fun d hd => ?_) ?_ ?_
      · rw [← hd] at htable
        cases d with
        | none =>
          rw [htable]
          simp only [requestPieces, add_zero]
          refine tracks_uses (munmap_lists_tracks shinfo.1 arr.1 list.1 (frameListSize nr) _) ?_ ?_
          · exact .rfl
          · simp [TableHas, htable]
        | some table =>
          rw [htable]
          have hfits : (buildRules h p).fits
              (some ⟨batchPages (tableSize nr), table.2⟩) := by
            intro table' ht
            rw [htable, ← ht]
            rfl
          refine tracks_uses ((tracks_keep (fun _ => trivial) (fun _ => trivial) _ table.1
            (batchPages (tableSize nr)) hfits).pure_bind fun _ _ =>
              (loadBytes_tracks _ (batchPages (tableSize nr)) (4 * pfn) 4).pure_bind fun _ _ =>
                munmap_lists_tracks shinfo.1 arr.1 list.1 (frameListSize nr) _) ?_ ?_
          · simp [Verdict.seq]
          · simp [Verdict.seq, TableHas, htable]
      · simp [Verdict.seq, last, buildVerdict, hmap]
      · simp [Verdict.seq, last, hmap]
  · simp [Verdict.seq, rest, buildVerdict]
  · simp [Verdict.seq, rest, hlist, and_assoc]

theorem buildTable_tracks (hhvm : p.hvm = false) (pfn : U32) :
    Tracks (buildRules h p) s 0 (fun _ => 0) id (buildVerdict h p pfn) (buildTable h p pfn)
      (pure (XenAccess.helperPfnToMfn h p pfn)) := by
  rw [helperPfnToMfn_eq h p hhvm]
  refine (xaMmapMfn_tracks 0 protRead p.sharedInfoFrame).skip_bind fun a ha => ?_
  cases a with
  | none =>
    have hnone : XenAccess.xaMmapMfn h p protRead p.sharedInfoFrame = none := ha.symm
    have hlist : frameListList h p = none := by rw [frameListList, hnone]; rfl
    have hframes := frameList_of_none hlist
    have htable := pfnTable_of_none hframes
    rw [htable]
    refine tracks_uses (return_tracks _) ?_ ?_
    · simp [Verdict.skip, hframes]
    · simp [Verdict.skip, TableHas, hlist, hframes, htable]
  | some shinfo =>
    refine (xaMmapMfn_tracks _ protRead (h.sharedFrameListList shinfo.2)).skip_bind fun b hb => ?_
    cases b with
    | none =>
      have hlist : frameListList h p = none := by
        rw [frameListList, ← ha, Option.map_some, Option.bind_eq_bind, Option.bind_some, ← hb]
        rfl
      have hframes := frameList_of_none hlist
      have htable := pfnTable_of_none hframes
      rw [htable]
      refine tracks_uses ((munmap_tracks _ shinfo.1).skip_bind fun _ _ => return_tracks _) ?_ ?_
      · simp [Verdict.skip, hframes]
      · simp [Verdict.skip, TableHas, hlist, hframes, htable]
    | some arr =>
      have hlist : frameListList h p = some (nrPfns h p shinfo.2, arr.2) := by
        rw [frameListList, ← ha, Option.map_some, Option.bind_eq_bind, Option.bind_some, ← hb]
        rfl
      exact (Multiset.zero_add (pieces shinfo.1 1)).symm ▸ mapTable_tracks shinfo arr pfn hlist

/-! ## Pseudo-physical frames -/

/-- The table has an entry for a frame that is looked up there. -/
def FrameIn (h : Host) (p : XaParams) (pfn : U32) : Prop :=
  p.mode = .xen → p.hvm = false → TableHas h p pfn

theorem rules_clean_of_not (hnot : ¬(p.mode = .xen ∧ p.hvm = false)) (t : Option SavedTable) :
    (rules h p).clean t := fun hbuild => absurd ⟨hbuild.1, hbuild.2.1⟩ hnot

theorem rules_inRange_of_not (hnot : ¬(p.mode = .xen ∧ p.hvm = false)) (t : Option SavedTable) :
    (rules h p).inRange t := fun hbuild => absurd ⟨hbuild.1, hbuild.2.1⟩ hnot

/-- Frames that are not looked up in the table. -/
theorem return_pfn_tracks (hnot : ¬(p.mode = .xen ∧ p.hvm = false)) (pfn : U32) :
    Tracks (rules h p) s 0 (fun _ => 0) id ⟨True, FrameIn h p pfn, True⟩ (pure pfn : TraceM U32)
      (pure pfn) := by
  refine ((return_tracks pfn).weaken_uses (rules_clean_of_not hnot) (rules_inRange_of_not hnot) True
    fun _ => trivial).congr fun _ => Verdict.eq_of_iff .rfl ?_ .rfl
  exact iff_of_true trivial fun hmode hhvm => absurd ⟨hmode, hhvm⟩ hnot

/-- A frame looked up in the table that the instance has. -/
theorem savedTable_tracks {table : SavedTable} (htable : pfnTable h p = some table) (pfn : U32) :
    Tracks (buildRules h p) s 0 (fun _ => 0) id ⟨True, TableHas h p pfn, False⟩
      (do
        loadBytes table.pages (4 * pfn) 4
        return table.memory.u32 (4 * pfn))
      (pure (table.memory.u32 (4 * pfn))) := by
  refine ((loadBytes_tracks 0 table.pages (4 * pfn) 4).bind_skip fun _ _ =>
    return_tracks _).congr fun _ => ?_
  exact Verdict.eq_of_iff .rfl (by simp [TableHas, htable]) .rfl

theorem helperPfnToMfn_tracks (hmode : p.mode = .xen) (pfn : U32) :
    Tracks (rules h p) s 0 (fun _ => 0) id ⟨True, FrameIn h p pfn, True⟩ (helperPfnToMfn h p pfn)
      (pure (XenAccess.helperPfnToMfn h p pfn)) := by
  by_cases hhvm : p.hvm = true
  · rw [helperPfnToMfn, if_pos hhvm, XenAccess.helperPfnToMfn, if_pos hhvm]
    exact return_pfn_tracks (by simp [hhvm]) pfn
  · have hhvm' : p.hvm = false := by simpa using hhvm
    have hframe : FrameIn h p pfn ↔ TableHas h p pfn := ⟨fun hin => hin hmode hhvm', fun hin _ _ => hin⟩
    rw [helperPfnToMfn, if_neg hhvm]
    intro L hL hs hfits
    refine TracksFrom.rejudge (R := buildRules h p) (v := ⟨(rules h p).clean L.store,
      TableHas h p pfn ∧ (rules h p).inRange L.store, L.store = none⟩) ?_ rfl rfl ?_ ?_ ?_ hL hs hfits
    · cases hstore : L.store with
      | some table =>
        have htable : pfnTable h p = some table := hfits table hstore
        rw [helperPfnToMfn_eq h p hhvm', htable]
        refine tracksFrom_getStore_bind hstore ((savedTable_tracks htable pfn).congr (fun _ => ?_) L)
        refine Verdict.eq_of_iff ?_ ?_ (by simp)
        · exact iff_of_true trivial fun hb => by cases hb.2.2
        · exact (and_iff_left fun hb => by cases hb.2.2).symm
      | none =>
        refine tracksFrom_getStore_bind hstore ((buildTable_tracks hhvm' pfn).congr (fun _ => ?_) L)
        have hbuild : BuildsTable p none := ⟨hmode, hhvm', rfl⟩
        refine Verdict.eq_of_iff ?_ ?_ (by simp [buildVerdict])
        · exact ⟨fun hc _ => hc, fun hc => hc hbuild⟩
        · exact ⟨fun hr => ⟨hr.2, fun _ => hr.1⟩, fun hr => ⟨hr.2 hbuild, hr.1⟩⟩
    · simp [buildRules]
    · simp [buildRules, hframe]
    · intro t hst
      have hsame {C : Option SavedTable → Prop} (hC : ∀ table, C (some table))
          (hstart : C L.store) : C t := by
        cases t with
        | some table => exact hC table
        | none =>
          by_cases hnone : L.store = none
          · rwa [hnone] at hstart
          · rwa [hst.same hnone]
      refine ⟨hst.fits, hsame ?_, hsame ?_, fun hu => absurd trivial hu⟩
      · intro table hb
        cases hb.2.2
      · intro table hb
        cases hb.2.2

theorem xaMapPage_tracks (prot frameNum : U32) :
    Tracks R s 0 (requestPieces 1) (Option.map Prod.snd) .skip (xaMapPage h p prot frameNum)
      (pure (XenAccess.xaMapPage h p prot frameNum)) := by
  have hmap := mapPages_tracks (R := R) (s := s) 0 1 (XenAccess.xaMapPage h p prot frameNum)
  simp only [zero_add] at hmap
  exact hmap

/-- The page that the outcome of `xa_mmap_pfn` holds. -/
def framePieces : Option (Nat × U32 × Page) → Multiset Piece
  | none => 0
  | some m => pieces m.1 1

theorem xaMmapPfn_tracks (prot pfn : U32) :
    Tracks (rules h p) s 0 framePieces (Option.map Prod.snd) ⟨True, FrameIn h p pfn, True⟩
      (xaMmapPfn h p prot pfn) (pure (XenAccess.xaMmapPfn h p prot pfn)) := by
  have hmap (mfn : U32) : Tracks (rules h p) s 0 framePieces (Option.map Prod.snd) .skip
      (if mfn = -1 then pure none
        else do return (← xaMapPage h p prot mfn).map fun m => (m.1, mfn, m.2))
      (pure (if mfn = -1 then none
        else (XenAccess.xaMapPage h p prot mfn).map fun memory => (mfn, memory))) := by
    split
    · exact tracks_pure rfl rfl
    · refine (xaMapPage_tracks prot mfn).skip_bind fun m hm => ?_
      rw [← hm]
      cases m with
      | none => exact tracks_pure rfl rfl
      | some m => exact tracks_pure rfl rfl
  simp only [xaMmapPfn, XenAccess.xaMmapPfn]
  cases hmode : p.mode with
  | xen =>
    refine (helperPfnToMfn_tracks hmode pfn).bind_skip fun mfn hmfn => ?_
    obtain rfl : mfn = XenAccess.helperPfnToMfn h p pfn := hmfn
    exact hmap _
  | file =>
    refine (return_pfn_tracks (by simp [hmode]) pfn).bind_skip fun mfn hmfn => ?_
    obtain rfl : mfn = pfn := hmfn
    exact hmap _

/-! ## Accesses -/

/-- The page that an access holds. -/
def accessPieces : Option Mapped → Multiset Piece
  | none => 0
  | some m => pieces m.id 1

theorem xaAccessPa_tracks (physAddress prot : U32) :
    Tracks (rules h p) s 0 accessPieces (Option.map Mapped.access)
      ⟨True, FrameIn h p (physAddress >>> p.pageShift), True⟩ (xaAccessPa h p physAddress prot)
      (pure (XenAccess.xaAccessPa h p physAddress prot)) := by
  refine (xaMmapPfn_tracks prot (physAddress >>> p.pageShift)).bind_skip fun m hm => ?_
  rw [XenAccess.xaAccessPa, ← hm]
  cases m with
  | none => exact tracks_pure rfl rfl
  | some m => exact tracks_pure rfl rfl

theorem xaAccessMa_tracks (machAddress prot : U32) :
    Tracks R s 0 accessPieces (Option.map Mapped.access) .skip (xaAccessMa h p machAddress prot)
      (pure (XenAccess.xaAccessMa h p machAddress prot)) := by
  refine (xaMapPage_tracks prot (machAddress >>> p.pageShift)).skip_bind fun m hm => ?_
  rw [XenAccess.xaAccessMa, XenAccess.xaMmapMfn, ← hm]
  cases m with
  | none => exact tracks_pure rfl rfl
  | some m => exact tracks_pure rfl rfl

/-! ## Readers -/

/-- `n` bytes at a displacement lie in one page. -/
def InMapping (d : U32) (n : Nat) : Prop := d.toNat + n ≤ xcPageSize

instance (d : U32) (n : Nat) : Decidable (InMapping d n) := inferInstanceAs (Decidable (_ ≤ _))

/-- `n` bytes at an access lie in its page, if it is one. -/
def ValueIn (n : Nat) (a : Option Access) : Prop := ∀ b, a = some b → InMapping b.offset n

theorem loadPage_tracks (held : Multiset Piece) (d : U32) (n : Nat) :
    Tracks R s held (fun _ => held) (fun _ => ()) ⟨True, InMapping d n, False⟩ (loadBytes 1 d n)
      (pure ()) :=
  loadBytes_tracks held 1 d n

theorem readValue_tracks {α : Type} (n : Nat) (value : Access → α) (m : Option Mapped) :
    Tracks R s (accessPieces m) (fun _ => 0) id ⟨True, ValueIn n (m.map Mapped.access), False⟩
      (readValue n value m) (pure ((m.map Mapped.access).map value)) := by
  cases m with
  | none =>
    refine (return_tracks none).congr fun _ => Verdict.eq_of_iff .rfl ?_ .rfl
    exact iff_of_true trivial fun b hb => by cases hb
  | some m =>
    refine ((loadPage_tracks _ m.access.offset n).bind_skip fun _ _ => ?_).congr fun _ => ?_
    · exact (munmap_page_tracks m.id).skip_bind fun _ _ => return_tracks _
    · exact Verdict.eq_of_iff .rfl (by simp [ValueIn]) .rfl

end XenAccess.Traced
