import XenAccess.Maps.Range

/-!
# A range and its pages

`xa_access_user_va` takes an address that is translated to `0` for one that is not mapped.
`xa_access_user_va_range` looks up each page in the same tables, but tests the virtual address
of the page for `0` and not what the lookup gives, and the number of pages that it looks up
does not depend on where in its page the range begins. `rangeAgrees_iff` says when it maps the
pages of a range as each is mapped on its own.
-/

namespace XenAccess

open Paging Prog

variable {h : Host} {p : XaParams} {fuel : Nat} {s : XaState} {pid : U32}

/-! ## The pages of a range -/

/-- The number of pages that the bytes of a range lie in. -/
def rangePageCount (v size : U32) : Nat :=
  if size = 0 then 0 else (v.toNat % 4096 + size.toNat - 1) / 4096 + 1

/-- These are the pages from the one of the first byte on. -/
theorem lt_rangePageCount_iff {v size : U32} {i : Nat} :
    i < rangePageCount v size ↔ ∃ j < size.toNat, (v.toNat + j) / 4096 = v.toNat / 4096 + i := by
  rw [rangePageCount]
  split
  · rename_i hsize
    subst hsize
    simp
  · rename_i hsize
    have hpos : size.toNat ≠ 0 := fun hzero => hsize (BitVec.eq_of_toNat_eq hzero)
    constructor
    · intro hi
      exact ⟨i * 4096 - v.toNat % 4096, by omega, by omega⟩
    · rintro ⟨j, hj, hpage⟩
      omega

theorem rangePageCount_eq_zero_iff {v size : U32} : rangePageCount v size = 0 ↔ size = 0 := by
  constructor
  · intro hzero
    by_contra hsize
    have hpos : size.toNat ≠ 0 := fun hzero => hsize (BitVec.eq_of_toNat_eq hzero)
    have hfirst : 0 < rangePageCount v size :=
      lt_rangePageCount_iff.mpr ⟨0, by omega, by rw [Nat.add_zero, Nat.add_zero]⟩
    omega
  · intro hsize
    exact if_pos hsize

/-- Where the pages that are looked up are all of them. -/
theorem rangePageCount_le_iff {v size : U32} :
    rangePageCount v size ≤ size.toNat / 4096 + 1 ↔
      v.toNat % 4096 + size.toNat % 4096 ≤ 4096 := by
  rw [rangePageCount]
  split
  · rename_i hsize
    subst hsize
    exact iff_of_true (by omega) (by show v.toNat % 4096 + 0 ≤ 4096; omega)
  · rename_i hsize
    have hpos : size.toNat ≠ 0 := fun hzero => hsize (BitVec.eq_of_toNat_eq hzero)
    omega

/-- One of the pages that are looked up is the page at address `0`: the first one, or one
behind the end of the address space. -/
def LooksUpPageZero (v size : U32) : Prop :=
  v.toNat / 4096 = 0 ∨ 2 ^ 20 ≤ v.toNat / 4096 + size.toNat / 4096

instance (v size : U32) : Decidable (LooksUpPageZero v size) :=
  inferInstanceAs (Decidable (_ ∨ _))

theorem pageAddress_eq_zero_iff (hps : p.pageSize = 4096) {v : U32} {i : Nat} :
    pageAddress p (pageBase p v) i = 0 ↔ (v.toNat / 4096 + i) % 2 ^ 20 = 0 := by
  have hbase := pageBase_toNat hps v
  have haddr : (pageAddress p (pageBase p v) i).toNat =
      (v.toNat / 4096 + i) % 2 ^ 20 * 4096 := by
    unfold pageAddress
    rw [hps, BitVec.toNat_add, hbase, BitVec.toNat_mul, BitVec.toNat_ofNat]
    show (v.toNat / 4096 * 4096 + i % 2 ^ 32 * 4096 % 2 ^ 32) % 2 ^ 32 = _
    omega
  rw [← BitVec.toNat_inj, haddr]
  show (v.toNat / 4096 + i) % 2 ^ 20 * 4096 = 0 ↔ _
  omega

theorem looksUpPageZero_iff (hps : p.pageSize = 4096) {v size : U32} :
    LooksUpPageZero v size ↔
      ∃ i < size.toNat / 4096 + 1, pageAddress p (pageBase p v) i = 0 := by
  have hlt := v.isLt
  simp only [pageAddress_eq_zero_iff hps, LooksUpPageZero]
  constructor
  · rintro (hfirst | hlast)
    · exact ⟨0, by omega, by omega⟩
    · exact ⟨2 ^ 20 - v.toNat / 4096, by omega, by omega⟩
  · rintro ⟨i, hi, hzero⟩
    omega

/-! ## Page by page -/

/-- The machine addresses of the pages of a range, each translated on its own. -/
def translatePages (h : Host) (p : XaParams) (fuel : Nat) (pid start : U32) (numPages : Nat) :
    Except Fault (List U32) :=
  (List.range numPages).mapM fun i => refTranslate h p fuel pid (pageAddress p start i)

/-- There is a page directory for the process; the kernel always has one. -/
def hasDirectory (h : Host) (p : XaParams) (fuel : Nat) (pid : U32) : Except Fault Bool :=
  if pid = 0 then .ok true else (refPidToPgd h p fuel pid).map (· != 0)

/-- The frames of the pages of a range, each translated on its own: none if one of them is not
translated, or if there is no page directory. -/
def refRangeFrames (h : Host) (p : XaParams) (fuel : Nat) (virtAddress size pid : U32) :
    Except Fault (Option (List U32)) := do
  let found ← hasDirectory h p fuel pid
  let addresses ← translatePages h p fuel pid (pageBase p virtAddress)
    (rangePageCount virtAddress size)
  if found ∧ 0 ∉ addresses then return some (addresses.map (· >>> p.pageShift))
  else return none

/-- The translation of a single address once the page directory is known. Only the one of a
process is tested for `0`. -/
def singleLookup (h : Host) (p : XaParams) (pid pgd virtAddress : U32) : U32 :=
  if pid = 0 then xaPagetableLookup h p pgd virtAddress else lookupBelow h p pgd virtAddress

theorem singleLookup_of_ne_zero {pgd u : U32} (hu : singleLookup h p pid pgd u ≠ 0) :
    xaPagetableLookup h p pgd u = singleLookup h p pid pgd u := by
  rw [singleLookup] at hu ⊢
  split at hu
  · rename_i hpid
    rw [if_pos hpid]
  · rename_i hpid
    rw [if_neg hpid, lookupBelow]
    rw [lookupBelow] at hu
    split at hu
    · rename_i hpgd
      rw [if_pos hpgd]
    · exact absurd rfl hu

/-- The page directory of the range serves every single page of it. Where it is not found in
time, no page is translated in time. -/
theorem rangePgd_translates (hps : p.pageSize = 4096) (hs : Sound h p fuel s) (pid : U32) :
    (∃ pgd t, rangePgd h fuel pid s = .ok (pgd, t) ∧
        hasDirectory h p fuel pid = .ok (pid = 0 || pgd != 0) ∧
        ∀ u, refTranslate h p fuel pid u = .ok (singleLookup h p pid pgd u)) ∨
      ∃ e, rangePgd h fuel pid s = .error e ∧ hasDirectory h p fuel pid = .error e := by
  by_cases hpid : pid = 0
  · subst hpid
    refine Or.inl ⟨xaCurrentCr3 h p 0, s, ?_, rfl, fun u => ?_⟩
    · rw [← hs.params]
      rfl
    · rw [refTranslate, if_pos rfl, singleLookup, if_pos rfl, xaTranslateKv2p]
  · have hfollows := xaPidToPgd_follows hps hs pid
    have hrange : rangePgd h fuel pid s = xaPidToPgd h fuel pid s := by
      rw [rangePgd, if_pos (by simpa using hpid)]
    cases hrun : xaPidToPgd h fuel pid s with
    | error e =>
      rw [Follows, hrun] at hfollows
      refine Or.inr ⟨e, hrange.trans hrun, ?_⟩
      rw [hasDirectory, if_neg hpid, hfollows]
      rfl
    | ok r =>
      obtain ⟨hpgd, -⟩ := follows_ok hfollows hrun
      refine Or.inl ⟨r.1, r.2, hrange.trans hrun, ?_, fun u => ?_⟩
      · rw [hasDirectory, if_neg hpid, hpgd, decide_eq_false hpid, Bool.false_or]
        rfl
      · rw [refTranslate, if_neg hpid, hpgd, singleLookup, if_neg hpid]
        rfl

/-! ## Agreement -/

/-- One of the pages of the range is not translated, or there is no page directory. -/
def RangeFails (h : Host) (p : XaParams) (fuel : Nat) (v size pid : U32) : Prop :=
  hasDirectory h p fuel pid = .ok false ∨
    ∃ i < rangePageCount v size,
      refTranslate h p fuel pid (pageAddress p (pageBase p v) i) = .ok 0

/-- What is handed out for the frames of the pages of a range: `NULL` if there are none because
a page fails; else a mapping begins with them, and there is one if the hypervisor maps them. -/
def MapsFrames (xc : U32 → List U32 → Option Page) (prot offset : U32) :
    Option (List U32) → Option RangeAccess → Prop
  | none, r => r = none
  | some frames, r =>
    (∀ a, r = some a →
      frames <+: a.pfns ∧ xc prot a.pfns = some a.memory ∧ a.offset = offset) ∧
    (frames ≠ [] → (xc prot frames).isSome → r.isSome)

/-- The access to the range maps its pages as each is mapped on its own. -/
def RangeAgrees (h : Host) (xc : U32 → List U32 → Option Page) (fuel : Nat) (s : XaState)
    (v size pid prot : U32) : Prop :=
  match refRangeFrames h s.toXaParams fuel v size pid with
  | .error e => xaAccessUserVaRange h xc fuel v size pid prot s = .error e
  | .ok frames => ∃ r t, xaAccessUserVaRange h xc fuel v size pid prot s = .ok (r, t) ∧
      MapsFrames xc prot (v - pageBase s.toXaParams v) frames r

/-- The access gives `NULL`: for the page at address `0`, or because the hypervisor does not map
the frames that are looked up. -/
def RangeNull (h : Host) (xc : U32 → List U32 → Option Page) (fuel : Nat) (s : XaState)
    (v size pid prot : U32) : Prop :=
  LooksUpPageZero v size ∨ RangeRefused h xc fuel s v size pid prot

/-- The hypervisor does not map the frames of the pages of the range. -/
def PagesRefused (h : Host) (xc : U32 → List U32 → Option Page) (fuel : Nat) (s : XaState)
    (v size pid prot : U32) : Prop :=
  ∀ pgd t, rangePgd h fuel pid s = .ok (pgd, t) →
    xc prot (pageFrames h s.toXaParams pgd (pageBase s.toXaParams v) (rangePageCount v size)) =
      none

/-- There is one page directory to speak of. -/
theorem forall_rangePgd_iff {P : U32 → Prop} {pgd : U32} {t : XaState}
    (hpgd : rangePgd h fuel pid s = .ok (pgd, t)) :
    (∀ pgd' t', rangePgd h fuel pid s = .ok (pgd', t') → P pgd') ↔ P pgd := by
  constructor
  · intro hall
    exact hall pgd t hpgd
  · intro hP pgd' t' hpgd'
    cases hpgd.symm.trans hpgd'
    exact hP

theorem xaAccessUserVaRange_of_pgd (xc : U32 → List U32 → Option Page) (v size prot : U32)
    (hps : s.pageSize = 4096) {pgd : U32} {t : XaState}
    (hpgd : rangePgd h fuel pid s = .ok (pgd, t)) :
    ∃ r, xaAccessUserVaRange h xc fuel v size pid prot s = .ok (r, t) ∧
      (r = none ↔ RangeNull h xc fuel s v size pid prot) ∧
      ∀ a, r = some a →
        a.pfns = pageFrames h s.toXaParams pgd (pageBase s.toXaParams v) (size.toNat / 4096 + 1) ∧
          xc prot a.pfns = some a.memory ∧ a.offset = v - pageBase s.toXaParams v := by
  have hrefused : RangeRefused h xc fuel s v size pid prot ↔
      xc prot (pageFrames h s.toXaParams pgd (pageBase s.toXaParams v)
        (size.toNat / 4096 + 1)) = none := forall_rangePgd_iff hpgd
  refine ⟨_, xaAccessUserVaRange_eq hpgd, ?_, fun a ha => ?_⟩
  · rw [RangeNull, looksUpPageZero_iff (p := s.toXaParams) hps, hrefused, numPages_toNat hps]
    by_cases hzero : ∃ i < size.toNat / 4096 + 1,
        pageAddress s.toXaParams (pageBase s.toXaParams v) i = 0
    · refine iff_of_true ?_ (Or.inl hzero)
      obtain ⟨i, hi, hi0⟩ := hzero
      rw [Option.bind_eq_none_iff]
      intro pfns hpfns
      exact absurd hi0 ((rangePfns_eq_some_iff.mp hpfns).1 i hi)
    · have hne : ∀ i < size.toNat / 4096 + 1,
          pageAddress s.toXaParams (pageBase s.toXaParams v) i ≠ 0 :=
        fun i hi heq => hzero ⟨i, hi, heq⟩
      rw [rangePfns_eq_some_iff.mpr ⟨hne, rfl⟩, Option.bind_some, Option.map_eq_none_iff,
        or_iff_right hzero]
  · have hrun : xaAccessUserVaRange h xc fuel v size pid prot s = .ok (some a, t) := by
      rw [xaAccessUserVaRange_eq hpgd, ha]
    obtain ⟨-, hpfns, hmemory, hoffset, -⟩ := (xaAccessUserVaRange_eq_some_iff hps hpgd).mp hrun
    exact ⟨hpfns, hmemory, hoffset⟩

theorem refRangeFrames_of_pgd (v size : U32) {pgd : U32}
    (hdirectory : hasDirectory h p fuel pid = .ok (pid = 0 || pgd != 0))
    (htrans : ∀ u, refTranslate h p fuel pid u = .ok (singleLookup h p pid pgd u)) :
    (RangeFails h p fuel v size pid → refRangeFrames h p fuel v size pid = .ok none) ∧
      (¬RangeFails h p fuel v size pid → refRangeFrames h p fuel v size pid =
        .ok (some (pageFrames h p pgd (pageBase p v) (rangePageCount v size)))) := by
  let single (i : Nat) : U32 := singleLookup h p pid pgd (pageAddress p (pageBase p v) i)
  have haddresses : translatePages h p fuel pid (pageBase p v) (rangePageCount v size) =
      .ok ((List.range (rangePageCount v size)).map single) := by
    rw [translatePages, funext fun i => htrans (pageAddress p (pageBase p v) i)]
    exact List.mapM_pure
  have hfails : RangeFails h p fuel v size pid ↔
      ¬((pid = 0 || pgd != 0) = true ∧ 0 ∉ (List.range (rangePageCount v size)).map single) := by
    rw [RangeFails, hdirectory, not_and_or, not_not]
    simp only [htrans, Except.ok.injEq, List.mem_map, List.mem_range, single, Bool.not_eq_true]
  rw [refRangeFrames, except_bind_of_ok hdirectory, except_bind_of_ok haddresses]
  constructor
  · intro hf
    rw [if_neg (hfails.mp hf)]
    rfl
  · intro hf
    rw [if_pos (not_not.mp fun hnot => hf (hfails.mpr hnot))]
    have hframes : ((List.range (rangePageCount v size)).map single).map (· >>> p.pageShift) =
        pageFrames h p pgd (pageBase p v) (rangePageCount v size) := by
      rw [pageFrames, List.map_map]
      refine List.map_congr_left fun i hi => congrArg (· >>> p.pageShift) ?_
      refine (singleLookup_of_ne_zero fun hzero => hf (Or.inr ⟨i, List.mem_range.mp hi, ?_⟩)).symm
      rw [htrans, hzero]
    rw [hframes]
    rfl

theorem pageFrames_prefix_iff {pgd start : U32} {m n : Nat} :
    pageFrames h p pgd start m <+: pageFrames h p pgd start n ↔ m ≤ n := by
  constructor
  · intro hprefix
    simpa [pageFrames] using hprefix.length_le
  · intro hle
    obtain ⟨k, rfl⟩ := Nat.exists_eq_add_of_le hle
    rw [pageFrames, pageFrames, List.range_add, List.map_append]
    exact List.prefix_append _ _

/-- Agreement once the page directory is known. -/
theorem rangeAgrees_of_pgd (xc : U32 → List U32 → Option Page) (v size prot : U32)
    (hps : s.pageSize = 4096) {pgd : U32} {t : XaState}
    (hpgd : rangePgd h fuel pid s = .ok (pgd, t))
    (hdirectory : hasDirectory h s.toXaParams fuel pid = .ok (pid = 0 || pgd != 0))
    (htrans : ∀ u, refTranslate h s.toXaParams fuel pid u =
      .ok (singleLookup h s.toXaParams pid pgd u)) :
    RangeAgrees h xc fuel s v size pid prot ↔
      (RangeNull h xc fuel s v size pid prot ∧
        (RangeFails h s.toXaParams fuel v size pid ∨ size = 0 ∨
          PagesRefused h xc fuel s v size pid prot)) ∨
      (¬RangeNull h xc fuel s v size pid prot ∧
        ¬RangeFails h s.toXaParams fuel v size pid ∧
          v.toNat % 4096 + size.toNat % 4096 ≤ 4096) := by
  obtain ⟨r, hcall, hnull, hsome⟩ := xaAccessUserVaRange_of_pgd xc v size prot hps hpgd
  obtain ⟨hfailed, hframes⟩ := refRangeFrames_of_pgd v size hdirectory htrans
  rw [← hnull]
  by_cases hf : RangeFails h s.toXaParams fuel v size pid
  · have hagrees : RangeAgrees h xc fuel s v size pid prot ↔ r = none := by
      simp [RangeAgrees, hfailed hf, hcall, MapsFrames]
    rw [hagrees]
    simp [hf]
  · have hrefused : PagesRefused h xc fuel s v size pid prot ↔
        xc prot (pageFrames h s.toXaParams pgd (pageBase s.toXaParams v)
          (rangePageCount v size)) = none := forall_rangePgd_iff hpgd
    have hagrees : RangeAgrees h xc fuel s v size pid prot ↔
        MapsFrames xc prot (v - pageBase s.toXaParams v) (some (pageFrames h s.toXaParams pgd
          (pageBase s.toXaParams v) (rangePageCount v size))) r := by
      simp [RangeAgrees, hframes hf, hcall]
    rw [hagrees, MapsFrames, hrefused]
    cases r with
    | none =>
      have hempty : pageFrames h s.toXaParams pgd (pageBase s.toXaParams v)
          (rangePageCount v size) = [] ↔ size = 0 := by
        rw [← rangePageCount_eq_zero_iff (v := v), ← List.length_eq_zero_iff]
        simp [pageFrames]
      simp [hf, hempty, Option.isSome_iff_ne_none, or_iff_not_imp_left]
    | some a =>
      obtain ⟨hpfns, hmemory, hoffset⟩ := hsome a rfl
      rw [hpfns] at hmemory
      simp only [Option.some.injEq, forall_eq', hoffset, hpfns, hmemory,
        pageFrames_prefix_iff, rangePageCount_le_iff]
      simp [hf]

/-- **When a range is mapped as its pages are.** In a state that calls reach from empty caches,
`xa_access_user_va` maps each page at its translation. The access to a range maps the frames of
its pages, and gives `NULL` if one of them is not translated or there is no page directory,
exactly in one of two cases. It gives `NULL`, and a page fails, there is no page in the range,
or the hypervisor does not map its frames either. Or it maps the pages that it looks up, none
of the range fails, and the parts of `v` and of `size` below a page fit into one page together,
so that no page of the range is left out. -/
theorem rangeAgrees_iff (h : Host) (xc : U32 → List U32 → Option Page) (fuel : Nat) (s₀ : XaState)
    (hps : s₀.pageSize = 4096) (calls : List Call) (s : XaState)
    (hrun : runCalls h fuel calls s₀.clear = .ok ((), s)) (v size pid prot : U32) :
    (∀ u, (xaAccessUserVa h fuel u pid prot s).map Prod.fst =
        (refTranslate h s.toXaParams fuel pid u).map
          fun m => accessTranslated h s.toXaParams m prot) ∧
      (RangeAgrees h xc fuel s v size pid prot ↔
        (RangeNull h xc fuel s v size pid prot ∧
          (RangeFails h s.toXaParams fuel v size pid ∨ size = 0 ∨
            PagesRefused h xc fuel s v size pid prot)) ∨
        (¬RangeNull h xc fuel s v size pid prot ∧
          ¬RangeFails h s.toXaParams fuel v size pid ∧
            v.toNat % 4096 + size.toNat % 4096 ≤ 4096)) := by
  have hs := runCalls_keeps hps calls _ _ _ (sound_clear s₀) hrun
  have hparams := hs.params
  rw [← hparams] at hs
  replace hps : s.toXaParams.pageSize = 4096 := hparams ▸ hps
  refine ⟨fun u => xaAccessUserVa_map hps hs u pid prot, ?_⟩
  rcases rangePgd_translates hps hs pid with
    ⟨pgd, t, hpgd, hdirectory, htrans⟩ | ⟨e, hpgd, hdirectory⟩
  · exact rangeAgrees_of_pgd xc v size prot hps hpgd hdirectory htrans
  · -- the walk of the task list does not end, for the range and for its pages
    refine iff_of_true ?_ (Or.inl ⟨Or.inr fun pgd t hrange => ?_, Or.inr (Or.inr ?_)⟩)
    · have hframes : refRangeFrames h s.toXaParams fuel v size pid = .error e := by
        rw [refRangeFrames, hdirectory]
        rfl
      rw [RangeAgrees, hframes]
      simp only
      rw [xaAccessUserVaRange, get_bind, bind_of_error hpgd]
    · cases hpgd.symm.trans hrange
    · intro pgd t hrange
      cases hpgd.symm.trans hrange

/-- Four pages of the kernel, after an access to one of them. -/
theorem taskState_rangeAgrees :
    ∃ s, runCalls (imageHost taskWords) 3 [.kernelVa 0xC0012345 1] taskState.clear = .ok ((), s) ∧
      RangeAgrees (imageHost taskWords) mapsAll 3 s 0xC0011345 0x3000 0 1 := by
  have hends : walkEnds (imageHost taskWords) taskState.toXaParams taskState.initTask 3
      taskState.initTask = true := by decide
  obtain ⟨_, s, hrun, hs⟩ := runCalls_sound rfl (fun pid => refPidToPgd_ok hends pid)
    [.kernelVa 0xC0012345 1] (sound_clear taskState)
  have hparams : s.toXaParams = taskState.toXaParams := hs.params
  refine ⟨s, hrun, (rangeAgrees_iff (imageHost taskWords) mapsAll 3 taskState rfl _ s hrun
    0xC0011345 0x3000 0 1).2.mpr (Or.inr ⟨?_, ?_, by decide⟩)⟩
  · rintro (hzero | hrefused)
    · exact absurd hzero (by decide)
    · cases hrefused (xaCurrentCr3 (imageHost taskWords) s.toXaParams 0) s rfl
  · rw [hparams, RangeFails]
    decide

/-- A page that is not mapped: the access to the page fails, the one to the range maps
frame `0`. And eight bytes across the end of a page, of which only the first page is mapped. -/
theorem taskState_not_rangeAgrees :
    runCalls (imageHost taskWords) 3 [] taskState.clear = .ok ((), taskState.clear) ∧
      xaAccessUserVa (imageHost taskWords) 3 0x1000 0 1 taskState.clear =
        .ok (none, taskState.clear) ∧
      (∃ a, xaAccessUserVaRange (imageHost taskWords) mapsAll 3 0x1000 1 0 1 taskState.clear =
        .ok (some a, taskState.clear) ∧ a.pfns = [0]) ∧
      ¬RangeAgrees (imageHost taskWords) mapsAll 3 taskState.clear 0x1000 1 0 1 ∧
      ¬RangeAgrees (imageHost taskWords) mapsAll 3 taskState.clear 0xC0011FFC 8 0 1 := by
  have hrange : xaAccessUserVaRange (imageHost taskWords) mapsAll 3 0x1000 1 0 1 taskState.clear =
      .ok (some ⟨[0], fun _ => 0, 0⟩, taskState.clear) := rfl
  have hpage : refRangeFrames (imageHost taskWords) taskState.clear.toXaParams 3 0x1000 1 0 =
      .ok none := rfl
  have hcross : refRangeFrames (imageHost taskWords) taskState.clear.toXaParams 3 0xC0011FFC 8 0 =
      .ok (some [0x11, 0x12]) := rfl
  have hshort : xaAccessUserVaRange (imageHost taskWords) mapsAll 3 0xC0011FFC 8 0 1
      taskState.clear = .ok (some ⟨[0x11], fun _ => 0, 0xFFC⟩, taskState.clear) := rfl
  refine ⟨rfl, rfl, ⟨_, hrange, rfl⟩, fun hagrees => ?_, fun hagrees => ?_⟩
  · rw [RangeAgrees, hpage, hrange] at hagrees
    obtain ⟨r, t, hr, hnone⟩ := hagrees
    cases hr
    cases hnone
  · rw [RangeAgrees, hcross, hshort] at hagrees
    obtain ⟨r, t, hr, hsome, -⟩ := hagrees
    cases hr
    exact absurd (hsome _ rfl).1 (by decide)

end XenAccess
