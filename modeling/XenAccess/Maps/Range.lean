import XenAccess.Cache.Protection
import XenAccess.Cache.Transparency

/-!
# The pages of a range

`xa_access_user_va_range` takes the number of pages from the size alone, one page more than
the full pages in it. `xaAccessUserVaRange_covers_iff` says for which addresses and sizes
these pages hold the range: an address late in its page needs one page more when the rest of
the size goes over the end of the last page.
-/

namespace XenAccess

open Paging Prog

variable {h : Host} {p : XaParams} {fuel : Nat} {s : XaState}

/-! ## Frames -/

theorem mapM_eq_some_iff {α β : Type} {f : α → Option β} {xs : List α} {ys : List β} :
    xs.mapM f = some ys ↔ xs.map f = ys.map some := by
  induction xs generalizing ys with
  | nil => cases ys <;> simp
  | cons x xs ih =>
    rw [List.mapM_cons]
    cases ys with
    | nil =>
      cases f x with
      | none => simp
      | some y => cases xs.mapM f <;> simp
    | cons y ys =>
      constructor
      · intro hsome
        obtain ⟨z, hz, hrest⟩ := Option.bind_eq_some_iff.mp hsome
        obtain ⟨zs, hzs, hend⟩ := Option.bind_eq_some_iff.mp hrest
        cases hend
        rw [List.map_cons, List.map_cons, hz, ih.mp hzs]
      · intro hmap
        rw [List.map_cons, List.map_cons, List.cons.injEq] at hmap
        rw [hmap.1, ih.mpr hmap.2]
        rfl

/-- The address of the `i`-th page. -/
def pageAddress (p : XaParams) (start : U32) (i : Nat) : U32 :=
  start + BitVec.ofNat 32 i * p.pageSize

/-- The frames of the pages of a range. -/
def pageFrames (h : Host) (p : XaParams) (pgd start : U32) (numPages : Nat) : List U32 :=
  (List.range numPages).map fun i => xaPagetableLookup h p pgd (pageAddress p start i) >>> p.pageShift

theorem rangePfns_eq_some_iff {pgd start : U32} {n : Nat} {pfns : List U32} :
    rangePfns h p pgd start n = some pfns ↔
      (∀ i < n, pageAddress p start i ≠ 0) ∧ pfns = pageFrames h p pgd start n := by
  unfold rangePfns
  rw [mapM_eq_some_iff]
  constructor
  · intro hmap
    have hne : ∀ i < n, pageAddress p start i ≠ 0 := by
      intro i hi hzero
      have hnone : rangePfn h p pgd start i = none := if_pos hzero
      have hmem : rangePfn h p pgd start i ∈ (List.range n).map (rangePfn h p pgd start) :=
        List.mem_map_of_mem (List.mem_range.mpr hi)
      rw [hmap, hnone] at hmem
      simp at hmem
    refine ⟨hne, ?_⟩
    apply List.map_injective_iff.mpr (Option.some_injective _)
    rw [← hmap, pageFrames, List.map_map]
    refine List.map_congr_left fun i hi => ?_
    exact if_neg (hne i (List.mem_range.mp hi))
  · rintro ⟨hne, rfl⟩
    rw [pageFrames, List.map_map]
    refine List.map_congr_left fun i hi => ?_
    exact if_neg (hne i (List.mem_range.mp hi))

theorem lookup_frame_congr (hshift : p.pageShift = 12) (pgd : U32) {u v : U32}
    (huv : SamePage 12 u v) :
    xaPagetableLookup h p pgd u >>> p.pageShift = xaPagetableLookup h p pgd v >>> p.pageShift := by
  have hu := xaPagetableLookup_translates h p pgd u
  have hv := xaPagetableLookup_translates h p pgd v
  rw [← huv] at hv
  apply BitVec.eq_of_toNat_eq
  have htwelve : (12 : U32).toNat = 12 := rfl
  rw [hshift, BitVec.ushiftRight_eq', BitVec.ushiftRight_eq', BitVec.toNat_ushiftRight,
    BitVec.toNat_ushiftRight, Nat.shiftRight_eq_div_pow, Nat.shiftRight_eq_div_pow, htwelve, hu, hv]
  cases pageMap h p pgd (u.toNat / 2 ^ 12) with
  | none => rfl
  | some q =>
    simp only
    omega

/-! ## The call -/

theorem rangePgd_params (fuel : Nat) (pid : U32) : Keeps (HasParams p) (rangePgd h fuel pid) := by
  unfold rangePgd
  split
  · exact xaPidToPgd_params fuel pid
  · exact keeps_bind keeps_get fun s => keeps_pure _

theorem xaAccessUserVaRange_eq {xc : U32 → List U32 → Option Page} {v size pid prot pgd : U32}
    {t : XaState} (hpgd : rangePgd h fuel pid s = .ok (pgd, t)) :
    xaAccessUserVaRange h xc fuel v size pid prot s =
      .ok ((rangePfns h s.toXaParams pgd (pageBase s.toXaParams v)
          (size / s.pageSize + 1).toNat).bind fun pfns => (xc prot pfns).map fun memory =>
            ⟨pfns, memory, v - pageBase s.toXaParams v⟩, t) := by
  have hparams : t.toXaParams = s.toXaParams := rangePgd_params fuel pid s pgd t rfl hpgd
  unfold xaAccessUserVaRange
  rw [get_bind, bind_of_ok hpgd, get_bind, hparams]
  cases rangePfns h s.toXaParams pgd (pageBase s.toXaParams v) (size / s.pageSize + 1).toNat with
  | none => rfl
  | some pfns => rfl

theorem numPages_toNat (hps : s.pageSize = 4096) (size : U32) :
    (size / s.pageSize + 1).toNat = size.toNat / 4096 + 1 := by
  have hlt := size.isLt
  rw [hps, BitVec.toNat_add, BitVec.toNat_udiv]
  show (size.toNat / 4096 + 1) % 2 ^ 32 = _
  omega

theorem offset_toNat (hps : p.pageSize = 4096) (v : U32) :
    (v - pageBase p v).toNat = v.toNat % 4096 := by
  have hbase := pageBase_toNat hps v
  have hlt := v.isLt
  rw [BitVec.toNat_sub, hbase]
  omega

theorem pageAddress_toNat (hps : p.pageSize = 4096) {v : U32} {i : Nat}
    (hi : v.toNat / 4096 + i < 2 ^ 20) :
    (pageAddress p (pageBase p v) i).toNat = (v.toNat / 4096 + i) * 4096 := by
  have hbase := pageBase_toNat hps v
  unfold pageAddress
  rw [hps, BitVec.toNat_add, hbase, BitVec.toNat_mul, BitVec.toNat_ofNat]
  show (v.toNat / 4096 * 4096 + i % 2 ^ 32 * 4096 % 2 ^ 32) % 2 ^ 32 = _
  omega

/-- The mapping holds the whole range: there are pages enough, and each byte lies at its
displacement from the offset, in the frame that its own address is translated to. -/
structure RangeAccess.Covers (h : Host) (p : XaParams) (pgd virtAddress size : U32)
    (a : RangeAccess) : Prop where
  pages : a.offset.toNat + size.toNat ≤ a.pfns.length * 4096
  bytes : ∀ j < size.toNat, (a.offset.toNat + j) % 4096 = (virtAddress.toNat + j) % 4096 ∧
    a.pfns[(a.offset.toNat + j) / 4096]? =
      some (xaPagetableLookup h p pgd (virtAddress + BitVec.ofNat 32 j) >>> p.pageShift)

/-- Enough pages hold the range. -/
theorem covers_of_pages (hps : p.pageSize = 4096) (hshift : p.pageShift = 12)
    {pgd v size : U32} (hrange : v.toNat + size.toNat ≤ 2 ^ 32) {n : Nat} {memory : Page}
    (hpages : v.toNat % 4096 + size.toNat ≤ n * 4096) :
    RangeAccess.Covers h p pgd v size
      ⟨pageFrames h p pgd (pageBase p v) n, memory, v - pageBase p v⟩ := by
  have hoff := offset_toNat hps v
  refine ⟨?_, ?_⟩
  · simpa [pageFrames, hoff] using hpages
  · intro j hj
    simp only [hoff]
    refine ⟨by omega, ?_⟩
    have hlt : (v.toNat % 4096 + j) / 4096 < n := by omega
    rw [pageFrames, List.getElem?_map, List.getElem?_range hlt, Option.map_some]
    refine congrArg some (lookup_frame_congr hshift pgd ?_)
    have haddr := pageAddress_toNat hps (v := v) (i := (v.toNat % 4096 + j) / 4096) (by omega)
    have hbyte : (v + BitVec.ofNat 32 j).toNat = v.toNat + j := by
      rw [BitVec.toNat_add, BitVec.toNat_ofNat]
      omega
    rw [SamePage, haddr, hbyte]
    omega

theorem xaAccessUserVaRange_eq_some_iff {xc : U32 → List U32 → Option Page}
    (hps : s.pageSize = 4096) {v size pid prot pgd : U32} {t t' : XaState}
    (hpgd : rangePgd h fuel pid s = .ok (pgd, t)) {a : RangeAccess} :
    xaAccessUserVaRange h xc fuel v size pid prot s = .ok (some a, t') ↔
      (∀ i < size.toNat / 4096 + 1,
          pageAddress s.toXaParams (pageBase s.toXaParams v) i ≠ 0) ∧
        a.pfns = pageFrames h s.toXaParams pgd (pageBase s.toXaParams v) (size.toNat / 4096 + 1) ∧
        xc prot a.pfns = some a.memory ∧ a.offset = v - pageBase s.toXaParams v ∧ t' = t := by
  rw [xaAccessUserVaRange_eq hpgd, numPages_toNat hps]
  constructor
  · intro hrun
    obtain ⟨hsome, rfl⟩ := Prod.mk.inj (Except.ok.inj hrun)
    obtain ⟨pfns, hpfns, hmap⟩ := Option.bind_eq_some_iff.mp hsome
    obtain ⟨memory, hmemory, rfl⟩ := Option.map_eq_some_iff.mp hmap
    obtain ⟨hne, rfl⟩ := rangePfns_eq_some_iff.mp hpfns
    exact ⟨hne, rfl, hmemory, rfl, rfl⟩
  · rintro ⟨hne, hpfns, hmemory, hoffset, rfl⟩
    rw [rangePfns_eq_some_iff.mpr ⟨hne, hpfns⟩]
    obtain ⟨pfns, memory, offset⟩ := a
    cases hoffset
    rw [Option.bind_some, hmemory]
    rfl

/-! ## Coverage -/

/-- The hypervisor does not map the frames of the range. -/
def RangeRefused (h : Host) (xc : U32 → List U32 → Option Page) (fuel : Nat) (s : XaState)
    (v size pid prot : U32) : Prop :=
  ∀ pgd t, rangePgd h fuel pid s = .ok (pgd, t) →
    xc prot (pageFrames h s.toXaParams pgd (pageBase s.toXaParams v) (size.toNat / 4096 + 1)) = none

/-- The first page of the range is the page at address `0`. -/
theorem pageAddress_zero (hps : p.pageSize = 4096) {v : U32} (hv : v.toNat < 4096) :
    pageAddress p (pageBase p v) 0 = 0 := by
  apply BitVec.eq_of_toNat_eq
  rw [pageAddress_toNat hps (by omega)]
  show (v.toNat / 4096 + 0) * 4096 = 0
  omega

/-- **When a range is mapped as a whole.** Every mapping of a range of `size` bytes at `v`
holds the range exactly if the parts of `v` and of `size` below a page fit into one page
together, or no mapping is made: for the page at address `0`, and when the hypervisor does
not map the frames. -/
theorem xaAccessUserVaRange_covers_iff (h : Host) (xc : U32 → List U32 → Option Page) (fuel : Nat)
    (s : XaState) (hps : s.pageSize = 4096) (hshift : s.pageShift = 12) (v size pid prot : U32)
    (hrange : v.toNat + size.toNat ≤ 2 ^ 32) :
    (∀ pgd a t t', rangePgd h fuel pid s = .ok (pgd, t) →
        xaAccessUserVaRange h xc fuel v size pid prot s = .ok (some a, t') →
        a.Covers h s.toXaParams pgd v size) ↔
      v.toNat % 4096 + size.toNat % 4096 ≤ 4096 ∨ v.toNat < 4096 ∨
        RangeRefused h xc fuel s v size pid prot := by
  constructor
  · intro hcovers
    by_contra hcond
    push Not at hcond
    obtain ⟨hover, hv, hmapped⟩ := hcond
    unfold RangeRefused at hmapped
    push Not at hmapped
    obtain ⟨pgd, t, hpgd, hxc⟩ := hmapped
    obtain ⟨memory, hmemory⟩ := Option.ne_none_iff_exists'.mp hxc
    have hne : ∀ i < size.toNat / 4096 + 1,
        pageAddress s.toXaParams (pageBase s.toXaParams v) i ≠ 0 := by
      intro i hi hzero
      have hnat := congrArg BitVec.toNat hzero
      rw [pageAddress_toNat hps (by omega)] at hnat
      change (v.toNat / 4096 + i) * 4096 = 0 at hnat
      omega
    have hrun : xaAccessUserVaRange h xc fuel v size pid prot s = .ok (some ⟨_, memory, _⟩, t) :=
      (xaAccessUserVaRange_eq_some_iff hps hpgd).mpr ⟨hne, rfl, hmemory, rfl, rfl⟩
    have hpages := (hcovers pgd _ t t hpgd hrun).pages
    simp only [List.length_map, List.length_range, offset_toNat hps] at hpages
    omega
  · intro hcond pgd a t t' hpgd hrun
    obtain ⟨hne, hpfns, hmemory, hoffset, -⟩ := (xaAccessUserVaRange_eq_some_iff hps hpgd).mp hrun
    rcases hcond with hfits | hv | hrefused
    · obtain ⟨pfns, memory, offset⟩ := a
      cases hpfns
      cases hoffset
      exact covers_of_pages hps hshift hrange (by omega)
    · exact absurd (pageAddress_zero hps hv) (hne 0 (by omega))
    · rw [hpfns, hrefused pgd t hpgd] at hmemory
      cases hmemory

/-- A service that maps every list of frames. -/
def mapsAll (_ : U32) (_ : List U32) : Option Page := some fun _ => 0

/-- Six kilobytes from the middle of a page are mapped by two pages. -/
theorem taskState_covers :
    ∃ a, xaAccessUserVaRange (imageHost []) mapsAll 0 0x1800 0x1800 0 1 taskState =
        .ok (some a, taskState) ∧
      a.Covers (imageHost []) taskState.toXaParams 0x1000 0x1800 0x1800 := by
  have hrun : xaAccessUserVaRange (imageHost []) mapsAll 0 0x1800 0x1800 0 1 taskState =
      .ok (some ⟨_, _, _⟩, taskState) :=
    (xaAccessUserVaRange_eq_some_iff rfl rfl).mpr ⟨by decide, rfl, rfl, rfl, rfl⟩
  exact ⟨_, hrun, (xaAccessUserVaRange_covers_iff (imageHost []) mapsAll 0 taskState rfl rfl 0x1800
    0x1800 0 1 (by decide)).mpr (.inl (by decide)) 0x1000 _ taskState taskState rfl hrun⟩

/-- Of eight bytes across the end of a page, the last four are not mapped. -/
theorem taskState_not_covers :
    ∃ a, xaAccessUserVaRange (imageHost []) mapsAll 0 0x1FFC 8 0 1 taskState =
        .ok (some a, taskState) ∧
      a.pfns.length * 4096 < a.offset.toNat + 8 ∧
      ¬a.Covers (imageHost []) taskState.toXaParams 0x1000 0x1FFC 8 := by
  have hrun : xaAccessUserVaRange (imageHost []) mapsAll 0 0x1FFC 8 0 1 taskState =
      .ok (some ⟨_, _, _⟩, taskState) :=
    (xaAccessUserVaRange_eq_some_iff rfl rfl).mpr ⟨by decide, rfl, rfl, rfl, rfl⟩
  refine ⟨_, hrun, by decide, fun hcovers => ?_⟩
  exact absurd hcovers.pages (by decide)

end XenAccess
