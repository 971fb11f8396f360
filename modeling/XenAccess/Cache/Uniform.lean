import XenAccess.Cache.SymbolAddress

/-!
# Access to the addresses of one page

All addresses of a page are translated to one frame, through the caches as without them. But
`0` is the address that stands for an error, and it is also the machine address of the first
byte of frame `0`. So on a page that is mapped to this frame the first byte counts as not
mapped, and the other bytes can be accessed.
-/

namespace XenAccess

open Paging Prog

variable {h : Host} {p : XaParams} {fuel : Nat} {s : XaState} {pid prot v w : U32}

/-- The addresses of a process are translated by a page map, if its page directory is found in
time. -/
theorem refTranslate_page (h : Host) (p : XaParams) (fuel : Nat) (pid : U32) :
    (∃ e, ∀ u, refTranslate h p fuel pid u = .error e) ∨
      ∃ m f, Translates 12 m f ∧ ∀ u, refTranslate h p fuel pid u = .ok (f u) := by
  by_cases hpid : pid = 0
  · refine Or.inr ⟨_, _, xaPagetableLookup_translates h p (xaCurrentCr3 h p 0), fun u => ?_⟩
    rw [refTranslate, if_pos hpid, xaTranslateKv2p]
  · cases hpgd : refPidToPgd h p fuel pid with
    | error e =>
      refine Or.inl ⟨e, fun u => ?_⟩
      rw [refTranslate, if_neg hpid, hpgd]
      rfl
    | ok pgd =>
      have htrans (u : U32) : refTranslate h p fuel pid u = .ok (lookupBelow h p pgd u) := by
        rw [refTranslate, if_neg hpid, hpgd]
        rfl
      by_cases hzero : pgd = 0
      · refine Or.inr ⟨fun _ => none, fun _ => 0, fun u => rfl, fun u => ?_⟩
        rw [htrans, lookupBelow, if_neg (by simpa using hzero)]
      · refine Or.inr ⟨_, _, xaPagetableLookup_translates h p pgd, fun u => ?_⟩
        rw [htrans, lookupBelow, if_pos (by simpa using hzero)]

/-! ## Statement -/

/-- An access returns a mapping. -/
def Succeeds (x : XaM (Option Access)) (s : XaState) : Prop := ∃ a t, x s = .ok (some a, t)

/-- Two addresses of a page can be accessed alike, and their accesses map the same frame with
the offsets of the addresses. -/
structure AccessedAlike (h : Host) (fuel : Nat) (s : XaState) (v w pid prot : U32) : Prop where
  succeeds : Succeeds (xaAccessUserVa h fuel v pid prot) s ↔
    Succeeds (xaAccessUserVa h fuel w pid prot) s
  frames : ∀ a t b t', xaAccessUserVa h fuel v pid prot s = .ok (some a, t) →
    xaAccessUserVa h fuel w pid prot s = .ok (some b, t') →
    a.frame = b.frame ∧ a.memory = b.memory ∧
      a.offset.toNat = v.toNat % 4096 ∧ b.offset.toNat = w.toNat % 4096

/-- The page of an address is mapped to machine frame `0`. -/
def OnFrameZero (h : Host) (p : XaParams) (fuel : Nat) (pid v : U32) : Prop :=
  ∃ u m, SamePage 12 v u ∧ refTranslate h p fuel pid u = .ok m ∧ m ≠ 0 ∧ m.toNat < 4096

/-! ## One page -/

/-- A page is not mapped, or all its addresses are translated to one frame. -/
theorem translates_cases {m : Nat → Option Nat} {f : U32 → U32} (hf : Translates 12 m f) (v : U32) :
    (∀ u, SamePage 12 v u → (f u).toNat = 0) ∨
      ∃ q, ∀ u, SamePage 12 v u → (f u).toNat = q * 4096 + u.toNat % 4096 := by
  have hpage (u : U32) (hu : SamePage 12 v u) := hu ▸ hf u
  cases hm : m (v.toNat / 2 ^ 12) with
  | none =>
    refine Or.inl fun u hu => ?_
    have := hpage u hu
    rwa [hm] at this
  | some q =>
    refine Or.inr ⟨q, fun u hu => ?_⟩
    have := hpage u hu
    rwa [hm] at this

/-- On a page that is not mapped to frame `0`, and between two addresses that both are the
first of the page or both are not, translations are `0` together. -/
theorem translates_zero_iff {m : Nat → Option Nat} {f : U32 → U32} (hf : Translates 12 m f)
    (hvw : SamePage 12 v w)
    (hzero : (∃ u, SamePage 12 v u ∧ f u ≠ 0 ∧ (f u).toNat < 4096) →
      (v.toNat % 4096 = 0 ↔ w.toNat % 4096 = 0)) : f v = 0 ↔ f w = 0 := by
  have hsmall (u : U32) (hu : SamePage 12 v u) (hne : f u ≠ 0) (hlt : (f u).toNat < 4096) :=
    hzero ⟨u, hu, hne, hlt⟩
  have h1 := hsmall v rfl
  have h2 := hsmall w hvw
  have hnat (a : U32) : a = 0 ↔ a.toNat = 0 := BitVec.toNat_eq
  simp only [ne_eq, hnat] at h1 h2 ⊢
  rcases translates_cases hf v with hnone | ⟨q, hq⟩
  · exact iff_of_true (hnone v rfl) (hnone w hvw)
  · have hv := hq v rfl
    have hw := hq w hvw
    omega

theorem translates_frame_eq {m : Nat → Option Nat} {f : U32 → U32} (hf : Translates 12 m f)
    (hvw : SamePage 12 v w) : (f v).toNat / 4096 = (f w).toNat / 4096 := by
  rcases translates_cases hf v with hnone | ⟨q, hq⟩
  · rw [hnone v rfl, hnone w hvw]
  · have hv := hq v rfl
    have hw := hq w hvw
    omega

theorem translates_offset {m : Nat → Option Nat} {f : U32 → U32} (hf : Translates 12 m f)
    (hv : f v ≠ 0) : (f v).toNat % 4096 = v.toNat % 4096 := by
  obtain ⟨q, hq⟩ := hf.frame hv
  have := hq v rfl
  omega

theorem succeeds_iff {m : U32} (hps : p.pageSize = 4096) (hs : Sound h p fuel s)
    (hm : refTranslate h p fuel pid v = .ok m) :
    Succeeds (xaAccessUserVa h fuel v pid prot) s ↔
      m ≠ 0 ∧ ∃ memory, xaMmapMfn h p prot (m >>> p.pageShift) = some memory := by
  have hmap := xaAccessUserVa_map hps hs v pid prot
  rw [hm] at hmap
  have hsome : (∃ a, accessTranslated h p m prot = some a) ↔
      m ≠ 0 ∧ ∃ memory, xaMmapMfn h p prot (m >>> p.pageShift) = some memory := by
    rw [accessTranslated]
    by_cases hzero : m = 0
    · simp [hzero]
    · simp [xaAccessMa]
  rw [← hsome]
  constructor
  · rintro ⟨a, t, hrun⟩
    rw [hrun] at hmap
    exact ⟨a, (Except.ok.inj hmap).symm⟩
  · rintro ⟨a, ha⟩
    cases hrun : xaAccessUserVa h fuel v pid prot s with
    | error e =>
      rw [hrun] at hmap
      cases hmap
    | ok r =>
      obtain ⟨r, t⟩ := r
      rw [hrun] at hmap
      have hr : r = some a := (Except.ok.inj hmap).trans ha
      exact ⟨a, t, hr ▸ hrun⟩

/-- The mapping of an access is the one of the frame of its address. -/
theorem access_eq {m : U32} {a : Access} {t : XaState} (hps : p.pageSize = 4096)
    (hs : Sound h p fuel s) (hm : refTranslate h p fuel pid v = .ok m)
    (hrun : xaAccessUserVa h fuel v pid prot s = .ok (some a, t)) :
    m ≠ 0 ∧ a.frame = m >>> p.pageShift ∧ a.offset = (p.pageSize - 1) &&& m ∧
      xaMmapMfn h p prot (m >>> p.pageShift) = some a.memory := by
  have hmap := xaAccessUserVa_map hps hs v pid prot
  rw [hm, hrun] at hmap
  have ha : accessTranslated h p m prot = some a := (Except.ok.inj hmap).symm
  obtain ⟨hne, hframe, hoffset⟩ := accessTranslated_some ha
  refine ⟨hne, hframe, hoffset, ?_⟩
  rw [accessTranslated, if_neg hne] at ha
  obtain ⟨memory, hmemory, rfl⟩ := Option.map_eq_some_iff.mp ha
  exact hmemory

/-- **The addresses of a page can be accessed alike.** In a state that calls reach from empty
caches, two addresses of one page can be accessed both or not at all, at the same frame and
with their offsets, unless the page is mapped to machine frame `0` and exactly one of the two
is its first address. -/
theorem xaAccessUserVa_accessedAlike (h : Host) (fuel : Nat) (s₀ : XaState)
    (hps : s₀.pageSize = 4096) (hshift : s₀.pageShift = 12) (calls : List Call) (s : XaState)
    (hrun : runCalls h fuel calls s₀.clear = .ok ((), s)) (v w pid prot : U32)
    (hvw : v.toNat / 4096 = w.toNat / 4096)
    (hzero : OnFrameZero h s₀.toXaParams fuel pid v →
      (v.toNat % 4096 = 0 ↔ w.toNat % 4096 = 0)) : AccessedAlike h fuel s v w pid prot := by
  have hs := runCalls_keeps hps calls _ _ _ (sound_clear s₀) hrun
  rcases refTranslate_page h s₀.toXaParams fuel pid with ⟨e, herror⟩ | ⟨m, f, hf, htrans⟩
  · -- no access returns
    have hnone (u : U32) : ¬∃ r, xaAccessUserVa h fuel u pid prot s = .ok r := by
      rintro ⟨r, hr⟩
      have hmap := xaAccessUserVa_map hps hs u pid prot
      rw [herror, hr] at hmap
      cases hmap
    refine ⟨iff_of_false ?_ ?_, fun a t _ _ ha _ => absurd ⟨_, ha⟩ (hnone v)⟩
    · exact fun ⟨a, t, ha⟩ => hnone v ⟨_, ha⟩
    · exact fun ⟨a, t, ha⟩ => hnone w ⟨_, ha⟩
  · have hzero' : f v = 0 ↔ f w = 0 := by
      apply translates_zero_iff hf hvw
      rintro ⟨u, hu, hne, hlt⟩
      exact hzero ⟨u, f u, hu, htrans u, hne, hlt⟩
    have hframe : f v >>> s₀.pageShift = f w >>> s₀.pageShift := by
      rw [frame_eq_ofNat hshift, frame_eq_ofNat hshift, translates_frame_eq hf hvw]
    constructor
    · rw [succeeds_iff hps hs (htrans v), succeeds_iff hps hs (htrans w), hframe]
      exact and_congr_left' (not_congr hzero')
    · intro a t b t' ha hb
      obtain ⟨hne, hframe₁, hoffset₁, hmemory₁⟩ := access_eq hps hs (htrans v) ha
      obtain ⟨hne', hframe₂, hoffset₂, hmemory₂⟩ := access_eq hps hs (htrans w) hb
      refine ⟨?_, ?_, ?_, ?_⟩
      · rw [hframe₁, hframe₂, hframe]
      · rw [hframe, hmemory₂] at hmemory₁
        exact (Option.some.inj hmemory₁).symm
      · rw [hoffset₁, BitVec.and_comm, pageOff_toNat hps, translates_offset hf hne]
      · rw [hoffset₂, BitVec.and_comm, pageOff_toNat hps, translates_offset hf hne']

/-- Two addresses of a page of the kernel, after an access to a third one. -/
theorem taskState_accessedAlike :
    ∃ s, runCalls (imageHost taskWords) 3 [.kernelVa 0xC0012345 1] taskState.clear = .ok ((), s) ∧
      AccessedAlike (imageHost taskWords) 3 s 0xC0012FFC 0xC0012999 0 1 := by
  have hends : walkEnds (imageHost taskWords) taskState.toXaParams taskState.initTask 3
      taskState.initTask = true := by decide
  obtain ⟨_, s, hrun, -⟩ := runCalls_sound rfl (fun pid => refPidToPgd_ok hends pid)
    [.kernelVa 0xC0012345 1] (sound_clear taskState)
  exact ⟨s, hrun, xaAccessUserVa_accessedAlike (imageHost taskWords) 3 taskState rfl rfl _ s hrun
    0xC0012FFC 0xC0012999 0 1 (by decide) fun _ => by decide⟩

/-- The first page of the kernel is mapped to frame `0`: its first address cannot be accessed,
the others can. -/
theorem taskState_not_accessedAlike :
    runCalls (imageHost taskWords) 3 [] taskState.clear = .ok ((), taskState.clear) ∧
      xaAccessUserVa (imageHost taskWords) 3 0xC0000000 0 1 taskState.clear =
        .ok (none, taskState.clear) ∧
      ¬AccessedAlike (imageHost taskWords) 3 taskState.clear 0xC0000000 0xC0000001 0 1 := by
  have hzero : xaAccessUserVa (imageHost taskWords) 3 0xC0000000 0 1 taskState.clear =
      .ok (none, taskState.clear) := rfl
  refine ⟨rfl, hzero, fun halike => ?_⟩
  have hone : Succeeds (xaAccessUserVa (imageHost taskWords) 3 0xC0000001 0 1) taskState.clear :=
    ⟨_, _, rfl⟩
  obtain ⟨a, t, ha⟩ := halike.succeeds.mpr hone
  rw [hzero] at ha
  cases ha

end XenAccess
