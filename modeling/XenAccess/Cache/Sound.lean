import XenAccess.Cache.Reference
import XenAccess.Walk.PageMap
import XenAccess.Lib.Prog

/-!
# The invariant of the caches

`Sound h p fuel s`: an entry of the address cache that a lookup by address can take gives,
for every address of its page, the translation without caches, and so does every entry of
the pid cache. Entries for symbols have the virtual address `0` and are never taken by such
a lookup, so nothing is asked of them here.

The lemmas say what each operation on a cache does to the invariant. The one with an
argument is `refTranslate_samePage`: the page base stored for one address is right for all
addresses of the page, because a walk is a page map.
-/

namespace XenAccess

open Paging Prog

variable {h : Host} {p : XaParams} {fuel : Nat}

/-! ## Pages -/

theorem pageBase_congr {p' : XaParams} (hsize : p.pageSize = p'.pageSize) (a : U32) :
    pageBase p a = pageBase p' a := by
  rw [pageBase, pageBase, hsize]

theorem pageBase_toNat (hps : p.pageSize = 4096) (v : U32) :
    (pageBase p v).toNat = v.toNat / 4096 * 4096 := by
  have hmask : ~~~((4096 : U32) - 1) = 0xFFFFF000 := by decide
  rw [pageBase, hps, hmask, toNat_and_fffff000]

theorem pageOff_toNat (hps : p.pageSize = 4096) (v : U32) :
    (v &&& (p.pageSize - 1)).toNat = v.toNat % 4096 := by
  have hmask : (4096 : U32) - 1 = 0xFFF := by decide
  rw [hps, hmask, toNat_and_fff]

theorem samePage_of_pageBase (hps : p.pageSize = 4096) {u v : U32}
    (huv : pageBase p u = pageBase p v) : SamePage 12 u v := by
  have h1 := congrArg BitVec.toNat huv
  rw [pageBase_toNat hps, pageBase_toNat hps] at h1
  show u.toNat / 4096 = v.toNat / 4096
  omega

/-- A page base and an offset put together. -/
theorem join_toNat (hps : p.pageSize = 4096) (m v : U32) :
    (pageBase p m ||| (v &&& (p.pageSize - 1))).toNat = m.toNat / 4096 * 4096 + v.toNat % 4096 :=
  Bits.toNat_or_of_parts (k := 12) (pageBase_toNat hps m) (pageOff_toNat hps v)

theorem le_of_pageBase_ne_zero (hps : p.pageSize = 4096) {m : U32} (hm : pageBase p m ≠ 0) :
    4096 ≤ m.toNat := by
  by_contra hlt
  apply hm
  apply BitVec.eq_of_toNat_eq
  rw [pageBase_toNat hps]
  show m.toNat / 4096 * 4096 = 0
  omega

/-- One lookup serves its page. -/
theorem lookup_samePage (hps : p.pageSize = 4096) {cr3 u v : U32}
    (huv : pageBase p u = pageBase p v) (hu : pageBase p (xaPagetableLookup h p cr3 u) ≠ 0) :
    xaPagetableLookup h p cr3 v =
      pageBase p (xaPagetableLookup h p cr3 u) ||| (v &&& (p.pageSize - 1)) := by
  apply BitVec.eq_of_toNat_eq
  rw [join_toNat hps]
  exact (xaPagetableLookup_translates h p cr3).samePage (samePage_of_pageBase hps huv)
    (le_of_pageBase_ne_zero hps hu)

/-- The machine address found for one address of a page gives those of the whole page. -/
theorem refTranslate_samePage (hps : p.pageSize = 4096) {pid u v m : U32}
    (hu : refTranslate h p fuel pid u = .ok m) (huv : pageBase p u = pageBase p v)
    (hm : pageBase p m ≠ 0) :
    refTranslate h p fuel pid v = .ok (pageBase p m ||| (v &&& (p.pageSize - 1))) := by
  rw [refTranslate] at hu ⊢
  split at hu
  · rename_i hpid
    cases hu
    rw [if_pos hpid]
    exact congrArg Except.ok (lookup_samePage hps huv hm)
  · rename_i hpid
    rw [if_neg hpid]
    cases hpgd : refPidToPgd h p fuel pid with
    | error e =>
      rw [hpgd] at hu
      cases hu
    | ok pgd =>
      rw [hpgd] at hu
      cases hu
      show Except.ok (lookupBelow h p pgd v) = _
      rw [lookupBelow] at hm ⊢
      split at hm
      · rename_i hne
        rw [if_pos hne, lookupBelow, if_pos hne]
        exact congrArg Except.ok (lookup_samePage hps huv hm)
      · exact absurd (by simp [pageBase]) hm

/-! ## The invariant -/

/-- A lookup by address that takes `e` gives the translation without caches. -/
def EntrySound (h : Host) (p : XaParams) (fuel : Nat) (e : CacheEntry) : Prop :=
  e.virtAddress ≠ 0 → e.machAddress ≠ 0 → ∀ v, pageBase p v = e.virtAddress →
    refTranslate h p fuel e.pid v = .ok (e.machAddress ||| (v &&& (p.pageSize - 1)))

/-- Both caches agree with the translation without caches. -/
structure Sound (h : Host) (p : XaParams) (fuel : Nat) (s : XaState) : Prop where
  params : s.toXaParams = p
  entries : ∀ e ∈ s.cache.entries, EntrySound h p fuel e
  pids : ∀ e ∈ s.pidCache.entries, refPidToPgd h p fuel e.pid = .ok e.pgd

theorem sound_clear (s : XaState) : Sound h s.toXaParams fuel s.clear where
  params := rfl
  entries := by simp [XaState.clear, Lru.empty]
  pids := by simp [XaState.clear, Lru.empty]

theorem Sound.setCache {s : XaState} (hs : Sound h p fuel s) {c : Lru CacheEntry xaCacheSize}
    (hc : ∀ e ∈ c.entries, EntrySound h p fuel e) : Sound h p fuel (s.setCache c) :=
  ⟨hs.params, hc, hs.pids⟩

theorem Sound.setPidCache {s : XaState} (hs : Sound h p fuel s)
    {c : Lru PidCacheEntry xaPidCacheSize}
    (hc : ∀ e ∈ c.entries, refPidToPgd h p fuel e.pid = .ok e.pgd) :
    Sound h p fuel (s.setPidCache c) :=
  ⟨hs.params, hs.entries, hc⟩

/-! ## Lookups -/

theorem hitsVirt_iff {lookup pid : U32} {e : CacheEntry} : e.hitsVirt lookup pid = true ↔
    e.virtAddress ≠ 0 ∧ e.virtAddress = lookup ∧ e.pid = pid ∧ e.machAddress ≠ 0 := by
  simp [CacheEntry.hitsVirt, and_assoc]

theorem hitsSym_iff {sym : CStr} {pid : U32} {e : CacheEntry} : e.hitsSym sym pid = true ↔
    strncmpEq e.symbolName sym maxSymLen = true ∧ e.pid = pid ∧ e.machAddress ≠ 0 := by
  simp [CacheEntry.hitsSym, and_assoc]

/-- A hit gives the translation without caches, and a lookup keeps the invariant. -/
theorem xaCheckCacheVirt_sound {s : XaState} (hs : Sound h p fuel s) (v pid : U32) :
    Returns (xaCheckCacheVirt h v pid) s fun r s' => Sound h p fuel s' ∧
      ∀ a, r = some a → a ≠ 0 ∧ refTranslate h p fuel pid v = .ok a := by
  simp only [xaCheckCacheVirt, Returns]
  split
  · rename_i e c hupd
    refine ⟨_, _, rfl, hs.setCache (Lru.forall_update hupd hs.entries ?_), ?_⟩
    · intro x hx _
      exact hs.entries x hx
    · intro a ha
      obtain ⟨x, hx, hhit, rfl⟩ := Lru.update_found hupd
      obtain ⟨hvirt, heq, hpid, hmach⟩ := hitsVirt_iff.mp hhit
      have hps : s.toXaParams = p := hs.params
      simp only [Option.some.injEq] at ha
      subst ha
      constructor
      · intro hzero
        exact hmach (BitVec.or_eq_zero_iff.mp hzero).1
      · rw [hps] at heq
        have := hs.entries x hx hvirt hmach v heq.symm
        rw [hpid] at this
        rw [this, ← hps]
  · exact ⟨_, _, rfl, hs, by simp⟩

/-- A lookup by symbol keeps the invariant. -/
theorem xaCheckCacheSym_sound {s : XaState} (hs : Sound h p fuel s) (sym : CStr) (pid : U32) :
    Returns (xaCheckCacheSym h sym pid) s fun _ s' => Sound h p fuel s' := by
  simp only [xaCheckCacheSym, Returns]
  split
  · rename_i e c hupd
    refine ⟨_, _, rfl, hs.setCache (Lru.forall_update hupd hs.entries ?_)⟩
    intro x hx _
    exact hs.entries x hx
  · exact ⟨_, _, rfl, hs⟩

/-! ## Updates -/

/-- Entries that no lookup by address takes are sound. -/
theorem entrySound_of_virt_zero {e : CacheEntry} (he : e.virtAddress = 0) :
    EntrySound h p fuel e := fun hne => absurd he hne

theorem updateSym_sound {s s' : XaState} (hs : Sound h p fuel s) {sym : CStr}
    {v pid m : U32} (hupd : updateSym h sym v pid m s = some s') : Sound h p fuel s' := by
  obtain ⟨r, hr, rfl⟩ := Option.map_eq_some_iff.mp hupd
  refine hs.setCache (Lru.forall_update hr hs.entries ?_)
  intro x _ _
  exact entrySound_of_virt_zero rfl

/-- What an update by address may store: a machine address that is the translation, or one
in frame `0`, which no lookup takes. -/
def Storable (h : Host) (p : XaParams) (fuel : Nat) (v pid m : U32) : Prop :=
  pageBase p m = 0 ∨ refTranslate h p fuel pid v = .ok m

theorem entrySound_page (hps : p.pageSize = 4096) {v pid m : U32}
    (hm : Storable h p fuel v pid m) {e : CacheEntry} (hvirt : e.virtAddress = pageBase p v)
    (hmach : e.machAddress = pageBase p m) (hpid : e.pid = pid) : EntrySound h p fuel e := by
  intro _ hne w hw
  rw [hmach] at hne ⊢
  rw [hpid]
  rcases hm with hm | hm
  · exact absurd hm hne
  · exact refTranslate_samePage hps hm (hvirt.symm.trans hw.symm) hne

theorem updateVirt_sound (hps : p.pageSize = 4096) {s s' : XaState} (hs : Sound h p fuel s)
    {v pid m : U32} (hm : Storable h p fuel v pid m) (hupd : updateVirt h v pid m s = some s') :
    Sound h p fuel s' := by
  obtain ⟨r, hr, rfl⟩ := Option.map_eq_some_iff.mp hupd
  refine hs.setCache (Lru.forall_update hr hs.entries ?_)
  intro x _ hx
  rw [hs.params] at hx
  refine entrySound_page hps hm (beq_iff_eq.mp hx) ?_ rfl
  show pageBase s.toXaParams m = pageBase p m
  rw [hs.params]

theorem insertCache_sound {s : XaState} (hs : Sound h p fuel s) {e : CacheEntry}
    (he : EntrySound h p fuel e) : Sound h p fuel (insertCache e s) :=
  hs.setCache (Lru.forall_insert hs.entries he)

/-- An update for an address with its translation keeps the invariant. -/
theorem xaUpdateCache_addr_sound (hps : p.pageSize = 4096) {s : XaState}
    (hs : Sound h p fuel s) {v pid m : U32} (hm : Storable h p fuel v pid m) :
    Returns (xaUpdateCache h none v pid m) s fun _ s' => Sound h p fuel s' := by
  simp only [xaUpdateCache, Returns, Option.bind_none]
  split
  · rename_i s' hupd
    split at hupd
    · exact ⟨_, _, rfl, updateVirt_sound hps hs hm hupd⟩
    · cases hupd
  · split
    · exact ⟨_, _, rfl, hs⟩
    · refine ⟨_, _, rfl, insertCache_sound hs (entrySound_page hps hm ?_ ?_ rfl)⟩
      · show pageBase s.toXaParams v = pageBase p v
        rw [hs.params]
      · show pageBase s.toXaParams m = pageBase p m
        rw [hs.params]

/-- An update for a symbol, which stores machine address `0` with a page, keeps the
invariant. -/
theorem xaUpdateCache_sym_sound (hps : p.pageSize = 4096) {s : XaState}
    (hs : Sound h p fuel s) (sym : CStr) (v pid : U32) :
    Returns (xaUpdateCache h (some sym) v pid 0) s fun _ s' => Sound h p fuel s' := by
  have hzero : Storable h p fuel v pid 0 := Or.inl (by simp [pageBase])
  simp only [xaUpdateCache, Returns, Option.bind_some]
  split
  · rename_i s' hupd
    exact ⟨_, _, rfl, updateSym_sound hs hupd⟩
  · split
    · rename_i s' hupd
      split at hupd
      · exact ⟨_, _, rfl, updateVirt_sound hps hs hzero hupd⟩
      · cases hupd
    · split
      · exact ⟨_, _, rfl, hs⟩
      · exact ⟨_, _, rfl, insertCache_sound hs (entrySound_of_virt_zero rfl)⟩

/-! ## Pid cache -/

theorem xaCheckPidCache_sound {s : XaState} (hs : Sound h p fuel s) (pid : U32) :
    Returns (xaCheckPidCache h pid) s fun r s' => Sound h p fuel s' ∧
      ∀ pgd, r = some pgd → refPidToPgd h p fuel pid = .ok pgd := by
  simp only [xaCheckPidCache, Returns]
  split
  · rename_i e c hupd
    refine ⟨_, _, rfl, hs.setPidCache (Lru.forall_update hupd hs.pids ?_), ?_⟩
    · intro x hx _
      exact hs.pids x hx
    · intro pgd hpgd
      obtain ⟨x, hx, hhit, rfl⟩ := Lru.update_found hupd
      have hpid : x.pid = pid := by simpa using hhit
      simp only [Option.some.injEq] at hpgd
      rw [← hpid, ← hpgd]
      exact hs.pids x hx
  · exact ⟨_, _, rfl, hs, by simp⟩

theorem xaUpdatePidCache_sound {s : XaState} (hs : Sound h p fuel s) {pid pgd : U32}
    (hpgd : refPidToPgd h p fuel pid = .ok pgd) :
    Returns (xaUpdatePidCache h pid pgd) s fun _ s' => Sound h p fuel s' := by
  simp only [xaUpdatePidCache, Returns]
  split
  · exact ⟨_, _, rfl, hs⟩
  · split
    · rename_i e c hupd
      refine ⟨_, _, rfl, hs.setPidCache (Lru.forall_update hupd hs.pids ?_)⟩
      intro x _ hx
      have hpid : x.pid = pid := by simpa using hx
      show refPidToPgd h p fuel x.pid = .ok pgd
      rw [hpid, hpgd]
    · exact ⟨_, _, rfl, hs.setPidCache (Lru.forall_insert hs.pids hpgd)⟩

end XenAccess
