import XenAccess.Cache.SymbolAddress

/-!
# The caches during initialisation

Initialisation starts with empty caches and looks up one symbol, twice at most. This module
says what such a lookup returns and what it leaves in the cache (`HoldsSymbol`), and when
that is still right after translation parameters have changed (`lookupsCurrent_iff`).
-/

namespace XenAccess

open Prog

variable {h : Host} {p : XaParams} {s : XaState} {sym : CStr} {v m : U32}

/-! ## Lookups and translation parameters -/

/-- What the caches answer is in the frame that the present translation parameters give. -/
structure LookupsCurrent (h : Host) (s : XaState) : Prop where
  virt : ∀ v pid, After (xaCheckCacheVirt h v pid) s fun r _ => ∀ a ∈ r,
    pid = 0 ∧ pageBase s.toXaParams a =
      pageBase s.toXaParams (xaTranslateKv2p h s.toXaParams v)
  sym : ∀ sym, sym ≠ [] → sym.length < maxSymLen →
    After (xaCheckCacheSym h sym 0) s fun r _ => ∀ a ∈ r, ∃ v ∈ symbolVirt h s sym,
      pageBase s.toXaParams a = pageBase s.toXaParams (xaTranslateKv2p h s.toXaParams v)
  pids : ∀ pid, After (xaCheckPidCache h pid) s fun r _ => r = none

/-- Both caches are empty. -/
structure CachesEmpty (s : XaState) : Prop where
  cache : s.cache.entries = []
  pidCache : s.pidCache.entries = []

theorem cachesEmpty_clear (s : XaState) : CachesEmpty s.clear := ⟨rfl, rfl⟩

/-- A hit comes from an entry that the lookup can take. -/
theorem xaCheckCacheVirt_hit {pid a : U32} {s' : XaState}
    (hrun : xaCheckCacheVirt h v pid s = .ok (some a, s')) :
    ∃ e ∈ s.cache.entries, e.hitsVirt (pageBase s.toXaParams v) pid = true ∧
      a = e.machAddress ||| (v &&& (s.pageSize - 1)) := by
  simp only [xaCheckCacheVirt] at hrun
  split at hrun
  · rename_i e c hupd
    cases hrun
    obtain ⟨x, hx, hhit, rfl⟩ := Lru.update_found hupd
    exact ⟨x, hx, hhit, rfl⟩
  · cases hrun

theorem xaCheckCacheSym_hit {a : U32} {s' : XaState}
    (hrun : xaCheckCacheSym h sym 0 s = .ok (some a, s')) :
    ∃ e ∈ s.cache.entries, e.hitsSym sym 0 = true ∧ a = e.machAddress := by
  simp only [xaCheckCacheSym] at hrun
  split at hrun
  · rename_i e c hupd
    cases hrun
    obtain ⟨x, hx, hhit, rfl⟩ := Lru.update_found hupd
    exact ⟨x, hx, hhit, rfl⟩
  · cases hrun

theorem xaCheckPidCache_empty (hs : s.pidCache.entries = []) (pid : U32) :
    xaCheckPidCache h pid s = .ok (none, s) := by
  have hnone : s.pidCache.update (fun e => e.pid == pid) ({ · with lastUsed := s.now h }) = none :=
    Lru.update_eq_none.mpr (by simp [hs])
  simp only [xaCheckPidCache, hnone]

theorem lookupsCurrent_of_no_hits (hpids : s.pidCache.entries = [])
    (hmach : ∀ e ∈ s.cache.entries, e.machAddress = 0) : LookupsCurrent h s where
  virt v pid := by
    rintro _ s' hrun a rfl
    obtain ⟨e, he, hhit, -⟩ := xaCheckCacheVirt_hit hrun
    exact absurd (hmach e he) (hitsVirt_iff.mp hhit).2.2.2
  sym sym _ _ := by
    rintro _ s' hrun a rfl
    obtain ⟨e, he, hhit, -⟩ := xaCheckCacheSym_hit hrun
    exact absurd (hmach e he) (hitsSym_iff.mp hhit).2.2
  pids pid := by
    intro r s' hrun
    rw [xaCheckPidCache_empty hpids] at hrun
    cases hrun
    rfl

theorem CachesEmpty.lookupsCurrent (hs : CachesEmpty s) : LookupsCurrent h s :=
  lookupsCurrent_of_no_hits hs.pidCache (by simp [hs.cache])

/-! ## What the lookup of a symbol leaves behind -/

/-- The entry for a symbol. -/
structure IsSymbolEntry (sym : CStr) (m : U32) (e : CacheEntry) : Prop where
  name : e.symbolName = sym
  virt : e.virtAddress = 0
  pid : e.pid = 0
  mach : e.machAddress = m

/-- The entry for the page of a symbol. -/
structure IsPageEntry (p : XaParams) (v m : U32) (e : CacheEntry) : Prop where
  name : e.symbolName = []
  virt : e.virtAddress = pageBase p v
  pid : e.pid = 0
  mach : e.machAddress = pageBase p m

/-- The cache holds one symbol with the machine address `m`, and its page at most. -/
def HoldsSymbol (p : XaParams) (sym : CStr) (v m : U32) (entries : List CacheEntry) : Prop :=
  ∃ e, IsSymbolEntry sym m e ∧
    (entries = [e] ∨ m ≠ 0 ∧ ∃ e', IsPageEntry p v m e' ∧ entries = [e, e'])

/-- Only the page size matters for the entries. -/
theorem HoldsSymbol.congr {p' : XaParams} {entries : List CacheEntry}
    (hent : HoldsSymbol p sym v m entries) (hsize : p.pageSize = p'.pageSize) :
    HoldsSymbol p' sym v m entries := by
  obtain ⟨e, he, hl | ⟨hm, e', he', hl⟩⟩ := hent
  · exact ⟨e, he, Or.inl hl⟩
  · refine ⟨e, he, Or.inr ⟨hm, e', ⟨he'.name, ?_, he'.pid, ?_⟩, hl⟩⟩
    · exact he'.virt.trans (pageBase_congr hsize v)
    · exact he'.mach.trans (pageBase_congr hsize m)

theorem HoldsSymbol.mem {entries : List CacheEntry} (hent : HoldsSymbol p sym v m entries)
    {e : CacheEntry} (he : e ∈ entries) : IsSymbolEntry sym m e ∨ IsPageEntry p v m e := by
  obtain ⟨x, hx, rfl | ⟨-, y, hy, rfl⟩⟩ := hent
  · exact Or.inl (List.mem_singleton.mp he ▸ hx)
  · rcases List.mem_pair.mp he with rfl | rfl
    · exact Or.inl hx
    · exact Or.inr hy

theorem HoldsSymbol.mach_zero {entries : List CacheEntry} (hent : HoldsSymbol p sym v 0 entries) :
    ∀ e ∈ entries, e.machAddress = 0 := by
  intro e he
  rcases hent.mem he with hx | hy
  · exact hx.mach
  · rw [hy.mach]
    simp [pageBase]

/-- A lookup of the symbol takes its entry and leaves the cache as it is but for the time. -/
theorem HoldsSymbol.checkSym (hent : HoldsSymbol p sym v m s.cache.entries) (hm : m ≠ 0) :
    ∃ c, xaCheckCacheSym h sym 0 s = .ok (some m, s.setCache c) ∧
      HoldsSymbol p sym v m c.entries := by
  obtain ⟨e, he, hl⟩ := hent
  have hhit : e.hitsSym sym 0 = true := by
    refine hitsSym_iff.mpr ⟨?_, he.pid, ?_⟩
    · rw [he.name, strncmpEq, beq_self_eq_true]
    · rw [he.mach]
      exact hm
  have hcons : ∃ l, s.cache.entries = e :: l ∧
      (l = [] ∨ m ≠ 0 ∧ ∃ e', IsPageEntry p v m e' ∧ l = [e']) := by
    rcases hl with hl | ⟨-, e', he', hl⟩
    · exact ⟨[], hl, Or.inl rfl⟩
    · exact ⟨[e'], hl, Or.inr ⟨hm, e', he', rfl⟩⟩
  obtain ⟨l, hl, hrest⟩ := hcons
  obtain ⟨c, hupd, hc⟩ := Lru.update_head (f := ({ · with lastUsed := s.now h })) hl hhit
  refine ⟨c, ?_, { e with lastUsed := s.now h }, ⟨he.name, he.virt, he.pid, he.mach⟩, ?_⟩
  · simp only [xaCheckCacheSym, hupd, he.mach]
  · rw [hc]
    rcases hrest with rfl | ⟨-, e', he', rfl⟩
    · exact Or.inl rfl
    · exact Or.inr ⟨hm, e', he', rfl⟩

theorem pageBase_join (hps : p.pageSize = 4096) (m v : U32) :
    pageBase p (pageBase p m ||| (v &&& (p.pageSize - 1))) = pageBase p m := by
  apply BitVec.eq_of_toNat_eq
  rw [pageBase_toNat hps, join_toNat hps, pageBase_toNat hps]
  omega

/-- **A symbol in the cache after a change of parameters.** Its entries are current when no
lookup can take them, or when its frame has stayed the same. -/
theorem lookupsCurrent_iff (hps : s.pageSize = 4096) (hne : sym ≠ [])
    (hlen : sym.length < maxSymLen) (hpids : s.pidCache.entries = [])
    (hent : HoldsSymbol s.toXaParams sym v m s.cache.entries)
    (hv : symbolVirt h s sym = some v) :
    LookupsCurrent h s ↔ m = 0 ∨ pageBase s.toXaParams m =
      pageBase s.toXaParams (xaTranslateKv2p h s.toXaParams v) := by
  constructor
  · intro hcur
    by_contra hcon
    obtain ⟨hm, hframe⟩ := not_or.mp hcon
    obtain ⟨c, hcheck, -⟩ := hent.checkSym (h := h) hm
    obtain ⟨w, hw, hframe'⟩ := hcur.sym sym hne hlen _ _ hcheck m rfl
    cases hv.symm.trans hw
    exact hframe hframe'
  · rintro (rfl | hframe)
    · exact lookupsCurrent_of_no_hits hpids hent.mach_zero
    · refine ⟨?_, ?_, ?_⟩
      · rintro w pid _ s' hrun a rfl
        obtain ⟨e, he, hhit, rfl⟩ := xaCheckCacheVirt_hit hrun
        obtain ⟨hvirt, hbase, hpid, hmach⟩ := hitsVirt_iff.mp hhit
        rcases hent.mem he with hx | hy
        · exact absurd hx.virt hvirt
        · refine ⟨hpid.symm.trans hy.pid, ?_⟩
          rw [hy.mach] at hmach ⊢
          have hpage : pageBase s.toXaParams v = pageBase s.toXaParams w :=
            hy.virt.symm.trans hbase
          have hw := lookup_samePage (h := h) hps hpage (hframe ▸ hmach)
          rw [pageBase_join hps]
          show _ = pageBase s.toXaParams (xaPagetableLookup h s.toXaParams _ w)
          rw [hw, pageBase_join hps]
          exact hframe
      · rintro sym' hne' hlen' _ s' hrun a rfl
        obtain ⟨e, he, hhit, rfl⟩ := xaCheckCacheSym_hit hrun
        have heq := (hitsSym_iff.mp hhit).1
        rcases hent.mem he with hx | hy
        · rw [hx.name] at heq
          cases eq_of_strncmpEq hlen.le hlen' heq
          refine ⟨v, hv, ?_⟩
          rw [hx.mach]
          exact hframe
        · exact absurd hy.name (ne_nil_of_strncmpEq hne' heq)
      · intro pid r s' hrun
        rw [xaCheckPidCache_empty hpids] at hrun
        cases hrun
        rfl

/-! ## The first lookup of a symbol -/

/-- No entry, or one for the symbol that no lookup can take. -/
def Bare (sym : CStr) (entries : List CacheEntry) : Prop :=
  entries = [] ∨ ∃ e, IsSymbolEntry sym 0 e ∧ entries = [e]

theorem Bare.mach_zero {entries : List CacheEntry} (hbare : Bare sym entries) :
    ∀ e ∈ entries, e.machAddress = 0 := by
  rcases hbare with rfl | ⟨e, he, rfl⟩
  · simp
  · intro x hx
    rw [List.mem_singleton.mp hx]
    exact he.mach

theorem HoldsSymbol.bare {entries : List CacheEntry} (hent : HoldsSymbol p sym v 0 entries) :
    Bare sym entries := by
  obtain ⟨e, he, hl | ⟨hzero, -⟩⟩ := hent
  · exact Or.inr ⟨e, he, hl⟩
  · exact absurd rfl hzero

theorem xaCheckCacheSym_bare (hbare : Bare sym s.cache.entries) :
    xaCheckCacheSym h sym 0 s = .ok (none, s) := by
  have hnone : s.cache.update (CacheEntry.hitsSym sym 0) ({ · with lastUsed := s.now h }) =
      none := by
    refine Lru.update_eq_none.mpr fun e he => ?_
    rw [Bool.eq_false_iff]
    intro hhit
    exact (hitsSym_iff.mp hhit).2.2 (hbare.mach_zero e he)
  simp only [xaCheckCacheSym, hnone]

/-- Storing the symbol leaves its entry alone in the cache. -/
theorem xaUpdateCache_bare (hbare : Bare sym s.cache.entries) (hlen : sym.length < maxSymLen)
    (v : U32) :
    ∃ c e, xaUpdateCache h (some sym) v 0 0 s = .ok ((), s.setCache c) ∧ c.entries = [e] ∧
      IsSymbolEntry sym (xaTranslateKv2p h s.toXaParams v) e := by
  rcases hbare with hnil | ⟨e, he, hl⟩
  · refine ⟨s.cache.insert CacheEntry.lastUsed (by decide)
      (newCacheEntry h s.toXaParams (s.now h) (some sym) v 0 0),
      newCacheEntry h s.toXaParams (s.now h) (some sym) v 0 0, ?_, ?_, ?_⟩
    · have hsym : updateSym h sym v 0 0 s = none := by
        rw [updateSym, Lru.update_eq_none.mpr (by simp [hnil])]
        rfl
      have hvirt : updateVirt h v 0 0 s = none := by
        rw [updateVirt, Lru.update_eq_none.mpr (by simp [hnil])]
        rfl
      simp only [xaUpdateCache, Option.bind_some, hsym, hvirt, ite_self]
      rfl
    · rw [Lru.insert_of_lt (by rw [hnil]; decide), hnil]
      rfl
    · exact ⟨List.take_of_length_le hlen.le, rfl, rfl, rfl⟩
  · have hname : strncmpEq e.symbolName sym maxSymLen = true := by
      rw [he.name, strncmpEq, beq_self_eq_true]
    let set := setSym h s.toXaParams (s.now h) v 0 0
    obtain ⟨c, hupd, hc⟩ := Lru.update_head (p := fun e : CacheEntry =>
      strncmpEq e.symbolName sym maxSymLen) (f := set) hl hname
    refine ⟨c, set e, ?_, hc, he.name, rfl, rfl, rfl⟩
    have hsym : updateSym h sym v 0 0 s = some (s.setCache c) := by
      rw [updateSym, hupd]
      rfl
    simp only [xaUpdateCache, Option.bind_some, hsym]

/-- The machine address that the entry of a symbol holds after the access that follows. It
is the translation, or its page base when the update for the page, in page `0`, has taken
the entry. -/
def storedMach (h : Host) (p : XaParams) (v : U32) : U32 :=
  let m := xaTranslateKv2p h p v
  if m ≠ 0 ∧ v ≠ 0 ∧ pageBase p v = 0 then pageBase p m else m

theorem pageBase_storedMach (hps : p.pageSize = 4096) (v : U32) :
    pageBase p (storedMach h p v) = pageBase p (xaTranslateKv2p h p v) := by
  rw [storedMach]
  split
  · apply BitVec.eq_of_toNat_eq
    rw [pageBase_toNat hps, pageBase_toNat hps]
    omega
  · rfl

theorem storedMach_eq_zero_of_translate (hm : xaTranslateKv2p h p v = 0) :
    storedMach h p v = 0 := by
  simp [storedMach, hm]

theorem xaCheckCacheVirt_single {e : CacheEntry} (hl : s.cache.entries = [e])
    (he : IsSymbolEntry sym m e) (v pid : U32) : xaCheckCacheVirt h v pid s = .ok (none, s) := by
  have hnone : s.cache.update (CacheEntry.hitsVirt (pageBase s.toXaParams v) pid)
      ({ · with lastUsed := s.now h }) = none := by
    refine Lru.update_eq_none.mpr fun x hx => ?_
    rw [hl] at hx
    rw [List.mem_singleton.mp hx, CacheEntry.hitsVirt, he.virt]
    rfl
  simp only [xaCheckCacheVirt, hnone]

/-- Storing the page of the symbol. -/
theorem xaUpdateCache_single {e : CacheEntry} (hl : s.cache.entries = [e])
    (he : IsSymbolEntry sym (xaTranslateKv2p h s.toXaParams v) e)
    (hm : xaTranslateKv2p h s.toXaParams v ≠ 0) :
    ∃ c n, xaUpdateCache h none v 0 (xaTranslateKv2p h s.toXaParams v) s =
        .ok ((), { s with cache := c, ticks := n }) ∧
      HoldsSymbol s.toXaParams sym v (storedMach h s.toXaParams v) c.entries := by
  by_cases hv : v = 0
  · -- nothing is stored for address 0
    subst hv
    have hstored : storedMach h s.toXaParams 0 = xaTranslateKv2p h s.toXaParams 0 :=
      if_neg fun hall => hall.2.1 rfl
    refine ⟨s.cache, s.ticks, rfl, e, ?_, Or.inl hl⟩
    rw [hstored]
    exact he
  · have hne : (v != 0) = true := by simpa using hv
    by_cases hpage : pageBase s.toXaParams v = 0
    · have hstored : storedMach h s.toXaParams v =
          pageBase s.toXaParams (xaTranslateKv2p h s.toXaParams v) :=
        if_pos ⟨hm, hv, hpage⟩
      let set := setVirt s.toXaParams (s.now h) 0 (xaTranslateKv2p h s.toXaParams v)
      have htake : (e.virtAddress == pageBase s.toXaParams v) = true := by
        rw [he.virt, hpage]
        rfl
      obtain ⟨c, hupd, hc⟩ := Lru.update_head (p := fun e : CacheEntry =>
        e.virtAddress == pageBase s.toXaParams v) (f := set) hl htake
      refine ⟨c, s.ticks + 1, ?_, set e, ⟨he.name, he.virt, rfl, hstored.symm⟩, Or.inl hc⟩
      have hvirt : updateVirt h v 0 (xaTranslateKv2p h s.toXaParams v) s =
          some (s.setCache c) := by
        rw [updateVirt, hupd]
        rfl
      simp only [xaUpdateCache, Option.bind_none, hne, if_true, hvirt]
      rfl
    · have hstored : storedMach h s.toXaParams v = xaTranslateKv2p h s.toXaParams v :=
        if_neg fun hall => hpage hall.2.2
      have hvirt : updateVirt h v 0 (xaTranslateKv2p h s.toXaParams v) s = none := by
        rw [updateVirt, Lru.update_eq_none.mpr]
        · rfl
        · intro x hx
          rw [hl] at hx
          rw [List.mem_singleton.mp hx, he.virt, beq_eq_false_iff_ne]
          exact fun heq => hpage heq.symm
      refine ⟨s.cache.insert CacheEntry.lastUsed (by decide)
        (newCacheEntry h s.toXaParams (s.now h) none v 0 (xaTranslateKv2p h s.toXaParams v)),
        s.ticks + 1, ?_, ?_⟩
      · have hv' : (v == 0) = false := by simpa using hv
        simp only [xaUpdateCache, Option.bind_none, hne, if_true, hvirt, hv', Bool.and_false,
          Bool.false_eq_true, if_false]
        rfl
      · have hlt : s.cache.entries.length < xaCacheSize := by
          rw [hl, List.length_singleton]
          decide
        rw [Lru.insert_of_lt hlt, hl, hstored]
        exact ⟨e, he, Or.inr ⟨hm, _, ⟨rfl, rfl, rfl, rfl⟩, rfl⟩⟩

/-- The kernel access that follows the storing of a symbol. -/
theorem xaAccessKernelVa_single {e : CacheEntry} (hl : s.cache.entries = [e])
    (he : IsSymbolEntry sym (xaTranslateKv2p h s.toXaParams v) e) (prot : U32) :
    ∃ c n, xaAccessKernelVa h v prot s =
        .ok (refKernelVa h s.toXaParams v prot, { s with cache := c, ticks := n }) ∧
      HoldsSymbol s.toXaParams sym v (storedMach h s.toXaParams v) c.entries := by
  by_cases hm : xaTranslateKv2p h s.toXaParams v = 0
  · refine ⟨s.cache, s.ticks, ?_, e, ?_, Or.inl hl⟩
    · rw [xaAccessKernelVa, accessVa, bind_of_ok (xaCheckCacheVirt_single hl he v 0)]
      rw [refKernelVa, accessTranslated, if_pos hm]
      simp only [if_true, pure_bind, get_bind]
      show (if xaTranslateKv2p h s.toXaParams v = 0 then _ else _ : XaM (Option Access)) s = _
      rw [if_pos hm]
      rfl
    · rw [storedMach_eq_zero_of_translate hm, ← hm]
      exact he
  · obtain ⟨c, n, hupd, hent⟩ := xaUpdateCache_single hl he hm
    refine ⟨c, n, ?_, hent⟩
    rw [xaAccessKernelVa, accessVa, bind_of_ok (xaCheckCacheVirt_single hl he v 0)]
    rw [refKernelVa, accessTranslated, if_neg hm]
    simp only [if_true, pure_bind, get_bind]
    show (if xaTranslateKv2p h s.toXaParams v = 0 then _ else _ : XaM (Option Access)) s = _
    rw [if_neg hm]
    exact bind_of_ok hupd

/-- **The first access to a symbol of a Linux guest** returns what it returns without caches
and leaves the symbol in the cache. -/
theorem linuxAccessKernelSymbol_first (hlen : sym.length < maxSymLen)
    (hbare : Bare sym s.cache.entries)
    (hv : sysmapAddress h (sysmapName h s.toXaParams s.sysmap) sym = some v) (prot : U32) :
    ∃ c n, linuxAccessKernelSymbol h sym prot s =
        .ok (refKernelVa h s.toXaParams v prot, { s.withSysmap h with cache := c, ticks := n }) ∧
      HoldsSymbol s.toXaParams sym v (storedMach h s.toXaParams v) c.entries := by
  have hbare' : Bare sym (s.withSysmap h).cache.entries := hbare
  obtain ⟨c, e, hupd, hc, he⟩ := xaUpdateCache_bare (h := h) hbare' hlen v
  have hlook : linuxSystemMapSymbolToAddress h sym s = .ok (some v, s.withSysmap h) := by
    rw [linuxSystemMapSymbolToAddress, hv]
    rfl
  obtain ⟨c', n, hacc, hent⟩ := xaAccessKernelVa_single (s := (s.withSysmap h).setCache c) hc he prot
  refine ⟨c', n, ?_, hent⟩
  rw [linuxAccessKernelSymbol, bind_of_ok (xaCheckCacheSym_bare hbare)]
  simp only [bind_of_ok hlook, bind_of_ok hupd]
  exact hacc

/-- A symbol that is not in the System.map. -/
theorem linuxAccessKernelSymbol_missing (hbare : Bare sym s.cache.entries)
    (hv : sysmapAddress h (sysmapName h s.toXaParams s.sysmap) sym = none) (prot : U32) :
    linuxAccessKernelSymbol h sym prot s = .ok (none, s.withSysmap h) := by
  have hlook : linuxSystemMapSymbolToAddress h sym s = .ok (none, s.withSysmap h) := by
    rw [linuxSystemMapSymbolToAddress, hv]
    rfl
  rw [linuxAccessKernelSymbol, bind_of_ok (xaCheckCacheSym_bare hbare)]
  simp only [bind_of_ok hlook]
  rfl

/-- **The first access to a symbol of a Windows guest.** -/
theorem windowsAccessKernelSymbol_first (hlen : sym.length < maxSymLen)
    (hbare : Bare sym s.cache.entries) {rva : U32}
    (hrva : windowsSymbolToAddress h s.toXaParams sym = some rva) (prot : U32) :
    ∃ c, windowsAccessKernelSymbol h sym prot s =
        .ok (xaAccessPa h s.toXaParams (s.os.ntoskrnl + rva) prot, s.setCache c) ∧
      HoldsSymbol s.toXaParams sym (s.os.ntoskrnl + rva + s.pageOffset)
        (xaTranslateKv2p h s.toXaParams (s.os.ntoskrnl + rva + s.pageOffset)) c.entries := by
  obtain ⟨c, e, hupd, hc, he⟩ := xaUpdateCache_bare (h := h) hbare hlen
    (s.os.ntoskrnl + rva + s.pageOffset)
  refine ⟨c, ?_, e, he, Or.inl hc⟩
  rw [windowsAccessKernelSymbol, bind_of_ok (xaCheckCacheSym_bare hbare)]
  simp only [get_bind, hrva, bind_of_ok hupd]
  rfl

theorem windowsAccessKernelSymbol_missing (hbare : Bare sym s.cache.entries)
    (hrva : windowsSymbolToAddress h s.toXaParams sym = none) (prot : U32) :
    windowsAccessKernelSymbol h sym prot s = .ok (none, s) := by
  rw [windowsAccessKernelSymbol, bind_of_ok (xaCheckCacheSym_bare hbare)]
  simp only [get_bind, hrva]
  rfl

end XenAccess
