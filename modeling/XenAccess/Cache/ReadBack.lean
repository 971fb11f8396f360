import XenAccess.Cache.Lists
import XenAccess.Cache.Protection
import XenAccess.Cache.Sound

/-!
# Reading back what was stored

After `xa_update_cache` a lookup should give the address that was stored. For a page it always
does. The update for a symbol goes on to look for the page of the symbol's address when the
symbol has no entry yet. If the page has one, that entry is changed and the symbol is not
stored.
-/

namespace XenAccess

open Paging Prog

variable {h : Host} {s : XaState} {v pid m : U32} {name : CStr}

/-! ## Statement -/

/-- A lookup right after the update finds the address stored: the one of the symbol, or for a
page the one of each address on it. -/
structure ReadsBack (h : Host) (s : XaState) (sym : Option CStr) (v pid m : U32) : Prop where
  symbol : ∀ name, sym = some name → name ≠ [] → name.length < maxSymLen →
    symMachAddress h s.toXaParams v m ≠ 0 →
    Returns (xaUpdateCache h sym v pid m) s fun _ s' =>
      Returns (xaCheckCacheSym h name pid) s' fun r _ =>
        r = some (symMachAddress h s.toXaParams v m)
  page : sym = none → pageBase s.toXaParams v ≠ 0 → pageBase s.toXaParams m ≠ 0 →
    Returns (xaUpdateCache h sym v pid m) s fun _ s' =>
      ∀ w : U32, w.toNat / 4096 = v.toNat / 4096 →
        Returns (xaCheckCacheVirt h w pid) s' fun r _ =>
          ∃ a, r = some a ∧ a.toNat = m.toNat / 4096 * 4096 + w.toNat % 4096

/-- The cache has an entry for the symbol. -/
def HasSymbol (s : XaState) (name : CStr) : Prop :=
  ∃ e ∈ s.cache.entries, strncmpEq e.symbolName name maxSymLen = true

/-- The cache has an entry for the page of an address. -/
def HasPage (s : XaState) (v : U32) : Prop :=
  ∃ e ∈ s.cache.entries, e.virtAddress = pageBase s.toXaParams v

/-! ## Lookups as searches -/

theorem xaCheckCacheSym_returns_iff {a : U32} :
    (Returns (xaCheckCacheSym h name pid) s fun r _ => r = some a) ↔
      (s.cache.entries.find? (CacheEntry.hitsSym name pid)).map CacheEntry.machAddress = some a := by
  simp only [xaCheckCacheSym, Returns]
  cases hupd : s.cache.update (CacheEntry.hitsSym name pid) ({ · with lastUsed := s.now h }) with
  | none =>
    have hnone := Lru.update_eq_none.mp hupd
    rw [List.find?_eq_none.mpr (by simpa using hnone)]
    simp
  | some r =>
    obtain ⟨e, hfind, he⟩ := Lru.update_find hupd
    rw [hfind]
    simp [he]

theorem xaCheckCacheVirt_of_find {w : U32} {e : CacheEntry}
    (hfind : s.cache.entries.find? (CacheEntry.hitsVirt (pageBase s.toXaParams w) pid) = some e) :
    ∃ t, xaCheckCacheVirt h w pid s = .ok (some (e.machAddress ||| (w &&& (s.pageSize - 1))), t) := by
  obtain ⟨c', hupd⟩ := Lru.update_of_find (f := ({ · with lastUsed := s.now h })) hfind
  refine ⟨s.setCache c', ?_⟩
  rw [xaCheckCacheVirt, hupd]

/-! ## Pages -/

theorem pageBase_eq_of_page {p : XaParams} (hps : p.pageSize = 4096) {v w : U32}
    (hw : w.toNat / 4096 = v.toNat / 4096) : pageBase p w = pageBase p v := by
  apply BitVec.eq_of_toNat_eq
  rw [pageBase_toNat hps, pageBase_toNat hps, hw]

/-- After an update for a page, a search for the page finds its entry. -/
theorem xaUpdateCache_page (h : Host) (pid : U32) (hv : pageBase s.toXaParams v ≠ 0)
    (hm : pageBase s.toXaParams m ≠ 0) :
    Returns (xaUpdateCache h none v pid m) s fun _ s' => s'.toXaParams = s.toXaParams ∧
      ∃ e, s'.cache.entries.find? (CacheEntry.hitsVirt (pageBase s.toXaParams v) pid) = some e ∧
        e.machAddress = pageBase s.toXaParams m := by
  have hne : v ≠ 0 := by
    rintro rfl
    exact hv (by simp [pageBase])
  simp only [xaUpdateCache, Returns, Option.bind_none]
  rw [if_pos (by simpa using hne)]
  cases hvirt : updateVirt h v pid m s with
  | some s' =>
    obtain ⟨⟨e, c⟩, hupd, rfl⟩ := Option.map_eq_some_iff.mp hvirt
    obtain ⟨x, -, hx, rfl⟩ := Lru.update_found hupd
    refine ⟨_, _, rfl, rfl, _, Lru.find_of_update hupd (fun y hy => ?_) ?_, rfl⟩
    · exact beq_iff_eq.mpr (hitsVirt_iff.mp hy).2.1
    · exact hitsVirt_iff.mpr ⟨(beq_iff_eq.mp hx).symm ▸ hv, beq_iff_eq.mp hx, rfl, hm⟩
  | none =>
    have hnone := Lru.update_eq_none.mp (Option.map_eq_none_iff.mp hvirt)
    simp only [Option.isNone_none, Bool.true_and, beq_iff_eq, if_neg hne]
    refine ⟨_, _, rfl, rfl, newCacheEntry h s.toXaParams (s.now h) none v pid m,
      Lru.find_of_insert (by decide) (fun y hy => ?_) ?_, rfl⟩
    · by_contra hhit
      have hpage := (hitsVirt_iff.mp (Bool.not_eq_false _ ▸ hhit)).2.1
      have := hnone y hy
      simp [hpage] at this
    · exact hitsVirt_iff.mpr ⟨hv, rfl, rfl, hm⟩

theorem readsBack_page (hps : s.pageSize = 4096) (hv : pageBase s.toXaParams v ≠ 0)
    (hm : pageBase s.toXaParams m ≠ 0) :
    Returns (xaUpdateCache h none v pid m) s fun _ s' =>
      ∀ w : U32, w.toNat / 4096 = v.toNat / 4096 →
        Returns (xaCheckCacheVirt h w pid) s' fun r _ =>
          ∃ a, r = some a ∧ a.toNat = m.toNat / 4096 * 4096 + w.toNat % 4096 := by
  obtain ⟨_, s', hupd, hparams, e, hfind, hmach⟩ := xaUpdateCache_page h pid hv hm
  refine ⟨_, s', hupd, fun w hw => ?_⟩
  rw [← pageBase_eq_of_page hps hw, ← hparams] at hfind
  obtain ⟨t, hcheck⟩ := xaCheckCacheVirt_of_find (h := h) hfind
  refine ⟨_, t, hcheck, _, rfl, ?_⟩
  rw [hmach, ← join_toNat hps]
  show (_ ||| (w &&& (s'.toXaParams.pageSize - 1))).toNat = _
  rw [hparams]

/-! ## Symbols -/

theorem hasSymbol_iff_update (h : Host) (v pid m : U32) :
    HasSymbol s name ↔ updateSym h name v pid m s ≠ none := by
  rw [updateSym, ne_eq, Option.map_eq_none_iff, Lru.update_eq_none]
  simp [HasSymbol]

theorem hasPage_iff_update (h : Host) (pid m : U32) :
    HasPage s v ↔ updateVirt h v pid m s ≠ none := by
  rw [updateVirt, ne_eq, Option.map_eq_none_iff, Lru.update_eq_none]
  simp [HasPage]

/-- A symbol is found if its entry was changed. -/
theorem updateSym_find {s' : XaState} (hstored : symMachAddress h s.toXaParams v m ≠ 0)
    (hsym : updateSym h name v pid m s = some s') :
    (s'.cache.entries.find? (CacheEntry.hitsSym name pid)).map CacheEntry.machAddress =
      some (symMachAddress h s.toXaParams v m) := by
  obtain ⟨⟨e, c⟩, hupd, rfl⟩ := Option.map_eq_some_iff.mp hsym
  obtain ⟨x, -, hx, rfl⟩ := Lru.update_found hupd
  have hfind := Lru.find_of_update hupd (p := CacheEntry.hitsSym name pid)
    (fun y hy => (hitsSym_iff.mp hy).1) (hitsSym_iff.mpr ⟨hx, rfl, hstored⟩)
  exact (congrArg (Option.map CacheEntry.machAddress) hfind).trans rfl

/-- A symbol is not found if the entry of a page was changed in its place. -/
theorem updateVirt_find (pid : U32) {s' : XaState} (hsym : ¬HasSymbol s name)
    (hvirt : updateVirt h v pid m s = some s') :
    s'.cache.entries.find? (CacheEntry.hitsSym name pid) = none := by
  obtain ⟨⟨e, c⟩, hupd, rfl⟩ := Option.map_eq_some_iff.mp hvirt
  rw [List.find?_eq_none]
  refine Lru.forall_update hupd (fun x hx hhit => ?_) fun x hx _ hhit => ?_
  · exact hsym ⟨x, hx, (hitsSym_iff.mp hhit).1⟩
  · exact hsym ⟨x, hx, (hitsSym_iff.mp hhit).1⟩

/-- A symbol is found if it got an entry of its own. -/
theorem insertCache_find (hlen : name.length < maxSymLen)
    (hstored : symMachAddress h s.toXaParams v m ≠ 0) (hsym : ¬HasSymbol s name) :
    ((insertCache (newCacheEntry h s.toXaParams (s.now h) (some name) v pid m)
        s).cache.entries.find? (CacheEntry.hitsSym name pid)).map CacheEntry.machAddress =
      some (symMachAddress h s.toXaParams v m) := by
  let e := newCacheEntry h s.toXaParams (s.now h) (some name) v pid m
  have hfind : (insertCache e s).cache.entries.find? (CacheEntry.hitsSym name pid) = some e := by
    refine Lru.find_of_insert (by decide) (fun y hy => ?_) (hitsSym_iff.mpr ⟨?_, rfl, hstored⟩)
    · by_contra hhit
      exact hsym ⟨y, hy, (hitsSym_iff.mp (Bool.not_eq_false _ ▸ hhit)).1⟩
    · show strncmpEq (name.take maxSymLen) name maxSymLen = true
      simp [strncmpEq, List.take_of_length_le hlen.le]
  rw [hfind]
  rfl

theorem readsBack_symbol_iff (hlen : name.length < maxSymLen)
    (hstored : symMachAddress h s.toXaParams v m ≠ 0) :
    (Returns (xaUpdateCache h (some name) v pid m) s fun _ s' =>
        Returns (xaCheckCacheSym h name pid) s' fun r _ =>
          r = some (symMachAddress h s.toXaParams v m)) ↔
      HasSymbol s name ∨ v = 0 ∨ ¬HasPage s v := by
  simp only [xaCheckCacheSym_returns_iff]
  simp only [xaUpdateCache, Returns, Option.bind_some]
  by_cases hsym : HasSymbol s name
  · obtain ⟨s', hs'⟩ := Option.ne_none_iff_exists'.mp ((hasSymbol_iff_update h v pid m).mp hsym)
    rw [hs']
    exact iff_of_true ⟨_, _, rfl, updateSym_find hstored hs'⟩ (Or.inl hsym)
  · rw [not_ne_iff.mp (mt (hasSymbol_iff_update h v pid m).mpr hsym)]
    have hinsert : ∃ (a : Unit) (s' : XaState),
        (Except.ok ((), insertCache
            (newCacheEntry h s.toXaParams (s.now h) (some name) v pid m) s) :
            Except Fault (Unit × XaState)) = .ok (a, s') ∧
          (s'.cache.entries.find? (CacheEntry.hitsSym name pid)).map CacheEntry.machAddress =
            some (symMachAddress h s.toXaParams v m) :=
      ⟨_, _, rfl, insertCache_find hlen hstored hsym⟩
    by_cases hv : v = 0
    · simp only [hv, bne_self_eq_false, Bool.false_eq_true, if_false, Option.isNone_some,
        Bool.false_and] at hinsert ⊢
      exact iff_of_true hinsert (Or.inr (Or.inl trivial))
    · by_cases hpage : HasPage s v
      · obtain ⟨s', hs'⟩ := Option.ne_none_iff_exists'.mp
          ((hasPage_iff_update h pid m).mp hpage)
        have hmiss := updateVirt_find pid hsym hs'
        rw [if_pos (by simpa using hv), hs']
        refine iff_of_false ?_ (not_or.mpr ⟨hsym, not_or.mpr ⟨hv, not_not.mpr hpage⟩⟩)
        rintro ⟨_, t, hrun, hfind⟩
        cases hrun
        rw [hmiss] at hfind
        cases hfind
      · rw [if_pos (by simpa using hv),
          not_ne_iff.mp (mt (hasPage_iff_update h pid m).mpr hpage)]
        simp only [Option.isNone_some, Bool.false_and, Bool.false_eq_true, if_false]
        exact iff_of_true hinsert (Or.inr (Or.inr hpage))

/-! ## Runs -/

/-- A symbol gets an entry of its own, or has one already. -/
def OwnEntry (h : Host) (s : XaState) (sym : Option CStr) (v m : U32) : Prop :=
  ∀ name, sym = some name → name ≠ [] → name.length < maxSymLen →
    symMachAddress h s.toXaParams v m ≠ 0 → HasSymbol s name ∨ v = 0 ∨ ¬HasPage s v

theorem readsBack_iff_ownEntry (hps : s.pageSize = 4096) (sym : Option CStr) (v pid m : U32) :
    ReadsBack h s sym v pid m ↔ OwnEntry h s sym v m := by
  constructor
  · rintro hreads name rfl hne hlen hstored
    exact (readsBack_symbol_iff hlen hstored).mp (hreads.symbol name rfl hne hlen hstored)
  · intro hown
    constructor
    · rintro name rfl hne hlen hstored
      exact (readsBack_symbol_iff hlen hstored).mpr (hown name rfl hne hlen hstored)
    · rintro rfl hv hm
      exact readsBack_page hps hv hm

/-- Every update of the run is read back. -/
def ReadsBackThroughout (h : Host) : List CacheOp → XaState → Prop
  | [], _ => True
  | op :: ops, s => (∀ sym v pid m, op = .update sym v pid m → ReadsBack h s sym v pid m) ∧
    ∀ r t, op.exec h s = .ok (r, t) → ReadsBackThroughout h ops t

/-- Every update of the run finds or makes an entry for its symbol. -/
def OwnEntryThroughout (h : Host) : List CacheOp → XaState → Prop
  | [], _ => True
  | op :: ops, s => (∀ sym v pid m, op = .update sym v pid m → OwnEntry h s sym v m) ∧
    ∀ r t, op.exec h s = .ok (r, t) → OwnEntryThroughout h ops t

theorem cacheOp_params (op : CacheOp) {p : XaParams} : Keeps (HasParams p) (op.exec h) := by
  cases op with
  | checkSym name pid => exact xaCheckCacheSym_params name pid
  | checkVirt v pid => exact xaCheckCacheVirt_params v pid
  | update sym v pid m =>
    exact keeps_bind (xaUpdateCache_params sym v pid m) fun _ => keeps_pure none
  | checkPid pid => exact xaCheckPidCache_params pid
  | updatePid pid pgd => exact keeps_bind (xaUpdatePidCache_params pid pgd) fun _ => keeps_pure none
  | destroy =>
    intro s r t hs hrun
    cases hrun
    exact hs
  | destroyPid =>
    intro s r t hs hrun
    cases hrun
    exact hs

/-- **When updates are read back.** In every run of cache operations from every state, an update
is read back exactly if it is not for a symbol without an entry at an address whose page has
one. -/
theorem readsBackThroughout_iff (h : Host) (ops : List CacheOp) (s : XaState)
    (hps : s.pageSize = 4096) : ReadsBackThroughout h ops s ↔ OwnEntryThroughout h ops s := by
  induction ops generalizing s with
  | nil => exact Iff.rfl
  | cons op ops ih =>
    refine and_congr ?_ ?_
    · exact forall_congr' fun sym => forall_congr' fun v => forall_congr' fun pid =>
        forall_congr' fun m => imp_congr_right fun _ => readsBack_iff_ownEntry hps sym v pid m
    · refine forall_congr' fun r => forall_congr' fun t => imp_congr_right fun hrun => ih t ?_
      have hparams : t.toXaParams = s.toXaParams := cacheOp_params op s r t rfl hrun
      exact (congrArg XaParams.pageSize hparams).trans hps

/-- A symbol and then its page. -/
theorem symbolState_readsBack :
    ReadsBackThroughout symbolHost
      [.update (some (cstr "a")) 0xC0005000 0 0, .update none 0xC0005010 0 0x5010]
      symbolState.clear := by
  refine (readsBackThroughout_iff symbolHost _ symbolState.clear rfl).mpr ⟨?_, ?_⟩
  · rintro sym v pid m hop name rfl - - -
    cases hop
    refine Or.inr (Or.inr ?_)
    rintro ⟨e, he, -⟩
    cases he
  · intro r t _
    refine ⟨?_, fun _ _ _ => trivial⟩
    rintro sym v pid m hop name rfl
    cases hop

/-- The page and then the symbol: the entry of the page is changed, and the symbol is not
found. -/
theorem symbolState_not_readsBack :
    (Returns (runCalls symbolHost 1 [.kernelVa 0xC0005010 1]) symbolState.clear fun _ s =>
        Returns (xaUpdateCache symbolHost (some (cstr "a")) 0xC0005000 0 0) s fun _ s =>
          Returns (xaCheckCacheSym symbolHost (cstr "a") 0) s fun r _ => r = none) ∧
      ¬ReadsBackThroughout symbolHost
        [.update none 0xC0005010 0 0x5010, .update (some (cstr "a")) 0xC0005000 0 0]
        symbolState.clear := by
  refine ⟨by decide, fun hreads => ?_⟩
  obtain ⟨-, hreads⟩ := hreads
  obtain ⟨hback, -⟩ := hreads none _ rfl
  have hfound := (hback _ _ _ _ rfl).symbol (cstr "a") rfl (by decide) (by decide) (by decide)
  exact absurd hfound (by decide)

end XenAccess
