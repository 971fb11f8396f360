import XenAccess.Cache.Lists
import XenAccess.Lib.Recency
import XenAccess.Model.Image

/-!
# Eviction and the order of last uses

The caches keep a time of last use for each entry, in seconds, and evict the first entry with
the smallest one. Two entries used in the same second are told apart only by their places in
the list, and a hit leaves an entry in its place. So an entry that is hit in the same second
as one behind it was used is evicted before it. Where this does not happen (`hitsApart`), the
entry that leaves is the least recently used one.
-/

namespace XenAccess

open Prog Dll

variable {h : Host} {p : XaParams} {m : Malloc} {t t' : CacheLists} {s s' : XaState}
variable {l l' : List (Addr × CacheEntry)} {lp lp' : List (Addr × PidCacheEntry)}

/-- The entries of a list from head to tail. -/
def entriesOf {α : Type} (d : Dll α) : List α :=
  match d.contents with
  | .ok l => l.map Prod.snd
  | .error _ => []

theorem entriesOf_eq {α : Type} {cap : Nat} {d : Dll α} {l : List (Addr × α)} {c : Lru α cap}
    (hd : Agrees d l c) : entriesOf d = l.map Prod.snd := by
  rw [entriesOf, hd.holds.contents]

/-- When a call hits or updates an entry, all entries behind it in its list were last used in
an earlier second. -/
def CacheOp.apart (h : Host) (p : XaParams) (t : CacheLists) (op : CacheOp) : Bool :=
  (op.behindHit p (entriesOf t.cache)).all (fun e => decide (e.lastUsed < t.now h)) &&
    (op.behindPidHit (entriesOf t.pidCache)).all fun e => decide (e.lastUsed < t.now h)

/-- All calls of a run are of this kind. -/
def hitsApart (h : Host) (p : XaParams) (m : Malloc) : List CacheOp → CacheLists → Bool
  | [], _ => true
  | op :: ops, t =>
    op.apart h p t &&
      match op.execLists h p m t with
      | .ok (_, t') => hitsApart h p m ops t'
      | .error _ => true

theorem hitsApart_cons {op : CacheOp} {ops : List CacheOp} {r : Option U32}
    (hrun : op.execLists h p m t = .ok (r, t')) :
    hitsApart h p m (op :: ops) t = (op.apart h p t && hitsApart h p m ops t') := by
  rw [hitsApart, hrun]

theorem apart_iff (hs : Sim p t l lp s) {op : CacheOp} :
    op.apart h p t = true ↔
      (∀ e ∈ op.behindHit p (l.map Prod.snd), e.lastUsed < t.now h) ∧
        ∀ e ∈ op.behindPidHit (lp.map Prod.snd), e.lastUsed < t.now h := by
  rw [CacheOp.apart, entriesOf_eq hs.cache, entriesOf_eq hs.pidCache]
  simp only [Bool.and_eq_true, List.all_eq_true, decide_eq_true_eq]

/-- The orders of last uses in both lists. -/
structure Recent (h : Host) (t : CacheLists) (l : List (Addr × CacheEntry))
    (lp : List (Addr × PidCacheEntry)) : Prop where
  cache : Ordered CacheEntry.lastUsed (t.now h) t.cache.trace l
  pidCache : Ordered PidCacheEntry.lastUsed (t.now h) t.pidCache.trace lp

theorem recent_init : Recent h .init [] [] :=
  ⟨ordered_nil _ _, ordered_nil _ _⟩

theorem time_mono (hclock : ∀ n, h.time n ≤ h.time (n + 1)) {i j : Nat} (hij : i ≤ j) :
    h.time i ≤ h.time j := by
  induction hij with
  | refl => exact Int.le_refl _
  | step _ ih => exact Int.le_trans ih (hclock _)

/-- One call. -/
theorem Recent.step (hclock : ∀ n, h.time n ≤ h.time (n + 1)) (hs : Sim p t l lp s)
    (hr : Recent h t l lp) {op : CacheOp} (hapart : op.apart h p t = true)
    (hout : Outcome h p op t t' l l' lp lp' s') : Recent h t' l' lp' := by
  obtain ⟨hrest, hrest'⟩ := (apart_iff hs).mp hapart
  obtain ⟨events, hchange, htrace, -⟩ := hout.cache
  obtain ⟨events', hchange', htrace', -⟩ := hout.pidCache
  have hnow : t.now h ≤ t'.now h := time_mono hclock hout.ticks
  constructor
  · rw [htrace]
    exact (hr.cache.change hchange hrest).mono hnow
  · rw [htrace']
    exact (hr.pidCache.change hchange' hrest').mono hnow

/-- A whole run. -/
theorem Recent.run (hclock : ∀ n, h.time n ≤ h.time (n + 1)) (hs : Sim p t l lp s)
    (hr : Recent h t l lp) (ops : List CacheOp) (hapart : hitsApart h p m ops t = true) :
    ∃ t' l' lp', runLists h p m ops t = .ok t' ∧ Recent h t' l' lp' := by
  induction ops generalizing t l lp s with
  | nil => exact ⟨t, l, lp, rfl, hr⟩
  | cons op ops ih =>
    obtain ⟨r, t₁, s₁, l₁, lp₁, hrun, -, hout⟩ := op.sim (h := h) (m := m) hs
    rw [hitsApart_cons hrun, Bool.and_eq_true] at hapart
    obtain ⟨t', l', lp', hruns, hr'⟩ := ih hout.sim (hr.step hclock hs hapart.1 hout) hapart.2
    refine ⟨t', l', lp', ?_, hr'⟩
    rw [runLists, except_bind_of_ok hrun]
    exact hruns

/-- In a run whose hits and updates never fall into the second in which an entry behind was
last used, every eviction takes the entry used least recently. -/
theorem evictsLru_of_hitsApart (h : Host) (p : XaParams) (m : Malloc)
    (hclock : ∀ n, h.time n ≤ h.time (n + 1)) (ops : List CacheOp)
    (hapart : hitsApart h p m ops .init = true) :
    ∃ t, runLists h p m ops .init = .ok t ∧ EvictsLru t.cache.trace ∧
      EvictsLru t.pidCache.trace := by
  obtain ⟨t, l, lp, hrun, hr⟩ := Recent.run hclock sim_init recent_init ops hapart
  exact ⟨t, hrun, hr.cache.lru, hr.pidCache.lru⟩

/-! ## One run -/

/-- Five processes fill the pid cache, the first is looked up again, and a sixth comes. -/
def sixPids : List CacheOp :=
  [.updatePid 1 0, .updatePid 2 0, .updatePid 3 0, .updatePid 4 0, .updatePid 5 0, .checkPid 1,
    .updatePid 6 0]

/-- With a clock that advances between any two operations, the second process leaves. -/
theorem sixPids_evictsLru :
    ∃ t, runLists (imageHost []) fileState.toXaParams bumpMalloc sixPids .init = .ok t ∧
      EvictsLru t.cache.trace ∧ EvictsLru t.pidCache.trace :=
  evictsLru_of_hitsApart (imageHost []) fileState.toXaParams bumpMalloc
    (fun n => by show (n : Int) ≤ ((n + 1 : Nat) : Int); omega) sixPids (by decide)

/-- The same guest, all operations within one second. -/
def stoppedHost : Host := { imageHost [] with time := fun _ => 0 }

/-- The first process leaves, although it was used last. -/
theorem stoppedClock_not_evictsLru :
    (∀ n, stoppedHost.time n ≤ stoppedHost.time (n + 1)) ∧
      ∃ t, runLists stoppedHost fileState.toXaParams bumpMalloc sixPids .init = .ok t ∧
        ¬ EvictsLru t.pidCache.trace := by
  obtain ⟨t, -, -, -, hrun, -, -⟩ := runLists_sim (h := stoppedHost) (m := bumpMalloc)
    (sim_init (p := fileState.toXaParams)) sixPids
  refine ⟨fun _ => Int.le_refl _, t, hrun, fun hev => ?_⟩
  -- the nodes of the first five processes are at 1, 2, 4, 8 and 16
  have htrace : (runLists stoppedHost fileState.toXaParams bumpMalloc sixPids .init).toOption.map
      (fun t => t.pidCache.trace) = some ([.inserted 31] ++ .evicted 1 :: [.used 1, .inserted 16,
        .inserted 8, .inserted 4, .inserted 2, .inserted 1]) := by decide
  rw [hrun] at htrace
  have hearlier := hev _ _ _ (Option.some.inj htrace) 2 (by decide) (by decide)
  revert hearlier
  decide

end XenAccess
