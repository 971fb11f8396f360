import XenAccess.Lib.Prog
import XenAccess.Model.CacheList

/-!
# The lists of the caches are well formed

`CacheLists` has the caches as lists of nodes linked in memory, `XaState` as sequences of
entries. Here both run side by side: every call gives the same result on both, the nodes
from head to tail have the entries of the sequence as their data (`CacheOp.sim`), and what
the call does to the nodes is one of the effects of `Dll.Change`.

From this, by induction over the calls, the lists stay well formed in every run from
`xa_init_common`, whatever the clock shows.
-/

namespace XenAccess

open Prog Dll

variable {h : Host} {p : XaParams} {m : Malloc} {t t' : CacheLists} {s s' : XaState}

/-! ## Calls on the sequences of entries -/

/-- `xa_destroy_cache` on the sequence. -/
def XaState.clearCache (s : XaState) : XaState := { s with cache := .empty }

/-- `xa_destroy_pid_cache` on the sequence. -/
def XaState.clearPidCache (s : XaState) : XaState := { s with pidCache := .empty }

def CacheOp.exec (h : Host) : CacheOp → XaM (Option U32)
  | .checkSym symbolName pid => xaCheckCacheSym h symbolName pid
  | .checkVirt virtAddress pid => xaCheckCacheVirt h virtAddress pid
  | .update symbolName virtAddress pid machAddress => do
    xaUpdateCache h symbolName virtAddress pid machAddress
    return none
  | .destroy => fun s => .ok (none, s.clearCache)
  | .checkPid pid => xaCheckPidCache h pid
  | .updatePid pid pgd => do
    xaUpdatePidCache h pid pgd
    return none
  | .destroyPid => fun s => .ok (none, s.clearPidCache)

/-! ## What a call takes and what it adds -/

/-- The searches of `xa_update_cache`. -/
def CacheEntry.isSym (symbolName : Option CStr) (e : CacheEntry) : Bool :=
  symbolName.any fun symbolName => strncmpEq e.symbolName symbolName maxSymLen

def CacheEntry.isVirt (p : XaParams) (virtAddress : U32) (e : CacheEntry) : Bool :=
  virtAddress != 0 && e.virtAddress == pageBase p virtAddress

/-- The entries of the address cache behind the one a call hits or updates. -/
def CacheOp.behindHit (p : XaParams) (entries : List CacheEntry) : CacheOp → List CacheEntry
  | .checkSym symbolName pid => behind (CacheEntry.hitsSym symbolName pid) entries
  | .checkVirt virtAddress pid =>
    behind (CacheEntry.hitsVirt (pageBase p virtAddress) pid) entries
  | .update symbolName virtAddress _ _ =>
    if entries.any (CacheEntry.isSym symbolName) then
      behind (CacheEntry.isSym symbolName) entries
    else behind (CacheEntry.isVirt p virtAddress) entries
  | _ => []

/-- Whether a call adds an entry to the address cache. -/
def CacheOp.inserts (p : XaParams) (entries : List CacheEntry) : CacheOp → Bool
  | .update symbolName virtAddress _ _ =>
    !entries.any (CacheEntry.isSym symbolName) && !entries.any (CacheEntry.isVirt p virtAddress) &&
      !(symbolName.isNone && virtAddress == 0)
  | _ => false

/-- The entries of the pid cache behind the one a call hits or updates. -/
def CacheOp.behindPidHit (entries : List PidCacheEntry) : CacheOp → List PidCacheEntry
  | .checkPid pid => behind (fun e => e.pid == pid) entries
  | .updatePid pid _ => if pid = 0 then [] else behind (fun e => e.pid == pid) entries
  | _ => []

/-- Whether a call adds an entry to the pid cache. -/
def CacheOp.insertsPid (entries : List PidCacheEntry) : CacheOp → Bool
  | .updatePid pid _ => pid != 0 && !entries.any fun e => e.pid == pid
  | _ => false

/-! ## Effects of a call -/

/-- The nodes `l` of one list become `l'`, by the events that are new in the trace; a node is
added if the call inserts. -/
def Effect {α : Type} (cap : Nat) (stamp : α → Int) (now : Int) (rest : List α) (inserts : Bool)
    (d d' : Dll α) (l l' : List (Addr × α)) : Prop :=
  ∃ events, Change cap stamp now rest l events l' ∧ d'.trace = events ++ d.trace ∧
    (inserts = true ↔ ∃ a, .inserted a ∈ events)

theorem effect_same {α : Type} {cap : Nat} {stamp : α → Int} {now : Int} {rest : List α}
    {d : Dll α} {l : List (Addr × α)} : Effect cap stamp now rest false d d l l :=
  ⟨[], .same l, rfl, by simp⟩

/-- The lists and the sequences of entries at the same moment of a run. -/
structure Sim (p : XaParams) (t : CacheLists) (l : List (Addr × CacheEntry))
    (lp : List (Addr × PidCacheEntry)) (s : XaState) : Prop where
  cache : Agrees t.cache l s.cache
  pidCache : Agrees t.pidCache lp s.pidCache
  ticks : s.ticks = t.ticks
  params : s.toXaParams = p

variable {l l' : List (Addr × CacheEntry)} {lp lp' : List (Addr × PidCacheEntry)}

theorem Sim.now (hs : Sim p t l lp s) : s.now h = t.now h := by
  rw [XaState.now, CacheLists.now, hs.ticks]

theorem Sim.setCache (hs : Sim p t l lp s) {d : Dll CacheEntry} {c : Lru CacheEntry xaCacheSize}
    (hd : Agrees d l' c) : Sim p (t.setCache d) l' lp (s.setCache c) :=
  ⟨hd, hs.pidCache, congrArg (· + 1) hs.ticks, hs.params⟩

theorem Sim.setPidCache (hs : Sim p t l lp s) {d : Dll PidCacheEntry}
    {c : Lru PidCacheEntry xaPidCacheSize} (hd : Agrees d lp' c) :
    Sim p (t.setPidCache d) l lp' (s.setPidCache c) :=
  ⟨hs.cache, hd, congrArg (· + 1) hs.ticks, hs.params⟩

/-- The outcome of one call on both sides. -/
structure Outcome (h : Host) (p : XaParams) (op : CacheOp) (t t' : CacheLists)
    (l l' : List (Addr × CacheEntry)) (lp lp' : List (Addr × PidCacheEntry)) (s' : XaState) :
    Prop where
  sim : Sim p t' l' lp' s'
  cache : Effect xaCacheSize CacheEntry.lastUsed (t.now h) (op.behindHit p (l.map Prod.snd))
    (op.inserts p (l.map Prod.snd)) t.cache t'.cache l l'
  pidCache : Effect xaPidCacheSize PidCacheEntry.lastUsed (t.now h)
    (op.behindPidHit (lp.map Prod.snd)) (op.insertsPid (lp.map Prod.snd)) t.pidCache t'.pidCache
    lp lp'
  ticks : t.ticks ≤ t'.ticks

/-! ## Address cache -/

/-- A lookup in the address cache, on the nodes and on the sequence. -/
theorem sim_check (hs : Sim p t l lp s) (q : CacheEntry → Bool) (value : CacheEntry → U32)
    {op : CacheOp} (hbehind : op.behindHit p (l.map Prod.snd) = behind q (l.map Prod.snd))
    (hinserts : op.inserts p (l.map Prod.snd) = false)
    (hpids : op.insertsPid (lp.map Prod.snd) = false) :
    ∃ r t' s' l',
      (t.cache.touch q ({ · with lastUsed := t.now h }) >>= fun hit =>
        match hit with
        | some (e, cache) => .ok (some (value e), t.setCache cache)
        | none => .ok (none, t)) = .ok (r, t') ∧
      (match s.cache.update q ({ · with lastUsed := t.now h }) with
        | some (e, cache) => .ok (some (value e), s.setCache cache)
        | none => .ok (none, s) : Except Fault (Option U32 × XaState)) = .ok (r, s') ∧
      Outcome h p op t t' l l' lp lp s' := by
  have hsame : Effect xaPidCacheSize PidCacheEntry.lastUsed (t.now h)
      (op.behindPidHit (lp.map Prod.snd)) (op.insertsPid (lp.map Prod.snd)) t.pidCache t.pidCache
      lp lp := hpids ▸ effect_same
  rcases hs.cache.touch q ({ · with lastUsed := t.now h }) CacheEntry.lastUsed (fun _ => rfl) with
    ⟨-, hrun, hupd⟩ | ⟨e, d', c', l', a, -, hrun, hupd, hd', hchange, htrace⟩
  · rw [except_bind_of_ok hrun, hupd]
    exact ⟨none, t, s, l, rfl, rfl, hs, hinserts ▸ effect_same, hsame, le_rfl⟩
  · rw [except_bind_of_ok hrun, hupd]
    rw [← hs.cache.entries, ← hbehind] at hchange
    refine ⟨_, _, _, l', rfl, rfl, hs.setCache hd', ⟨_, hchange, htrace, ?_⟩, hsame,
      Nat.le_succ t.ticks⟩
    simp [hinserts]

theorem sim_checkSym (hs : Sim p t l lp s) (symbolName : CStr) (pid : U32) :
    ∃ r t' s' l', t.checkCacheSym h symbolName pid = .ok (r, t') ∧
      xaCheckCacheSym h symbolName pid s = .ok (r, s') ∧
      Outcome h p (.checkSym symbolName pid) t t' l l' lp lp s' := by
  rw [CacheLists.checkCacheSym, xaCheckCacheSym, hs.now]
  exact sim_check hs (CacheEntry.hitsSym symbolName pid) CacheEntry.machAddress rfl rfl rfl

theorem sim_checkVirt (hs : Sim p t l lp s) (virtAddress pid : U32) :
    ∃ r t' s' l', t.checkCacheVirt h p virtAddress pid = .ok (r, t') ∧
      xaCheckCacheVirt h virtAddress pid s = .ok (r, s') ∧
      Outcome h p (.checkVirt virtAddress pid) t t' l l' lp lp s' := by
  rw [CacheLists.checkCacheVirt, xaCheckCacheVirt, hs.now, hs.params]
  exact sim_check hs (CacheEntry.hitsVirt (pageBase p virtAddress) pid)
    (fun e => e.machAddress ||| (virtAddress &&& (p.pageSize - 1))) rfl rfl rfl

/-- Both searches of `xa_update_cache`, on the nodes and on the sequence. -/
structure Search (h : Host) (t : CacheLists) (l : List (Addr × CacheEntry)) (s : XaState)
    (q : CacheEntry → Bool) (run : Except Dll.Fault (Option (CacheEntry × Dll CacheEntry)))
    (found : Option XaState) : Prop where
  spec : ((l.map Prod.snd).any q = false ∧ run = .ok none ∧ found = none) ∨
    ∃ e d' c' l' a, (l.map Prod.snd).any q = true ∧ run = .ok (some (e, d')) ∧
      found = some (s.setCache c') ∧ Agrees d' l' c' ∧
      Change xaCacheSize CacheEntry.lastUsed (t.now h) (behind q (l.map Prod.snd)) l [.used a] l' ∧
      d'.trace = .used a :: t.cache.trace

theorem search_of_touch (hs : Sim p t l lp s) (q : CacheEntry → Bool) (f : CacheEntry → CacheEntry)
    (hf : ∀ e, (f e).lastUsed = t.now h) :
    Search h t l s q (t.cache.touch q f) ((s.cache.update q f).map fun r => s.setCache r.2) := by
  constructor
  rcases hs.cache.touch q f CacheEntry.lastUsed hf with
    ⟨hnone, hrun, hupd⟩ | ⟨e, d', c', l', a, hsome, hrun, hupd, hd', hchange, htrace⟩
  · refine Or.inl ⟨?_, hrun, by rw [hupd]; rfl⟩
    rw [hs.cache.entries, List.any_eq_false]
    simpa using hnone
  · rw [← hs.cache.entries] at hchange
    refine Or.inr ⟨e, d', c', l', a, ?_, hrun, by rw [hupd]; rfl, hd', hchange, htrace⟩
    rw [hs.cache.entries, List.any_eq_true]
    exact hsome

/-- A search that is not made. -/
theorem search_skip (q : CacheEntry → Bool) (hq : ∀ e, q e = false) :
    Search h t l s q (.ok none) none :=
  ⟨Or.inl ⟨by rw [List.any_eq_false]; simp [hq], rfl, rfl⟩⟩

theorem search_sym (hs : Sim p t l lp s) (symbolName : Option CStr)
    (virtAddress pid machAddress : U32) :
    Search h t l s (CacheEntry.isSym symbolName)
      (t.touchSym h p symbolName virtAddress pid machAddress)
      (symbolName.bind fun sym => updateSym h sym virtAddress pid machAddress s) := by
  cases symbolName with
  | none => exact search_skip _ fun _ => rfl
  | some sym =>
    have := search_of_touch hs (CacheEntry.isSym (some sym))
      (setSym h p (t.now h) virtAddress pid machAddress) fun _ => rfl
    rw [Option.bind_some, updateSym, hs.now, hs.params]
    exact this

theorem search_virt (hs : Sim p t l lp s) (virtAddress pid machAddress : U32) :
    Search h t l s (CacheEntry.isVirt p virtAddress) (t.touchVirt h p virtAddress pid machAddress)
      (if virtAddress != 0 then updateVirt h virtAddress pid machAddress s else none) := by
  rw [CacheLists.touchVirt]
  cases hva : virtAddress != 0 with
  | false => exact search_skip _ fun _ => by rw [CacheEntry.isVirt, hva, Bool.false_and]
  | true =>
    have hq : CacheEntry.isVirt p virtAddress = fun e => e.virtAddress == pageBase p virtAddress := by
      funext e
      rw [CacheEntry.isVirt, hva, Bool.true_and]
    have := search_of_touch hs (CacheEntry.isVirt p virtAddress)
      (setVirt p (t.now h) pid machAddress) fun _ => rfl
    rw [if_pos rfl, if_pos rfl, updateVirt, hs.now, hs.params]
    rw [hq] at this ⊢
    exact this

theorem newCacheEntry_lastUsed (now : Int) (symbolName : Option CStr)
    (virtAddress pid machAddress : U32) :
    (newCacheEntry h p now symbolName virtAddress pid machAddress).lastUsed = now := by
  cases symbolName <;> rfl

theorem sim_update (hs : Sim p t l lp s) (symbolName : Option CStr)
    (virtAddress pid machAddress : U32) :
    ∃ t' s' l', t.updateCache h p m symbolName virtAddress pid machAddress = .ok t' ∧
      xaUpdateCache h symbolName virtAddress pid machAddress s = .ok ((), s') ∧
      Outcome h p (.update symbolName virtAddress pid machAddress) t t' l l' lp lp s' := by
  rw [CacheLists.updateCache, xaUpdateCache]
  simp only
  rcases (search_sym (h := h) hs symbolName virtAddress pid machAddress).spec with
    ⟨hany, hrun, hfound⟩ | ⟨e, d', c', l', a, hany, hrun, hfound, hd', hchange, htrace⟩
  · rw [except_bind_of_ok hrun, hfound]
    rcases (search_virt (h := h) hs virtAddress pid machAddress).spec with
      ⟨hany', hrun', hfound'⟩ | ⟨e, d', c', l', a, hany', hrun', hfound', hd', hchange, htrace⟩
    · simp only
      rw [except_bind_of_ok hrun', hfound']
      simp only
      cases hspur : symbolName.isNone && virtAddress == 0 with
      | true =>
        refine ⟨t, s, l, rfl, rfl, hs, ⟨[], .same l, rfl, ?_⟩, effect_same, le_rfl⟩
        rw [CacheOp.inserts, hspur]
        simp
      | false =>
        obtain ⟨d', l', events, hins, hd', hchange, htrace, hmem⟩ :=
          hs.cache.insert (by decide) CacheEntry.lastUsed (m.fresh t.mallocs)
            (newCacheEntry_lastUsed (t.now h) symbolName virtAddress pid machAddress)
            (CacheOp.behindHit p (l.map Prod.snd) (.update symbolName virtAddress pid machAddress))
        have hadd : t.addEntry m
            (newCacheEntry h p (t.now h) symbolName virtAddress pid machAddress) =
              .ok { t with cache := d', ticks := t.ticks + 1, mallocs := t.mallocs + 1 } :=
          except_bind_of_ok hins
        refine ⟨_, _, l', hadd, rfl, ⟨?_, hs.pidCache, congrArg (· + 1) hs.ticks, hs.params⟩,
          ⟨events, hchange, htrace, ?_⟩, effect_same, Nat.le_succ t.ticks⟩
        · rw [hs.now, hs.params]
          exact hd'
        · refine iff_of_true ?_ hmem
          rw [CacheOp.inserts, hany, hany', hspur]
          rfl
    · simp only
      rw [except_bind_of_ok hrun', hfound']
      refine ⟨_, _, l', rfl, rfl, hs.setCache hd', ⟨[.used a], ?_, htrace, ?_⟩, effect_same,
        Nat.le_succ t.ticks⟩
      · rw [CacheOp.behindHit, hany, if_neg (by decide)]
        exact hchange
      · simp [CacheOp.inserts, hany']
  · rw [except_bind_of_ok hrun, hfound]
    refine ⟨_, _, l', rfl, rfl, hs.setCache hd', ⟨[.used a], ?_, htrace, ?_⟩, effect_same,
      Nat.le_succ t.ticks⟩
    · rw [CacheOp.behindHit, hany, if_pos rfl]
      exact hchange
    · simp [CacheOp.inserts, hany]

/-! ## Pid cache -/

theorem sim_checkPid (hs : Sim p t l lp s) (pid : U32) :
    ∃ r t' s' lp', t.checkPidCache h pid = .ok (r, t') ∧ xaCheckPidCache h pid s = .ok (r, s') ∧
      Outcome h p (.checkPid pid) t t' l l lp lp' s' := by
  rw [CacheLists.checkPidCache, xaCheckPidCache, hs.now]
  rcases hs.pidCache.touch (fun e => e.pid == pid) ({ · with lastUsed := t.now h })
      PidCacheEntry.lastUsed (fun _ => rfl) with
    ⟨-, hrun, hupd⟩ | ⟨e, d', c', lp', a, -, hrun, hupd, hd', hchange, htrace⟩
  · rw [except_bind_of_ok hrun, hupd]
    exact ⟨none, t, s, lp, rfl, rfl, hs, effect_same, effect_same, le_rfl⟩
  · rw [except_bind_of_ok hrun, hupd]
    rw [← hs.pidCache.entries] at hchange
    refine ⟨_, _, _, lp', rfl, rfl, hs.setPidCache hd', effect_same, ⟨_, hchange, htrace, ?_⟩,
      Nat.le_succ t.ticks⟩
    simp [CacheOp.insertsPid]

theorem sim_updatePid (hs : Sim p t l lp s) (pid pgd : U32) :
    ∃ t' s' lp', t.updatePidCache h m pid pgd = .ok t' ∧
      xaUpdatePidCache h pid pgd s = .ok ((), s') ∧
      Outcome h p (.updatePid pid pgd) t t' l l lp lp' s' := by
  rw [CacheLists.updatePidCache, xaUpdatePidCache, hs.now]
  by_cases hpid : pid = 0
  · rw [if_pos hpid, if_pos hpid]
    refine ⟨t, s, lp, rfl, rfl, hs, effect_same, ⟨[], .same lp, rfl, ?_⟩, le_rfl⟩
    simp [CacheOp.insertsPid, hpid]
  · rw [if_neg hpid, if_neg hpid]
    rcases hs.pidCache.touch (fun e => e.pid == pid) ({ · with lastUsed := t.now h, pgd := pgd })
        PidCacheEntry.lastUsed (fun _ => rfl) with
      ⟨hnone, hrun, hupd⟩ | ⟨e, d', c', lp', a, hsome, hrun, hupd, hd', hchange, htrace⟩
    · rw [except_bind_of_ok hrun, hupd]
      obtain ⟨d', lp', events, hins, hd', hchange, htrace, hmem⟩ :=
        hs.pidCache.insert (x := ⟨t.now h, pid, pgd⟩) (by decide) PidCacheEntry.lastUsed
          (m.fresh t.mallocs) rfl
          (CacheOp.behindPidHit (lp.map Prod.snd) (.updatePid pid pgd))
      have hadd : t.addPidEntry m ⟨t.now h, pid, pgd⟩ =
          .ok { t with pidCache := d', ticks := t.ticks + 1, mallocs := t.mallocs + 1 } :=
        except_bind_of_ok hins
      refine ⟨_, _, lp', hadd, rfl, ⟨hs.cache, hd', congrArg (· + 1) hs.ticks, hs.params⟩,
        effect_same, ⟨events, hchange, htrace, iff_of_true ?_ hmem⟩, Nat.le_succ t.ticks⟩
      rw [CacheOp.insertsPid, hs.pidCache.entries, Bool.and_eq_true, Bool.not_eq_true',
        List.any_eq_false]
      exact ⟨bne_iff_ne.mpr hpid, by simpa using hnone⟩
    · rw [except_bind_of_ok hrun, hupd]
      rw [← hs.pidCache.entries] at hchange
      refine ⟨_, _, lp', rfl, rfl, hs.setPidCache hd', effect_same, ⟨[.used a], ?_, htrace, ?_⟩,
        Nat.le_succ t.ticks⟩
      · rw [CacheOp.behindPidHit, if_neg hpid]
        exact hchange
      · obtain ⟨x, hx, hxpid⟩ := hsome
        rw [CacheOp.insertsPid, hs.pidCache.entries, List.any_eq_true.mpr ⟨x, hx, hxpid⟩]
        simp

/-! ## Runs -/

/-- One call, on both sides. -/
theorem CacheOp.sim (hs : Sim p t l lp s) (op : CacheOp) :
    ∃ r t' s' l' lp', op.execLists h p m t = .ok (r, t') ∧ op.exec h s = .ok (r, s') ∧
      Outcome h p op t t' l l' lp lp' s' := by
  cases op with
  | checkSym symbolName pid =>
    obtain ⟨r, t', s', l', hrun, hrun', hout⟩ := sim_checkSym hs symbolName pid
    exact ⟨r, t', s', l', lp, hrun, hrun', hout⟩
  | checkVirt virtAddress pid =>
    obtain ⟨r, t', s', l', hrun, hrun', hout⟩ := sim_checkVirt hs virtAddress pid
    exact ⟨r, t', s', l', lp, hrun, hrun', hout⟩
  | update symbolName virtAddress pid machAddress =>
    obtain ⟨t', s', l', hrun, hrun', hout⟩ :=
      sim_update (m := m) hs symbolName virtAddress pid machAddress
    exact ⟨none, t', s', l', lp, congrArg (Except.map _) hrun, bind_of_ok hrun', hout⟩
  | destroy =>
    obtain ⟨d', hrun, hd', htrace⟩ := hs.cache.destroy
    refine ⟨none, { t with cache := d' }, s.clearCache, [], lp,
      congrArg (Except.map _) (except_bind_of_ok hrun), rfl, ⟨hd', hs.pidCache, hs.ticks, hs.params⟩,
      ⟨_, .clear l, htrace, ?_⟩, effect_same, le_rfl⟩
    simp [CacheOp.inserts]
  | checkPid pid =>
    obtain ⟨r, t', s', lp', hrun, hrun', hout⟩ := sim_checkPid hs pid
    exact ⟨r, t', s', l, lp', hrun, hrun', hout⟩
  | updatePid pid pgd =>
    obtain ⟨t', s', lp', hrun, hrun', hout⟩ := sim_updatePid (m := m) hs pid pgd
    exact ⟨none, t', s', l, lp', congrArg (Except.map _) hrun, bind_of_ok hrun', hout⟩
  | destroyPid =>
    obtain ⟨d', hrun, hd', htrace⟩ := hs.pidCache.destroy
    refine ⟨none, { t with pidCache := d' }, s.clearPidCache, l, [],
      congrArg (Except.map _) (except_bind_of_ok hrun), rfl, ⟨hs.cache, hd', hs.ticks, hs.params⟩,
      effect_same, ⟨_, .clear lp, htrace, ?_⟩, le_rfl⟩
    simp [CacheOp.insertsPid]

/-- Make the calls on the sequences. -/
def runEntries (h : Host) : List CacheOp → XaM Unit
  | [] => pure ()
  | op :: ops => do
    let _ ← op.exec h
    runEntries h ops

theorem runLists_sim (hs : Sim p t l lp s) (ops : List CacheOp) :
    ∃ t' s' l' lp', runLists h p m ops t = .ok t' ∧ runEntries h ops s = .ok ((), s') ∧
      Sim p t' l' lp' s' := by
  induction ops generalizing t l lp s with
  | nil => exact ⟨t, s, l, lp, rfl, rfl, hs⟩
  | cons op ops ih =>
    obtain ⟨r, t₁, s₁, l₁, lp₁, hrun, hrun', hout⟩ := op.sim (h := h) (m := m) hs
    obtain ⟨t', s', l', lp', hruns, hruns', hs'⟩ := ih hout.sim
    refine ⟨t', s', l', lp', ?_, (bind_of_ok hrun').trans hruns', hs'⟩
    rw [runLists, except_bind_of_ok hrun]
    exact hruns

/-- A state with the given parameters and empty caches. -/
def emptyState (p : XaParams) : XaState :=
  { toXaParams := p
    errorMode := .failsoft
    sysmap := none
    imageType := none
    pse := false
    cr3 := 0
    cache := .empty
    pidCache := .empty
    ticks := 0 }

theorem sim_init : Sim p .init [] [] (emptyState p) := ⟨agrees_nil, agrees_nil, rfl, rfl⟩

/-- After any calls both lists are well formed, and what a further call does to their nodes
is one of the effects: nothing, a change of one node in place, an insertion at the end of a
list that is not full, an insertion into a full list that removes one node with the smallest
`last_used` and no other, or the removal of all nodes. -/
theorem cacheLists_wellFormed (h : Host) (p : XaParams) (m : Malloc) (ops : List CacheOp) :
    ∃ t l lp, runLists h p m ops .init = .ok t ∧
      t.cache.WellFormed xaCacheSize ∧ t.pidCache.WellFormed xaPidCacheSize ∧
      t.cache.contents = .ok l ∧ t.pidCache.contents = .ok lp ∧
      ∀ op : CacheOp, ∃ r t' l' lp', op.execLists h p m t = .ok (r, t') ∧
        t'.cache.contents = .ok l' ∧ t'.pidCache.contents = .ok lp' ∧
        Effect xaCacheSize CacheEntry.lastUsed (t.now h) (op.behindHit p (l.map Prod.snd))
          (op.inserts p (l.map Prod.snd)) t.cache t'.cache l l' ∧
        Effect xaPidCacheSize PidCacheEntry.lastUsed (t.now h)
          (op.behindPidHit (lp.map Prod.snd)) (op.insertsPid (lp.map Prod.snd))
          t.pidCache t'.pidCache lp lp' := by
  obtain ⟨t, s, l, lp, hrun, -, hs⟩ := runLists_sim (h := h) (m := m) (sim_init (p := p)) ops
  refine ⟨t, l, lp, hrun, hs.cache.wellFormed, hs.pidCache.wellFormed, hs.cache.holds.contents,
    hs.pidCache.holds.contents, fun op => ?_⟩
  obtain ⟨r, t', s', l', lp', hop, -, hout⟩ := op.sim (h := h) (m := m) hs
  exact ⟨r, t', l', lp', hop, hout.sim.cache.holds.contents, hout.sim.pidCache.holds.contents,
    hout.cache, hout.pidCache⟩

end XenAccess
