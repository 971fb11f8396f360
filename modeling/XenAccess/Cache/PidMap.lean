import XenAccess.Lib.BoundedMap
import XenAccess.Lib.Prog
import XenAccess.Model.Cache

/-!
# The pid cache as a bounded map

Without the stamps, the pid cache is a list of pairs of a pid and a page directory
(`pidPairs`). A lookup leaves the pairs alone, and an update is a write to a bounded map
(`xaUpdatePidCache_put`). What holds after a run of lookups and updates follows from that by
induction on the run: `PidHistory` ties the pairs to the updates made so far.
-/

namespace XenAccess

open BoundedMap Prog

variable {h : Host} {s t : XaState} {p pid pgd : U32}

/-! ## Runs -/

/-- A call of `xa_check_pid_cache` or `xa_update_pid_cache`. -/
inductive PidOp where
  | check (pid : U32)
  | update (pid pgd : U32)

def PidOp.exec (h : Host) : PidOp → XaM (Option U32)
  | .check pid => xaCheckPidCache h pid
  | .update pid pgd => do
    xaUpdatePidCache h pid pgd
    return none

def runPidOps (h : Host) : List PidOp → XaM Unit
  | [] => pure ()
  | op :: ops => do
    let _ ← op.exec h
    runPidOps h ops

/-- The page directory in the most recent update for a pid. -/
def lastUpdate (pid : U32) (ops : List PidOp) : Option U32 :=
  ops.foldl (fun r op => match op with
    | .check _ => r
    | .update q pgd => if q = pid then some pgd else r) none

theorem runPidOps_concat {ops : List PidOp} {op : PidOp} {r : Option U32} {u : XaState}
    (hrun : runPidOps h ops s = .ok ((), t)) (hop : op.exec h t = .ok (r, u)) :
    runPidOps h (ops ++ [op]) s = .ok ((), u) := by
  induction ops generalizing s with
  | nil =>
    cases hrun
    exact bind_of_ok hop
  | cons o os ih =>
    obtain ⟨a, s', ho, hos⟩ := bind_ok_iff.mp hrun
    exact (bind_of_ok ho).trans (ih hos)

@[simp] theorem lastUpdate_nil : lastUpdate p [] = none := rfl

@[simp] theorem lastUpdate_check (ops : List PidOp) :
    lastUpdate p (ops ++ [.check pid]) = lastUpdate p ops := by
  simp [lastUpdate]

theorem lastUpdate_update_self (ops : List PidOp) :
    lastUpdate pid (ops ++ [.update pid pgd]) = some pgd := by
  simp [lastUpdate]

theorem lastUpdate_update_ne (ops : List PidOp) (hne : pid ≠ p) :
    lastUpdate p (ops ++ [.update pid pgd]) = lastUpdate p ops := by
  simp [lastUpdate, hne]

/-! ## One call -/

/-- The pairs the pid cache holds. -/
def pidPairs (s : XaState) : List (U32 × U32) := s.pidCache.entries.map fun e => (e.pid, e.pgd)

theorem pidPairs_setPidCache (c : Lru PidCacheEntry xaPidCacheSize) :
    pidPairs (s.setPidCache c) = c.entries.map fun e => (e.pid, e.pgd) := rfl

theorem keys_pidPairs : keys (pidPairs s) = s.pidCache.entries.map PidCacheEntry.pid := by
  simp [keys, pidPairs, Function.comp_def]

theorem pidCache_not_stored {f : PidCacheEntry → PidCacheEntry}
    (hupd : s.pidCache.update (fun e => e.pid == pid) f = none) : pid ∉ keys (pidPairs s) := by
  rw [keys_pidPairs, List.mem_map]
  rintro ⟨e, he, rfl⟩
  have := Lru.update_eq_none.mp hupd e he
  simp at this

/-- A lookup returns the value of the pid and leaves the pairs alone. -/
theorem xaCheckPidCache_cases (h : Host) (pid : U32) (s : XaState) :
    (∃ pgd t, xaCheckPidCache h pid s = .ok (some pgd, t) ∧ (pid, pgd) ∈ pidPairs s ∧
        pidPairs t = pidPairs s) ∨
      xaCheckPidCache h pid s = .ok (none, s) ∧ pid ∉ keys (pidPairs s) := by
  rw [xaCheckPidCache]
  cases hupd : s.pidCache.update (fun e => e.pid == pid) ({ · with lastUsed := s.now h }) with
  | none => exact Or.inr ⟨rfl, pidCache_not_stored hupd⟩
  | some r =>
    obtain ⟨e, c⟩ := r
    obtain ⟨pre, a, post, hl, -, ha, rfl, hl'⟩ := Lru.updateFirst_some (Lru.update_eq_some hupd)
    refine Or.inl ⟨a.pgd, s.setPidCache c, rfl, ?_, ?_⟩
    · rw [pidPairs, hl, ← beq_iff_eq.mp ha]
      simp
    · rw [pidPairs_setPidCache, hl', pidPairs, hl]
      simp

/-- An update is a write to the map. -/
theorem xaUpdatePidCache_put (h : Host) (s : XaState) (hpid : pid ≠ 0) (pgd : U32) :
    ∃ t, xaUpdatePidCache h pid pgd s = .ok ((), t) ∧
      Put xaPidCacheSize pid pgd (pidPairs s) (pidPairs t) := by
  rw [xaUpdatePidCache, if_neg hpid]
  cases hupd : s.pidCache.update (fun e => e.pid == pid)
      ({ · with lastUsed := s.now h, pgd := pgd }) with
  | some r =>
    obtain ⟨e, c⟩ := r
    obtain ⟨pre, a, post, hl, -, ha, -, hl'⟩ := Lru.updateFirst_some (Lru.update_eq_some hupd)
    refine ⟨s.setPidCache c, rfl, ?_⟩
    have hold : pidPairs s = pre.map (fun e => (e.pid, e.pgd)) ++ (pid, a.pgd) ::
        post.map fun e => (e.pid, e.pgd) := by
      rw [pidPairs, hl, ← beq_iff_eq.mp ha]
      simp
    have hnew : pidPairs (s.setPidCache c) = pre.map (fun e => (e.pid, e.pgd)) ++ (pid, pgd) ::
        post.map fun e => (e.pid, e.pgd) := by
      rw [pidPairs_setPidCache, hl', ← beq_iff_eq.mp ha]
      simp
    rw [hold, hnew]
    exact Put.change _ _ _
  | none =>
    have hnew := pidCache_not_stored hupd
    refine ⟨_, rfl, ?_⟩
    by_cases hfull : s.pidCache.entries.length < xaPidCacheSize
    · have hpairs : pidPairs (s.setPidCache (s.pidCache.insert PidCacheEntry.lastUsed (by decide)
          ⟨s.now h, pid, pgd⟩)) = pidPairs s ++ [(pid, pgd)] := by
        rw [pidPairs_setPidCache, Lru.insert_of_lt hfull, List.map_append]
        rfl
      rw [hpairs]
      exact Put.add _ hnew (by simpa [pidPairs] using hfull)
    · have hlen : s.pidCache.entries.length = xaPidCacheSize :=
        le_antisymm s.pidCache.size_le (not_lt.mp hfull)
      have hne : s.pidCache.entries ≠ [] := by
        intro hnil
        rw [hnil] at hlen
        cases hlen
      obtain ⟨pre, e, post, hl, hevict, -, -⟩ := Lru.evict_split PidCacheEntry.lastUsed hne
      have hpairs : pidPairs (s.setPidCache (s.pidCache.insert PidCacheEntry.lastUsed (by decide)
          ⟨s.now h, pid, pgd⟩)) = pre.map (fun e => (e.pid, e.pgd)) ++
            post.map (fun e => (e.pid, e.pgd)) ++ [(pid, pgd)] := by
        rw [pidPairs_setPidCache, Lru.insert_of_full hlen, hevict]
        simp
      have hold : pidPairs s = pre.map (fun e => (e.pid, e.pgd)) ++ (e.pid, e.pgd) ::
          post.map fun e => (e.pid, e.pgd) := by
        rw [pidPairs, hl]
        simp
      rw [hold] at hnew
      rw [hold, hpairs]
      refine Put.evict _ _ _ hnew ?_
      rw [← hold, pidPairs, List.length_map, hlen]

/-! ## Histories -/

/-- The call puts a new entry in the place of the one of `pid`, which was stored in a full
cache. -/
def EvictsPid (h : Host) (s : XaState) (op : PidOp) (pid : U32) : Prop :=
  ∃ q pgd t pre post g, op = .update q pgd ∧ op.exec h s = .ok (none, t) ∧
    (pidPairs s).length = xaPidCacheSize ∧ pidPairs s = pre ++ (pid, g) :: post ∧
    pidPairs t = pre ++ post ++ [(q, pgd)]

/-- Some call of the run evicts the entry of `pid`, and none from there on updates it. -/
def EvictedSince (h : Host) (s : XaState) (ops : List PidOp) (pid : U32) : Prop :=
  ∃ pre op post u, ops = pre ++ op :: post ∧ runPidOps h pre s = .ok ((), u) ∧
    EvictsPid h u op pid ∧ lastUpdate pid (op :: post) = none

theorem EvictedSince.concat {ops : List PidOp} {op : PidOp} (hev : EvictedSince h s ops p)
    (hop : ∀ l, lastUpdate p (l ++ [op]) = lastUpdate p l) : EvictedSince h s (ops ++ [op]) p := by
  obtain ⟨pre, o, post, u, rfl, hrun, he, hlast⟩ := hev
  refine ⟨pre, o, post ++ [op], u, by simp, hrun, he, ?_⟩
  rw [← List.cons_append, hop]
  exact hlast

/-- What the pid cache holds after a run from `s`. -/
structure PidHistory (h : Host) (s : XaState) (ops : List PidOp) (t : XaState) : Prop where
  distinct : (keys (pidPairs t)).Nodup
  nonzero : 0 ∉ keys (pidPairs t)
  latest : ∀ p g, (p, g) ∈ pidPairs t → lastUpdate p ops = some g
  missing : ∀ p, p ≠ 0 → p ∉ keys (pidPairs t) →
    lastUpdate p ops = none ∨ EvictedSince h s ops p

theorem pidHistory_nil : PidHistory h s.clear [] s.clear :=
  ⟨List.nodup_nil, List.not_mem_nil, fun _ _ hmem => absurd hmem List.not_mem_nil,
    fun _ _ _ => Or.inl rfl⟩

/-- A call that changes neither the pairs nor the last updates. -/
theorem PidHistory.of_same {u : XaState} {ops : List PidOp} {op : PidOp}
    (ht : PidHistory h s ops t) (hsame : pidPairs u = pidPairs t)
    (hop : ∀ p, p ≠ 0 → ∀ l, lastUpdate p (l ++ [op]) = lastUpdate p l) :
    PidHistory h s (ops ++ [op]) u where
  distinct := hsame ▸ ht.distinct
  nonzero := hsame ▸ ht.nonzero
  latest p g hmem := by
    rw [hsame] at hmem
    have hne : p ≠ 0 := by
      rintro rfl
      exact ht.nonzero (mem_keys.mpr ⟨g, hmem⟩)
    rw [hop p hne]
    exact ht.latest p g hmem
  missing p hp hmem := by
    rw [hsame] at hmem
    rw [hop p hp]
    exact (ht.missing p hp hmem).imp_right fun hev => hev.concat (hop p hp)

/-- A call that writes to the map. -/
theorem PidHistory.of_put {u : XaState} {ops : List PidOp} (ht : PidHistory h s ops t)
    (hrun : runPidOps h ops s = .ok ((), t)) (hpid : pid ≠ 0)
    (hop : (PidOp.update pid pgd).exec h t = .ok (none, u))
    (hput : Put xaPidCacheSize pid pgd (pidPairs t) (pidPairs u)) :
    PidHistory h s (ops ++ [.update pid pgd]) u where
  distinct := hput.nodup ht.distinct
  nonzero hmem := by
    obtain ⟨g, hg⟩ := mem_keys.mp hmem
    exact ht.nonzero (mem_keys.mpr ⟨g, hput.mem_of_ne hpid.symm hg⟩)
  latest p g hmem := by
    by_cases hp : p = pid
    · subst hp
      rw [lastUpdate_update_self, value_unique (hput.nodup ht.distinct) hput.self hmem]
    · rw [lastUpdate_update_ne ops (Ne.symm hp)]
      exact ht.latest p g (hput.mem_of_ne hp hmem)
  missing p hp hmem := by
    have hne : pid ≠ p := by
      rintro rfl
      exact hmem (mem_keys.mpr ⟨pgd, hput.self⟩)
    by_cases hold : p ∈ keys (pidPairs t)
    · -- the entry of `p` leaves in this call
      obtain ⟨pre, post, g, hbefore, hafter, hfull⟩ := hput.lost hold hmem
      refine Or.inr ⟨ops, .update pid pgd, [], t, rfl, hrun, ?_, ?_⟩
      · exact ⟨pid, pgd, u, pre, post, g, rfl, hop, hfull, hbefore, hafter⟩
      · exact lastUpdate_update_ne [] hne
    · rw [lastUpdate_update_ne ops hne]
      exact (ht.missing p hp hold).imp_right fun hev =>
        hev.concat fun l => lastUpdate_update_ne l hne

/-- Every run returns, with the pairs that its updates and evictions leave. -/
theorem runPidOps_history (h : Host) (s : XaState) (ops : List PidOp) :
    ∃ t, runPidOps h ops s.clear = .ok ((), t) ∧ PidHistory h s.clear ops t := by
  induction ops using List.reverseRecOn with
  | nil => exact ⟨s.clear, rfl, pidHistory_nil⟩
  | append_singleton ops op ih =>
    obtain ⟨t, hrun, ht⟩ := ih
    cases op with
    | check pid =>
      have hop : ∀ p, p ≠ 0 → ∀ l, lastUpdate p (l ++ [.check pid]) = lastUpdate p l :=
        fun _ _ l => lastUpdate_check l
      rcases xaCheckPidCache_cases h pid t with ⟨pgd, u, hcheck, -, hsame⟩ | ⟨hcheck, -⟩
      · exact ⟨u, runPidOps_concat hrun hcheck, ht.of_same hsame hop⟩
      · exact ⟨t, runPidOps_concat hrun hcheck, ht.of_same rfl hop⟩
    | update pid pgd =>
      by_cases hpid : pid = 0
      · subst hpid
        have hexec : (PidOp.update 0 pgd).exec h t = .ok (none, t) := rfl
        exact ⟨t, runPidOps_concat hrun hexec, ht.of_same rfl fun p hp l =>
          lastUpdate_update_ne l hp.symm⟩
      · obtain ⟨u, hupd, hput⟩ := xaUpdatePidCache_put h t hpid pgd
        have hexec : (PidOp.update pid pgd).exec h t = .ok (none, u) := bind_of_ok hupd
        exact ⟨u, runPidOps_concat hrun hexec, ht.of_put hrun hpid hexec hput⟩

/-- **The pid cache refines a bounded map.** After any run of lookups and updates from the
empty cache: a hit returns the most recent update for the pid, a pid has at most one entry
and pid `0` none, an update is seen by the next lookup, and a pid that misses was never
updated or has been evicted since its last update. -/
theorem pidCache_refines_map (h : Host) (s : XaState) (ops : List PidOp) :
    ∃ t, runPidOps h ops s.clear = .ok ((), t) ∧
      (∀ p g t', xaCheckPidCache h p t = .ok (some g, t') → lastUpdate p ops = some g) ∧
      (t.pidCache.entries.map PidCacheEntry.pid).Nodup ∧
      (∀ e ∈ t.pidCache.entries, e.pid ≠ 0) ∧
      (∀ p g, p ≠ 0 → ∃ t₁ t₂, xaUpdatePidCache h p g t = .ok ((), t₁) ∧
        xaCheckPidCache h p t₁ = .ok (some g, t₂)) ∧
      ∀ p t', p ≠ 0 → xaCheckPidCache h p t = .ok (none, t') →
        lastUpdate p ops = none ∨ EvictedSince h s.clear ops p := by
  obtain ⟨t, hrun, ht⟩ := runPidOps_history h s ops
  refine ⟨t, hrun, ?_, ?_, ?_, ?_, ?_⟩
  · intro p g t' hcheck
    rcases xaCheckPidCache_cases h p t with ⟨g', u, hhit, hmem, -⟩ | ⟨hmiss, -⟩
    · cases hcheck.symm.trans hhit
      exact ht.latest p g hmem
    · cases hcheck.symm.trans hmiss
  · rw [← keys_pidPairs]
    exact ht.distinct
  · intro e he hzero
    apply ht.nonzero
    rw [keys_pidPairs, ← hzero]
    exact List.mem_map_of_mem he
  · intro p g hp
    obtain ⟨t₁, hupd, hput⟩ := xaUpdatePidCache_put h t hp g
    rcases xaCheckPidCache_cases h p t₁ with ⟨g', t₂, hhit, hmem, -⟩ | ⟨-, hmiss⟩
    · have hg : g = g' := value_unique (hput.nodup ht.distinct) hput.self hmem
      exact ⟨t₁, t₂, hupd, hg ▸ hhit⟩
    · exact absurd (mem_keys.mpr ⟨g, hput.self⟩) hmiss
  · intro p t' hp hcheck
    rcases xaCheckPidCache_cases h p t with ⟨g', u, hhit, -, -⟩ | ⟨-, hmiss⟩
    · cases hcheck.symm.trans hhit
    · exact ht.missing p hp hmiss

end XenAccess
