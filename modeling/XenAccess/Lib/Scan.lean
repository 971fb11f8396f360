import XenAccess.Lib.Orbit

/-!
# Scans

A scan makes rounds from a state on. A round either ends the scan, or yields a value and goes
on with another state, or fails. When it can be told from the state which of these a round
does, a scan finishes exactly if the walk along the states ends and no state it comes to makes
the round fail (`finishes_iff`).
-/

namespace Scan

variable {σ α β ε : Type}

/-- What a round does that does not fail. -/
inductive Round (σ α β : Type) where
  | done (b : β)
  | more (a : α) (s : σ)

/-- The rounds of a scan, with a bound on their number. -/
def run (round : σ → Except ε (Round σ α β)) (late : ε) : Nat → σ → Except ε (List α × β)
  | 0, _ => .error late
  | rounds + 1, s => do
    match ← round s with
    | .done b => return ([], b)
    | .more a s =>
      let (l, b) ← run round late rounds s
      return (a :: l, b)

/-- The scan comes to its end, without failure. -/
def Finishes (round : σ → Except ε (Round σ α β)) (late : ε) (s : σ) : Prop :=
  ∃ rounds r, run round late rounds s = .ok r

variable {round : σ → Except ε (Round σ α β)} {late : ε} {s s' : σ} {a : α} {b : β}

/-! ## Rounds -/

theorem run_done (rounds : Nat) (hround : round s = .ok (.done b)) :
    run round late (rounds + 1) s = .ok ([], b) := by
  rw [run, hround]
  rfl

theorem run_more (rounds : Nat) (hround : round s = .ok (.more a s')) :
    run round late (rounds + 1) s = (run round late rounds s').map fun r => (a :: r.1, r.2) := by
  rw [run, hround]
  show Except.bind (run round late rounds s') _ = _
  cases run round late rounds s' <;> rfl

variable {rounds : Nat} {r : List α × β}

/-- The first round of a run that does not fail does not fail. -/
theorem round_of_run (hr : run round late (rounds + 1) s = .ok r) : ∃ r', round s = .ok r' := by
  cases hround : round s with
  | error e => rw [run, hround] at hr; cases hr
  | ok r' => exact ⟨r', rfl⟩

theorem of_run_done (hround : round s = .ok (.done b))
    (hr : run round late (rounds + 1) s = .ok r) : r = ([], b) := by
  rw [run_done rounds hround] at hr
  exact (Except.ok.inj hr).symm

theorem of_run_more (hround : round s = .ok (.more a s'))
    (hr : run round late (rounds + 1) s = .ok r) :
    ∃ r', run round late rounds s' = .ok r' ∧ r = (a :: r'.1, r'.2) := by
  rw [run_more rounds hround] at hr
  cases hrun : run round late rounds s' with
  | error e => rw [hrun] at hr; cases hr
  | ok r' => rw [hrun] at hr; exact ⟨r', rfl, (Except.ok.inj hr).symm⟩

theorem finishes_done (hround : round s = .ok (.done b)) : Finishes round late s :=
  ⟨1, ([], b), run_done 0 hround⟩

theorem finishes_more (hround : round s = .ok (.more a s')) (hs' : Finishes round late s') :
    Finishes round late s := by
  obtain ⟨rounds, r, hr⟩ := hs'
  refine ⟨rounds + 1, (a :: r.1, r.2), ?_⟩
  rw [run_more rounds hround, hr]
  rfl

/-! ## Walks -/

/-- What a round does can be told from the state: it fails unless the state is good, and goes on
with the next state, if there is one. -/
structure Follows (round : σ → Except ε (Round σ α β)) (next : σ → Option σ) (good : σ → Prop) :
    Prop where
  done : ∀ s, good s → next s = none → ∃ b, round s = .ok (.done b)
  more : ∀ s s', good s → next s = some s' → ∃ a, round s = .ok (.more a s')
  good : ∀ s r, round s = .ok r → good s

variable {next : σ → Option σ} {good : σ → Prop}

theorem Follows.finishes (h : Follows round next good) {n : Nat} (hends : Orbit.nth next s n = none)
    (hgood : ∀ n x, Orbit.nth next s n = some x → good x) : Finishes round late s := by
  induction n generalizing s with
  | zero => cases hends
  | succ n ih =>
    have hs := hgood 0 s rfl
    cases hnext : next s with
    | none =>
      obtain ⟨b, hb⟩ := h.done s hs hnext
      exact finishes_done hb
    | some s' =>
      obtain ⟨a, ha⟩ := h.more s s' hs hnext
      have hshift := Orbit.nth_succ_of_some hnext
      refine finishes_more ha (ih (hshift n ▸ hends) fun k x hx => ?_)
      exact hgood (k + 1) x (hshift k ▸ hx)

theorem Follows.walk (h : Follows round next good)
    (hr : run round late rounds s = .ok r) :
    Orbit.Ends next s ∧ ∀ n x, Orbit.nth next s n = some x → good x := by
  induction rounds generalizing s r with
  | zero => cases hr
  | succ rounds ih =>
    have hs : good s := by
      obtain ⟨r', hround⟩ := round_of_run hr
      exact h.good s r' hround
    cases hnext : next s with
    | none =>
      have hnone := Orbit.nth_succ_of_none hnext
      refine ⟨⟨1, hnone 0⟩, fun n x hx => ?_⟩
      cases n with
      | zero => exact Option.some.inj hx ▸ hs
      | succ n => rw [hnone n] at hx; cases hx
    | some s' =>
      obtain ⟨a, ha⟩ := h.more s s' hs hnext
      have hshift := Orbit.nth_succ_of_some hnext
      obtain ⟨r', hr', -⟩ := of_run_more ha hr
      obtain ⟨⟨n, hn⟩, hgood⟩ := ih hr'
      refine ⟨⟨n + 1, (hshift n).trans hn⟩, fun k x hx => ?_⟩
      cases k with
      | zero => exact Option.some.inj hx ▸ hs
      | succ k => exact hgood k x ((hshift k).symm.trans hx)

/-- **When a scan finishes.** -/
theorem Follows.finishes_iff (h : Follows round next good) :
    Finishes round late s ↔
      Orbit.Ends next s ∧ ∀ n x, Orbit.nth next s n = some x → good x := by
  constructor
  · rintro ⟨rounds, r, hr⟩
    exact h.walk hr
  · rintro ⟨⟨n, hn⟩, hgood⟩
    exact h.finishes hn hgood

end Scan
