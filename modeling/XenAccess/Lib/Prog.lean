import Mathlib.Logic.Basic

/-!
# Stateful programs that can fail

Rules for programs `σ → Except ε (α × σ)`, written in the monad `StateT σ (Except ε)`.

* `Returns x s Q`: the run of `x` from `s` returns, with a result and a state that
  satisfy `Q`.
* `After x s Q`: the same if the run returns at all.
* `Keeps I x`: every run of `x` from a state with `I` that returns ends in a state with `I`.
* `Follows I s x r`: the run of `x` from `s` returns what the state-free program `r`
  returns, and leaves `I` true. With an invariant `I` that says what a cache may hold, this
  is how a program with a cache is compared to the program without it.

All are composed along `bind`, and a run is taken apart with `bind_ok_iff`.
-/

namespace Prog

variable {σ ε α β : Type}

/-! ## Runs -/

theorem bind_ok_iff {x : StateT σ (Except ε) α} {f : α → StateT σ (Except ε) β} {s s' : σ}
    {b : β} : (x >>= f) s = .ok (b, s') ↔ ∃ a t, x s = .ok (a, t) ∧ f a t = .ok (b, s') := by
  show (x s >>= fun p => f p.1 p.2) = _ ↔ _
  cases h : x s with
  | error e => simp [bind, Except.bind]
  | ok p =>
    obtain ⟨a, t⟩ := p
    constructor
    · intro hf
      exact ⟨a, t, rfl, hf⟩
    · rintro ⟨a', t', hx, hf⟩
      cases hx
      exact hf

theorem bind_of_ok {x : StateT σ (Except ε) α} {f : α → StateT σ (Except ε) β} {s t : σ}
    {a : α} (h : x s = .ok (a, t)) : (x >>= f) s = f a t := by
  show (x s >>= fun p => f p.1 p.2) = _
  rw [h]
  rfl

theorem bind_of_error {x : StateT σ (Except ε) α} {f : α → StateT σ (Except ε) β} {s : σ}
    {e : ε} (h : x s = .error e) : (x >>= f) s = .error e := by
  show (x s >>= fun p => f p.1 p.2) = _
  rw [h]
  rfl

theorem except_bind_of_ok {x : Except ε α} {f : α → Except ε β} {a : α} (hx : x = .ok a) :
    (x >>= f) = f a := by
  rw [hx]
  rfl

theorem except_bind_ok {x : Except ε α} {f : α → Except ε β} {b : β} (hrun : x >>= f = .ok b) :
    ∃ a, x = .ok a ∧ f a = .ok b := by
  cases x with
  | error e => cases hrun
  | ok a => exact ⟨a, rfl, hrun⟩

@[simp] theorem get_bind (f : σ → StateT σ (Except ε) β) (s : σ) :
    ((get : StateT σ (Except ε) σ) >>= f) s = f s s := rfl

@[simp] theorem set_bind (t : σ) (f : PUnit → StateT σ (Except ε) β) (s : σ) :
    ((set t : StateT σ (Except ε) PUnit) >>= f) s = f ⟨⟩ t := rfl

@[simp] theorem modify_bind (g : σ → σ) (f : PUnit → StateT σ (Except ε) β) (s : σ) :
    ((modify g : StateT σ (Except ε) PUnit) >>= f) s = f ⟨⟩ (g s) := rfl

@[simp] theorem pure_apply (a : α) (s : σ) :
    (pure a : StateT σ (Except ε) α) s = .ok (a, s) := rfl

/-! ## Total runs -/

/-- The run of `x` from `s` returns with `Q`. -/
def Returns (x : StateT σ (Except ε) α) (s : σ) (Q : α → σ → Prop) : Prop :=
  ∃ a s', x s = .ok (a, s') ∧ Q a s'

theorem returns_pure {a : α} {s : σ} {Q : α → σ → Prop} (h : Q a s) :
    Returns (pure a : StateT σ (Except ε) α) s Q :=
  ⟨a, s, rfl, h⟩

theorem returns_bind {x : StateT σ (Except ε) α} {f : α → StateT σ (Except ε) β} {s : σ}
    {P : α → σ → Prop} {Q : β → σ → Prop} (hx : Returns x s P)
    (hf : ∀ a t, P a t → Returns (f a) t Q) : Returns (x >>= f) s Q := by
  obtain ⟨a, t, h1, h2⟩ := hx
  obtain ⟨b, s', h3, h4⟩ := hf a t h2
  exact ⟨b, s', (bind_of_ok h1).trans h3, h4⟩

instance {x : StateT σ (Except ε) α} {s : σ} {Q : α → σ → Prop} [∀ a t, Decidable (Q a t)] :
    Decidable (Returns x s Q) :=
  match hx : x s with
  | .ok (a, t) => decidable_of_iff (Q a t)
      ⟨fun hQ => ⟨a, t, hx, hQ⟩, fun ⟨b, t', hx', hQ⟩ => by cases hx.symm.trans hx'; exact hQ⟩
  | .error _ => .isFalse fun ⟨_, _, hx', _⟩ => by cases hx.symm.trans hx'

/-- If the run of `x` from `s` returns, it does so with `Q`. -/
def After (x : StateT σ (Except ε) α) (s : σ) (Q : α → σ → Prop) : Prop :=
  ∀ a t, x s = .ok (a, t) → Q a t

instance {x : StateT σ (Except ε) α} {s : σ} {Q : α → σ → Prop} [∀ a t, Decidable (Q a t)] :
    Decidable (After x s Q) :=
  match hx : x s with
  | .ok (a, t) => decidable_of_iff (Q a t)
      ⟨fun hQ b t' hx' => by cases hx.symm.trans hx'; exact hQ, fun hall => hall a t hx⟩
  | .error _ => .isTrue fun _ _ hx' => by cases hx.symm.trans hx'

/-! ## Invariants -/

/-- Every run of `x` that returns keeps `I`. -/
def Keeps (I : σ → Prop) (x : StateT σ (Except ε) α) : Prop :=
  ∀ s a s', I s → x s = .ok (a, s') → I s'

theorem keeps_pure {I : σ → Prop} (a : α) : Keeps I (pure a : StateT σ (Except ε) α) := by
  intro s b s' hI h
  cases h
  exact hI

theorem keeps_bind {I : σ → Prop} {x : StateT σ (Except ε) α}
    {f : α → StateT σ (Except ε) β} (hx : Keeps I x) (hf : ∀ a, Keeps I (f a)) :
    Keeps I (x >>= f) := by
  intro s b s' hI h
  obtain ⟨a, t, h1, h2⟩ := bind_ok_iff.mp h
  exact hf a t b s' (hx s a t hI h1) h2

theorem keeps_throw {I : σ → Prop} {e : ε} : Keeps I (throw e : StateT σ (Except ε) α) := by
  intro s a s' _ hrun
  cases hrun

theorem keeps_get {I : σ → Prop} : Keeps I (get : StateT σ (Except ε) σ) := by
  intro s a s' hI hrun
  cases hrun
  exact hI

theorem keeps_modify {I : σ → Prop} {g : σ → σ} (hg : ∀ s, I s → I (g s)) :
    Keeps I (modify g : StateT σ (Except ε) PUnit) := by
  intro s a s' hI hrun
  cases hrun
  exact hg s hI

/-- A program that goes on with the state it starts from. -/
theorem keeps_get_bind {I : σ → Prop} {f : σ → StateT σ (Except ε) β}
    (hf : ∀ s, I s → After (f s) s fun _ t => I t) : Keeps I ((get : StateT σ (Except ε) σ) >>= f) :=
  fun s b s' hI hrun => hf s hI b s' hrun

theorem Keeps.after {I : σ → Prop} {x : StateT σ (Except ε) α} {s : σ} (hx : Keeps I x) (hs : I s) :
    After x s fun _ t => I t := fun a t hrun => hx s a t hs hrun

/-- A program that goes on with another state. -/
theorem after_set_bind {I : σ → Prop} {f : PUnit → StateT σ (Except ε) β} {s t : σ}
    (hf : Keeps I (f ⟨⟩)) (ht : I t) :
    After ((set t : StateT σ (Except ε) PUnit) >>= f) s fun _ t => I t := hf.after ht

/-! ## Comparison with a state-free program -/

/-- From `s`, the program `x` behaves as the state-free `r` and ends with `I`. -/
def Follows (I : σ → Prop) (s : σ) (x : StateT σ (Except ε) α) (r : Except ε α) : Prop :=
  match x s with
  | .ok (a, s') => r = .ok a ∧ I s'
  | .error e => r = .error e

theorem follows_ok {I : σ → Prop} {s s' : σ} {x : StateT σ (Except ε) α}
    {r : Except ε α} {a : α} (h : Follows I s x r) (hx : x s = .ok (a, s')) :
    r = .ok a ∧ I s' := by
  rw [Follows, hx] at h
  exact h

theorem follows_of_ok {I : σ → Prop} {s s' : σ} {x : StateT σ (Except ε) α}
    {r : Except ε α} {a : α} (hx : x s = .ok (a, s')) (hr : r = .ok a) (hI : I s') :
    Follows I s x r := by
  rw [Follows, hx]
  exact ⟨hr, hI⟩

theorem follows_exists {I : σ → Prop} {s : σ} {x : StateT σ (Except ε) α}
    {r : Except ε α} {a : α} (h : Follows I s x r) (hr : r = .ok a) :
    ∃ s', x s = .ok (a, s') ∧ I s' := by
  rw [Follows] at h
  cases hx : x s with
  | error e =>
    rw [hx] at h
    cases hr.symm.trans h
  | ok p =>
    obtain ⟨b, s'⟩ := p
    rw [hx] at h
    cases hr.symm.trans h.1
    exact ⟨s', rfl, h.2⟩

theorem follows_pure {I : σ → Prop} {s : σ} (a : α) (hI : I s) :
    Follows I s (pure a : StateT σ (Except ε) α) (.ok a) :=
  ⟨rfl, hI⟩

end Prog
