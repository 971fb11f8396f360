import Mathlib.Data.Multiset.OrderedMonoid
import Mathlib.Data.Multiset.Range
import Mathlib.Tactic.Abel
import XenAccess.Lib.Prog

/-!
# Programs with a ledger

A program that acquires and releases requests of several pieces, and that reads memory it
has acquired, is run here with a ledger: the pieces that are live, the releases of a piece
that was not live, and the loads that ran over the end of what they read. Request `0, 1, ..`
is numbered when it is made, so a piece is never made live twice.

`Tracks R taken given π V x y` compares such a program `x` with the program `y` that does
the same without a ledger, and says what it does to the books. Apart from what it takes over
from its caller (`taken`) and hands back (`given`), a run leaves the live pieces as they
were, makes no stray release and no stray load, exactly under the conditions of the verdict
`V` on the state it starts from. The store is what stays acquired between calls; the first
use of it may have conditions of its own (`Rules`).

Verdicts are composed along `bind`, so there is one statement for each program.
-/

namespace Audit

variable {σ ε τ α β γ δ : Type}

/-! ## The ledger -/

/-- A piece of what was acquired: the number of the request and its place in it. -/
abbrev Piece := Nat × Nat

structure Ledger (τ : Type) where
  next : Nat
  live : Multiset Piece
  strayReleases : Nat
  strayLoads : Nat
  store : τ

/-- The pieces of a request. -/
def pieces (id n : Nat) : Multiset Piece := (Multiset.range n).map fun i => (id, i)

namespace Ledger

def acquire (L : Ledger τ) (n : Nat) : Ledger τ :=
  { L with next := L.next + 1, live := L.live + pieces L.next n }

/-- Release the first piece of a request. -/
def release (L : Ledger τ) (id : Nat) : Ledger τ :=
  if (id, 0) ∈ L.live then { L with live := L.live.erase (id, 0) }
  else { L with strayReleases := L.strayReleases + 1 }

/-- Load `n` bytes at `d` from memory of the given size. -/
def load (L : Ledger τ) (size d n : Nat) : Ledger τ :=
  if d + n ≤ size then L else { L with strayLoads := L.strayLoads + 1 }

/-- Hand the pieces of a request over to the store. -/
def keep (L : Ledger τ) (id n : Nat) (t : τ) : Ledger τ :=
  { L with live := L.live - pieces id n, store := t }

/-- No piece is live twice, and the numbers of live pieces have been given out. -/
structure WF (L : Ledger τ) : Prop where
  nodup : L.live.Nodup
  lt : ∀ u ∈ L.live, u.1 < L.next

/-- The ledger at the start. -/
def empty (t : τ) : Ledger τ := ⟨0, 0, 0, 0, t⟩

end Ledger

theorem mem_pieces {id n : Nat} {u : Piece} : u ∈ pieces id n ↔ u.1 = id ∧ u.2 < n := by
  obtain ⟨i, k⟩ := u
  simp only [pieces, Multiset.mem_map, Multiset.mem_range, Prod.mk.injEq]
  constructor
  · rintro ⟨a, ha, rfl, rfl⟩
    exact ⟨rfl, ha⟩
  · rintro ⟨rfl, hk⟩
    exact ⟨k, hk, rfl, rfl⟩

theorem pieces_one (id : Nat) : pieces id 1 = {(id, 0)} := rfl

theorem pieces_nodup (id n : Nat) : (pieces id n).Nodup := by
  refine (Multiset.nodup_range n).map ?_
  intro i k hik
  exact (Prod.mk.inj hik).2

theorem pieces_succ (id n : Nat) : ∃ rest, pieces id (n + 1) = {(id, 0)} + rest ∧
    (rest = 0 ↔ n = 0) := by
  have hmem : (id, 0) ∈ pieces id (n + 1) := mem_pieces.mpr ⟨rfl, n.succ_pos⟩
  obtain ⟨rest, hrest⟩ := Multiset.exists_cons_of_mem hmem
  refine ⟨rest, by rw [hrest, Multiset.singleton_add], ?_⟩
  have hcard := congrArg Multiset.card hrest
  simp only [pieces, Multiset.card_map, Multiset.card_range, Multiset.card_cons] at hcard
  rw [← Multiset.card_eq_zero]
  omega

namespace Ledger.WF

variable {L : Ledger τ}

theorem empty (t : τ) : (Ledger.empty t).WF := ⟨Multiset.nodup_zero, fun _ hu => by cases hu⟩

theorem acquire (hL : L.WF) (n : Nat) : (L.acquire n).WF where
  nodup := by
    refine Multiset.nodup_add.mpr ⟨hL.nodup, pieces_nodup _ _, ?_⟩
    rw [Multiset.disjoint_left]
    intro u hu hpiece
    have := hL.lt u hu
    have := (mem_pieces.mp hpiece).1
    omega
  lt := by
    intro u hu
    show u.1 < L.next + 1
    rcases Multiset.mem_add.mp hu with hu | hu
    · exact Nat.lt_succ_of_lt (hL.lt u hu)
    · rw [(mem_pieces.mp hu).1]
      exact Nat.lt_succ_self _

theorem of_le (hL : L.WF) {L' : Ledger τ} (hnext : L'.next = L.next) (hle : L'.live ≤ L.live) :
    L'.WF where
  nodup := Multiset.nodup_of_le hle hL.nodup
  lt := by
    intro u hu
    rw [hnext]
    exact hL.lt u (Multiset.mem_of_le hle hu)

theorem release (hL : L.WF) (id : Nat) : (L.release id).WF := by
  rw [Ledger.release]
  split
  · exact hL.of_le rfl (Multiset.erase_le _ _)
  · exact ⟨hL.nodup, hL.lt⟩

theorem load (hL : L.WF) (size d n : Nat) : (L.load size d n).WF := by
  rw [Ledger.load]
  split
  · exact hL
  · exact ⟨hL.nodup, hL.lt⟩

theorem keep (hL : L.WF) (id n : Nat) (t : τ) : (L.keep id n t).WF :=
  hL.of_le rfl (Multiset.sub_le_self _ _)

end Ledger.WF

/-! ## Programs -/

abbrev LedgerM (σ ε τ : Type) := StateT σ (ExceptT ε (StateM (Ledger τ)))

def acquire (n : Nat) : LedgerM σ ε τ Nat := fun s L => (.ok (L.next, s), L.acquire n)

def release (id : Nat) : LedgerM σ ε τ Unit := fun s L => (.ok ((), s), L.release id)

def load (size d n : Nat) : LedgerM σ ε τ Unit := fun s L => (.ok ((), s), L.load size d n)

def getStore : LedgerM σ ε τ τ := fun s L => (.ok (L.store, s), L)

def keep (id n : Nat) (t : τ) : LedgerM σ ε τ Unit := fun s L => (.ok ((), s), L.keep id n t)

/-- A program that acquires nothing. -/
def lift (y : StateT σ (Except ε) α) : LedgerM σ ε τ α := fun s L => (y s, L)

theorem bind_of_ok {x : LedgerM σ ε τ α} {f : α → LedgerM σ ε τ β} {s s' : σ} {a : α}
    {L L' : Ledger τ} (hx : x s L = (.ok (a, s'), L')) : (x >>= f) s L = f a s' L' := by
  simp only [bind, StateT.bind, ExceptT.bind, ExceptT.mk, ExceptT.bindCont, hx]

theorem bind_of_error {x : LedgerM σ ε τ α} {f : α → LedgerM σ ε τ β} {s : σ} {e : ε}
    {L L' : Ledger τ} (hx : x s L = (.error e, L')) : (x >>= f) s L = (.error e, L') := by
  simp only [bind, StateT.bind, ExceptT.bind, ExceptT.mk, ExceptT.bindCont, hx]
  rfl

/-! ## Entries -/

/-- What one run does to the books: it takes over and hands back pieces, leaves others
live, and makes stray releases and loads. -/
structure Entry (taken given : Multiset Piece) (L L' : Ledger τ) (leaked : Multiset Piece)
    (strays loads : Nat) : Prop where
  live : L'.live + taken = L.live + given + leaked
  strayReleases : L'.strayReleases = L.strayReleases + strays
  strayLoads : L'.strayLoads = L.strayLoads + loads

theorem Entry.of_live {taken given : Multiset Piece} {L L' : Ledger τ}
    (hlive : L'.live + taken = L.live + given) (hrel : L'.strayReleases = L.strayReleases)
    (hload : L'.strayLoads = L.strayLoads) : Entry taken given L L' 0 0 0 :=
  ⟨by rw [hlive, add_zero], hrel, hload⟩

theorem Entry.trans {taken mid given : Multiset Piece} {L L' L'' : Ledger τ}
    {k k' : Multiset Piece} {r r' l l' : Nat} (h1 : Entry taken mid L L' k r l)
    (h2 : Entry mid given L' L'' k' r' l') :
    Entry taken given L L'' (k + k') (r + r') (l + l') where
  live := by
    have hsum : L''.live + taken + mid = L.live + given + (k + k') + mid := by
      calc L''.live + taken + mid = L''.live + mid + taken := add_right_comm _ _ _
        _ = L'.live + taken + (given + k') := by rw [h2.live]; abel
        _ = L.live + given + (k + k') + mid := by rw [h1.live]; abel
    exact add_right_cancel hsum
  strayReleases := by rw [h2.strayReleases, h1.strayReleases, Nat.add_assoc]
  strayLoads := by rw [h2.strayLoads, h1.strayLoads, Nat.add_assoc]

/-! ## Verdicts -/

/-- What the programs rely on, and when the first use of the store is without defect. -/
structure Rules (σ τ : Type) where
  /-- kept by every program -/
  inv : σ → Prop
  /-- the store holds what it is for -/
  fits : τ → Prop
  /-- using the store releases what is acquired for it -/
  clean : τ → Prop
  /-- using the store loads in range -/
  inRange : τ → Prop

/-- Under which conditions a run has no defect, and whether it uses the store. -/
structure Verdict where
  clean : Prop
  inRange : Prop
  uses : Prop

namespace Verdict

/-- Never a defect, and no use of the store. -/
def skip : Verdict := ⟨True, True, False⟩

/-- First `v`, then `w`. -/
def seq (v w : Verdict) : Verdict :=
  ⟨v.clean ∧ w.clean, v.inRange ∧ w.inRange, v.uses ∨ w.uses⟩

/-- `w` after a load that is in range under a condition. -/
def load (P : Prop) (w : Verdict) : Verdict := ⟨w.clean, P ∧ w.inRange, w.uses⟩

/-- `v`, if a condition holds; else no step is made. -/
def guard (P : Prop) (v : Verdict) : Verdict := ⟨P → v.clean, P → v.inRange, P ∧ v.uses⟩

/-- First `v`, then what `W` says of the result of `y` from `s`. -/
def bind (v : Verdict) (y : StateT σ (Except ε) β) (s : σ) (W : β → σ → Verdict) : Verdict where
  clean := v.clean ∧ Prog.After y s fun b s' => (W b s').clean
  inRange := v.inRange ∧ Prog.After y s fun b s' => (W b s').inRange
  uses := v.uses ∨ Prog.Returns y s fun b s' => (W b s').uses

theorem eq_of_iff {v w : Verdict} (hclean : v.clean ↔ w.clean) (hrange : v.inRange ↔ w.inRange)
    (huses : v.uses ↔ w.uses) : v = w := by
  obtain ⟨_, _, _⟩ := v
  obtain ⟨_, _, _⟩ := w
  cases propext hclean
  cases propext hrange
  cases propext huses
  rfl

@[simp] theorem skip_seq (v : Verdict) : skip.seq v = v :=
  eq_of_iff (by simp [seq, skip]) (by simp [seq, skip]) (by simp [seq, skip])

@[simp] theorem seq_skip (v : Verdict) : v.seq skip = v :=
  eq_of_iff (by simp [seq, skip]) (by simp [seq, skip]) (by simp [seq, skip])

theorem guard_of {P : Prop} (hP : P) (v : Verdict) : guard P v = v :=
  eq_of_iff (by simp [guard, hP]) (by simp [guard, hP]) (by simp [guard, hP])

theorem guard_of_not {P : Prop} (hP : ¬P) (v : Verdict) : guard P v = skip :=
  eq_of_iff (by simp [guard, skip, hP]) (by simp [guard, skip, hP]) (by simp [guard, skip, hP])

theorem bind_of_ok {v : Verdict} {y : StateT σ (Except ε) β} {s s' : σ} {b : β}
    {W : β → σ → Verdict} (hy : y s = .ok (b, s')) : v.bind y s W = v.seq (W b s') := by
  have hafter (Q : β → σ → Prop) : Prog.After y s Q ↔ Q b s' := by
    constructor
    · intro hQ
      exact hQ b s' hy
    · intro hQ c t hc
      cases hy.symm.trans hc
      exact hQ
  have hreturns (Q : β → σ → Prop) : Prog.Returns y s Q ↔ Q b s' := by
    constructor
    · rintro ⟨c, t, hc, hQ⟩
      cases hy.symm.trans hc
      exact hQ
    · intro hQ
      exact ⟨b, s', hy, hQ⟩
  exact eq_of_iff (and_congr_right' (hafter _)) (and_congr_right' (hafter _))
    (or_congr_right (hreturns _))

/-- A rest that does not use the store. -/
theorem bind_unused {v : Verdict} {y : StateT σ (Except ε) β} {s : σ} {C D : β → σ → Prop} :
    (v.bind y s fun b s' => ⟨C b s', D b s', False⟩) =
      ⟨v.clean ∧ Prog.After y s C, v.inRange ∧ Prog.After y s D, v.uses⟩ := by
  refine eq_of_iff .rfl .rfl (or_iff_left ?_)
  rintro ⟨_, _, _, hu⟩
  exact hu

/-- A rest without stray releases that does not use the store. -/
theorem bind_range {v : Verdict} {y : StateT σ (Except ε) β} {s : σ} {D : β → σ → Prop} :
    (v.bind y s fun b s' => ⟨True, D b s', False⟩) =
      ⟨v.clean, v.inRange ∧ Prog.After y s D, v.uses⟩ := by
  rw [bind_unused]
  exact eq_of_iff (and_iff_left fun _ _ _ => trivial) .rfl .rfl

theorem bind_of_error {v : Verdict} {y : StateT σ (Except ε) β} {s : σ} {e : ε}
    {W : β → σ → Verdict} (hy : y s = .error e) : v.bind y s W = v := by
  have hafter (Q : β → σ → Prop) : Prog.After y s Q := by
    intro c t hc
    cases hy.symm.trans hc
  refine eq_of_iff (and_iff_left (hafter _)) (and_iff_left (hafter _)) (or_iff_left ?_)
  rintro ⟨c, t, hc, -⟩
  cases hy.symm.trans hc

end Verdict

/-- The numbers of an entry are as the verdict says. -/
structure Judged (R : Rules σ τ) (v : Verdict) (t : τ) (leaked : Multiset Piece)
    (strays loads : Nat) : Prop where
  clean : (leaked = 0 ∧ strays = 0) ↔ v.clean ∧ (v.uses → R.clean t)
  inRange : loads = 0 ↔ v.inRange ∧ (v.uses → R.inRange t)

/-- What is known of the store after a run: it is as before or was used, and a use makes no
later use worse. -/
structure Stored (R : Rules σ τ) (used : Prop) (t t' : τ) : Prop where
  fits : R.fits t'
  clean : R.clean t → R.clean t'
  inRange : R.inRange t → R.inRange t'
  same : ¬used → t' = t

/-- The run of `x` from the state `s` and the ledger `L` does what `y` does and keeps the
books as `v` says. -/
def TracksFrom (R : Rules σ τ) (s : σ) (L : Ledger τ) (taken : Multiset Piece)
    (given : α → Multiset Piece) (π : α → β) (v : Verdict) (x : LedgerM σ ε τ α)
    (y : StateT σ (Except ε) β) : Prop :=
  L.WF → R.inv s → R.fits L.store → taken ≤ L.live → ∃ leaked strays loads,
    Judged R v L.store leaked strays loads ∧
    match x s L with
    | (.ok (a, s'), L') => y s = .ok (π a, s') ∧ L'.WF ∧ R.inv s' ∧
        Stored R v.uses L.store L'.store ∧ Entry taken (given a) L L' leaked strays loads
    | (.error e, L') => y s = .error e ∧ Entry taken 0 L L' leaked strays loads

/-- The same from every ledger. -/
def Tracks (R : Rules σ τ) (s : σ) (taken : Multiset Piece) (given : α → Multiset Piece)
    (π : α → β) (v : Verdict) (x : LedgerM σ ε τ α) (y : StateT σ (Except ε) β) : Prop :=
  ∀ L, TracksFrom R s L taken given π v x y

section rules

variable {R : Rules σ τ} {s : σ} {taken : Multiset Piece} {given : α → Multiset Piece}
  {π : α → β} {v w : Verdict} {x : LedgerM σ ε τ α} {y : StateT σ (Except ε) β}

theorem Tracks.congr (hx : Tracks R s taken given π v x y) (hvw : R.inv s → v = w) :
    Tracks R s taken given π w x y := by
  intro L hL hs
  rw [← hvw hs]
  exact hx L hL hs

/-- A run that returns and forgets what it holds. -/
theorem Tracks.leak (hx : Tracks R s taken given π v x y) (hok : ∃ r, y s = .ok r)
    (hheld : ∀ a s', y s = .ok (π a, s') → given a ≠ 0) :
    Tracks R s taken (fun _ => 0) π ⟨False, v.inRange, v.uses⟩ x y := by
  intro L hL hs hfits htaken
  obtain ⟨leaked, strays, loads, hj, hrun⟩ := hx L hL hs hfits htaken
  rcases hxs : x s L with ⟨(e | ⟨a, s'⟩), L'⟩
  · rw [hxs] at hrun
    obtain ⟨r, hr⟩ := hok
    cases hr.symm.trans hrun.1
  · rw [hxs] at hrun
    obtain ⟨hy, hwf, hs', hst, hentry⟩ := hrun
    have hne := hheld a s' hy
    refine ⟨given a + leaked, strays, loads, ⟨?_, hj.inRange⟩, hy, hwf, hs', hst, ?_⟩
    · simp [hne]
    · exact ⟨by rw [hentry.live]; abel, hentry.strayReleases, hentry.strayLoads⟩

/-- Only the run of `y` from `s` matters. -/
theorem Tracks.of_eq {y' : StateT σ (Except ε) β} (hx : Tracks R s taken given π v x y')
    (hy : R.inv s → y s = y' s) : Tracks R s taken given π v x y := by
  intro L hL hs
  rw [hy hs]
  exact hx L hL hs

/-- A run under other rules for the use of the store. -/
theorem TracksFrom.rejudge {R' : Rules σ τ} {L : Ledger τ}
    (hx : TracksFrom R s L taken given π v x y) (hinv : R'.inv = R.inv) (hfits : R'.fits = R.fits)
    (hclean : v.clean ∧ (v.uses → R.clean L.store) ↔ w.clean ∧ (w.uses → R'.clean L.store))
    (hrange : v.inRange ∧ (v.uses → R.inRange L.store) ↔
      w.inRange ∧ (w.uses → R'.inRange L.store))
    (hstored : ∀ t, Stored R v.uses L.store t → Stored R' w.uses L.store t) :
    TracksFrom R' s L taken given π w x y := by
  intro hL hs hf htaken
  rw [hinv] at hs
  rw [hfits] at hf
  obtain ⟨leaked, strays, loads, hj, hrun⟩ := hx hL hs hf htaken
  refine ⟨leaked, strays, loads, ⟨hj.clean.trans hclean, hj.inRange.trans hrange⟩, ?_⟩
  rcases hxs : x s L with ⟨(e | ⟨a, s'⟩), L'⟩
  · rw [hxs] at hrun
    exact hrun
  · rw [hxs] at hrun
    obtain ⟨hy, hwf, hs', hst, hentry⟩ := hrun
    rw [← hinv] at hs'
    exact ⟨hy, hwf, hs', hstored _ hst, hentry⟩

/-- Where nothing is asked of the store, a program may be said to use it. -/
theorem Tracks.weaken_uses (hclean : ∀ t, R.clean t) (hrange : ∀ t, R.inRange t)
    (hx : Tracks R s taken given π v x y) (used : Prop) (hused : v.uses → used) :
    Tracks R s taken given π ⟨v.clean, v.inRange, used⟩ x y := by
  intro L
  refine (hx L).rejudge rfl rfl ?_ ?_ ?_
  · simp [hclean]
  · simp [hrange]
  · intro t hst
    exact ⟨hst.fits, hst.clean, hst.inRange, hst.same ∘ mt hused⟩

/-- A use of the store before another one. -/
theorem uses_congr {C : τ → Prop} {P Q u u' : Prop} {t t' : τ} (hmono : C t → C t')
    (hsame : ¬u → t' = t) :
    ((P ∧ (u → C t)) ∧ (Q ∧ (u' → C t'))) ↔ (P ∧ Q) ∧ (u ∨ u' → C t) := by
  by_cases hu : u
  · constructor
    · rintro ⟨⟨hP, hCt⟩, hQ, -⟩
      exact ⟨⟨hP, hQ⟩, fun _ => hCt hu⟩
    · rintro ⟨⟨hP, hQ⟩, hCt⟩
      exact ⟨⟨hP, fun _ => hCt (.inl hu)⟩, hQ, fun _ => hmono (hCt (.inl hu))⟩
  · cases hsame hu
    constructor
    · rintro ⟨⟨hP, -⟩, hQ, hCt⟩
      exact ⟨⟨hP, hQ⟩, fun h => hCt (h.resolve_left hu)⟩
    · rintro ⟨⟨hP, hQ⟩, hCt⟩
      exact ⟨⟨hP, fun h => absurd h hu⟩, hQ, fun h => hCt (.inr h)⟩

theorem Judged.bind {W : β → σ → Verdict} {t t' : τ} {b : β} {s' : σ}
    {k k' : Multiset Piece} {r r' l l' : Nat} (hj : Judged R v t k r l)
    (hj' : Judged R (W b s') t' k' r' l') (hst : Stored R v.uses t t')
    (hy : y s = .ok (b, s')) : Judged R (v.bind y s W) t (k + k') (r + r') (l + l') := by
  rw [Verdict.bind_of_ok hy]
  constructor
  · refine Iff.trans ?_ (uses_congr hst.clean hst.same)
    rw [← hj.clean, ← hj'.clean, add_eq_zero, Nat.add_eq_zero_iff]
    exact and_and_and_comm
  · refine Iff.trans ?_ (uses_congr hst.inRange hst.same)
    rw [← hj.inRange, ← hj'.inRange, Nat.add_eq_zero_iff]

theorem Stored.trans {u u' : Prop} {t t' t'' : τ} (h1 : Stored R u t t')
    (h2 : Stored R u' t' t'') : Stored R (u ∨ u') t t'' where
  fits := h2.fits
  clean := h2.clean ∘ h1.clean
  inRange := h2.inRange ∘ h1.inRange
  same := by
    intro hu
    rw [h2.same fun h => hu (.inr h), h1.same fun h => hu (.inl h)]

/-- Composition along `bind`. -/
theorem Tracks.bind {mid : α → Multiset Piece} {given : γ → Multiset Piece} {π' : γ → δ}
    {W : β → σ → Verdict} {f : α → LedgerM σ ε τ γ} {g : β → StateT σ (Except ε) δ}
    (hx : Tracks R s taken mid π v x y)
    (hf : ∀ a s', y s = .ok (π a, s') →
      Tracks R s' (mid a) given π' (W (π a) s') (f a) (g (π a))) :
    Tracks R s taken given π' (v.bind y s W) (x >>= f) (y >>= g) := by
  intro L hL hs hfits htaken
  obtain ⟨k, r, l, hj, hrun⟩ := hx L hL hs hfits htaken
  rcases hxs : x s L with ⟨(e | ⟨a, s'⟩), L'⟩
  · rw [hxs] at hrun
    obtain ⟨hy, hentry⟩ := hrun
    rw [Verdict.bind_of_error hy, bind_of_error hxs]
    refine ⟨k, r, l, hj, ?_⟩
    exact ⟨Prog.bind_of_error hy, hentry⟩
  · rw [hxs] at hrun
    obtain ⟨hy, hL', hs', hst, hentry⟩ := hrun
    have hmid : mid a ≤ L'.live := by
      have hle : mid a + taken ≤ L'.live + taken := by
        rw [hentry.live, add_comm L.live, add_assoc]
        exact add_le_add_right (htaken.trans (Multiset.le_add_right _ _)) _
      exact le_of_add_le_add_right hle
    obtain ⟨k', r', l', hj', hrun'⟩ := hf a s' hy L' hL' hs' hst.fits hmid
    refine ⟨k + k', r + r', l + l', hj.bind hj' hst hy, ?_⟩
    rw [bind_of_ok hxs, Prog.bind_of_ok hy]
    rcases hfs : f a s' L' with ⟨(e | ⟨c, s''⟩), L''⟩
    · rw [hfs] at hrun'
      exact ⟨hrun'.1, hentry.trans hrun'.2⟩
    · rw [hfs] at hrun'
      obtain ⟨hg, hL'', hs'', hst', hentry'⟩ := hrun'
      refine ⟨hg, hL'', hs'', ?_, hentry.trans hentry'⟩
      rw [Verdict.bind_of_ok hy]
      exact hst.trans hst'

/-- Composition with a step whose outcome is known. -/
theorem Tracks.bind_at {mid : α → Multiset Piece} {given : γ → Multiset Piece} {π' : γ → δ}
    {f : α → LedgerM σ ε τ γ} {g : β → StateT σ (Except ε) δ} {b : β} {s' : σ}
    (hx : Tracks R s taken mid π v x y) (hy : y s = .ok (b, s'))
    (hf : ∀ a, π a = b → Tracks R s' (mid a) given π' w (f a) (g b)) :
    Tracks R s taken given π' (v.seq w) (x >>= f) (y >>= g) := by
  have hbind : Tracks R s taken given π' (v.bind y s fun _ _ => w) (x >>= f) (y >>= g) := by
    refine hx.bind fun a t ha => ?_
    obtain ⟨hb, rfl⟩ := Prod.mk.inj (Except.ok.inj (hy.symm.trans ha))
    rw [← hb]
    exact hf a hb.symm
  exact hbind.congr fun _ => Verdict.bind_of_ok hy

/-- Composition with a step that returns without a change of state. -/
theorem Tracks.pure_bind {mid : α → Multiset Piece} {given : γ → Multiset Piece} {π' : γ → δ}
    {f : α → LedgerM σ ε τ γ} {b : β} {y' : StateT σ (Except ε) δ}
    (hx : Tracks R s taken mid π v x (pure b))
    (hf : ∀ a, π a = b → Tracks R s (mid a) given π' w (f a) y') :
    Tracks R s taken given π' (v.seq w) (x >>= f) y' :=
  hx.bind_at (g := fun _ => y') rfl hf

/-- Composition with a step that has no defect either. -/
theorem Tracks.skip_bind {mid : α → Multiset Piece} {given : γ → Multiset Piece} {π' : γ → δ}
    {f : α → LedgerM σ ε τ γ} {b : β} {y' : StateT σ (Except ε) δ}
    (hx : Tracks R s taken mid π .skip x (pure b))
    (hf : ∀ a, π a = b → Tracks R s (mid a) given π' w (f a) y') :
    Tracks R s taken given π' w (x >>= f) y' :=
  (hx.pure_bind hf).congr fun _ => Verdict.skip_seq w

/-- Composition with a use of the store. -/
theorem Tracks.use_bind {mid : α → Multiset Piece} {given : γ → Multiset Piece} {π' : γ → δ}
    {f : α → LedgerM σ ε τ γ} {b : β} {y' : StateT σ (Except ε) δ} {P : Prop}
    (hx : Tracks R s taken mid π ⟨True, P, True⟩ x (pure b))
    (hf : ∀ a, π a = b → Tracks R s (mid a) given π' w (f a) y') :
    Tracks R s taken given π' ⟨w.clean, P ∧ w.inRange, True⟩ (x >>= f) y' :=
  (hx.pure_bind hf).congr fun _ => Verdict.eq_of_iff (by simp [Verdict.seq]) .rfl
    (by simp [Verdict.seq])

/-- Composition with a load. -/
theorem Tracks.load_bind {mid : α → Multiset Piece} {given : γ → Multiset Piece} {π' : γ → δ}
    {f : α → LedgerM σ ε τ γ} {b : β} {y' : StateT σ (Except ε) δ} {P : Prop}
    (hx : Tracks R s taken mid π ⟨True, P, False⟩ x (pure b))
    (hf : ∀ a, π a = b → Tracks R s (mid a) given π' w (f a) y') :
    Tracks R s taken given π' (w.load P) (x >>= f) y' :=
  (hx.pure_bind hf).congr fun _ => Verdict.eq_of_iff (by simp [Verdict.seq, Verdict.load]) .rfl
    (by simp [Verdict.seq, Verdict.load])

/-- Composition with a rest that has no defect, whatever the outcome. -/
theorem Tracks.then_skip {mid : α → Multiset Piece} {given : γ → Multiset Piece}
    {π' : γ → δ} {f : α → LedgerM σ ε τ γ} {g : β → StateT σ (Except ε) δ}
    (hx : Tracks R s taken mid π v x y)
    (hf : ∀ a s', y s = .ok (π a, s') → Tracks R s' (mid a) given π' .skip (f a) (g (π a))) :
    Tracks R s taken given π' v (x >>= f) (y >>= g) := by
  have hbind : Tracks R s taken given π' (v.bind y s fun _ _ => .skip) (x >>= f) (y >>= g) :=
    hx.bind hf
  refine hbind.congr fun _ => Verdict.bind_range.trans ?_
  exact Verdict.eq_of_iff .rfl (and_iff_left fun _ _ _ => trivial) .rfl

/-- The same after a step that returns without a change of state. -/
theorem Tracks.bind_skip {mid : α → Multiset Piece} {given : γ → Multiset Piece} {π' : γ → δ}
    {f : α → LedgerM σ ε τ γ} {b : β} {y' : StateT σ (Except ε) δ}
    (hx : Tracks R s taken mid π v x (pure b))
    (hf : ∀ a, π a = b → Tracks R s (mid a) given π' .skip (f a) y') :
    Tracks R s taken given π' v (x >>= f) y' :=
  (hx.pure_bind hf).congr fun _ => Verdict.seq_skip v

/-! ## Rules for the single steps -/

theorem Stored.refl {t : τ} (hfits : R.fits t) (used : Prop) : Stored R used t t :=
  ⟨hfits, id, id, fun _ => rfl⟩

theorem Judged.skip (R : Rules σ τ) (t : τ) : Judged R .skip t 0 0 0 := by
  constructor
  · simp [Verdict.skip]
  · simp [Verdict.skip]

theorem tracks_pure {a : α} {b : β} (htaken : taken = given a) (hb : π a = b) :
    Tracks R s taken given π .skip (pure a : LedgerM σ ε τ α) (pure b) := by
  subst htaken hb
  intro L hL hs hfits _
  exact ⟨0, 0, 0, .skip R _, rfl, hL, hs, .refl hfits _, .of_live rfl rfl rfl⟩

/-- A step that makes no request. -/
theorem tracks_lift (hy : Prog.Keeps R.inv y) :
    Tracks R s 0 (fun _ => 0) id .skip (lift y : LedgerM σ ε τ β) y := by
  intro L hL hs hfits _
  refine ⟨0, 0, 0, .skip R _, ?_⟩
  simp only [lift]
  cases hys : y s with
  | error e => exact ⟨rfl, .of_live rfl rfl rfl⟩
  | ok r => exact ⟨rfl, hL, hy s r.1 r.2 hs hys, .refl hfits _, .of_live rfl rfl rfl⟩

/-- Reading the state. -/
theorem tracks_get_bind {given : γ → Multiset Piece} {π' : γ → δ} {f : σ → LedgerM σ ε τ γ}
    {g : σ → StateT σ (Except ε) δ} (hf : R.inv s → Tracks R s taken given π' v (f s) (g s)) :
    Tracks R s taken given π' v (get >>= f) (get >>= g) := by
  intro L hL hs hfits htaken
  exact hf hs L hL hs hfits htaken

/-- Reading the state, where the other program does not. -/
theorem tracks_get_left {given : γ → Multiset Piece} {π' : γ → δ} {f : σ → LedgerM σ ε τ γ}
    {g : StateT σ (Except ε) δ} (hf : R.inv s → Tracks R s taken given π' v (f s) g) :
    Tracks R s taken given π' v (get >>= f) g := by
  intro L hL hs hfits htaken
  exact hf hs L hL hs hfits htaken

/-- Reading the store. -/
theorem tracksFrom_getStore_bind {given : γ → Multiset Piece} {π' : γ → δ} {L : Ledger τ}
    {f : τ → LedgerM σ ε τ γ} {g : StateT σ (Except ε) δ} {t : τ} (ht : L.store = t)
    (hf : TracksFrom R s L taken given π' v (f t) g) :
    TracksFrom R s L taken given π' v (getStore >>= f) g := by
  subst ht
  exact hf

theorem tracks_acquire (R : Rules σ τ) (s : σ) (held : Multiset Piece) (n : Nat) :
    Tracks R s held (fun id => held + pieces id n) (fun _ => ()) .skip
      (acquire n : LedgerM σ ε τ Nat) (pure ()) := by
  intro L hL hs hfits _
  refine ⟨0, 0, 0, .skip R _, rfl, hL.acquire n, hs, .refl hfits _, .of_live ?_ rfl rfl⟩
  show L.live + pieces L.next n + held = L.live + (held + pieces L.next n)
  abel

/-- A release of the first piece leaves the others live. -/
theorem tracks_release_first (R : Rules σ τ) (s : σ) (held : Multiset Piece) (id n : Nat) :
    Tracks R s (held + pieces id (n + 1)) (fun _ => held) (fun _ => ()) ⟨n = 0, True, False⟩
      (release id : LedgerM σ ε τ Unit) (pure ()) := by
  intro L hL hs hfits htaken
  obtain ⟨rest, hpieces, hrest⟩ := pieces_succ id n
  have hmem : (id, 0) ∈ L.live := by
    refine Multiset.mem_of_le htaken (Multiset.mem_add.mpr (.inr ?_))
    exact mem_pieces.mpr ⟨rfl, n.succ_pos⟩
  have hrelease : L.release id = { L with live := L.live.erase (id, 0) } := if_pos hmem
  refine ⟨rest, 0, 0, ⟨by simp [hrest], by simp⟩, ?_⟩
  show _ ∧ (L.release id).WF ∧ _ ∧ Stored R _ _ (L.release id).store ∧ _
  rw [hrelease]
  refine ⟨rfl, hL.of_le rfl (Multiset.erase_le _ _), hs, .refl hfits _, ?_, rfl, rfl⟩
  show L.live.erase (id, 0) + (held + pieces id (n + 1)) = L.live + held + rest
  have hlive : L.live = L.live.erase (id, 0) + {(id, 0)} := by
    rw [add_comm, Multiset.singleton_add, Multiset.cons_erase hmem]
  nth_rewrite 2 [hlive]
  rw [hpieces]
  abel

theorem tracks_release (R : Rules σ τ) (s : σ) (held : Multiset Piece) (id : Nat) :
    Tracks R s (held + pieces id 1) (fun _ => held) (fun _ => ()) .skip
      (release id : LedgerM σ ε τ Unit) (pure ()) :=
  (tracks_release_first R s held id 0).congr fun _ =>
    Verdict.eq_of_iff (by simp [Verdict.skip]) .rfl .rfl

/-- A piece that is released a second time. -/
theorem tracks_release_twice (hy : Prog.Keeps R.inv y) (hok : ∃ r, y s = .ok r) (id : Nat)
    (b : β → γ) :
    Tracks R s (pieces id 1) (fun _ => 0) (fun c : γ => c) ⟨False, True, False⟩
      (do
        release id
        let a ← lift y
        release id
        pure (b a) : LedgerM σ ε τ γ)
      (do
        let a ← y
        pure (b a)) := by
  intro L hL hs hfits htaken
  obtain ⟨⟨a, s'⟩, hys⟩ := hok
  have hmem : (id, 0) ∈ L.live := Multiset.mem_of_le htaken (mem_pieces.mpr ⟨rfl, Nat.one_pos⟩)
  have hdead : (id, 0) ∉ L.live.erase (id, 0) := by
    rw [hL.nodup.mem_erase_iff]
    simp
  have hfirst : L.release id = { L with live := L.live.erase (id, 0) } := if_pos hmem
  have hsecond : (L.release id).release id =
      { L with live := L.live.erase (id, 0), strayReleases := L.strayReleases + 1 } := by
    rw [hfirst]
    exact if_neg hdead
  have hrun : (do
      release id
      let a ← lift y
      release id
      pure (b a) : LedgerM σ ε τ γ) s L = (.ok (b a, s'), (L.release id).release id) := by
    refine (bind_of_ok rfl).trans ?_
    have hlift : lift y s (L.release id) = (.ok (a, s'), L.release id) := by
      rw [lift, hys]
    exact (bind_of_ok hlift).trans rfl
  refine ⟨0, 1, 0, ⟨by simp, by simp⟩, ?_⟩
  rw [hrun, hsecond]
  refine ⟨(Prog.bind_of_ok hys).trans rfl, ?_, hy s a s' hs hys, .refl hfits _, ?_, rfl, rfl⟩
  · exact ⟨hL.nodup.erase _, fun u hu => hL.lt u (Multiset.mem_of_mem_erase hu)⟩
  · show L.live.erase (id, 0) + pieces id 1 = L.live + 0 + 0
    rw [pieces_one, add_comm, Multiset.singleton_add, Multiset.cons_erase hmem, add_zero, add_zero]

/-- Handing over to the store, where the use of it is judged by the verdict alone. -/
theorem tracks_keep (hclean : ∀ t, R.clean t) (hrange : ∀ t, R.inRange t) (held : Multiset Piece)
    (id n : Nat) {t : τ} (ht : R.fits t) :
    Tracks R s (held + pieces id n) (fun _ => held) (fun _ => ()) ⟨True, True, True⟩
      (keep id n t : LedgerM σ ε τ Unit) (pure ()) := by
  intro L hL hs hfits htaken
  refine ⟨0, 0, 0, ⟨by simp [hclean], by simp [hrange]⟩, rfl, hL.keep id n t, hs,
    ⟨ht, fun _ => hclean t, fun _ => hrange t, fun hu => absurd trivial hu⟩, .of_live ?_ rfl rfl⟩
  show L.live - pieces id n + (held + pieces id n) = L.live + held
  have hle : pieces id n ≤ L.live := (Multiset.le_add_left _ _).trans htaken
  rw [add_comm held, ← add_assoc, Multiset.sub_add_cancel hle]

theorem tracks_load (R : Rules σ τ) (s : σ) (held : Multiset Piece) (size d n : Nat) :
    Tracks R s held (fun _ => held) (fun _ => ()) ⟨True, d + n ≤ size, False⟩
      (load size d n : LedgerM σ ε τ Unit) (pure ()) := by
  intro L hL hs hfits _
  refine ⟨0, 0, if d + n ≤ size then 0 else 1, ?_, ?_⟩
  · constructor
    · simp
    · simp
  · refine ⟨rfl, hL.load size d n, hs, ?_, ?_⟩
    · show Stored R False L.store (L.load size d n).store
      rw [Ledger.load]
      split
      · exact .refl hfits _
      · exact .refl hfits _
    · show Entry held held L (L.load size d n) 0 0 _
      rw [Ledger.load]
      split
      · exact .of_live rfl rfl rfl
      · exact ⟨by simp, rfl, rfl⟩

/-! ## What a run does to the books -/

/-- Every piece that was acquired has been released, once. -/
structure Released (L L' : Ledger τ) : Prop where
  /-- the live pieces are those of the start -/
  live : L'.live = L.live
  /-- no piece was released that was not live -/
  strayReleases : L'.strayReleases = L.strayReleases

theorem Entry.released_iff {L L' : Ledger τ} {leaked : Multiset Piece} {strays loads : Nat}
    (he : Entry 0 0 L L' leaked strays loads) : Released L L' ↔ leaked = 0 ∧ strays = 0 := by
  have hlive := he.live
  rw [add_zero, add_zero] at hlive
  constructor
  · intro hr
    refine ⟨?_, ?_⟩
    · rw [hr.live] at hlive
      exact left_eq_add.mp hlive
    · have := he.strayReleases
      have := hr.strayReleases
      omega
  · rintro ⟨rfl, rfl⟩
    exact ⟨by rw [hlive, add_zero], he.strayReleases⟩

/-- The entry of a run that takes nothing over and hands nothing back. -/
theorem Tracks.entry (hx : Tracks R s 0 (fun _ => 0) π v x y) {L : Ledger τ} (hL : L.WF)
    (hs : R.inv s) (hfits : R.fits L.store) : ∃ leaked strays loads,
      Judged R v L.store leaked strays loads ∧ Entry 0 0 L (x s L).2 leaked strays loads := by
  obtain ⟨leaked, strays, loads, hj, hrun⟩ := hx L hL hs hfits (Multiset.zero_le _)
  refine ⟨leaked, strays, loads, hj, ?_⟩
  rcases hxs : x s L with ⟨(e | ⟨a, s'⟩), L'⟩
  · rw [hxs] at hrun
    exact hrun.2
  · rw [hxs] at hrun
    exact hrun.2.2.2.2

theorem Tracks.released_iff (hx : Tracks R s 0 (fun _ => 0) π v x y) {L : Ledger τ} (hL : L.WF)
    (hs : R.inv s) (hfits : R.fits L.store) :
    Released L (x s L).2 ↔ v.clean ∧ (v.uses → R.clean L.store) := by
  obtain ⟨leaked, strays, loads, hj, he⟩ := hx.entry hL hs hfits
  exact he.released_iff.trans hj.clean

theorem Tracks.strayLoads_iff (hx : Tracks R s 0 (fun _ => 0) π v x y) {L : Ledger τ} (hL : L.WF)
    (hs : R.inv s) (hfits : R.fits L.store) :
    (x s L).2.strayLoads = L.strayLoads ↔ v.inRange ∧ (v.uses → R.inRange L.store) := by
  obtain ⟨leaked, strays, loads, hj, he⟩ := hx.entry hL hs hfits
  rw [← hj.inRange, he.strayLoads]
  omega

/-- The outcome is the one without a ledger. -/
theorem Tracks.outcome_eq {y : StateT σ (Except ε) α} (hx : Tracks R s 0 given id v x y)
    {L : Ledger τ} (hL : L.WF) (hs : R.inv s) (hfits : R.fits L.store) : (x s L).1 = y s := by
  obtain ⟨leaked, strays, loads, -, hrun⟩ := hx L hL hs hfits (Multiset.zero_le _)
  rcases hxs : x s L with ⟨(e | ⟨a, s'⟩), L'⟩
  · rw [hxs] at hrun
    exact hrun.1.symm
  · rw [hxs] at hrun
    exact hrun.1.symm

end rules

end Audit
