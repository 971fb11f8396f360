import XenAccess.Lib.Audit

/-!
# Balances

A verdict says when a run has no defect. A balance says how many defects it has: `Counts` is
`Tracks` with the number of pieces that a run leaves live and the number of its stray releases,
from ledgers on which the first use of the store is clean. A program without a defect counts
nothing (`Tracks.counts`), and the numbers of two programs one after the other add up
(`Counts.bind_of_ok`), so the balance of a loop is a sum over its rounds.
-/

namespace Audit

variable {σ ε τ α β γ δ : Type}

/-- The run of `x` from the state `s` and the ledger `L` does what `y` does, leaves `leaks`
pieces live that it does not hand back, and makes `strays` stray releases. -/
def CountsFrom (R : Rules σ τ) (s : σ) (L : Ledger τ) (taken : Multiset Piece)
    (given : α → Multiset Piece) (π : α → β) (leaks strays : Nat) (x : LedgerM σ ε τ α)
    (y : StateT σ (Except ε) β) : Prop :=
  L.WF → R.inv s → R.fits L.store → R.clean L.store → taken ≤ L.live → ∃ leaked loads,
    leaked.card = leaks ∧
    match x s L with
    | (.ok (a, s'), L') => y s = .ok (π a, s') ∧ L'.WF ∧ R.inv s' ∧ R.fits L'.store ∧
        R.clean L'.store ∧ Entry taken (given a) L L' leaked strays loads
    | (.error e, L') => y s = .error e ∧ Entry taken 0 L L' leaked strays loads

/-- The same from every ledger. -/
def Counts (R : Rules σ τ) (s : σ) (taken : Multiset Piece) (given : α → Multiset Piece)
    (π : α → β) (leaks strays : Nat) (x : LedgerM σ ε τ α) (y : StateT σ (Except ε) β) : Prop :=
  ∀ L, CountsFrom R s L taken given π leaks strays x y

variable {R : Rules σ τ} {s : σ} {taken : Multiset Piece} {given : α → Multiset Piece}
  {π : α → β} {v : Verdict} {x : LedgerM σ ε τ α} {y : StateT σ (Except ε) β}
  {leaks strays leaks' strays' : Nat} {L : Ledger τ}

/-- A program without a defect. -/
theorem Tracks.counts (hx : Tracks R s taken given π v x y) (hclean : v.clean) :
    Counts R s taken given π 0 0 x y := by
  intro L hL hs hfits hstore htaken
  obtain ⟨leaked, strays, loads, hj, hrun⟩ := hx L hL hs hfits htaken
  obtain ⟨rfl, rfl⟩ := hj.clean.mpr ⟨hclean, fun _ => hstore⟩
  refine ⟨0, loads, rfl, ?_⟩
  rcases hxs : x s L with ⟨(e | ⟨a, s'⟩), L'⟩
  · rw [hxs] at hrun
    exact hrun
  · rw [hxs] at hrun
    obtain ⟨hy, hL', hs', hst, hentry⟩ := hrun
    exact ⟨hy, hL', hs', hst.fits, hst.clean hstore, hentry⟩

/-- The rules with another condition on the first use of the store. -/
def Rules.withClean (R : Rules σ τ) (C : τ → Prop) : Rules σ τ := { R with clean := C }

/-- A program that does not use the store. -/
theorem Tracks.counts_unused (hx : Tracks R s taken given π v x y) (hclean : v.clean)
    (huses : ¬v.uses) (C : τ → Prop) : Counts (R.withClean C) s taken given π 0 0 x y := by
  refine Tracks.counts (v := v) (fun L => (hx L).rejudge rfl rfl ?_ .rfl ?_) hclean
  · exact and_congr_right fun _ => iff_of_true (fun hu => absurd hu huses) fun hu => absurd hu huses
  · intro t hst
    obtain rfl := hst.same huses
    exact ⟨hst.fits, id, hst.inRange, fun _ => rfl⟩

theorem Counts.of_eq (hx : Counts R s taken given π leaks strays x y) (hleaks : leaks = leaks')
    (hstrays : strays = strays') : Counts R s taken given π leaks' strays' x y := by
  subst hleaks hstrays
  exact hx

theorem counts_pure {a : α} {b : β} (hgiven : taken = given a) (hb : π a = b) :
    Counts R s taken given π 0 0 (pure a : LedgerM σ ε τ α) (pure b) :=
  (tracks_pure hgiven hb).counts trivial

/-- A program that forgets what it holds. -/
theorem counts_forget {a : α} {b : β} (hb : π a = b) :
    Counts R s taken (fun _ => 0) π taken.card 0 (pure a : LedgerM σ ε τ α) (pure b) := by
  subst hb
  intro L hL hs hfits hclean _
  refine ⟨taken, 0, rfl, rfl, hL, hs, hfits, hclean, ⟨?_, rfl, rfl⟩⟩
  show L.live + taken = L.live + 0 + taken
  rw [add_zero]

/-- What is handed back is live. -/
theorem Entry.given_le {mid : Multiset Piece} {L L' : Ledger τ} {leaked : Multiset Piece}
    {loads : Nat} (hentry : Entry taken mid L L' leaked strays loads) (htaken : taken ≤ L.live) :
    mid ≤ L'.live := by
  have hle : mid + taken ≤ L'.live + taken := by
    rw [hentry.live, add_comm L.live, add_assoc]
    exact add_le_add_right (htaken.trans (Multiset.le_add_right _ _)) _
  exact le_of_add_le_add_right hle

/-- Two programs one after the other. -/
theorem CountsFrom.bind_of_ok {mid : α → Multiset Piece} {given : γ → Multiset Piece} {π' : γ → δ}
    {f : α → LedgerM σ ε τ γ} {g : β → StateT σ (Except ε) δ} {b : β} {s' : σ}
    (hx : CountsFrom R s L taken mid π leaks strays x y) (hy : y s = .ok (b, s'))
    (hf : ∀ a L', x s L = (.ok (a, s'), L') → π a = b →
      CountsFrom R s' L' (mid a) given π' leaks' strays' (f a) (g b)) :
    CountsFrom R s L taken given π' (leaks + leaks') (strays + strays') (x >>= f) (y >>= g) := by
  intro hL hs hfits hclean htaken
  obtain ⟨k, l, hk, hrun⟩ := hx hL hs hfits hclean htaken
  rcases hxs : x s L with ⟨(e | ⟨a, t⟩), L'⟩
  · rw [hxs] at hrun
    cases hy.symm.trans hrun.1
  · rw [hxs] at hrun
    obtain ⟨hya, hL', hs', hfits', hclean', hentry⟩ := hrun
    obtain ⟨rfl, rfl⟩ := Prod.mk.inj (Except.ok.inj (hy.symm.trans hya))
    obtain ⟨k', l', hk', hrun'⟩ :=
      hf a L' hxs rfl hL' hs' hfits' hclean' (hentry.given_le htaken)
    refine ⟨k + k', l + l', by rw [Multiset.card_add, hk, hk'], ?_⟩
    rw [Audit.bind_of_ok hxs, Prog.bind_of_ok hy]
    rcases hfs : f a s' L' with ⟨(e | ⟨c, u⟩), L''⟩
    · rw [hfs] at hrun'
      exact ⟨hrun'.1, hentry.trans hrun'.2⟩
    · rw [hfs] at hrun'
      obtain ⟨hg, hL'', hu, hfits'', hclean'', hentry'⟩ := hrun'
      exact ⟨hg, hL'', hu, hfits'', hclean'', hentry.trans hentry'⟩

theorem Counts.bind_of_ok {mid : α → Multiset Piece} {given : γ → Multiset Piece} {π' : γ → δ}
    {f : α → LedgerM σ ε τ γ} {g : β → StateT σ (Except ε) δ} {b : β} {s' : σ}
    (hx : Counts R s taken mid π leaks strays x y) (hy : y s = .ok (b, s'))
    (hf : ∀ a, π a = b → Counts R s' (mid a) given π' leaks' strays' (f a) (g b)) :
    Counts R s taken given π' (leaks + leaks') (strays + strays') (x >>= f) (y >>= g) :=
  fun L => (hx L).bind_of_ok hy fun a L' _ ha => hf a ha L'

/-- The first program has no defect. -/
theorem Counts.clean_bind {mid : α → Multiset Piece} {given : γ → Multiset Piece} {π' : γ → δ}
    {f : α → LedgerM σ ε τ γ} {g : β → StateT σ (Except ε) δ} {b : β} {s' : σ}
    (hx : Counts R s taken mid π 0 0 x y) (hy : y s = .ok (b, s'))
    (hf : ∀ a, π a = b → Counts R s' (mid a) given π' leaks strays (f a) (g b)) :
    Counts R s taken given π' leaks strays (x >>= f) (y >>= g) := by
  have hbind := hx.bind_of_ok hy hf
  rw [Nat.zero_add, Nat.zero_add] at hbind
  exact hbind

/-- After a program that fails there is nothing more to count. -/
theorem CountsFrom.bind_of_error {mid : α → Multiset Piece} {given : γ → Multiset Piece}
    {π' : γ → δ} {f : α → LedgerM σ ε τ γ} {g : β → StateT σ (Except ε) δ} {e : ε}
    (hx : CountsFrom R s L taken mid π leaks strays x y) (hy : y s = .error e) :
    CountsFrom R s L taken given π' leaks strays (x >>= f) (y >>= g) := by
  intro hL hs hfits hclean htaken
  obtain ⟨k, l, hk, hrun⟩ := hx hL hs hfits hclean htaken
  refine ⟨k, l, hk, ?_⟩
  rcases hxs : x s L with ⟨(e' | ⟨a, t⟩), L'⟩
  · rw [hxs] at hrun
    rw [Audit.bind_of_error hxs]
    exact ⟨Prog.bind_of_error hrun.1, hrun.2⟩
  · rw [hxs] at hrun
    cases hy.symm.trans hrun.1

theorem Counts.bind_of_error {mid : α → Multiset Piece} {given : γ → Multiset Piece} {π' : γ → δ}
    {f : α → LedgerM σ ε τ γ} {g : β → StateT σ (Except ε) δ} {e : ε}
    (hx : Counts R s taken mid π leaks strays x y) (hy : y s = .error e) :
    Counts R s taken given π' leaks strays (x >>= f) (y >>= g) :=
  fun L => (hx L).bind_of_error hy

/-- A step that returns without a change of state and has no defect comes first. -/
theorem CountsFrom.skip_bind {mid : α → Multiset Piece} {given : γ → Multiset Piece} {π' : γ → δ}
    {f : α → LedgerM σ ε τ γ} {b : β} {y' : StateT σ (Except ε) δ}
    (hx : CountsFrom R s L taken mid π 0 0 x (pure b))
    (hf : ∀ a L', x s L = (.ok (a, s), L') → π a = b →
      CountsFrom R s L' (mid a) given π' leaks strays (f a) y') :
    CountsFrom R s L taken given π' leaks strays (x >>= f) y' := by
  have hbind := hx.bind_of_ok (g := fun _ => y') rfl hf
  rw [Nat.zero_add, Nat.zero_add] at hbind
  exact hbind

theorem Counts.skip_bind {mid : α → Multiset Piece} {given : γ → Multiset Piece} {π' : γ → δ}
    {f : α → LedgerM σ ε τ γ} {b : β} {y' : StateT σ (Except ε) δ}
    (hx : Counts R s taken mid π 0 0 x (pure b))
    (hf : ∀ a, π a = b → Counts R s (mid a) given π' leaks strays (f a) y') :
    Counts R s taken given π' leaks strays (x >>= f) y' :=
  fun L => (hx L).skip_bind fun a L' _ ha => hf a ha L'

/-- Reading the state. -/
theorem counts_get_bind {given : γ → Multiset Piece} {π' : γ → δ} {f : σ → LedgerM σ ε τ γ}
    {g : σ → StateT σ (Except ε) δ}
    (hf : R.inv s → Counts R s taken given π' leaks strays (f s) (g s)) :
    Counts R s taken given π' leaks strays (get >>= f) (get >>= g) := by
  intro L hL hs hfits hclean htaken
  exact hf hs L hL hs hfits hclean htaken

/-- What is made of the outcome in the end counts nothing. -/
theorem CountsFrom.then_pure {mid : α → Multiset Piece} {given : γ → Multiset Piece} {π' : γ → δ}
    {F : α → γ} {G : β → δ} (hx : CountsFrom R s L taken mid π leaks strays x y)
    (hgiven : ∀ a, mid a = given (F a)) (hπ : ∀ a, π' (F a) = G (π a)) :
    CountsFrom R s L taken given π' leaks strays (x >>= fun a => pure (F a))
      (y >>= fun b => pure (G b)) := by
  rcases hy : y s with e | ⟨b, s'⟩
  · exact hx.bind_of_error hy
  · have hend : ∀ a L', x s L = (.ok (a, s'), L') → π a = b → CountsFrom R s' L' (mid a) given π'
        0 0 (pure (F a) : LedgerM σ ε τ γ) (pure (G b)) := by
      rintro a L' - rfl
      exact counts_pure (hgiven a) (hπ a) L'
    exact hx.bind_of_ok (f := fun a => pure (F a)) (g := fun b => pure (G b)) hy hend

theorem Counts.then_pure {mid : α → Multiset Piece} {given : γ → Multiset Piece} {π' : γ → δ}
    {F : α → γ} {G : β → δ} (hx : Counts R s taken mid π leaks strays x y)
    (hgiven : ∀ a, mid a = given (F a)) (hπ : ∀ a, π' (F a) = G (π a)) :
    Counts R s taken given π' leaks strays (x >>= fun a => pure (F a))
      (y >>= fun b => pure (G b)) :=
  fun L => (hx L).then_pure hgiven hπ

/-- A program that returns leaves alone what else is held. -/
theorem Counts.frame (hx : Counts R s taken given π leaks strays x y) (hok : ∃ r, y s = .ok r)
    (held : Multiset Piece) :
    Counts R s (taken + held) (fun a => given a + held) π leaks strays x y := by
  intro L hL hs hfits hclean htaken
  obtain ⟨leaked, loads, hcard, hrun⟩ :=
    hx L hL hs hfits hclean ((Multiset.le_add_right taken held).trans htaken)
  refine ⟨leaked, loads, hcard, ?_⟩
  rcases hxs : x s L with ⟨(e | ⟨a, s'⟩), L'⟩
  · rw [hxs] at hrun
    obtain ⟨r, hr⟩ := hok
    cases hr.symm.trans hrun.1
  · rw [hxs] at hrun
    obtain ⟨hy, hL', hs', hfits', hclean', hentry⟩ := hrun
    refine ⟨hy, hL', hs', hfits', hclean', ⟨?_, hentry.strayReleases, hentry.strayLoads⟩⟩
    calc L'.live + (taken + held) = L'.live + taken + held := (add_assoc _ _ _).symm
      _ = L.live + given a + leaked + held := by rw [hentry.live]
      _ = L.live + (given a + held) + leaked := by abel

/-! ## Released pieces -/

/-- After its release a piece is not live. -/
theorem CountsFrom.release_bind {given : γ → Multiset Piece} {π' : γ → δ} (id : Nat)
    {f : Unit → LedgerM σ ε τ γ} {y' : StateT σ (Except ε) δ}
    (hf : (id, 0) ∉ (L.release id).live →
      CountsFrom R s (L.release id) 0 given π' leaks strays (f ()) y') :
    CountsFrom R s L (pieces id 1) given π' leaks strays (release id >>= f) y' := by
  intro hL hs hfits hclean htaken
  have hmem : (id, 0) ∈ L.live := Multiset.mem_of_le htaken (mem_pieces.mpr ⟨rfl, Nat.one_pos⟩)
  have hrelease : L.release id = { L with live := L.live.erase (id, 0) } := if_pos hmem
  have hdead : (id, 0) ∉ (L.release id).live := by
    rw [hrelease]
    show (id, 0) ∉ L.live.erase (id, 0)
    rw [hL.nodup.mem_erase_iff]
    simp
  have hfirst : CountsFrom R s L (pieces id 1) (fun _ => 0) (fun _ => ()) 0 0
      (release id : LedgerM σ ε τ Unit) (pure ()) := by
    have htracks := tracks_release (ε := ε) R s 0 id
    rw [zero_add] at htracks
    exact htracks.counts trivial L
  have hrun : CountsFrom R s L (pieces id 1) given π' leaks strays (release id >>= f) y' := by
    refine hfirst.skip_bind fun a L' hxs _ => ?_
    obtain rfl : L.release id = L' := (Prod.mk.inj hxs).2
    exact hf hdead
  exact hrun hL hs hfits hclean htaken

/-- A release of a piece that is not live. -/
theorem countsFrom_stray (id : Nat) (hdead : (id, 0) ∉ L.live) :
    CountsFrom R s L 0 (fun _ => 0) (fun _ => ()) 0 1 (release id : LedgerM σ ε τ Unit)
      (pure ()) := by
  intro hL hs hfits hclean _
  have hrelease : L.release id = { L with strayReleases := L.strayReleases + 1 } := if_neg hdead
  refine ⟨0, 0, rfl, ?_⟩
  show _ ∧ (L.release id).WF ∧ _ ∧ R.fits (L.release id).store ∧ R.clean (L.release id).store ∧ _
  rw [hrelease]
  exact ⟨rfl, ⟨hL.nodup, hL.lt⟩, hs, hfits, hclean, ⟨by simp, rfl, rfl⟩⟩

/-! ## What a run does to the books -/

/-- So many pieces are live beside those that were live before, and there have been so many more
stray releases. -/
structure Ledger.Grows (L L' : Ledger τ) (leaks strays : Nat) : Prop where
  live : ∃ leaked : Multiset Piece, leaked.card = leaks ∧ L'.live = L.live + leaked
  strayReleases : L'.strayReleases = L.strayReleases + strays

/-- The balance of a run that takes nothing over and hands nothing back. -/
theorem CountsFrom.balance {y : StateT σ (Except ε) α}
    (hx : CountsFrom R s L 0 (fun _ => 0) id leaks strays x y) (hL : L.WF) (hs : R.inv s)
    (hfits : R.fits L.store) (hclean : R.clean L.store) :
    (x s L).1 = y s ∧ L.Grows (x s L).2 leaks strays := by
  obtain ⟨leaked, loads, hcard, hrun⟩ := hx hL hs hfits hclean (Multiset.zero_le _)
  have hlive {L' : Ledger τ} (hentry : Entry 0 0 L L' leaked strays loads) :
      L'.live = L.live + leaked := by
    have hsum := hentry.live
    rw [add_zero, add_zero] at hsum
    exact hsum
  rcases hxs : x s L with ⟨(e | ⟨a, s'⟩), L'⟩
  · rw [hxs] at hrun
    exact ⟨hrun.1.symm, ⟨leaked, hcard, hlive hrun.2⟩, hrun.2.strayReleases⟩
  · rw [hxs] at hrun
    obtain ⟨hy, -, -, -, -, hentry⟩ := hrun
    exact ⟨hy.symm, ⟨leaked, hcard, hlive hentry⟩, hentry.strayReleases⟩

end Audit
