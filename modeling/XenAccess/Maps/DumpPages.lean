import XenAccess.Lib.Balance
import XenAccess.Maps.Dump
import XenAccess.Maps.Readers
import XenAccess.Model.ProgramLedger

/-!
# The pages of `dump-memory`

`dump-memory` has one variable for the page it writes. The loop unmaps the page and leaves its
address in the variable, and what stands behind the loop unmaps once more what the variable has.
So a dump that comes to the end of the memory, and could map the last page, unmaps that page twice
(`dumpMemory_pages`). A dump that `fwrite` stops unmaps the page that it was at in the end only.
-/

namespace XenAccess.Traced

open Audit

variable {h : Host} {p : XaParams} {fwrite : Nat → Nat} {file : List U8} {k : Nat} {s : XaState}

/-! ## The loop -/

/-- How often the loop unmaps what is not mapped. `held` says whether its variable has the address
of a page. -/
def refStrays (h : Host) (p : XaParams) (fwrite : Nat → Nat) : Bool → Nat → Nat → U32 → Nat
  | _, 0, _, _ => 0
  | held, fuel + 1, n, address =>
    if address < p.size then
      let r := XenAccess.xaAccessPa h p address protRead
      if ((dumpPage p r).take (fwrite n)).length ≠ p.pageSize.toNat then 0
      else refStrays h p fwrite r.isSome fuel (n + 1) (address + p.pageSize)
    else if held then 1 else 0

theorem lift_bind_pure {α β : Type} (x : Except Fault α) (F : α → β) :
    (StateT.lift (x >>= fun a => pure (F a)) : XaM β) = StateT.lift x >>= fun a => pure (F a) := by
  funext s
  cases x with
  | error e => rfl
  | ok a => rfl

/-- The end of the program. -/
theorem written_counts {R : Rules XaState (Option SavedTable)} (bytes : List U8) :
    Counts R s 0 (fun _ => 0) id 0 0 (pure bytes : TraceM (List U8))
      (StateT.lift (pure bytes)) := by
  have hend : Counts R s 0 (fun _ => 0) id 0 0 (pure bytes : TraceM (List U8)) (pure bytes) :=
    counts_pure rfl rfl
  exact hend

theorem accessPa_counts (address : U32) :
    Counts (rules h p) s 0 accessPieces (Option.map Mapped.access) 0 0
      (xaAccessPa h p address protRead) (pure (XenAccess.xaAccessPa h p address protRead)) :=
  (xaAccessPa_tracks address protRead).counts trivial

/-- The rest of a round. -/
theorem round_counts {R : Rules XaState (Option SavedTable)} {L : Ledger (Option SavedTable)}
    {bytes : List U8} {strays : Nat} {x : TraceM (List U8)} {y : Except Fault (List U8)}
    (short : Prop) [Decidable short]
    (hx : CountsFrom R s L 0 (fun _ => 0) id 0 strays x (StateT.lift y)) :
    CountsFrom R s L 0 (fun _ => 0) id 0 (if short then 0 else strays)
      (if short then pure bytes else do
        let rest ← x
        pure (bytes ++ rest))
      (StateT.lift (if short then pure bytes else do
        let rest ← y
        pure (bytes ++ rest))) := by
  by_cases hshort : short
  · rw [if_pos hshort, if_pos hshort, if_pos hshort]
    exact written_counts bytes L
  · rw [if_neg hshort, if_neg hshort, if_neg hshort, lift_bind_pure]
    exact hx.then_pure (fun _ => rfl) fun _ => rfl

/-- The loop from a round on, when what its variable has is not mapped. -/
theorem dumpLoop_counts (fuel : Nat) :
    ∀ (memory : Option Nat) (n : Nat) (address : U32) (L : Ledger (Option SavedTable)),
      (∀ id, memory = some id → (id, 0) ∉ L.live) →
      CountsFrom (rules h p) s L 0 (fun _ => 0) id 0
        (refStrays h p fwrite memory.isSome fuel n address)
        (dumpLoop h p fwrite memory fuel n address)
        (StateT.lift (XenAccess.dumpLoop h p fwrite fuel n address)) := by
  induction fuel with
  | zero =>
    intro memory n address L _
    exact (tracks_throw .outOfFuel).counts trivial L
  | succ fuel ih =>
    intro memory n address L hdead
    unfold dumpLoop XenAccess.dumpLoop refStrays
    by_cases hlt : address < p.size
    · rw [if_pos hlt, if_pos hlt, if_pos hlt]
      refine (accessPa_counts address L).skip_bind fun r L' _ hr => ?_
      rw [← hr]
      cases r with
      | none => exact round_counts _ (ih none (n + 1) _ L' fun _ hid => by cases hid)
      | some m =>
        refine ((loadBytes_tracks _ 1 0 p.pageSize.toNat).counts trivial L').skip_bind
          fun _ L'' _ _ => ?_
        refine CountsFrom.release_bind m.id fun hgone => ?_
        refine round_counts _ (ih (some m.id) (n + 1) _ _ fun id hid => ?_)
        obtain rfl : m.id = id := Option.some.inj hid
        exact hgone
    · rw [if_neg hlt, if_neg hlt, if_neg hlt]
      cases memory with
      | none => exact written_counts [] L
      | some id =>
        have hstray : CountsFrom (rules h p) s L 0 (fun _ => 0) (fun _ => ()) 0 1 (munmap id)
            (pure ()) := countsFrom_stray id (hdead id rfl)
        exact hstray.bind_of_ok (f := fun _ => pure []) (g := fun _ => StateT.lift (pure [])) rfl
          fun _ L' _ _ => written_counts [] L'

/-! ## The last page -/

/-- From page `k` on every page is written in full, and the last one of them is mapped; without any,
it is a question of the page before. -/
def EndsMapped (h : Host) (p : XaParams) (fwrite : Nat → Nat) (held : Bool) (k : Nat) : Prop :=
  ∃ m, (∀ j < m, Dumps p (k + j) ∧ 4096 ≤ fwrite (k + j)) ∧ ¬Dumps p (k + m) ∧
    (m = 0 → held = true) ∧ (0 < m → PageMapped h p (4096 * (k + m - 1)))

theorem endsMapped_end {held : Bool} (hend : ¬Dumps p k) :
    EndsMapped h p fwrite held k ↔ held = true := by
  constructor
  · rintro ⟨m, hpages, -, hheld, -⟩
    cases m with
    | zero => exact hheld rfl
    | succ m => exact absurd (hpages 0 (Nat.succ_pos m)).1 hend
  · intro hheld
    exact ⟨0, fun j hj => absurd hj (Nat.not_lt_zero j), hend, fun _ => hheld, fun hpos =>
      absurd hpos (lt_irrefl 0)⟩

theorem endsMapped_short {held : Bool} (hdump : Dumps p k) (hshort : ¬4096 ≤ fwrite k) :
    ¬EndsMapped h p fwrite held k := by
  rintro ⟨m, hpages, hend, -⟩
  cases m with
  | zero => exact hend hdump
  | succ m => exact hshort (hpages 0 (Nat.succ_pos m)).2

theorem endsMapped_succ {held : Bool} (hdump : Dumps p k) (hfull : 4096 ≤ fwrite k) :
    EndsMapped h p fwrite held k ↔
      EndsMapped h p fwrite (decide (PageMapped h p (4096 * k))) (k + 1) := by
  constructor
  · rintro ⟨m, hpages, hend, -, hlast⟩
    cases m with
    | zero => exact absurd hdump hend
    | succ m =>
      refine ⟨m, fun j hj => ?_, ?_, fun hm => ?_, fun hm => ?_⟩
      · rw [Nat.add_assoc, Nat.add_comm 1]
        exact hpages (j + 1) (Nat.succ_lt_succ hj)
      · rw [Nat.add_assoc, Nat.add_comm 1]
        exact hend
      · subst hm
        exact decide_eq_true (hlast Nat.one_pos)
      · have hindex : k + 1 + m - 1 = k + (m + 1) - 1 := by omega
        rw [hindex]
        exact hlast (Nat.succ_pos m)
  · rintro ⟨m, hpages, hend, hheld, hlast⟩
    refine ⟨m + 1, fun j hj => ?_, ?_, fun hm => absurd hm (Nat.succ_ne_zero m), fun _ => ?_⟩
    · cases j with
      | zero => exact ⟨hdump, hfull⟩
      | succ j =>
        rw [← Nat.add_assoc, Nat.add_right_comm]
        exact hpages j (Nat.lt_of_succ_lt_succ hj)
    · rw [← Nat.add_assoc, Nat.add_right_comm]
      exact hend
    · cases m with
      | zero => exact of_decide_eq_true (hheld rfl)
      | succ m =>
        have hindex : k + (m + 1 + 1) - 1 = k + 1 + (m + 1) - 1 := by omega
        rw [hindex]
        exact hlast (Nat.succ_pos m)

theorem refStrays_succ (hps : p.pageSize = 4096) (hshift : p.pageShift = 12) (hdump : Dumps p k)
    (held : Bool) (fuel : Nat) :
    refStrays h p fwrite held (fuel + 1) k (BitVec.ofNat 32 (4096 * k)) =
      if 4096 ≤ fwrite k then
        refStrays h p fwrite (decide (PageMapped h p (4096 * k))) fuel (k + 1)
          (BitVec.ofNat 32 (4096 * (k + 1)))
      else 0 := by
  have hlt : BitVec.ofNat 32 (4096 * k) < p.size := hdump
  have hnext : BitVec.ofNat 32 (4096 * k) + p.pageSize = BitVec.ofNat 32 (4096 * (k + 1)) := by
    rw [hps, Nat.mul_succ, BitVec.ofNat_add]
    rfl
  have hsize : p.pageSize.toNat = 4096 := by
    rw [hps]
    rfl
  have hmapped : decide (PageMapped h p (4096 * k)) =
      (XenAccess.xaAccessPa h p (BitVec.ofNat 32 (4096 * k)) protRead).isSome :=
    Bool.decide_eq_true
  rw [refStrays, if_pos hlt, hmapped]
  dsimp only
  rw [dumpPage_eq hps hshift (Nat.mul_mod_right 4096 k), Window.take_window, Window.length_window,
    hsize, hnext]
  by_cases hfull : 4096 ≤ fwrite k
  · rw [min_eq_right hfull, if_neg (not_not.mpr rfl), if_pos hfull]
  · have hshort : fwrite k < 4096 := Nat.lt_of_not_le hfull
    rw [min_eq_left hshort.le, if_pos hshort.ne, if_neg hfull]

/-- What the loop unmaps too often, when it ends. -/
theorem refStrays_eq (hps : p.pageSize = 4096) (hshift : p.pageShift = 12) (fuel : Nat)
    (held : Bool)
    (hrun : XenAccess.dumpLoop h p fwrite fuel k (BitVec.ofNat 32 (4096 * k)) = .ok file) :
    refStrays h p fwrite held fuel k (BitVec.ofNat 32 (4096 * k)) ≤ 1 ∧
      (refStrays h p fwrite held fuel k (BitVec.ofNat 32 (4096 * k)) = 1 ↔
        EndsMapped h p fwrite held k) := by
  induction fuel generalizing k file held with
  | zero => cases hrun
  | succ fuel ih =>
    by_cases hdump : Dumps p k
    · rw [dumpLoop_succ hps hshift hdump] at hrun
      rw [refStrays_succ hps hshift hdump]
      by_cases hfull : 4096 ≤ fwrite k
      · rw [if_pos hfull] at hrun
        rw [if_pos hfull, endsMapped_succ hdump hfull]
        cases hrest : XenAccess.dumpLoop h p fwrite fuel (k + 1)
            (BitVec.ofNat 32 (4096 * (k + 1))) with
        | error e =>
          rw [hrest] at hrun
          cases hrun
        | ok rest => exact ih _ hrest
      · rw [if_neg hfull]
        exact ⟨Nat.zero_le 1, iff_of_false Nat.zero_ne_one (endsMapped_short hdump hfull)⟩
    · have hend : ¬BitVec.ofNat 32 (4096 * k) < p.size := hdump
      rw [refStrays, if_neg hend, endsMapped_end hdump]
      cases held with
      | false => exact ⟨Nat.zero_le 1, iff_of_false Nat.zero_ne_one Bool.false_ne_true⟩
      | true => exact ⟨le_rfl, iff_of_true rfl rfl⟩

/-- The dump comes to the end of the memory, and can map the last page. -/
structure MapsLast (h : Host) (p : XaParams) (fwrite : Nat → Nat) : Prop where
  some : 0 < p.size.toNat
  ends : p.size ≤ 0xFFFFF000
  full : ∀ k, 4096 * k < p.size.toNat → 4096 ≤ fwrite k
  mapped : PageMapped h p (4096 * (pageCount p.size - 1))

theorem endsMapped_iff : EndsMapped h p fwrite false 0 ↔ MapsLast h p fwrite := by
  constructor
  · rintro ⟨m, hpages, hend, hheld, hlast⟩
    simp only [Nat.zero_add] at hpages hend hlast
    have hsmall : p.size ≤ 0xFFFFF000 := by
      by_contra hlarge
      exact hend (dumps_of_large hlarge m)
    have hm : 0 < m := by
      rcases Nat.eq_zero_or_pos m with rfl | hm
      · cases hheld rfl
      · exact hm
    have hle : m ≤ pageCount p.size := by
      by_contra hgt
      have hdump := (hpages (pageCount p.size) (Nat.lt_of_not_le hgt)).1
      rw [dumps_of_small hsmall le_rfl, ← lt_pageCount] at hdump
      exact lt_irrefl _ hdump
    have hcount : m = pageCount p.size := by
      rw [dumps_of_small hsmall hle, ← lt_pageCount] at hend
      exact Nat.le_antisymm hle (Nat.le_of_not_lt hend)
    subst hcount
    exact {
      some := by
        have hfirst := lt_pageCount.mp hm
        exact hfirst
      ends := hsmall
      full := fun k hk => (hpages k (lt_pageCount.mpr hk)).2
      mapped := hlast hm }
  · intro hmaps
    have hpos : 0 < pageCount p.size := lt_pageCount.mpr hmaps.some
    refine ⟨pageCount p.size, fun j hj => ?_, ?_, fun hzero => absurd hzero hpos.ne', fun _ => ?_⟩
    · rw [Nat.zero_add]
      have hlt := lt_pageCount.mp hj
      exact ⟨(dumps_of_small hmaps.ends hj.le).mpr hlt, hmaps.full j hlt⟩
    · rw [Nat.zero_add, dumps_of_small hmaps.ends le_rfl, ← lt_pageCount]
      exact lt_irrefl _
    · rw [Nat.zero_add]
      exact hmaps.mapped

/-- **When `dump-memory` unmaps a page twice.** Whatever is mapped when it starts, a dump that ends
leaves no page mapped. It unmaps what is not mapped at most once, and does so exactly if it comes to
the end of a memory that is not empty and can map the last page. -/
theorem dumpMemory_pages (h : Host) (p : XaParams) (fwrite : Nat → Nat) (file : List U8)
    (hps : p.pageSize = 4096) (hshift : p.pageShift = 12) (fuel : Nat)
    (hrun : XenAccess.dumpMemory h p fwrite fuel = .ok file) (s : XaState) (hs : s.toXaParams = p)
    (B : Ledger (Option SavedTable)) (hB : B.WF)
    (hfits : ∀ table, B.store = some table → pfnTable h p = some table)
    (hreleased : ListReleased h p B.store) :
    ∃ B' strays, dumpMemory h p fwrite fuel s B = (.ok (file, s), B') ∧ B.Grows B' 0 strays ∧
      strays ≤ 1 ∧ (strays = 1 ↔ MapsLast h p fwrite) := by
  have hcounts : CountsFrom (rules h p) s B 0 (fun _ => 0) id 0
      (refStrays h p fwrite false fuel 0 0) (dumpMemory h p fwrite fuel)
      (StateT.lift (XenAccess.dumpMemory h p fwrite fuel)) :=
    dumpLoop_counts fuel none 0 0 B fun id hid => by cases hid
  obtain ⟨hout, hgrows⟩ := hcounts.balance hB hs hfits hreleased
  have hlift : (StateT.lift (XenAccess.dumpMemory h p fwrite fuel) : XaM (List U8)) s =
      .ok (file, s) := by
    rw [hrun]
    rfl
  obtain ⟨hle, hone⟩ := refStrays_eq (k := 0) hps hshift fuel false hrun
  exact ⟨_, _, Prod.ext (hout.trans hlift) rfl, hgrows, hle, hone.trans endsMapped_iff⟩

/-! ### A dump of two pages -/

/-- An instance for a guest with a page and a half of memory. -/
def dumpState : XaState :=
  { zeroState 0 with mode := .xen, hvm := true, pageShift := 12, pageSize := 4096, size := 0x1800 }

theorem dumpState_mapsLast :
    MapsLast (imageHost [(0x1400, 0x42)]) dumpState.toXaParams fun _ => 4096 where
  some := by decide
  ends := by decide
  full _ _ := le_rfl
  mapped := by decide

/-- Its second page is unmapped twice. -/
theorem dumpState_unmaps_twice : ∃ fuel file B',
    dumpMemory (imageHost [(0x1400, 0x42)]) dumpState.toXaParams (fun _ => 4096) fuel dumpState
        (Ledger.empty none) = (.ok (file, dumpState), B') ∧
      (Ledger.empty none).Grows B' 0 1 := by
  obtain ⟨fuel, hrun⟩ := (dumpMemory_full_iff (h := imageHost [(0x1400, 0x42)])
    (p := dumpState.toXaParams) rfl rfl (fun _ _ => le_rfl)
    dumpState_mapsLast.ends).mpr rfl
  obtain ⟨B', strays, htraced, hgrows, -, hone⟩ := dumpMemory_pages (imageHost [(0x1400, 0x42)])
    dumpState.toXaParams (fun _ => 4096) _ rfl rfl fuel hrun dumpState rfl (Ledger.empty none)
    (.empty none) (fun table htable => by cases htable) fun hbuilds => by cases hbuilds.2.1
  obtain rfl := hone.mpr dumpState_mapsLast
  exact ⟨fuel, _, B', htraced, hgrows⟩

end XenAccess.Traced
