import XenAccess.Lib.Dll

/-!
# The order of last uses

A linked list that evicts the first node with the smallest stamp evicts the node whose last
use lies furthest back only if the stamps tell the order of the uses. `EvictsLru` states the
latter on the trace of a list. `Ordered` is the invariant that carries it: of any two nodes,
the stamps and, where these are equal, the places in the list give the order of their last
uses. It is kept by every change, provided that a node is only used at a time later than the
stamps of all nodes behind it.
-/

namespace Dll

variable {α : Type}

/-- The event is a use of a node: its insertion, a hit or an update. -/
def Event.uses (a : Addr) : Event → Bool
  | .used b => b == a
  | .inserted b => b == a
  | .evicted _ => false
  | .cleared => false

/-- The nodes in the list after these events, latest first. -/
def live : List Event → List Addr
  | [] => []
  | .used _ :: events => live events
  | .inserted a :: events => a :: live events
  | .evicted a :: events => (live events).filter (· != a)
  | .cleared :: _ => []

/-- The last use of `a` was before the last use of `b`. -/
def Earlier (events : List Event) (a b : Addr) : Prop :=
  (events.find? fun e => e.uses a || e.uses b).any (·.uses b) = true

instance (events : List Event) (a b : Addr) : Decidable (Earlier events a b) :=
  inferInstanceAs (Decidable (_ = true))

/-- Whenever a node was evicted, every other node in the list had been used since its last
use. -/
def EvictsLru (events : List Event) : Prop :=
  ∀ newer a older, events = newer ++ .evicted a :: older →
    ∀ b ∈ live older, b ≠ a → Earlier older a b

variable {events : List Event} {a b : Addr} {e : Event}

theorem earlier_of_uses (he : e.uses b = true) : Earlier (e :: events) a b := by
  rw [Earlier, List.find?_cons_of_pos (by simp [he])]
  exact he

theorem earlier_cons (ha : e.uses a = false) (hb : e.uses b = false)
    (hab : Earlier events a b) : Earlier (e :: events) a b := by
  rw [Earlier, List.find?_cons_of_neg (by simp [ha, hb])]
  exact hab

/-- An event that is not an eviction. -/
theorem evictsLru_cons (he : ∀ a, e ≠ .evicted a) (hev : EvictsLru events) :
    EvictsLru (e :: events) := by
  intro newer a older heq
  cases newer with
  | nil =>
    cases heq
    exact absurd rfl (he a)
  | cons e' newer =>
    cases heq
    exact hev newer a older rfl

theorem evictsLru_evicted (hev : EvictsLru events)
    (ha : ∀ b ∈ live events, b ≠ a → Earlier events a b) : EvictsLru (.evicted a :: events) := by
  intro newer a' older heq
  cases newer with
  | nil =>
    cases heq
    exact ha
  | cons e' newer =>
    cases heq
    exact hev newer a' older rfl

/-! ## The invariant -/

/-- The order of last uses of two nodes, `x` before `y` in the list. -/
def InOrder (stamp : α → Int) (events : List Event) (x y : Addr × α) : Prop :=
  (stamp x.2 ≤ stamp y.2 → Earlier events x.1 y.1) ∧
    (stamp y.2 < stamp x.2 → Earlier events y.1 x.1)

/-- The nodes `l` after the events, at a time not before `now`. -/
structure Ordered (stamp : α → Int) (now : Int) (events : List Event) (l : List (Addr × α)) :
    Prop where
  pairs : l.Pairwise (InOrder stamp events)
  nodup : (l.map Prod.fst).Nodup
  mem : ∀ a, a ∈ live events ↔ a ∈ l.map Prod.fst
  past : ∀ x ∈ l, stamp x.2 ≤ now
  lru : EvictsLru events

theorem ordered_nil (stamp : α → Int) (now : Int) : Ordered stamp now [] [] :=
  ⟨.nil, List.nodup_nil, by simp [live], by simp, fun newer a older heq => by simp at heq⟩

variable {stamp : α → Int} {now : Int} {l : List (Addr × α)}

theorem Ordered.mono {now' : Int} (ho : Ordered stamp now events l) (hle : now ≤ now') :
    Ordered stamp now' events l :=
  { ho with past := fun x hx => Int.le_trans (ho.past x hx) hle }

theorem inOrder_cons {x y : Addr × α} (hx : e.uses x.1 = false) (hy : e.uses y.1 = false)
    (hxy : InOrder stamp events x y) : InOrder stamp (e :: events) x y :=
  ⟨fun hle => earlier_cons hx hy (hxy.1 hle), fun hlt => earlier_cons hy hx (hxy.2 hlt)⟩

/-- An event that uses none of the nodes. -/
theorem pairwise_cons (he : ∀ x ∈ l, e.uses x.1 = false) (hl : l.Pairwise (InOrder stamp events)) :
    l.Pairwise (InOrder stamp (e :: events)) :=
  hl.imp_of_mem fun hx hy => inOrder_cons (he _ hx) (he _ hy)

theorem used_uses (ha : a ∉ l.map Prod.fst) : ∀ x ∈ l, (Event.used a).uses x.1 = false := by
  intro x hx
  refine beq_false_of_ne ?_
  rintro rfl
  exact ha (List.mem_map_of_mem hx)

/-! ## Steps -/

/-- A node is used, at a time later than all stamps behind it. -/
theorem Ordered.touch {pre post : List (Addr × α)} {x y : α}
    (ho : Ordered stamp now events (pre ++ (a, x) :: post)) (hy : stamp y = now)
    (hpost : ∀ z ∈ post, stamp z.2 < now) :
    Ordered stamp now (.used a :: events) (pre ++ (a, y) :: post) := by
  have hkeys : (pre ++ (a, y) :: post).map Prod.fst = (pre ++ (a, x) :: post).map Prod.fst := by
    simp
  obtain ⟨hpre', hpost'⟩ := not_mem_parts ho.nodup
  obtain ⟨hp, hq, hpq⟩ := List.pairwise_append.mp ho.pairs
  have huse : (Event.used a).uses a = true := beq_self_eq_true a
  refine ⟨List.pairwise_append.mpr ⟨pairwise_cons (used_uses hpre') hp, ?_, ?_⟩,
    hkeys ▸ ho.nodup, fun b => by rw [hkeys]; exact ho.mem b, ?_,
    evictsLru_cons (fun _ => Event.noConfusion) ho.lru⟩
  · refine List.pairwise_cons.mpr ⟨fun z hz => ?_,
      pairwise_cons (used_uses hpost') (List.pairwise_cons.mp hq).2⟩
    constructor
    · intro hle
      have := hpost z hz
      rw [hy] at hle
      omega
    · exact fun _ => earlier_of_uses huse
  · intro w hw z hz
    rcases List.mem_cons.mp hz with rfl | hz
    · refine ⟨fun _ => earlier_of_uses huse, fun hlt => ?_⟩
      have := ho.past w (List.mem_append_left _ hw)
      rw [hy] at hlt
      omega
    · exact inOrder_cons (used_uses hpre' w hw) (used_uses hpost' z hz)
        (hpq w hw z (List.mem_cons_of_mem _ hz))
  · intro z hz
    rcases List.mem_append.mp hz with hz | hz
    · exact ho.past z (List.mem_append_left _ hz)
    · rcases List.mem_cons.mp hz with rfl | hz
      · exact Int.le_of_eq hy
      · exact Int.le_of_lt (hpost z hz)

/-- A node is added at the end. -/
theorem Ordered.add {x : α} (ho : Ordered stamp now events l) (ha : a ∉ l.map Prod.fst)
    (hx : stamp x = now) : Ordered stamp now (.inserted a :: events) (l ++ [(a, x)]) := by
  have huse : (Event.inserted a).uses a = true := beq_self_eq_true a
  refine ⟨List.pairwise_append.mpr
    ⟨pairwise_cons (used_uses ha) ho.pairs, List.pairwise_singleton _ _, ?_⟩, ?_, ?_, ?_,
    evictsLru_cons (fun _ => Event.noConfusion) ho.lru⟩
  · intro w hw z hz
    rw [List.mem_singleton.mp hz]
    refine ⟨fun _ => earlier_of_uses huse, fun hlt => ?_⟩
    have := ho.past w hw
    rw [hx] at hlt
    omega
  · rw [List.map_append]
    refine List.nodup_append.mpr ⟨ho.nodup, List.nodup_singleton a, fun b hb c hc => ?_⟩
    rw [List.mem_singleton.mp hc]
    rintro rfl
    exact ha hb
  · intro b
    rw [live, List.mem_cons, ho.mem]
    simp only [List.map_append, List.mem_append, List.map_singleton, List.mem_singleton]
    exact or_comm
  · intro z hz
    rcases List.mem_append.mp hz with hz | hz
    · exact ho.past z hz
    · rw [List.mem_singleton.mp hz]
      exact Int.le_of_eq hx

/-- The first node with the smallest stamp leaves, and it is the one used least recently. -/
theorem Ordered.evict {pre post : List (Addr × α)} {x : α}
    (ho : Ordered stamp now events (pre ++ (a, x) :: post))
    (hpre : ∀ z ∈ pre, stamp x < stamp z.2) (hpost : ∀ z ∈ post, stamp x ≤ stamp z.2) :
    Ordered stamp now (.evicted a :: events) (pre ++ post) := by
  have hsub : (pre ++ post).Sublist (pre ++ (a, x) :: post) :=
    List.Sublist.append_left (List.sublist_cons_self (a, x) post) pre
  obtain ⟨hp, hq, hpq⟩ := List.pairwise_append.mp ho.pairs
  obtain ⟨hapre, hapost⟩ := not_mem_parts ho.nodup
  refine ⟨pairwise_cons (fun _ _ => rfl) (ho.pairs.sublist hsub),
    ho.nodup.sublist (hsub.map Prod.fst), ?_, fun z hz => ho.past z (hsub.subset hz),
    evictsLru_evicted ho.lru ?_⟩
  · intro b
    rw [live, List.mem_filter, ho.mem, bne_iff_ne]
    simp only [List.map_append, List.map_cons, List.mem_append, List.mem_cons]
    constructor
    · rintro ⟨hb, hba⟩
      exact hb.imp_right fun hb => hb.resolve_left hba
    · intro hb
      refine ⟨hb.imp_right Or.inr, ?_⟩
      rintro rfl
      exact hb.elim hapre hapost
  · intro b hb hba
    obtain ⟨z, hz, rfl⟩ := List.mem_map.mp ((ho.mem b).mp hb)
    rcases List.mem_append.mp hz with hz | hz
    · exact (hpq z hz (a, x) List.mem_cons_self).2 (hpre z hz)
    · rcases List.mem_cons.mp hz with rfl | hz
      · exact absurd rfl hba
      · exact ((List.pairwise_cons.mp hq).1 z hz).1 (hpost z hz)

theorem Ordered.clear (ho : Ordered stamp now events l) :
    Ordered stamp now (.cleared :: events) [] :=
  ⟨.nil, List.nodup_nil, by simp [live], by simp, evictsLru_cons (fun _ => Event.noConfusion) ho.lru⟩

/-- One change of the list. -/
theorem Ordered.change {cap : Nat} {rest : List α} {l' : List (Addr × α)} {events' : List Event}
    (ho : Ordered stamp now events l) (hc : Change cap stamp now rest l events' l')
    (hrest : ∀ y ∈ rest, stamp y < now) : Ordered stamp now (events' ++ events) l' := by
  cases hc with
  | same => exact ho
  | touch pre a x y post hy hpost =>
    refine ho.touch hy fun z hz => hrest z.2 ?_
    rw [← hpost]
    exact List.mem_map_of_mem hz
  | add l a x _ ha hx => exact ho.add ha hx
  | replace pre e y post a x _ hpre hpost ha hx => exact (ho.evict hpre hpost).add ha hx
  | clear => exact ho.clear

end Dll
