import Mathlib.Data.List.AList
import XenAccess.Lib.Prog

/-!
# Singly linked lists with a mark at the end

A list of nodes in a heap, linked by `next`. Its end is not `NULL` but a node of its own, whose
data has a mark; what the pointer of that node holds is never looked at. The list is built at
this node, walked over, and freed in part while a walk goes on. A load or store through `NULL`
or through a node that was freed is a fault, and so is a walk with too few rounds.

`Linked heap head l last z` says that the nodes of `l` follow each other from `head` on, and
that the node `last` with the data `z` is behind them; `Holds` adds that the mark is in `z` and
in no data of `l`. For each operation there is one lemma that gives its effect on `l`.
-/

namespace Sll

open Prog

/-- Pointers other than `NULL`. -/
abbrev Addr := Nat

structure Node (α : Type) where
  data : α
  next : Option Addr

/-- The allocated nodes. -/
abbrev Heap (α : Type) := AList (fun _ : Addr => Node α)

inductive Fault where
  /-- a load or store through `NULL` or through a freed node -/
  | dangling
  /-- a walk that does not end -/
  | diverges
  deriving DecidableEq, Repr

variable {α : Type}

/-! ## Loads and stores -/

def load (heap : Heap α) : Option Addr → Except Fault (Node α)
  | none => .error .dangling
  | some a =>
    match heap.lookup a with
    | some node => .ok node
    | none => .error .dangling

def store (heap : Heap α) (a : Option Addr) (f : Node α → Node α) : Except Fault (Heap α) :=
  match a with
  | none => .error .dangling
  | some a =>
    match heap.lookup a with
    | some node => .ok (heap.insert a (f node))
    | none => .error .dangling

/-- Store into the data of a node. -/
def modify (heap : Heap α) (a : Option Addr) (f : α → α) : Except Fault (Heap α) :=
  store heap a fun node => { node with data := f node.data }

def free (heap : Heap α) : Option Addr → Except Fault (Heap α)
  | none => .error .dangling
  | some a => if a ∈ heap then .ok (heap.erase a) else .error .dangling

/-! ## Walks -/

/-- `for (cur = list; !stop(cur); cur = cur->next) body`, from a pointer on. -/
def walk (stop : α → Bool) (body : Option Addr → Heap α → Except Fault (Heap α)) :
    Nat → Option Addr → Heap α → Except Fault (Heap α)
  | 0, _, _ => .error .diverges
  | n + 1, cur, heap => do
    let node ← load heap cur
    if stop node.data then return heap
    else
      let heap ← body cur heap
      let node ← load heap cur
      walk stop body n node.next heap

/-- Link a new node behind the node `cur`. -/
def append (heap : Heap α) (cur : Option Addr) (new : Addr) (node : Node α) :
    Except Fault (Heap α) :=
  store (heap.insert new node) cur fun before => { before with next := some new }

/-- Remove and free the nodes with data to drop. The head of the list can change; `prev` is the
last node that was kept. -/
def removeIf (stop drop : α → Bool) :
    Nat → Option Addr → Option Addr → Option Addr → Heap α → Except Fault (Option Addr × Heap α)
  | 0, _, _, _, _ => .error .diverges
  | n + 1, list, prev, cur, heap => do
    let node ← load heap cur
    if stop node.data then return (list, heap)
    else if drop node.data then
      if cur = list then
        let heap ← free heap cur
        removeIf stop drop n node.next prev node.next heap
      else
        let heap ← store heap prev ({ · with next := node.next })
        let heap ← free heap cur
        removeIf stop drop n list prev node.next heap
    else removeIf stop drop n list cur node.next heap

/-! ## Segments -/

/-- The nodes of `l` are linked in this order, from a pointer to another. -/
def Seg (heap : Heap α) : Option Addr → List (Addr × α) → Option Addr → Prop
  | first, [], next => first = next
  | first, (a, x) :: l, next =>
    first = some a ∧ ∃ b, heap.lookup a = some { data := x, next := b } ∧ Seg heap b l next

variable {heap heap' : Heap α} {first next cur : Option Addr} {l l₁ l₂ : List (Addr × α)}
  {a last : Addr} {x y z : α} {node : Node α}

theorem seg_append : Seg heap first (l₁ ++ l₂) next ↔
    ∃ mid, Seg heap first l₁ mid ∧ Seg heap mid l₂ next := by
  induction l₁ generalizing first with
  | nil =>
    constructor
    · intro hl
      exact ⟨first, rfl, hl⟩
    · intro ⟨mid, hfirst, hl⟩
      obtain rfl : first = mid := hfirst
      exact hl
  | cons u l₁ ih =>
    constructor
    · intro ⟨hfirst, b, hlook, hrest⟩
      obtain ⟨mid, hl₁, hl₂⟩ := ih.mp hrest
      exact ⟨mid, ⟨hfirst, b, hlook, hl₁⟩, hl₂⟩
    · intro ⟨mid, ⟨hfirst, b, hlook, hl₁⟩, hl₂⟩
      exact ⟨hfirst, b, hlook, ih.mpr ⟨mid, hl₁, hl₂⟩⟩

/-- A segment depends on its own nodes only. -/
theorem seg_congr (hsame : ∀ b ∈ l.map Prod.fst, heap'.lookup b = heap.lookup b)
    (hl : Seg heap first l next) : Seg heap' first l next := by
  induction l generalizing first with
  | nil => exact hl
  | cons u l ih =>
    obtain ⟨hfirst, b, hlook, hrest⟩ := hl
    refine ⟨hfirst, b, ?_, ih (fun c hc => hsame c (List.mem_cons_of_mem u.1 hc)) hrest⟩
    rw [hsame u.1 List.mem_cons_self]
    exact hlook

theorem seg_insert (ha : a ∉ l.map Prod.fst) (hl : Seg heap first l next) :
    Seg (heap.insert a node) first l next := by
  apply seg_congr _ hl
  intro b hb
  apply AList.lookup_insert_ne
  intro hab
  exact ha (hab ▸ hb)

theorem seg_erase (ha : a ∉ l.map Prod.fst) (hl : Seg heap first l next) :
    Seg (heap.erase a) first l next := by
  apply seg_congr _ hl
  intro b hb
  apply AList.lookup_erase_ne
  intro hab
  exact ha (hab ▸ hb)

theorem load_of_lookup (ha : heap.lookup a = some node) : load heap (some a) = .ok node := by
  rw [load, ha]

theorem store_of_lookup (ha : heap.lookup a = some node) (f : Node α → Node α) :
    store heap (some a) f = .ok (heap.insert a (f node)) := by
  rw [store, ha]

theorem free_of_lookup (ha : heap.lookup a = some node) :
    free heap (some a) = .ok (heap.erase a) := by
  apply if_pos
  rw [← AList.lookup_isSome, ha]
  rfl

/-- The nodes of a segment are allocated. -/
theorem seg_mem (hl : Seg heap first l next) (ha : a ∈ l.map Prod.fst) : a ∈ heap := by
  induction l generalizing first with
  | nil => cases ha
  | cons u l ih =>
    obtain ⟨-, b, hlook, hrest⟩ := hl
    rcases List.mem_cons.mp ha with rfl | ha
    · rw [← AList.lookup_isSome, hlook]
      rfl
    · exact ih hrest ha

/-- A segment with nodes starts with one of them. -/
theorem seg_head (hl : Seg heap (some a) l next) (hne : l ≠ []) : a ∈ l.map Prod.fst := by
  cases l with
  | nil => exact absurd rfl hne
  | cons u l =>
    obtain rfl : a = u.1 := Option.some.inj hl.1
    exact List.mem_cons_self

/-! ## Linked lists -/

/-- The nodes of `l` from `head` on, and the node `last` behind them. -/
structure Linked (heap : Heap α) (head : Option Addr) (l : List (Addr × α)) (last : Addr) (z : α) :
    Prop where
  seg : Seg heap head l (some last)
  atLast : ∃ next, heap.lookup last = some { data := z, next }
  nodup : (last :: l.map Prod.fst).Nodup

/-- A linked list in which the end is marked, and nothing before it. -/
structure Holds (stop : α → Bool) (heap : Heap α) (head : Option Addr) (l : List (Addr × α))
    (last : Addr) (z : α) : Prop where
  linked : Linked heap head l last z
  inner : ∀ u ∈ l, stop u.2 = false
  mark : stop z = true

variable {head : Option Addr} {pre post : List (Addr × α)} {stop drop : α → Bool}

/-- What is known of a node in the middle of a list. -/
structure Middle (heap : Heap α) (head : Option Addr) (pre : List (Addr × α)) (a : Addr) (x : α)
    (post : List (Addr × α)) (last : Addr) (next : Option Addr) : Prop where
  before : Seg heap head pre (some a)
  here : heap.lookup a = some { data := x, next }
  behind : Seg heap next post (some last)
  notMem_pre : a ∉ pre.map Prod.fst
  notMem_post : a ∉ post.map Prod.fst
  ne_last : a ≠ last

theorem Linked.middle (h : Linked heap head (pre ++ (a, x) :: post) last z) :
    ∃ next, Middle heap head pre a x post last next := by
  obtain ⟨mid, hpre, hmid, next, hlook, hpost⟩ := seg_append.mp h.seg
  have hnodup := h.nodup
  rw [List.map_append, List.map_cons, List.nodup_cons, List.nodup_middle, List.nodup_cons,
    List.mem_append, List.mem_append, List.mem_cons] at hnodup
  obtain ⟨hlast, hnot, -⟩ := hnodup
  exact ⟨next, hmid ▸ hpre, hlook, hpost, fun hmem => hnot (Or.inl hmem),
    fun hmem => hnot (Or.inr hmem), fun heq => hlast (Or.inr (Or.inl heq.symm))⟩

theorem Linked.nodup_of_keys {l' : List (Addr × α)} (h : Linked heap head l last z)
    (hkeys : l'.map Prod.fst = l.map Prod.fst) : (last :: l'.map Prod.fst).Nodup := by
  rw [hkeys]
  exact h.nodup

/-- A store into the data of a node. -/
theorem Linked.modify (h : Linked heap head (pre ++ (a, x) :: post) last z) (f : α → α) :
    ∃ heap', modify heap (some a) f = .ok heap' ∧
      Linked heap' head (pre ++ (a, f x) :: post) last z := by
  obtain ⟨next, hmid⟩ := h.middle
  obtain ⟨next', hlast⟩ := h.atLast
  refine ⟨_, store_of_lookup hmid.here _, ?_, ⟨next', ?_⟩, h.nodup_of_keys ?_⟩
  · exact seg_append.mpr ⟨some a, seg_insert hmid.notMem_pre hmid.before, rfl, next,
      AList.lookup_insert heap, seg_insert hmid.notMem_post hmid.behind⟩
  · rw [AList.lookup_insert_ne hmid.ne_last.symm]
    exact hlast
  · rw [List.map_append, List.map_append]
    rfl

/-- A store into the data of the last node. -/
theorem Linked.modify_last (h : Linked heap head l last z) (f : α → α) :
    ∃ heap', Sll.modify heap (some last) f = .ok heap' ∧ Linked heap' head l last (f z) := by
  obtain ⟨next, hlast⟩ := h.atLast
  have hnot := (List.nodup_cons.mp h.nodup).1
  exact ⟨_, store_of_lookup hlast _, seg_insert hnot h.seg, ⟨next, AList.lookup_insert heap⟩,
    h.nodup⟩

/-- Reading a node. -/
theorem Linked.load (h : Linked heap head (pre ++ (a, x) :: post) last z) :
    ∃ next, load heap (some a) = .ok { data := x, next } ∧ Seg heap next post (some last) := by
  obtain ⟨next, hmid⟩ := h.middle
  exact ⟨next, load_of_lookup hmid.here, hmid.behind⟩

theorem Linked.load_last (h : Linked heap head l last z) :
    ∃ next, Sll.load heap (some last) = .ok { data := z, next } := by
  obtain ⟨next, hlast⟩ := h.atLast
  exact ⟨next, load_of_lookup hlast⟩

/-- The first node alone, when it is marked as the end. -/
theorem Linked.cut_head (h : Linked heap head ((a, x) :: l) last z) : Linked heap head [] a x := by
  obtain ⟨hhead, next, hlook, -⟩ := h.seg
  exact ⟨hhead, ⟨next, hlook⟩, List.nodup_singleton a⟩

/-- A list of one node. -/
theorem linked_singleton (a : Addr) (node : Node α) :
    Linked ((∅ : Heap α).insert a node) (some a) [] a node.data :=
  ⟨rfl, ⟨node.next, AList.lookup_insert _⟩, List.nodup_singleton a⟩

/-- The last node gets a new node behind it. -/
theorem Linked.append (h : Linked heap head l last z) (ha : a ∉ heap) (node : Node α) :
    ∃ heap', append heap (some last) a node = .ok heap' ∧
      Linked heap' head (l ++ [(last, z)]) a node.data := by
  obtain ⟨next, hlast⟩ := h.atLast
  obtain ⟨hnot, hnodup⟩ := List.nodup_cons.mp h.nodup
  have hne : last ≠ a := by
    intro heq
    apply ha
    rw [← AList.lookup_isSome, ← heq, hlast]
    rfl
  have hnew : a ∉ l.map Prod.fst := fun hmem => ha (seg_mem h.seg hmem)
  have hlook : (heap.insert a node).lookup last = some { data := z, next } := by
    rw [AList.lookup_insert_ne hne]
    exact hlast
  refine ⟨_, store_of_lookup hlook _, ?_, ⟨node.next, ?_⟩, ?_⟩
  · exact seg_append.mpr ⟨some last, seg_insert hnot (seg_insert hnew h.seg), rfl, some a,
      AList.lookup_insert _, rfl⟩
  · rw [AList.lookup_insert_ne hne.symm]
    exact AList.lookup_insert heap
  · rw [List.map_append, List.map_singleton, List.nodup_cons, List.mem_append,
      List.mem_singleton, List.nodup_append_comm]
    exact ⟨fun hmem => hmem.elim hnew fun heq => hne heq.symm, List.nodup_cons.mpr ⟨hnot, hnodup⟩⟩

/-- The data of a node that is not marked has changed. -/
theorem Holds.replace (h : Holds stop heap head (pre ++ (a, x) :: post) last z)
    (hlinked : Linked heap' head (pre ++ (a, y) :: post) last z) (hy : stop y = false) :
    Holds stop heap' head (pre ++ (a, y) :: post) last z := by
  refine ⟨hlinked, ?_, h.mark⟩
  intro u hu
  rcases List.mem_append.mp hu with hu | hu
  · exact h.inner u (List.mem_append_left _ hu)
  · rcases List.mem_cons.mp hu with rfl | hu
    · exact hy
    · exact h.inner u (List.mem_append_right pre (List.mem_cons_of_mem (a, x) hu))

/-! ## Walks over what is held -/

/-- Change the data of all nodes. -/
def mapData (f : α → α) (l : List (Addr × α)) : List (Addr × α) := l.map fun u => (u.1, f u.2)

theorem length_mapData (f : α → α) (l : List (Addr × α)) : (mapData f l).length = l.length :=
  List.length_map _

theorem mapData_mapData (f g : α → α) (l : List (Addr × α)) :
    mapData g (mapData f l) = mapData (g ∘ f) l :=
  List.map_map

variable {body : Option Addr → Heap α → Except Fault (Heap α)} {n : Nat}

/-- A list with the same nodes is cut at the same place. -/
theorem split_of_keys {l' : List (Addr × α)}
    (hkeys : l'.map Prod.fst = (pre ++ (a, x) :: post).map Prod.fst) :
    ∃ pre' x' post', l' = pre' ++ (a, x') :: post' ∧ pre'.length = pre.length ∧
      post'.length = post.length := by
  rw [List.map_append, List.map_cons] at hkeys
  obtain ⟨pre', rest, rfl, hpre, hrest⟩ := List.map_eq_append_iff.mp hkeys
  obtain ⟨⟨b, x'⟩, post', rfl, hb, hpost⟩ := List.map_eq_cons_iff.mp hrest
  obtain rfl : b = a := hb
  refine ⟨pre', x', post', rfl, ?_, ?_⟩
  · simpa using congrArg List.length hpre
  · simpa using congrArg List.length hpost

/-- `P k` is an invariant of a loop that holds of the list when the first `k` nodes have been
visited. A round can change the data of any node. -/
def RoundKeeps (stop : α → Bool) (body : Option Addr → Heap α → Except Fault (Heap α))
    (head : Option Addr) (last : Addr) (z : α) (P : Nat → List (Addr × α) → Prop) : Prop :=
  ∀ pre a x post heap, P pre.length (pre ++ (a, x) :: post) →
    Holds stop heap head (pre ++ (a, x) :: post) last z →
    ∃ heap' l', body (some a) heap = .ok heap' ∧ Holds stop heap' head l' last z ∧
      l'.map Prod.fst = (pre ++ (a, x) :: post).map Prod.fst ∧ P (pre.length + 1) l'

theorem walk_from {P : Nat → List (Addr × α) → Prop} (pre post : List (Addr × α))
    (hbody : RoundKeeps stop body head last z P) (hn : post.length < n)
    (h : Holds stop heap head (pre ++ post) last z) (hcur : Seg heap cur post (some last))
    (hP : P pre.length (pre ++ post)) :
    ∃ heap' l', walk stop body n cur heap = .ok heap' ∧ Holds stop heap' head l' last z ∧
      P (pre ++ post).length l' := by
  induction n generalizing pre post heap cur with
  | zero => exact absurd hn (Nat.not_lt_zero _)
  | succ n ih =>
    cases post with
    | nil =>
      obtain rfl : cur = some last := hcur
      obtain ⟨next, hload⟩ := h.linked.load_last
      rw [List.append_nil] at h hP ⊢
      refine ⟨heap, pre, ?_, h, hP⟩
      rw [walk, except_bind_of_ok hload]
      exact if_pos h.mark
    | cons u post =>
      obtain ⟨a, x⟩ := u
      obtain rfl : cur = some a := hcur.1
      obtain ⟨next, hload, -⟩ := h.linked.load
      have hx : stop x = false := h.inner (a, x) (List.mem_append_right pre List.mem_cons_self)
      obtain ⟨heap', l', hrun, h', hkeys, hP'⟩ := hbody pre a x post heap hP h
      obtain ⟨pre', x', post', rfl, hpre, hpost⟩ := split_of_keys hkeys
      obtain ⟨next', hload', hseg⟩ := h'.linked.load
      have hlen : (pre' ++ [(a, x')]).length = pre.length + 1 := by
        rw [List.length_append, hpre]
        rfl
      have hall : (pre' ++ (a, x') :: post').length = (pre ++ (a, x) :: post).length := by
        simpa using congrArg List.length hkeys
      have hroom : post'.length < n := by
        rw [hpost]
        exact Nat.lt_of_succ_lt_succ hn
      rw [← hlen] at hP'
      rw [← hall]
      rw [List.append_cons pre' (a, x') post'] at h' hP' ⊢
      obtain ⟨heap'', l'', hrest, h'', hP''⟩ := ih _ _ hroom h' hseg hP'
      refine ⟨heap'', l'', ?_, h'', hP''⟩
      rw [walk, except_bind_of_ok hload, if_neg (Bool.eq_false_iff.mp hx),
        except_bind_of_ok hrun, except_bind_of_ok hload']
      exact hrest

/-- The rule for a loop over the whole list. -/
theorem walk_holds {P : Nat → List (Addr × α) → Prop}
    (hbody : RoundKeeps stop body head last z P) (hn : l.length < n)
    (h : Holds stop heap head l last z) (hP : P 0 l) :
    ∃ heap' l', walk stop body n head heap = .ok heap' ∧ Holds stop heap' head l' last z ∧
      P l.length l' :=
  walk_from [] l hbody hn h h.linked.seg hP

/-- The data of the first `k` nodes of `l` has been changed. -/
def MapsFirst (f : α → α) (l : List (Addr × α)) (k : Nat) (l' : List (Addr × α)) : Prop :=
  ∃ pre post, l = pre ++ post ∧ pre.length = k ∧ l' = mapData f pre ++ post

theorem mapsFirst_length {f : α → α} {l' : List (Addr × α)} (h : MapsFirst f l l.length l') :
    l' = mapData f l := by
  obtain ⟨pre, post, hl, hpre, rfl⟩ := h
  obtain rfl : post = [] := by
    rw [hl, List.length_append] at hpre
    exact List.eq_nil_of_length_eq_zero (Nat.left_eq_add.mp hpre)
  rw [hl, List.append_nil, List.append_nil]

/-- A loop that changes the data of the node it is at. -/
theorem walk_map {f : α → α} (hstop : ∀ u ∈ l, stop (f u.2) = false)
    (hbody : ∀ pre a x post heap, l = pre ++ (a, x) :: post →
      Holds stop heap head (mapData f pre ++ (a, x) :: post) last z →
      ∃ heap', body (some a) heap = .ok heap' ∧
        Linked heap' head (mapData f pre ++ (a, f x) :: post) last z)
    (hn : l.length < n) (h : Holds stop heap head l last z) :
    ∃ heap', walk stop body n head heap = .ok heap' ∧
      Holds stop heap' head (mapData f l) last z := by
  have hround : RoundKeeps stop body head last z (MapsFirst f l) := by
    intro pre' a x post' heap hP h
    obtain ⟨pre, post, hl, hpre, heq⟩ := hP
    obtain ⟨rfl, rfl⟩ : pre' = mapData f pre ∧ (a, x) :: post' = post :=
      List.append_inj heq (by rw [length_mapData, hpre])
    obtain ⟨heap', hrun, hlinked⟩ := hbody pre a x post' heap hl h
    have hfx : stop (f x) = false :=
      hstop (a, x) (hl ▸ List.mem_append_right pre List.mem_cons_self)
    refine ⟨heap', mapData f pre ++ (a, f x) :: post', hrun, h.replace hlinked hfx, ?_,
      pre ++ [(a, x)], post', ?_, ?_, ?_⟩
    · rw [List.map_append, List.map_append]
      rfl
    · rw [hl, List.append_cons]
    · rw [List.length_append, hpre]
      rfl
    · rw [mapData, mapData, List.map_append, List.append_assoc]
      rfl
  obtain ⟨heap', l', hrun, h', hall⟩ := walk_holds hround hn h ⟨[], l, rfl, rfl, rfl⟩
  exact ⟨heap', hrun, mapsFirst_length hall ▸ h'⟩

/-- A loop that reads each node and changes its data. -/
theorem walk_annotate {g : α → α → α} (hstop : ∀ u ∈ l, stop (g u.2 u.2) = false)
    (hn : l.length < n) (h : Holds stop heap head l last z) :
    ∃ heap', walk stop (fun cur heap => do
        let node ← load heap cur
        modify heap cur (g node.data)) n head heap = .ok heap' ∧
      Holds stop heap' head (mapData (fun x => g x x) l) last z := by
  apply walk_map hstop _ hn h
  intro pre a x post heap _ h
  obtain ⟨next, hload, -⟩ := h.linked.load
  obtain ⟨heap', hrun, hlinked⟩ := h.linked.modify (g x)
  refine ⟨heap', ?_, hlinked⟩
  rw [except_bind_of_ok hload]
  exact hrun

theorem walk_none (heap heap' : Heap α) : walk stop body n none heap ≠ .ok heap' := by
  intro hrun
  cases n with
  | zero => cases hrun
  | succ n => cases hrun

/-- A walk that comes to a node without a mark and without a next one has no result. -/
theorem walk_stray {a : Addr} (hload : load heap (some a) = .ok { data := x, next := none })
    (hx : stop x = false)
    (hbody : ∀ heap', body (some a) heap = .ok heap' →
      ∃ y, load heap' (some a) = .ok { data := y, next := none }) (heap' : Heap α) :
    walk stop body n (some a) heap ≠ .ok heap' := by
  intro hwalk
  cases n with
  | zero => cases hwalk
  | succ n =>
    rw [walk, except_bind_of_ok hload, if_neg (Bool.eq_false_iff.mp hx)] at hwalk
    obtain ⟨heap₁, hrun, hrest⟩ := except_bind_ok hwalk
    obtain ⟨y, hload₁⟩ := hbody heap₁ hrun
    rw [except_bind_of_ok hload₁] at hrest
    exact walk_none heap₁ heap' hrest

/-! ## Removal -/

/-- The head of a list is freed. -/
theorem Linked.free_head (h : Linked heap head ((a, x) :: l) last z) :
    ∃ next heap', Sll.load heap (some a) = .ok { data := x, next } ∧
      free heap (some a) = .ok heap' ∧ Linked heap' next l last z := by
  obtain ⟨next, hmid⟩ := Linked.middle (show Linked heap head ([] ++ (a, x) :: l) last z from h)
  obtain ⟨next', hlast⟩ := h.atLast
  refine ⟨next, _, load_of_lookup hmid.here, free_of_lookup hmid.here,
    seg_erase hmid.notMem_post hmid.behind, ⟨next', ?_⟩, ?_⟩
  · rw [AList.lookup_erase_ne hmid.ne_last.symm]
    exact hlast
  · exact h.nodup.sublist ((List.sublist_cons_self a _).cons_cons last)

/-- A node behind another one is taken out of the list and freed. -/
theorem Linked.unlink {b : Addr}
    (h : Linked heap head (pre ++ (b, y) :: (a, x) :: post) last z) :
    ∃ next heap₁ heap₂, Sll.load heap (some a) = .ok { data := x, next } ∧
      store heap (some b) ({ · with next := next }) = .ok heap₁ ∧
      free heap₁ (some a) = .ok heap₂ ∧ Linked heap₂ head (pre ++ (b, y) :: post) last z ∧
      Seg heap₂ next post (some last) := by
  obtain ⟨_, hb⟩ := h.middle
  rw [List.append_cons] at h
  obtain ⟨next, ha⟩ := h.middle
  obtain ⟨next', hlast⟩ := h.atLast
  have hab : a ≠ b := by
    rintro rfl
    exact hb.notMem_post List.mem_cons_self
  have hpre : a ∉ pre.map Prod.fst := by
    intro hmem
    apply ha.notMem_pre
    rw [List.map_append]
    exact List.mem_append_left _ hmem
  have hpost : b ∉ post.map Prod.fst := fun hmem => hb.notMem_post (List.mem_cons_of_mem _ hmem)
  have hseg : Seg ((heap.insert b { data := y, next := next }).erase a) next post (some last) :=
    seg_erase ha.notMem_post (seg_insert hpost ha.behind)
  have hlook : (heap.insert b { data := y, next := next }).lookup a = some { data := x, next } := by
    rw [AList.lookup_insert_ne hab]
    exact ha.here
  refine ⟨next, _, _, load_of_lookup ha.here, store_of_lookup hb.here _, free_of_lookup hlook,
    ⟨?_, ⟨next', ?_⟩, ?_⟩, hseg⟩
  · refine seg_append.mpr ⟨some b, seg_erase hpre (seg_insert hb.notMem_pre hb.before), rfl, next,
      ?_, hseg⟩
    rw [AList.lookup_erase_ne hab.symm]
    exact AList.lookup_insert heap
  · rw [AList.lookup_erase_ne ha.ne_last.symm, AList.lookup_insert_ne hb.ne_last.symm]
    exact hlast
  · refine h.nodup.sublist (List.Sublist.cons_cons last (List.Sublist.map Prod.fst ?_))
    rw [← List.append_cons]
    exact ((List.sublist_cons_self (a, x) post).cons_cons (b, y)).append_left pre

theorem Holds.of_sublist {l' : List (Addr × α)} (h : Holds stop heap head l last z)
    (hsub : l'.Sublist l) (hlinked : Linked heap' first l' last z) :
    Holds stop heap' first l' last z :=
  ⟨hlinked, fun u hu => h.inner u (hsub.subset hu), h.mark⟩

/-- The pointer to the last of the nodes that were kept. -/
def LastKept (kept : List (Addr × α)) (prev : Option Addr) : Prop :=
  ∀ kept' u, kept = kept' ++ [u] → prev = some u.1

theorem lastKept_append (kept : List (Addr × α)) (a : Addr) (x : α) :
    LastKept (kept ++ [(a, x)]) (some a) := by
  intro kept' u hkept
  rw [← (List.append_singleton_inj.mp hkept).2]

/-- The invariant of `removeIf`: the nodes up to `prev` are the ones that were kept, and those
from `cur` on have not been visited. -/
structure Visiting (stop : α → Bool) (heap : Heap α) (head prev cur : Option Addr)
    (kept rest : List (Addr × α)) (last : Addr) (z : α) : Prop where
  holds : Holds stop heap head (kept ++ rest) last z
  prev : LastKept kept prev
  cur : Seg heap cur rest (some last)

variable {prev : Option Addr} {kept rest : List (Addr × α)}

theorem Visiting.inner (h : Visiting stop heap head prev cur kept ((a, x) :: rest) last z) :
    ¬stop x = true :=
  Bool.eq_false_iff.mp (h.holds.inner (a, x) (List.mem_append_right kept List.mem_cons_self))

/-- A round at a node that is kept. -/
theorem Visiting.keeps (h : Visiting stop heap head prev cur kept ((a, x) :: rest) last z)
    (hdrop : drop x = false) (n : Nat) :
    ∃ next, removeIf stop drop (n + 1) head prev cur heap =
        removeIf stop drop n head cur next heap ∧
      Visiting stop heap head cur next (kept ++ [(a, x)]) rest last z := by
  have hx := h.inner
  obtain ⟨hlist, -, hcur⟩ := h
  obtain rfl : cur = some a := hcur.1
  obtain ⟨next, hload, hseg⟩ := hlist.linked.load
  refine ⟨next, ?_, ?_, lastKept_append kept a x, hseg⟩
  · rw [removeIf, except_bind_of_ok hload, if_neg hx, if_neg (Bool.eq_false_iff.mp hdrop)]
  · rw [← List.append_cons]
    exact hlist

/-- A round that removes the head of the list. -/
theorem Visiting.removes_head (h : Visiting stop heap head prev cur [] ((a, x) :: rest) last z)
    (hdrop : drop x = true) (n : Nat) :
    ∃ next heap', removeIf stop drop (n + 1) head prev cur heap =
        removeIf stop drop n next prev next heap' ∧
      Visiting stop heap' next prev next [] rest last z := by
  have hx := h.inner
  obtain ⟨hlist, hprev, hcur⟩ := h
  obtain rfl : cur = some a := hcur.1
  obtain rfl : head = some a := hlist.linked.seg.1
  obtain ⟨next, heap', hload, hfree, hlinked⟩ := hlist.linked.free_head
  refine ⟨next, heap', ?_, hlist.of_sublist (List.sublist_cons_self (a, x) rest) hlinked, hprev,
    hlinked.seg⟩
  rw [removeIf, except_bind_of_ok hload, if_neg hx, if_pos hdrop, if_pos rfl,
    except_bind_of_ok hfree]

/-- A round that removes a node behind one that was kept. -/
theorem Visiting.removes_behind {u : Addr × α}
    (h : Visiting stop heap head prev cur (kept ++ [u]) ((a, x) :: rest) last z)
    (hdrop : drop x = true) (n : Nat) :
    ∃ next heap', removeIf stop drop (n + 1) head prev cur heap =
        removeIf stop drop n head prev next heap' ∧
      Visiting stop heap' head prev next (kept ++ [u]) rest last z := by
  have hx := h.inner
  obtain ⟨hlist, hprev, hcur⟩ := h
  obtain rfl : cur = some a := hcur.1
  obtain rfl : prev = some u.1 := hprev kept u rfl
  obtain ⟨_, hmid⟩ := hlist.linked.middle
  have hne : some a ≠ head := by
    rintro rfl
    exact hmid.notMem_pre (seg_head hmid.before (List.append_ne_nil_of_right_ne_nil kept
      (List.cons_ne_nil u [])))
  have hsub : (kept ++ [u] ++ rest).Sublist (kept ++ [u] ++ (a, x) :: rest) :=
    (List.sublist_cons_self (a, x) rest).append_left _
  have hlinked : Linked heap head (kept ++ u :: (a, x) :: rest) last z := by
    rw [List.append_cons]
    exact hlist.linked
  obtain ⟨next, heap₁, heap₂, hload, hstore, hfree, hlinked, hseg⟩ := hlinked.unlink
  rw [List.append_cons] at hlinked
  refine ⟨next, heap₂, ?_, hlist.of_sublist hsub hlinked, hprev, hseg⟩
  rw [removeIf, except_bind_of_ok hload, if_neg hx, if_pos hdrop, if_neg hne,
    except_bind_of_ok hstore, except_bind_of_ok hfree]

/-- A round at a node that is to be dropped. -/
theorem Visiting.removes (h : Visiting stop heap head prev cur kept ((a, x) :: rest) last z)
    (hdrop : drop x = true) (n : Nat) :
    ∃ head' next heap', removeIf stop drop (n + 1) head prev cur heap =
        removeIf stop drop n head' prev next heap' ∧
      Visiting stop heap' head' prev next kept rest last z := by
  rcases List.eq_nil_or_concat' kept with rfl | ⟨kept', u, rfl⟩
  · obtain ⟨next, heap', hround, h'⟩ := h.removes_head hdrop n
    exact ⟨next, next, heap', hround, h'⟩
  · obtain ⟨next, heap', hround, h'⟩ := h.removes_behind hdrop n
    exact ⟨head, next, heap', hround, h'⟩

theorem removeIf_from (h : Visiting stop heap head prev cur kept rest last z)
    (hn : rest.length < n) :
    ∃ head' heap', removeIf stop drop n head prev cur heap = .ok (head', heap') ∧
      Holds stop heap' head' (kept ++ rest.filter fun u => !drop u.2) last z := by
  induction n generalizing kept rest heap head prev cur with
  | zero => exact absurd hn (Nat.not_lt_zero _)
  | succ n ih =>
    cases rest with
    | nil =>
      obtain rfl : cur = some last := h.cur
      obtain ⟨next, hload⟩ := h.holds.linked.load_last
      refine ⟨head, heap, ?_, h.holds⟩
      rw [removeIf, except_bind_of_ok hload]
      exact if_pos h.holds.mark
    | cons u rest =>
      obtain ⟨a, x⟩ := u
      have hroom : rest.length < n := Nat.lt_of_succ_lt_succ hn
      cases hdrop : drop x with
      | true =>
        obtain ⟨head', next, heap', hround, h'⟩ := h.removes hdrop n
        rw [hround, List.filter_cons_of_neg (by rw [hdrop]; exact Bool.false_ne_true)]
        exact ih h' hroom
      | false =>
        obtain ⟨next, hround, h'⟩ := h.keeps hdrop n
        rw [hround, List.filter_cons_of_pos (by rw [hdrop]; rfl), List.append_cons]
        exact ih h' hroom

/-- `removeIf` leaves the nodes that are not to be dropped. -/
theorem removeIf_holds (drop : α → Bool) (hn : l.length < n) (h : Holds stop heap head l last z)
    (prev : Option Addr) :
    ∃ head' heap', removeIf stop drop n head prev head heap = .ok (head', heap') ∧
      Holds stop heap' head' (l.filter fun u => !drop u.2) last z := by
  have hnone : LastKept ([] : List (Addr × α)) prev := fun kept' u hnil =>
    absurd hnil.symm (List.append_ne_nil_of_right_ne_nil kept' (List.cons_ne_nil u []))
  have hstart : Visiting stop heap head prev head [] l last z := ⟨h, hnone, h.linked.seg⟩
  exact removeIf_from hstart hn

end Sll
