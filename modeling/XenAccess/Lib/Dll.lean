import Mathlib.Data.List.AList
import XenAccess.Lib.Lru

/-!
# Doubly linked lists in a heap

A list of nodes linked in both directions, with pointers to its head and its tail and a
counter, and the operations of a least-recently-used cache on it, written with loads and
stores. A load or store through `NULL` or through a node that was freed is a fault, and so is
a walk that visits more nodes than are allocated.

`Holds d l` says that the structure `d` holds the addresses and data of `l` in this order. For
each operation there is one lemma that gives its effect on `l`, in terms of the functions on
lists of `Lru`; so a client never looks into the heap.

`trace` is not part of the structure in memory. It records, latest event first, which node an
operation used, inserted or evicted.
-/

namespace Dll

/-- Pointers other than `NULL`. -/
abbrev Addr := Nat

structure Node (α : Type) where
  data : α
  prev : Option Addr
  next : Option Addr

/-- The allocated nodes. -/
abbrev Heap (α : Type) := AList (fun _ : Addr => Node α)

inductive Fault where
  /-- a load or store through `NULL` or through a freed node -/
  | dangling
  /-- a walk that does not end -/
  | diverges
  deriving DecidableEq, Repr

inductive Event where
  | used (a : Addr)
  | inserted (a : Addr)
  | evicted (a : Addr)
  | cleared
  deriving DecidableEq, Repr

end Dll

structure Dll (α : Type) where
  heap : Dll.Heap α
  head : Option Dll.Addr
  tail : Option Dll.Addr
  size : Int
  trace : List Dll.Event

namespace Dll

variable {α : Type}

/-- The list after initialisation. -/
def nil : Dll α := { heap := ∅, head := none, tail := none, size := 0, trace := [] }

/-! ## Loads and stores -/

def load (heap : Heap α) : Option Addr → Except Fault (Node α)
  | none => .error .dangling
  | some a =>
    match heap.lookup a with
    | some node => .ok node
    | none => .error .dangling

def store (heap : Heap α) (a : Option Addr) (f : Node α → Node α) : Except Fault (Heap α) :=
  match a with
  | none => .error .dangling
  | some a =>
    match heap.lookup a with
    | some node => .ok (heap.insert a (f node))
    | none => .error .dangling

/-- A bound for the rounds of a walk. -/
def rounds (d : Dll α) : Nat := d.heap.keys.length

/-! ## Walks -/

/-- The first node whose data satisfies `p`. -/
def find (heap : Heap α) (p : α → Bool) : Nat → Option Addr → Except Fault (Option Addr)
  | _, none => .ok none
  | 0, some _ => .error .diverges
  | n + 1, some a => do
    let node ← load heap (some a)
    if p node.data then return some a else find heap p n node.next

/-- The node with the smallest stamp, `o` being the one so far. -/
def oldest (heap : Heap α) (stamp : α → Int) : Nat → Option Addr → Addr → Except Fault Addr
  | _, none, o => .ok o
  | 0, some _, _ => .error .diverges
  | n + 1, some a, o => do
    let node ← load heap (some a)
    let old ← load heap (some o)
    oldest heap stamp n node.next (if stamp node.data < stamp old.data then a else o)

/-- The addresses and data from a node on, by following `next`. -/
def follow (heap : Heap α) : Nat → Option Addr → Except Fault (List (Addr × α))
  | _, none => .ok []
  | 0, some _ => .error .diverges
  | n + 1, some a => do
    let node ← load heap (some a)
    return (a, node.data) :: (← follow heap n node.next)

/-- Free the nodes from one on. -/
def freeAll (heap : Heap α) : Nat → Option Addr → Except Fault (Heap α)
  | _, none => .ok heap
  | 0, some _ => .error .diverges
  | n + 1, some a => do
    let node ← load heap (some a)
    freeAll (heap.erase a) n node.next

/-- The addresses and data of the list from head to tail. -/
def contents (d : Dll α) : Except Fault (List (Addr × α)) := follow d.heap d.rounds d.head

/-! ## Operations -/

/-- Change the first node whose data satisfies `p`; the result is its new data. -/
def touch (p : α → Bool) (f : α → α) (d : Dll α) : Except Fault (Option (α × Dll α)) := do
  match ← find d.heap p d.rounds d.head with
  | none => return none
  | some a =>
    let node ← load d.heap (some a)
    let heap ← store d.heap (some a) ({ · with data := f node.data })
    return some (f node.data, { d with heap, trace := .used a :: d.trace })

/-- Take a node out of the list. -/
def unlink (a : Addr) (d : Dll α) : Except Fault (Dll α) := do
  let node ← load d.heap (some a)
  match node.next, node.prev with
  -- only entry
  | none, none => return { d with head := none, tail := none }
  -- last entry
  | none, some b =>
    let heap ← store d.heap (some b) ({ · with next := none })
    return { d with heap, tail := some b }
  -- first entry
  | some c, none =>
    let heap ← store d.heap (some c) ({ · with prev := none })
    return { d with heap, head := some c }
  -- somewhere in the middle
  | some c, some b =>
    let heap ← store d.heap (some b) ({ · with next := some c })
    let heap ← store heap (some c) ({ · with prev := some b })
    return { d with heap }

/-- Remove and free the node with the smallest stamp. -/
def evict (stamp : α → Int) (d : Dll α) : Except Fault (Dll α) := do
  match d.head with
  | none => throw .dangling
  | some first =>
    let a ← oldest d.heap stamp d.rounds (some first) first
    let d ← unlink a d
    return { d with
      heap := d.heap.erase a
      size := d.size - 1
      trace := .evicted a :: d.trace }

/-- Add a node at the end of the list. -/
def append (a : Addr) (x : α) (d : Dll α) : Except Fault (Dll α) := do
  let heap ← match d.tail with
    | none => pure d.heap
    | some b => store d.heap (some b) ({ · with next := some a })
  return { d with
    heap := heap.insert a { data := x, prev := d.tail, next := none }
    head := if d.head = none then some a else d.head
    tail := some a
    size := d.size + 1
    trace := .inserted a :: d.trace }

/-- Add a node, after the oldest one has been removed from a full list. The address comes
from the allocator. -/
def insert (cap : Int) (stamp : α → Int) (malloc : List Addr → Addr) (x : α) (d : Dll α) :
    Except Fault (Dll α) := do
  let d ← if cap ≤ d.size then evict stamp d else pure d
  append (malloc d.heap.keys) x d

/-- Free all nodes. -/
def destroy (d : Dll α) : Except Fault (Dll α) := do
  let heap ← freeAll d.heap d.rounds d.head
  return { heap, head := none, tail := none, size := 0, trace := .cleared :: d.trace }

/-! ## Segments -/

/-- The first address of a segment, or the pointer behind it. -/
def firstOr (l : List (Addr × α)) (next : Option Addr) : Option Addr :=
  match l with
  | [] => next
  | (a, _) :: _ => some a

/-- The last address of a segment, or the pointer before it. -/
def lastOr : List (Addr × α) → Option Addr → Option Addr
  | [], prev => prev
  | (a, _) :: l, _ => lastOr l (some a)

/-- The nodes of `l` are linked in this order, between two pointers. -/
def Seg (heap : Heap α) : Option Addr → List (Addr × α) → Option Addr → Prop
  | _, [], _ => True
  | prev, (a, x) :: l, next =>
    heap.lookup a = some { data := x, prev, next := firstOr l next } ∧ Seg heap (some a) l next

variable {heap heap' : Heap α} {prev next : Option Addr} {l l₁ l₂ : List (Addr × α)} {a : Addr} {x : α}

@[simp] theorem firstOr_nil : firstOr ([] : List (Addr × α)) next = next := rfl

@[simp] theorem firstOr_cons : firstOr ((a, x) :: l) next = some a := rfl

theorem firstOr_append : firstOr (l₁ ++ l₂) next = firstOr l₁ (firstOr l₂ next) := by
  cases l₁ <;> rfl

@[simp] theorem lastOr_nil : lastOr ([] : List (Addr × α)) prev = prev := rfl

@[simp] theorem lastOr_concat : lastOr (l ++ [(a, x)]) prev = some a := by
  induction l generalizing prev with
  | nil => rfl
  | cons y l ih => exact ih

theorem lastOr_append : lastOr (l₁ ++ l₂) prev = lastOr l₂ (lastOr l₁ prev) := by
  induction l₁ generalizing prev with
  | nil => rfl
  | cons y l ih => exact ih

theorem seg_append : Seg heap prev (l₁ ++ l₂) next ↔
    Seg heap prev l₁ (firstOr l₂ next) ∧ Seg heap (lastOr l₁ prev) l₂ next := by
  induction l₁ generalizing prev with
  | nil => simp [Seg]
  | cons y l₁ ih =>
    obtain ⟨b, z⟩ := y
    rw [List.cons_append, Seg, ih, firstOr_append, Seg, and_assoc]
    rfl

/-- A segment depends on its own nodes only. -/
theorem seg_congr (hsame : ∀ b ∈ l.map Prod.fst, heap'.lookup b = heap.lookup b)
    (hl : Seg heap prev l next) : Seg heap' prev l next := by
  induction l generalizing prev with
  | nil => trivial
  | cons y l ih =>
    obtain ⟨b, z⟩ := y
    refine ⟨?_, ih (fun c hc => hsame c (List.mem_cons_of_mem b hc)) hl.2⟩
    rw [hsame b List.mem_cons_self]
    exact hl.1

theorem seg_insert {node : Node α} (ha : a ∉ l.map Prod.fst) (hl : Seg heap prev l next) :
    Seg (heap.insert a node) prev l next := by
  refine seg_congr (fun b hb => AList.lookup_insert_ne ?_) hl
  rintro rfl
  exact ha hb

theorem seg_erase (ha : a ∉ l.map Prod.fst) (hl : Seg heap prev l next) :
    Seg (heap.erase a) prev l next := by
  refine seg_congr (fun b hb => AList.lookup_erase_ne ?_) hl
  rintro rfl
  exact ha hb

theorem load_of_lookup {node : Node α} (ha : heap.lookup a = some node) :
    load heap (some a) = .ok node := by
  rw [load, ha]

theorem store_of_lookup {node : Node α} (ha : heap.lookup a = some node) (f : Node α → Node α) :
    store heap (some a) f = .ok (heap.insert a (f node)) := by
  rw [store, ha]

theorem seg_mem (hl : Seg heap prev l next) (ha : a ∈ l.map Prod.fst) : a ∈ heap := by
  induction l generalizing prev with
  | nil => cases ha
  | cons y l ih =>
    obtain ⟨b, z⟩ := y
    rcases List.mem_cons.mp ha with rfl | ha
    · rw [← AList.lookup_isSome, hl.1]
      rfl
    · exact ih hl.2 ha

/-! ## The list held -/

/-- The structure holds these addresses and data, from head to tail, and has no other
node. -/
structure Holds (d : Dll α) (l : List (Addr × α)) : Prop where
  seg : Seg d.heap none l none
  nodup : (l.map Prod.fst).Nodup
  head : d.head = firstOr l none
  tail : d.tail = lastOr l none
  size : d.size = l.length
  mem : ∀ a, a ∈ d.heap ↔ a ∈ l.map Prod.fst

variable {d : Dll α}

theorem holds_nil : Holds (nil : Dll α) [] :=
  ⟨trivial, List.nodup_nil, rfl, rfl, rfl, fun a => by simp [nil]⟩

theorem Holds.length_le (hd : Holds d l) : l.length ≤ d.rounds := by
  have hsub : l.map Prod.fst ⊆ d.heap.keys := fun a ha => AList.mem_keys.mp ((hd.mem a).mpr ha)
  have hle := (List.subperm_of_subset hd.nodup hsub).length_le
  rwa [List.length_map] at hle

/-! ## Walks over what is held -/

theorem find_seg (p : α → Bool) {n : Nat} (hn : l.length ≤ n) (hl : Seg heap prev l none) :
    find heap p n (firstOr l none) = .ok ((l.find? fun y => p y.2).map Prod.fst) := by
  induction l generalizing n prev with
  | nil => cases n <;> rfl
  | cons y l ih =>
    obtain ⟨a, x⟩ := y
    cases n with
    | zero => simp at hn
    | succ n =>
      rw [firstOr_cons, find, load_of_lookup hl.1]
      by_cases hp : p x = true
      · simp [hp, bind, Except.bind, pure, Except.pure]
      · have := ih (by simpa using hn) hl.2
        simp only [bind, Except.bind, hp, if_false, Bool.false_eq_true]
        rw [this, List.find?_cons_of_neg (by simpa using hp)]

theorem follow_seg {n : Nat} (hn : l.length ≤ n) (hl : Seg heap prev l none) :
    follow heap n (firstOr l none) = .ok l := by
  induction l generalizing n prev with
  | nil => cases n <;> rfl
  | cons y l ih =>
    obtain ⟨a, x⟩ := y
    cases n with
    | zero => simp at hn
    | succ n =>
      rw [firstOr_cons, follow, load_of_lookup hl.1]
      simp only [bind, Except.bind]
      rw [ih (by simpa using hn) hl.2]
      rfl

theorem Holds.contents (hd : Holds d l) : d.contents = .ok l := by
  rw [Dll.contents, hd.head]
  exact follow_seg hd.length_le hd.seg

/-- The walk for the oldest node: `o` is the candidate, with younger nodes before it and none
older behind it. -/
theorem oldest_seg (stamp : α → Int) {n : Nat} {o : Addr} {y : α} {nodeO : Node α}
    {pre mid : List (Addr × α)} (hn : l.length ≤ n) (hl : Seg heap prev l none)
    (ho : heap.lookup o = some nodeO) (hy : nodeO.data = y)
    (hpre : ∀ z ∈ pre, stamp y < stamp z.2) (hmid : ∀ z ∈ mid, stamp y ≤ stamp z.2) :
    ∃ pre' e w post, oldest heap stamp n (firstOr l none) o = .ok e ∧
      pre ++ (o, y) :: mid ++ l = pre' ++ (e, w) :: post ∧
      (∀ z ∈ pre', stamp w < stamp z.2) ∧ ∀ z ∈ post, stamp w ≤ stamp z.2 := by
  induction l generalizing n prev o y nodeO pre mid with
  | nil =>
    refine ⟨pre, o, y, mid, ?_, by simp, hpre, hmid⟩
    cases n <;> rfl
  | cons z l ih =>
    obtain ⟨a, x⟩ := z
    cases n with
    | zero => simp at hn
    | succ n =>
      rw [firstOr_cons, oldest, load_of_lookup hl.1, load_of_lookup ho]
      simp only [bind, Except.bind, hy]
      have hn' : l.length ≤ n := by simpa using hn
      by_cases hlt : stamp x < stamp y
      · have hpre' : ∀ z ∈ pre ++ (o, y) :: mid, stamp x < stamp z.2 := by
          intro z hz
          rcases List.mem_append.mp hz with hz | hz
          · have := hpre z hz
            omega
          · rcases List.mem_cons.mp hz with rfl | hz
            · exact hlt
            · have := hmid z hz
              omega
        have hnil : ∀ z ∈ ([] : List (Addr × α)), stamp x ≤ stamp z.2 := by simp
        obtain ⟨pre', e, w, post, hrun, heq, h1, h2⟩ := ih hn' hl.2 hl.1 rfl hpre' hnil
        refine ⟨pre', e, w, post, ?_, ?_, h1, h2⟩
        · rw [if_pos hlt]
          exact hrun
        · rw [← heq]
          simp
      · have hmid' : ∀ z ∈ mid ++ [(a, x)], stamp y ≤ stamp z.2 := by
          intro z hz
          rcases List.mem_append.mp hz with hz | hz
          · exact hmid z hz
          · rw [List.mem_singleton.mp hz]
            exact Int.not_lt.mp hlt
        obtain ⟨pre', e, w, post, hrun, heq, h1, h2⟩ := ih hn' hl.2 ho hy hpre hmid'
        refine ⟨pre', e, w, post, ?_, ?_, h1, h2⟩
        · rw [if_neg hlt]
          exact hrun
        · rw [← heq]
          simp

/-! ## Operations on what is held -/

/-- In a list of distinct addresses, the address in the middle is not in the two parts. -/
theorem not_mem_parts {pre post : List (Addr × α)}
    (hl : ((pre ++ (a, x) :: post).map Prod.fst).Nodup) :
    a ∉ pre.map Prod.fst ∧ a ∉ post.map Prod.fst := by
  rw [List.map_append, List.map_cons, List.nodup_middle] at hl
  have hnot := (List.nodup_cons.mp hl).1
  rwa [List.mem_append, not_or] at hnot

/-- A store into the data of a node. -/
theorem Holds.setData {pre post : List (Addr × α)} (hd : Holds d (pre ++ (a, x) :: post)) (y : α)
    (trace : List Event) :
    ∃ node heap, load d.heap (some a) = .ok node ∧ node.data = x ∧
      store d.heap (some a) ({ · with data := y }) = .ok heap ∧
      Holds { d with heap, trace } (pre ++ (a, y) :: post) := by
  have hseg := seg_append.mp hd.seg
  have hlook := hseg.2.1
  obtain ⟨hpre, hpost⟩ := not_mem_parts hd.nodup
  have hkeys : (pre ++ (a, y) :: post).map Prod.fst = (pre ++ (a, x) :: post).map Prod.fst := by
    simp
  refine ⟨_, _, load_of_lookup hlook, rfl, store_of_lookup hlook _, ?_⟩
  refine ⟨seg_append.mpr ⟨seg_insert hpre hseg.1, AList.lookup_insert d.heap,
    seg_insert hpost hseg.2.2⟩, hkeys ▸ hd.nodup, ?_, ?_, ?_, ?_⟩
  · refine hd.head.trans ?_
    rw [firstOr_append, firstOr_append]
    rfl
  · refine hd.tail.trans ?_
    rw [lastOr_append, lastOr_append]
    rfl
  · refine hd.size.trans ?_
    simp
  · intro b
    rw [hkeys, ← hd.mem b, AList.mem_insert]
    refine or_iff_right_of_imp ?_
    rintro rfl
    exact (hd.mem b).mpr (by simp)

/-- An operation on the first node that satisfies `p`. -/
theorem Holds.touch (hd : Holds d l) (p : α → Bool) (f : α → α) :
    ((∀ y ∈ l, p y.2 = false) ∧ d.touch p f = .ok none) ∨
      ∃ pre a x post d', l = pre ++ (a, x) :: post ∧ (∀ y ∈ pre, p y.2 = false) ∧ p x = true ∧
        d.touch p f = .ok (some (f x, d')) ∧ Holds d' (pre ++ (a, f x) :: post) ∧
        d'.trace = .used a :: d.trace := by
  have hfind := find_seg p hd.length_le hd.seg
  rw [← hd.head] at hfind
  cases hy : l.find? fun y => p y.2 with
  | none =>
    rw [hy] at hfind
    refine Or.inl ⟨by simpa using List.find?_eq_none.mp hy, ?_⟩
    rw [Dll.touch, hfind]
    rfl
  | some y =>
    obtain ⟨a, x⟩ := y
    rw [hy] at hfind
    obtain ⟨hp, pre, post, rfl, hpre⟩ := List.find?_eq_some_iff_append.mp hy
    obtain ⟨node, heap, hload, rfl, hstore, hholds⟩ := hd.setData (f x) (.used a :: d.trace)
    refine Or.inr ⟨pre, a, _, post, _, rfl, by simpa using hpre, hp, ?_, hholds, rfl⟩
    rw [Dll.touch, hfind]
    simp only [bind, Except.bind, Option.map_some]
    rw [hload]
    simp only
    rw [hstore]
    rfl

/-- The last node of a segment gets another successor. -/
theorem seg_setNext (next' : Option Addr) (ha : a ∉ l.map Prod.fst)
    (hl : Seg heap prev (l ++ [(a, x)]) next) :
    ∃ heap', store heap (some a) ({ · with next := next' }) = .ok heap' ∧
      Seg heap' prev (l ++ [(a, x)]) next' ∧ (∀ b, b ≠ a → heap'.lookup b = heap.lookup b) ∧
      ∀ b, b ∈ heap' ↔ b ∈ heap := by
  have hseg := seg_append.mp hl
  refine ⟨_, store_of_lookup hseg.2.1 _, seg_append.mpr ⟨seg_insert ha hseg.1, ?_, trivial⟩,
    fun b hb => AList.lookup_insert_ne hb, fun b => ?_⟩
  · exact AList.lookup_insert heap
  · rw [AList.mem_insert]
    refine or_iff_right_of_imp ?_
    rintro rfl
    exact seg_mem hl (by simp)

/-- The first node of a segment gets another predecessor. -/
theorem seg_setPrev (prev' : Option Addr) (ha : a ∉ l.map Prod.fst)
    (hl : Seg heap prev ((a, x) :: l) next) :
    ∃ heap', store heap (some a) ({ · with prev := prev' }) = .ok heap' ∧
      Seg heap' prev' ((a, x) :: l) next ∧ (∀ b, b ≠ a → heap'.lookup b = heap.lookup b) ∧
      ∀ b, b ∈ heap' ↔ b ∈ heap := by
  refine ⟨_, store_of_lookup hl.1 _, ⟨AList.lookup_insert heap, seg_insert ha hl.2⟩,
    fun b hb => AList.lookup_insert_ne hb, fun b => ?_⟩
  rw [AList.mem_insert]
  refine or_iff_right_of_imp ?_
  rintro rfl
  exact seg_mem hl (by simp)

/-- A node that is taken out of the list is still allocated. -/
theorem Holds.unlink {pre post : List (Addr × α)} (hd : Holds d (pre ++ (a, x) :: post)) :
    ∃ d', Dll.unlink a d = .ok d' ∧ Seg d'.heap none (pre ++ post) none ∧
      d'.head = firstOr (pre ++ post) none ∧ d'.tail = lastOr (pre ++ post) none ∧
      d'.size = d.size ∧ d'.trace = d.trace ∧ ∀ b, b ∈ d'.heap ↔ b ∈ d.heap := by
  obtain ⟨hpreSeg, hlook, hpostSeg⟩ := seg_append.mp hd.seg
  have hhead := hd.head
  have htail := hd.tail
  have hnodup := hd.nodup
  rw [firstOr_append] at hhead
  rw [lastOr_append] at htail
  rcases List.eq_nil_or_concat pre with rfl | ⟨pre, ⟨b, y⟩, rfl⟩
  · cases post with
    | nil =>
      refine ⟨{ d with head := none, tail := none }, ?_, trivial, rfl, rfl, rfl, rfl, fun _ => Iff.rfl⟩
      rw [Dll.unlink, load_of_lookup hlook]
      rfl
    | cons z post =>
      obtain ⟨c, z⟩ := z
      have hc : c ∉ post.map Prod.fst := by
        have := (List.nodup_cons.mp hnodup).2
        exact (List.nodup_cons.mp this).1
      obtain ⟨heap, hstore, hseg, -, hmem⟩ := seg_setPrev none hc hpostSeg
      refine ⟨{ d with heap, head := some c }, ?_, hseg, rfl, htail, rfl, rfl, hmem⟩
      rw [Dll.unlink, load_of_lookup hlook]
      simp only [bind, Except.bind, lastOr_nil, firstOr_cons]
      rw [hstore]
      rfl
  · rw [List.concat_eq_append] at hpreSeg hhead htail hnodup hlook ⊢
    rw [lastOr_concat] at hlook
    have hb : b ∉ pre.map Prod.fst ∧ b ∉ ((a, x) :: post).map Prod.fst := by
      rw [List.append_assoc] at hnodup
      exact not_mem_parts hnodup
    have hb' : b ∉ post.map Prod.fst := fun hmem => hb.2 (List.mem_cons_of_mem a hmem)
    cases post with
    | nil =>
      obtain ⟨heap, hstore, hseg, -, hmem⟩ := seg_setNext none hb.1 hpreSeg
      refine ⟨{ d with heap, tail := some b }, ?_, ?_, ?_, ?_, rfl, rfl, hmem⟩
      · rw [Dll.unlink, load_of_lookup hlook]
        simp only [bind, Except.bind, firstOr_nil]
        rw [hstore]
        rfl
      · rw [List.append_nil]
        exact hseg
      · rw [List.append_nil]
        refine hhead.trans ?_
        rw [firstOr_append, firstOr_append]
        rfl
      · rw [List.append_nil, lastOr_concat]
    | cons z post =>
      obtain ⟨c, z⟩ := z
      have hc : c ∉ (pre ++ [(b, y)] ++ [(a, x)]).map Prod.fst ∧ c ∉ post.map Prod.fst := by
        apply not_mem_parts (x := z)
        rw [List.append_assoc (pre ++ [(b, y)])]
        exact hnodup
      obtain ⟨heap, hstore, hseg, hsame, hmem⟩ := seg_setNext (some c) hb.1 hpreSeg
      have hpost : Seg heap (some a) ((c, z) :: post) none := by
        refine seg_congr (fun e he => hsame e ?_) hpostSeg
        rintro rfl
        exact hb' he
      obtain ⟨heap', hstore', hseg', hsame', hmem'⟩ := seg_setPrev (some b) hc.2 hpost
      refine ⟨{ d with heap := heap' }, ?_, ?_, ?_, ?_, rfl, rfl, ?_⟩
      · rw [Dll.unlink, load_of_lookup hlook]
        simp only [bind, Except.bind, firstOr_cons]
        rw [hstore]
        simp only
        rw [hstore']
        rfl
      · rw [seg_append, lastOr_concat]
        refine ⟨seg_congr (fun e he => hsame' e ?_) hseg, hseg'⟩
        rintro rfl
        refine hc.1 ?_
        rw [List.map_append]
        exact List.mem_append_left _ he
      · refine hhead.trans ?_
        rw [firstOr_append, firstOr_append, firstOr_append]
        rfl
      · refine htail.trans ?_
        rw [lastOr_append, lastOr_append]
        rfl
      · exact fun e => (hmem' e).trans (hmem e)

/-- The walk over the whole list finds the first of the nodes with the least stamp. -/
theorem Holds.oldest (stamp : α → Int) {first : Addr} {y : α} (hd : Holds d ((first, y) :: l)) :
    ∃ pre a x post, Dll.oldest d.heap stamp d.rounds (some first) first = .ok a ∧
      (first, y) :: l = pre ++ (a, x) :: post ∧
      (∀ z ∈ pre, stamp x < stamp z.2) ∧ ∀ z ∈ post, stamp x ≤ stamp z.2 := by
  have hlen := hd.length_le
  rw [List.length_cons] at hlen
  obtain ⟨n, hn⟩ : ∃ n, d.rounds = n + 1 := ⟨d.rounds - 1, by omega⟩
  have hle : l.length ≤ n := by omega
  have hnil : ∀ z ∈ ([] : List (Addr × α)), stamp y < stamp z.2 := by simp
  have hnil' : ∀ z ∈ ([] : List (Addr × α)), stamp y ≤ stamp z.2 := by simp
  obtain ⟨pre, a, x, post, hold, heq, h1, h2⟩ :=
    oldest_seg stamp hle hd.seg.2 hd.seg.1 rfl hnil hnil'
  refine ⟨pre, a, x, post, ?_, heq, h1, h2⟩
  -- the walk starts by comparing the head with itself
  rw [hn, Dll.oldest, load_of_lookup hd.seg.1]
  simp only [bind, Except.bind, ite_self]
  exact hold

/-- A node that was taken out of the list is freed. -/
theorem Holds.free {d' : Dll α} {pre post : List (Addr × α)} (hd : Holds d (pre ++ (a, x) :: post))
    (hseg : Seg d'.heap none (pre ++ post) none) (hhead : d'.head = firstOr (pre ++ post) none)
    (htail : d'.tail = lastOr (pre ++ post) none) (hsize : d'.size = d.size)
    (hmem : ∀ b, b ∈ d'.heap ↔ b ∈ d.heap) (trace : List Event) :
    Holds { d' with heap := d'.heap.erase a, size := d'.size - 1, trace } (pre ++ post) := by
  have ha := not_mem_parts hd.nodup
  have hkeys : a ∉ (pre ++ post).map Prod.fst := by
    rw [List.map_append, List.mem_append, not_or]
    exact ha
  refine ⟨seg_erase hkeys hseg, ?_, hhead, htail, ?_, fun b => ?_⟩
  · have hsub : (pre ++ post).Sublist (pre ++ (a, x) :: post) :=
      List.Sublist.append_left (List.sublist_cons_self (a, x) post) pre
    exact hd.nodup.sublist (hsub.map Prod.fst)
  · show d'.size - 1 = _
    rw [hsize, hd.size]
    simp only [List.length_append, List.length_cons]
    omega
  · rw [show b ∈ d'.heap.erase a ↔ _ from AList.mem_erase, hmem, hd.mem]
    simp only [List.map_append, List.map_cons, List.mem_append, List.mem_cons]
    constructor
    · rintro ⟨hba, hb⟩
      exact hb.imp_right fun hb => hb.resolve_left hba
    · intro hb
      refine ⟨?_, hb.imp_right Or.inr⟩
      rintro rfl
      exact hb.elim ha.1 ha.2

theorem Holds.evict (stamp : α → Int) (hd : Holds d l) (hne : l ≠ []) :
    ∃ pre a x post d', l = pre ++ (a, x) :: post ∧ Dll.evict stamp d = .ok d' ∧
      Holds d' (pre ++ post) ∧ d'.trace = .evicted a :: d.trace ∧
      (∀ z ∈ pre, stamp x < stamp z.2) ∧ ∀ z ∈ post, stamp x ≤ stamp z.2 := by
  cases l with
  | nil => exact absurd rfl hne
  | cons z l =>
    obtain ⟨first, y⟩ := z
    have hfirst : d.head = some first := hd.head
    obtain ⟨pre, a, x, post, hwalk, heq, h1, h2⟩ := hd.oldest stamp
    rw [heq] at hd ⊢
    obtain ⟨d', hunlink, hseg, hhead, htail, hsize, htrace, hmem⟩ := hd.unlink
    refine ⟨pre, a, x, post, _, rfl, ?_, hd.free hseg hhead htail hsize hmem _, rfl, h1, h2⟩
    rw [Dll.evict, hfirst]
    simp only [bind, Except.bind]
    rw [hwalk]
    simp only
    rw [hunlink, ← htrace]
    rfl

theorem Holds.append (hd : Holds d l) (ha : a ∉ l.map Prod.fst) (x : α) :
    ∃ d', Dll.append a x d = .ok d' ∧ Holds d' (l ++ [(a, x)]) ∧
      d'.trace = .inserted a :: d.trace := by
  have hnodup : ((l ++ [(a, x)]).map Prod.fst).Nodup := by
    rw [List.map_append]
    refine List.nodup_append.mpr ⟨hd.nodup, List.nodup_singleton a, ?_⟩
    intro b hb c hc
    rw [List.mem_singleton.mp hc]
    rintro rfl
    exact ha hb
  have hsize : d.size + 1 = ((l ++ [(a, x)]).length : Int) := by
    rw [hd.size]
    simp
  rcases List.eq_nil_or_concat l with rfl | ⟨l, ⟨b, y⟩, rfl⟩
  · have htail : d.tail = none := hd.tail
    have hhead : d.head = none := hd.head
    refine ⟨_, by rw [Dll.append, htail]; rfl, ⟨⟨?_, trivial⟩, hnodup, ?_, rfl, hsize, ?_⟩, rfl⟩
    · exact AList.lookup_insert d.heap
    · show (if d.head = none then some a else d.head) = _
      rw [if_pos hhead]
      rfl
    · intro c
      rw [show c ∈ d.heap.insert a _ ↔ _ from AList.mem_insert d.heap, hd.mem]
      simp
  · rw [List.concat_eq_append] at hd ha hnodup hsize ⊢
    have htail : d.tail = some b := hd.tail.trans lastOr_concat
    have hb : b ∉ l.map Prod.fst := (not_mem_parts hd.nodup).1
    obtain ⟨heap, hstore, hseg, -, hmem⟩ := seg_setNext (some a) hb hd.seg
    have hrun : Dll.append a x d = .ok { d with
        heap := heap.insert a { data := x, prev := d.tail, next := none }
        head := if d.head = none then some a else d.head
        tail := some a
        size := d.size + 1
        trace := .inserted a :: d.trace } := by
      rw [Dll.append, htail]
      simp only [bind, Except.bind]
      rw [hstore]
      rfl
    refine ⟨_, hrun, ⟨seg_append.mpr ⟨?_, ?_, trivial⟩, hnodup, ?_, ?_, hsize, ?_⟩, rfl⟩
    · exact seg_insert ha hseg
    · rw [lastOr_concat, ← htail]
      exact AList.lookup_insert heap
    · show (if d.head = none then some a else d.head) = _
      rw [hd.head, firstOr_append, firstOr_append, firstOr_append]
      cases l <;> rfl
    · rw [lastOr_concat]
    · intro c
      rw [show c ∈ heap.insert a _ ↔ _ from AList.mem_insert heap, hmem, hd.mem]
      simp only [List.map_append, List.mem_append, List.map_singleton, List.mem_singleton]
      exact or_comm

/-- An insertion, with an allocator that does not hand out a node in use. -/
theorem Holds.insert {cap : Nat} (hcap : 0 < cap) (stamp : α → Int) {malloc : List Addr → Addr}
    (hmalloc : ∀ used, malloc used ∉ used) (hd : Holds d l) (hl : l.length ≤ cap) (x : α) :
    (l.length < cap ∧ ∃ a d', a ∉ l.map Prod.fst ∧ Dll.insert cap stamp malloc x d = .ok d' ∧
        Holds d' (l ++ [(a, x)]) ∧ d'.trace = .inserted a :: d.trace) ∨
      l.length = cap ∧ ∃ pre e y post a d', l = pre ++ (e, y) :: post ∧
        a ∉ (pre ++ post).map Prod.fst ∧ Dll.insert cap stamp malloc x d = .ok d' ∧
        Holds d' (pre ++ post ++ [(a, x)]) ∧
        d'.trace = .inserted a :: .evicted e :: d.trace ∧
        (∀ z ∈ pre, stamp y < stamp z.2) ∧ ∀ z ∈ post, stamp y ≤ stamp z.2 := by
  have hfresh {d : Dll α} {l : List (Addr × α)} (hd : Holds d l) :
      malloc d.heap.keys ∉ l.map Prod.fst := by
    intro hmem
    exact hmalloc d.heap.keys (AList.mem_keys.mp ((hd.mem _).mpr hmem))
  rcases Nat.lt_or_eq_of_le hl with hlt | hfull
  · have hnot : ¬ (cap : Int) ≤ d.size := by
      rw [hd.size]
      omega
    obtain ⟨d', hrun, hd', htrace⟩ := hd.append (hfresh hd) x
    refine Or.inl ⟨hlt, _, d', hfresh hd, ?_, hd', htrace⟩
    rw [Dll.insert, if_neg hnot]
    exact hrun
  · have hle : (cap : Int) ≤ d.size := by
      rw [hd.size]
      omega
    have hne : l ≠ [] := by
      rintro rfl
      rw [List.length_nil] at hfull
      omega
    obtain ⟨pre, e, y, post, d₁, rfl, hevict, hd₁, htrace₁, h1, h2⟩ := hd.evict stamp hne
    obtain ⟨d', hrun, hd', htrace⟩ := hd₁.append (hfresh hd₁) x
    refine Or.inr ⟨hfull, pre, e, y, post, _, d', rfl, hfresh hd₁, ?_, hd', ?_, h1, h2⟩
    · rw [Dll.insert, if_pos hle, hevict]
      exact hrun
    · rw [htrace, htrace₁]

theorem freeAll_seg {n : Nat} (hn : l.length ≤ n) (hnodup : (l.map Prod.fst).Nodup)
    (hl : Seg heap prev l none) :
    ∃ heap', freeAll heap n (firstOr l none) = .ok heap' ∧
      ∀ b, b ∈ heap' ↔ b ∈ heap ∧ b ∉ l.map Prod.fst := by
  induction l generalizing n heap prev with
  | nil =>
    refine ⟨heap, ?_, by simp⟩
    cases n <;> rfl
  | cons y l ih =>
    obtain ⟨a, x⟩ := y
    obtain ⟨ha, hrest⟩ := List.nodup_cons.mp hnodup
    cases n with
    | zero => simp at hn
    | succ n =>
      obtain ⟨heap', hrun, hmem⟩ := ih (by simpa using hn) hrest (seg_erase ha hl.2)
      refine ⟨heap', ?_, fun b => ?_⟩
      · rw [firstOr_cons, freeAll, load_of_lookup hl.1]
        exact hrun
      · rw [hmem, AList.mem_erase]
        simp only [List.map_cons, List.mem_cons, not_or]
        exact ⟨fun ⟨⟨h1, h2⟩, h3⟩ => ⟨h2, h1, h3⟩, fun ⟨h2, h1, h3⟩ => ⟨⟨h1, h2⟩, h3⟩⟩

theorem Holds.destroy (hd : Holds d l) :
    ∃ d', Dll.destroy d = .ok d' ∧ Holds d' [] ∧ d'.trace = .cleared :: d.trace := by
  obtain ⟨heap, hfree, hmem⟩ := freeAll_seg hd.length_le hd.nodup hd.seg
  rw [← hd.head] at hfree
  refine ⟨{ heap, head := none, tail := none, size := 0, trace := .cleared :: d.trace }, ?_,
    ⟨trivial, List.nodup_nil, rfl, rfl, rfl, fun b => ?_⟩, rfl⟩
  · rw [Dll.destroy, hfree]
    rfl
  · rw [hmem, hd.mem]
    simp

/-! ## Well-formed lists -/

/-- The list can be walked from the head to the tail, back and forth, and its nodes are
counted; no node is allocated beside it. -/
structure WellFormed (cap : Nat) (d : Dll α) : Prop where
  visits : ∃ l, d.contents = .ok l ∧ (l.map Prod.fst).Nodup ∧
    d.head = (l.map Prod.fst).head? ∧ d.tail = (l.map Prod.fst).getLast? ∧
    d.size = l.length ∧ l.length ≤ cap ∧ ∀ a, a ∈ d.heap ↔ a ∈ l.map Prod.fst
  links : ∀ a b, (∃ node, d.heap.lookup a = some node ∧ node.next = some b) ↔
    ∃ node, d.heap.lookup b = some node ∧ node.prev = some a
  ends : d.head = none ↔ d.tail = none

theorem firstOr_eq_head? : firstOr l none = (l.map Prod.fst).head? := by
  cases l <;> rfl

theorem lastOr_eq_getLast? : lastOr l none = (l.map Prod.fst).getLast? := by
  rcases List.eq_nil_or_concat l with rfl | ⟨l, ⟨a, x⟩, rfl⟩
  · rfl
  · rw [List.concat_eq_append, lastOr_concat]
    simp

/-- The node at a place of the list. -/
theorem Holds.lookup {pre post : List (Addr × α)} (hd : Holds d (pre ++ (a, x) :: post)) :
    d.heap.lookup a = some { data := x, prev := lastOr pre none, next := firstOr post none } :=
  (seg_append.mp hd.seg).2.1

theorem Holds.split (hd : Holds d l) {node : Node α} (ha : d.heap.lookup a = some node) :
    ∃ pre x post, l = pre ++ (a, x) :: post := by
  have hmem : a ∈ d.heap := by
    rw [← AList.lookup_isSome, ha]
    rfl
  obtain ⟨⟨b, x⟩, hb, rfl⟩ := List.mem_map.mp ((hd.mem a).mp hmem)
  obtain ⟨pre, post, hl⟩ := List.append_of_mem hb
  exact ⟨pre, x, post, hl⟩

theorem Holds.next_iff_prev (hd : Holds d l) (a b : Addr) :
    (∃ node, d.heap.lookup a = some node ∧ node.next = some b) ↔
      ∃ node, d.heap.lookup b = some node ∧ node.prev = some a := by
  constructor
  · rintro ⟨node, ha, hnext⟩
    obtain ⟨pre, x, post, rfl⟩ := hd.split ha
    cases hd.lookup.symm.trans ha
    cases post with
    | nil => cases hnext
    | cons z post =>
      obtain ⟨c, z⟩ := z
      cases hnext
      have hd' : Holds d ((pre ++ [(a, x)]) ++ (b, z) :: post) := by simpa using hd
      exact ⟨_, hd'.lookup, lastOr_concat⟩
  · rintro ⟨node, hb, hprev⟩
    obtain ⟨pre, x, post, rfl⟩ := hd.split hb
    cases hd.lookup.symm.trans hb
    rcases List.eq_nil_or_concat pre with rfl | ⟨pre, ⟨c, z⟩, rfl⟩
    · cases hprev
    · rw [List.concat_eq_append] at hprev hd
      cases lastOr_concat.symm.trans hprev
      have hd' : Holds d (pre ++ (a, z) :: (b, x) :: post) := by simpa using hd
      exact ⟨_, hd'.lookup, rfl⟩

theorem Holds.wellFormed {cap : Nat} (hd : Holds d l) (hl : l.length ≤ cap) : WellFormed cap d := by
  have hhead := hd.head
  have htail := hd.tail
  rw [firstOr_eq_head?] at hhead
  rw [lastOr_eq_getLast?] at htail
  refine ⟨⟨l, hd.contents, hd.nodup, hhead, htail, hd.size, hl, hd.mem⟩, hd.next_iff_prev, ?_⟩
  rw [hhead, htail, List.head?_eq_none_iff, List.getLast?_eq_none_iff]

/-! ## Effects -/

/-- What one operation at the time `now` may do to a list of nodes, with the events it
records; `rest` is what stands behind the node it uses. -/
inductive Change (cap : Nat) (stamp : α → Int) (now : Int) (rest : List α) :
    List (Addr × α) → List Event → List (Addr × α) → Prop
  | same (l : List (Addr × α)) : Change cap stamp now rest l [] l
  | touch (pre : List (Addr × α)) (a : Addr) (x y : α) (post : List (Addr × α)) :
    stamp y = now → post.map Prod.snd = rest →
    Change cap stamp now rest (pre ++ (a, x) :: post) [.used a] (pre ++ (a, y) :: post)
  | add (l : List (Addr × α)) (a : Addr) (x : α) :
    l.length < cap → a ∉ l.map Prod.fst → stamp x = now →
    Change cap stamp now rest l [.inserted a] (l ++ [(a, x)])
  /-- one node leaves, the first with the smallest stamp -/
  | replace (pre : List (Addr × α)) (e : Addr) (y : α) (post : List (Addr × α)) (a : Addr) (x : α) :
    (pre ++ (e, y) :: post).length = cap →
    (∀ z ∈ pre, stamp y < stamp z.2) → (∀ z ∈ post, stamp y ≤ stamp z.2) →
    a ∉ (pre ++ post).map Prod.fst → stamp x = now →
    Change cap stamp now rest (pre ++ (e, y) :: post) [.inserted a, .evicted e]
      (pre ++ post ++ [(a, x)])
  | clear (l : List (Addr × α)) : Change cap stamp now rest l [.cleared] []

/-- What stands behind the first entry that satisfies `q`. -/
def behind (q : α → Bool) : List α → List α
  | [] => []
  | x :: l => if q x then l else behind q l

theorem behind_append {q : α → Bool} {pre post : List α} {x : α} (hpre : ∀ y ∈ pre, q y = false)
    (hx : q x = true) : behind q (pre ++ x :: post) = post := by
  induction pre with
  | nil => exact if_pos hx
  | cons y pre ih =>
    rw [List.cons_append, behind, hpre y List.mem_cons_self]
    exact ih fun z hz => hpre z (List.mem_cons_of_mem y hz)

/-! ## Comparison with a bounded list -/

/-- The structure holds the nodes of `l`, whose data are the entries of the cache `c`. -/
structure Agrees {cap : Nat} (d : Dll α) (l : List (Addr × α)) (c : Lru α cap) : Prop where
  holds : Holds d l
  entries : l.map Prod.snd = c.entries

variable {cap : Nat} {c : Lru α cap}

theorem Agrees.length_le (hd : Agrees d l c) : l.length ≤ cap := by
  have := c.size_le
  rwa [← hd.entries, List.length_map] at this

theorem Agrees.wellFormed (hd : Agrees d l c) : WellFormed cap d := hd.holds.wellFormed hd.length_le

theorem agrees_nil : Agrees (nil : Dll α) [] (.empty : Lru α cap) := ⟨holds_nil, rfl⟩

/-- A search on both sides. -/
theorem Agrees.touch (hd : Agrees d l c) (q : α → Bool) (f : α → α) (stamp : α → Int) {now : Int}
    (hf : ∀ x, stamp (f x) = now) :
    ((∀ x ∈ c.entries, q x = false) ∧ d.touch q f = .ok none ∧ c.update q f = none) ∨
      ∃ e d' c' l' a, (∃ x ∈ c.entries, q x = true) ∧ d.touch q f = .ok (some (e, d')) ∧
        c.update q f = some (e, c') ∧ Agrees d' l' c' ∧
        Change cap stamp now (behind q c.entries) l [.used a] l' ∧
        d'.trace = .used a :: d.trace := by
  rcases hd.holds.touch q f with ⟨hnone, hrun⟩ | ⟨pre, a, x, post, d', rfl, hpre, hx, hrun, hd', htrace⟩
  · have hnone' : ∀ x ∈ c.entries, q x = false := by
      rw [← hd.entries]
      intro x hx
      obtain ⟨y, hy, rfl⟩ := List.mem_map.mp hx
      exact hnone y hy
    exact Or.inl ⟨hnone', hrun, Lru.update_eq_none.mpr hnone'⟩
  · have hent : c.entries = pre.map Prod.snd ++ x :: post.map Prod.snd := by
      rw [← hd.entries]
      simp
    have hpre' : ∀ y ∈ pre.map Prod.snd, q y = false := by
      intro y hy
      obtain ⟨z, hz, rfl⟩ := List.mem_map.mp hy
      exact hpre z hz
    obtain ⟨c', hupd, hent'⟩ := Lru.update_of_split (f := f) hent hpre' hx
    refine Or.inr ⟨f x, d', c', _, a, ⟨x, by simp [hent], hx⟩, hrun, hupd, ⟨hd', ?_⟩, ?_, htrace⟩
    · rw [hent']
      simp
    · refine .touch pre a x (f x) post (hf x) ?_
      rw [hent, behind_append hpre' hx]

/-- An insertion on both sides. -/
theorem Agrees.insert (hd : Agrees d l c) (hcap : 0 < cap) (stamp : α → Int) {now : Int}
    {malloc : List Addr → Addr} (hmalloc : ∀ used, malloc used ∉ used) {x : α}
    (hx : stamp x = now) (rest : List α) :
    ∃ d' l' events, Dll.insert cap stamp malloc x d = .ok d' ∧
      Agrees d' l' (c.insert stamp hcap x) ∧ Change cap stamp now rest l events l' ∧
      d'.trace = events ++ d.trace ∧ ∃ a, .inserted a ∈ events := by
  have hlen : c.entries.length = l.length := by rw [← hd.entries, List.length_map]
  rcases hd.holds.insert hcap stamp hmalloc hd.length_le x with
    ⟨hlt, a, d', ha, hrun, hd', htrace⟩ |
      ⟨hfull, pre, e, y, post, a, d', rfl, ha, hrun, hd', htrace, h1, h2⟩
  · refine ⟨d', _, _, hrun, ⟨hd', ?_⟩, .add l a x hlt ha hx, htrace, a, by simp⟩
    rw [Lru.insert_of_lt (hlen ▸ hlt), ← hd.entries]
    simp
  · refine ⟨d', _, _, hrun, ⟨hd', ?_⟩, .replace pre e y post a x hfull h1 h2 ha hx, htrace, a,
      by simp⟩
    have hent : c.entries = pre.map Prod.snd ++ y :: post.map Prod.snd := by
      rw [← hd.entries]
      simp
    have hpre : ∀ z ∈ pre.map Prod.snd, stamp y < stamp z := by
      intro z hz
      obtain ⟨w, hw, rfl⟩ := List.mem_map.mp hz
      exact h1 w hw
    have hpost : ∀ z ∈ post.map Prod.snd, stamp y ≤ stamp z := by
      intro z hz
      obtain ⟨w, hw, rfl⟩ := List.mem_map.mp hz
      exact h2 w hw
    rw [Lru.insert_of_full (hlen.trans hfull), hent, Lru.evict_of_split hpre hpost]
    simp

theorem Agrees.destroy (hd : Agrees d l c) :
    ∃ d', Dll.destroy d = .ok d' ∧ Agrees d' [] (.empty : Lru α cap) ∧
      d'.trace = .cleared :: d.trace := by
  obtain ⟨d', hrun, hd', htrace⟩ := hd.holds.destroy
  exact ⟨d', hrun, ⟨hd', rfl⟩, htrace⟩

end Dll
