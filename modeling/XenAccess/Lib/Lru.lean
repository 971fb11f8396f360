import Mathlib.Data.List.Basic

/-!
# Bounded least-recently-used lists

A cache of at most `cap` entries kept in insertion order. An entry is found by a linear
search from the head and changed in place (`updateFirst`); a new entry goes to the tail,
after the entry with the smallest stamp, the first of them in the list, has been removed
from a full list (`insert`).

The bound is a field of the type, so no operation can leave an overfull list. What a
client needs to keep an invariant about all entries is `forall_updateFirst` and
`forall_insert`: after an operation every entry is an old one or the one entry that was
written.
-/

namespace Lru

variable {α : Type}

/-! ## Searching and changing one entry -/

/-- Change the first entry that satisfies `p` by `f`; the result is that entry, changed, and
the list with it in place. -/
def updateFirst (p : α → Bool) (f : α → α) : List α → Option (α × List α)
  | [] => none
  | a :: as =>
    if p a then some (f a, f a :: as)
    else (updateFirst p f as).map fun r => (r.1, a :: r.2)

theorem updateFirst_some {p : α → Bool} {f : α → α} {l l' : List α} {b : α}
    (h : updateFirst p f l = some (b, l')) :
    ∃ pre a post, l = pre ++ a :: post ∧ (∀ x ∈ pre, p x = false) ∧ p a = true ∧ b = f a ∧
      l' = pre ++ f a :: post := by
  induction l generalizing b l' with
  | nil => simp [updateFirst] at h
  | cons x xs ih =>
    rw [updateFirst] at h
    split at h
    · rename_i hx
      simp only [Option.some.injEq, Prod.mk.injEq] at h
      exact ⟨[], x, xs, rfl, by simp, hx, h.1.symm, h.2.symm⟩
    · rename_i hx
      obtain ⟨⟨c, m⟩, hm, heq⟩ := Option.map_eq_some_iff.mp h
      simp only [Prod.mk.injEq] at heq
      obtain ⟨rfl, rfl⟩ := heq
      obtain ⟨pre, a, post, rfl, hpre, ha, hb, rfl⟩ := ih hm
      refine ⟨x :: pre, a, post, rfl, ?_, ha, hb, rfl⟩
      intro y hy
      rcases List.mem_cons.mp hy with rfl | hy
      · simpa using hx
      · exact hpre y hy

theorem updateFirst_none {p : α → Bool} {f : α → α} {l : List α} :
    updateFirst p f l = none ↔ ∀ x ∈ l, p x = false := by
  induction l with
  | nil => simp [updateFirst]
  | cons x xs ih =>
    rw [updateFirst]
    by_cases hx : p x = true
    · simp [hx]
    · simp [hx, ih]

theorem updateFirst_length {p : α → Bool} {f : α → α} {l l' : List α} {b : α}
    (h : updateFirst p f l = some (b, l')) : l'.length = l.length := by
  obtain ⟨pre, a, post, rfl, -, -, -, rfl⟩ := updateFirst_some h
  simp

/-- Every entry after an update in place is an old entry or the updated one. -/
theorem forall_updateFirst {p : α → Bool} {f : α → α} {l l' : List α} {b : α} {P : α → Prop}
    (h : updateFirst p f l = some (b, l')) (hl : ∀ x ∈ l, P x)
    (hf : ∀ x ∈ l, p x = true → P (f x)) : ∀ x ∈ l', P x := by
  obtain ⟨pre, a, post, rfl, -, ha, -, rfl⟩ := updateFirst_some h
  intro x hx
  rcases List.mem_append.mp hx with hx | hx
  · exact hl x (List.mem_append_left _ hx)
  · rcases List.mem_cons.mp hx with rfl | hx
    · exact hf a (by simp) ha
    · exact hl x (by simp [hx])

/-! ## Eviction -/

/-- Position of the first entry with the smallest stamp: `a` at position `i` is the smallest
so far, the list starts at position `j`. -/
def oldestIdx (stamp : α → Int) : α → Nat → List α → Nat → Nat
  | _, i, [], _ => i
  | a, i, b :: bs, j =>
    if stamp b < stamp a then oldestIdx stamp b j bs (j + 1)
    else oldestIdx stamp a i bs (j + 1)

/-- The list without its oldest entry. -/
def evict (stamp : α → Int) : List α → List α
  | [] => []
  | a :: as => (a :: as).eraseIdx (oldestIdx stamp a 0 as 1)

theorem oldestIdx_lt (stamp : α → Int) (a : α) (i : Nat) (l : List α) (j : Nat) (hij : i < j) :
    oldestIdx stamp a i l j < j + l.length := by
  induction l generalizing a i j with
  | nil => simpa [oldestIdx] using hij
  | cons b bs ih =>
    rw [oldestIdx, List.length_cons]
    split
    · have := ih b j (j + 1) (by omega)
      omega
    · have := ih a i (j + 1) (by omega)
      omega

theorem evict_length (stamp : α → Int) (l : List α) : (evict stamp l).length = l.length - 1 := by
  cases l with
  | nil => rfl
  | cons a as =>
    have hlt := oldestIdx_lt stamp a 0 as 1 (by omega)
    rw [evict, List.length_eraseIdx, if_pos (by rw [List.length_cons]; omega)]

theorem mem_of_mem_evict {stamp : α → Int} {l : List α} {x : α} (h : x ∈ evict stamp l) :
    x ∈ l := by
  cases l with
  | nil => exact h
  | cons a as => exact List.mem_of_mem_eraseIdx h

/-- The scan for the oldest entry: of the entries passed so far, those before the candidate
`a` are younger and those behind it are not older. -/
theorem oldestIdx_split (stamp : α → Int) (l : List α) :
    ∀ (a : α) (pre mid : List α), (∀ x ∈ pre, stamp a < stamp x) →
      (∀ x ∈ mid, stamp a ≤ stamp x) →
      ∃ pre' e post, pre ++ a :: mid ++ l = pre' ++ e :: post ∧
        pre'.length = oldestIdx stamp a pre.length l (pre ++ a :: mid).length ∧
        (∀ x ∈ pre', stamp e < stamp x) ∧ ∀ x ∈ post, stamp e ≤ stamp x := by
  induction l with
  | nil =>
    intro a pre mid hpre hmid
    exact ⟨pre, a, mid, by simp, rfl, hpre, hmid⟩
  | cons b bs ih =>
    intro a pre mid hpre hmid
    have hlen : (pre ++ a :: mid ++ [b]).length = (pre ++ a :: mid).length + 1 := by
      rw [List.length_append, List.length_singleton]
    rw [oldestIdx]
    split
    · rename_i hlt
      have hpre' : ∀ x ∈ pre ++ a :: mid, stamp b < stamp x := by
        intro x hx
        rcases List.mem_append.mp hx with hx | hx
        · have := hpre x hx
          omega
        · rcases List.mem_cons.mp hx with rfl | hx
          · exact hlt
          · have := hmid x hx
            omega
      obtain ⟨pre', e, post, heq, hidx, hy, ho⟩ := ih b (pre ++ a :: mid) [] hpre' (by simp)
      refine ⟨pre', e, post, ?_, ?_, hy, ho⟩
      · rw [← heq]
        simp
      · rw [hidx, hlen]
    · rename_i hge
      have hmid' : ∀ x ∈ mid ++ [b], stamp a ≤ stamp x := by
        intro x hx
        rcases List.mem_append.mp hx with hx | hx
        · exact hmid x hx
        · rw [List.mem_singleton.mp hx]
          omega
      obtain ⟨pre', e, post, heq, hidx, hy, ho⟩ := ih a pre (mid ++ [b]) hpre hmid'
      refine ⟨pre', e, post, ?_, ?_, hy, ho⟩
      · rw [← heq]
        simp
      · rw [hidx, ← hlen]
        simp

/-- The entry that leaves is the first one with the smallest stamp, and the others stay as
they are. -/
theorem evict_split (stamp : α → Int) {l : List α} (hl : l ≠ []) :
    ∃ pre e post, l = pre ++ e :: post ∧ evict stamp l = pre ++ post ∧
      (∀ x ∈ pre, stamp e < stamp x) ∧ ∀ x ∈ post, stamp e ≤ stamp x := by
  cases l with
  | nil => exact absurd rfl hl
  | cons a as =>
    obtain ⟨pre, e, post, heq, hidx, hy, ho⟩ := oldestIdx_split stamp as a [] [] (by simp) (by simp)
    refine ⟨pre, e, post, heq, ?_, hy, ho⟩
    have hzero : ([] ++ a :: [] : List α).length = 1 := rfl
    rw [hzero] at hidx
    rw [evict, ← List.length_nil (α := α), ← hidx]
    rw [show a :: as = pre ++ e :: post from heq]
    simp [List.eraseIdx_append_of_length_le]

/-- There is only one such entry. -/
theorem evict_of_split {stamp : α → Int} {pre post : List α} {e : α}
    (hpre : ∀ x ∈ pre, stamp e < stamp x) (hpost : ∀ x ∈ post, stamp e ≤ stamp x) :
    evict stamp (pre ++ e :: post) = pre ++ post := by
  obtain ⟨pre', e', post', heq, hevict, hpre', hpost'⟩ :=
    evict_split stamp (show pre ++ e :: post ≠ [] by simp)
  rw [hevict]
  rcases List.append_eq_append_iff.mp heq with ⟨c, hc, htail⟩ | ⟨c, hc, htail⟩
  · cases c with
    | nil =>
      obtain ⟨-, rfl⟩ := List.cons.inj htail
      rw [hc, List.append_nil]
    | cons y c =>
      -- `e` would stand before `e'`, and `e'` behind `e`
      obtain ⟨rfl, rfl⟩ := List.cons.inj htail
      have h1 := hpre' e (by simp [hc])
      have h2 := hpost e' (by simp)
      omega
  · cases c with
    | nil =>
      obtain ⟨-, rfl⟩ := List.cons.inj htail
      rw [hc, List.append_nil]
    | cons y c =>
      obtain ⟨rfl, rfl⟩ := List.cons.inj htail
      have h1 := hpre e' (by simp [hc])
      have h2 := hpost' e (by simp)
      omega

end Lru

/-! ## The bounded list -/

/-- A list of at most `cap` entries. -/
structure Lru (α : Type) (cap : Nat) where
  entries : List α
  size_le : entries.length ≤ cap

namespace Lru

variable {α : Type} {cap : Nat}

/-- The empty cache. -/
def empty : Lru α cap := ⟨[], Nat.zero_le cap⟩

/-- `updateFirst` on a bounded list. -/
def update (p : α → Bool) (f : α → α) (c : Lru α cap) : Option (α × Lru α cap) :=
  match h : updateFirst p f c.entries with
  | none => none
  | some (b, l) => some (b, ⟨l, (updateFirst_length h).symm ▸ c.size_le⟩)

/-- Append an entry, after the oldest one has left a full list. -/
def insert (stamp : α → Int) (hcap : 0 < cap) (c : Lru α cap) (a : α) : Lru α cap :=
  if h : cap ≤ c.entries.length then
    ⟨evict stamp c.entries ++ [a], by
      have := c.size_le
      simp only [List.length_append, evict_length, List.length_singleton]
      omega⟩
  else ⟨c.entries ++ [a], by simp only [List.length_append, List.length_singleton]; omega⟩

theorem update_eq_none {p : α → Bool} {f : α → α} {c : Lru α cap} :
    c.update p f = none ↔ ∀ x ∈ c.entries, p x = false := by
  rw [← updateFirst_none (f := f), update]
  split <;> simp_all

theorem update_eq_none_iff_any {p : α → Bool} {f : α → α} {c : Lru α cap} :
    c.update p f = none ↔ c.entries.any p = false := by
  rw [update_eq_none, List.any_eq_false]
  simp only [Bool.not_eq_true]

theorem update_eq_some {p : α → Bool} {f : α → α} {c c' : Lru α cap} {b : α}
    (h : c.update p f = some (b, c')) : updateFirst p f c.entries = some (b, c'.entries) := by
  rw [update] at h
  split at h
  · cases h
  · rename_i heq
    cases h
    exact heq

theorem forall_update {p : α → Bool} {f : α → α} {c c' : Lru α cap} {b : α} {P : α → Prop}
    (h : c.update p f = some (b, c')) (hc : ∀ x ∈ c.entries, P x)
    (hf : ∀ x ∈ c.entries, p x = true → P (f x)) : ∀ x ∈ c'.entries, P x :=
  forall_updateFirst (update_eq_some h) hc hf

/-- The same, where the entry written is known to be the first that satisfies `p`. -/
theorem forall_update_first {p : α → Bool} {f : α → α} {c c' : Lru α cap} {b : α} {P : α → Prop}
    (h : c.update p f = some (b, c')) (hc : ∀ x ∈ c.entries, P x)
    (hf : ∀ x ∈ c.entries, c.entries.find? p = some x → P (f x)) : ∀ x ∈ c'.entries, P x := by
  obtain ⟨pre, a, post, hl, hpre, ha, -, hl'⟩ := updateFirst_some (update_eq_some h)
  have hfirst : c.entries.find? p = some a := by
    rw [hl, List.find?_append, List.find?_eq_none.mpr (by simpa using hpre)]
    simp [ha]
  intro x hx
  rw [hl'] at hx
  rcases List.mem_append.mp hx with hx | hx
  · exact hc x (by simp [hl, hx])
  · rcases List.mem_cons.mp hx with rfl | hx
    · exact hf a (by simp [hl]) hfirst
    · exact hc x (by simp [hl, hx])

/-- An update, given the entry it takes. -/
theorem update_of_split {p : α → Bool} {f : α → α} {c : Lru α cap} {pre post : List α} {a : α}
    (hc : c.entries = pre ++ a :: post) (hpre : ∀ x ∈ pre, p x = false) (ha : p a = true) :
    ∃ c', c.update p f = some (f a, c') ∧ c'.entries = pre ++ f a :: post := by
  have hfirst : updateFirst p f c.entries = some (f a, pre ++ f a :: post) := by
    rw [hc]
    clear hc
    induction pre with
    | nil => rw [List.nil_append, updateFirst, if_pos ha, List.nil_append]
    | cons y pre ih =>
      rw [List.cons_append, updateFirst, hpre y List.mem_cons_self,
        ih fun z hz => hpre z (List.mem_cons_of_mem y hz)]
      rfl
  cases hupd : c.update p f with
  | none =>
    have := update_eq_none.mp hupd a (by simp [hc])
    rw [ha] at this
    cases this
  | some r =>
    obtain ⟨b, c'⟩ := r
    obtain ⟨rfl, hl⟩ := Prod.mk.inj (Option.some.inj (hfirst.symm.trans (update_eq_some hupd)))
    exact ⟨c', rfl, hl.symm⟩

/-- An update that takes the head. -/
theorem update_head {p : α → Bool} {f : α → α} {c : Lru α cap} {a : α} {l : List α}
    (hc : c.entries = a :: l) (ha : p a = true) :
    ∃ c', c.update p f = some (f a, c') ∧ c'.entries = f a :: l :=
  by
  have hnil : ∀ x ∈ ([] : List α), p x = false := by simp
  exact update_of_split hc hnil ha

/-- The entry an update returns is a changed entry of the cache. -/
theorem update_found {p : α → Bool} {f : α → α} {c c' : Lru α cap} {b : α}
    (h : c.update p f = some (b, c')) : ∃ a ∈ c.entries, p a = true ∧ b = f a := by
  obtain ⟨pre, a, post, hl, -, ha, hb, -⟩ := updateFirst_some (update_eq_some h)
  exact ⟨a, by simp [hl], ha, hb⟩

/-- An update changes the first entry that satisfies `p`. -/
theorem update_find {p : α → Bool} {f : α → α} {c c' : Lru α cap} {b : α}
    (h : c.update p f = some (b, c')) : ∃ a, c.entries.find? p = some a ∧ b = f a := by
  obtain ⟨pre, a, post, hl, hpre, ha, hb, -⟩ := updateFirst_some (update_eq_some h)
  refine ⟨a, ?_, hb⟩
  rw [hl, List.find?_append, List.find?_eq_none.mpr (by simpa using hpre)]
  simp [ha]

/-- An update takes the entry that a search finds. -/
theorem update_of_find {p : α → Bool} {f : α → α} {c : Lru α cap} {a : α}
    (hfind : c.entries.find? p = some a) : ∃ c', c.update p f = some (f a, c') := by
  obtain ⟨ha, pre, post, hl, hpre⟩ := List.find?_eq_some_iff_append.mp hfind
  obtain ⟨c', hupd, -⟩ := update_of_split hl (by simpa using hpre) ha
  exact ⟨c', hupd⟩

/-- A search that can only find what an update has written finds it. -/
theorem find_of_update {p q : α → Bool} {f : α → α} {c c' : Lru α cap} {b : α}
    (hupd : c.update q f = some (b, c')) (hpq : ∀ x, p x = true → q x = true) (hb : p b = true) :
    c'.entries.find? p = some b := by
  obtain ⟨pre, a, post, -, hpre, -, rfl, hl'⟩ := updateFirst_some (update_eq_some hupd)
  rw [hl', List.find?_append, List.find?_eq_none.mpr fun x hx hp => ?_]
  · simp [hb]
  · have := hpre x hx
    rw [hpq x hp] at this
    cases this

/-- An insertion into a list that is not full. -/
theorem insert_of_lt {stamp : α → Int} {hcap : 0 < cap} {c : Lru α cap} {a : α}
    (hlt : c.entries.length < cap) : (c.insert stamp hcap a).entries = c.entries ++ [a] := by
  rw [insert, dif_neg (by omega)]

/-- An insertion into a full list. -/
theorem insert_of_full {stamp : α → Int} {hcap : 0 < cap} {c : Lru α cap} {a : α}
    (hfull : c.entries.length = cap) :
    (c.insert stamp hcap a).entries = evict stamp c.entries ++ [a] := by
  rw [insert, dif_pos (by omega)]

/-- Every entry after an insertion is an old one or the new one. -/
theorem forall_insert {stamp : α → Int} {hcap : 0 < cap} {c : Lru α cap} {a : α} {P : α → Prop}
    (hc : ∀ x ∈ c.entries, P x) (ha : P a) : ∀ x ∈ (c.insert stamp hcap a).entries, P x := by
  intro x hx
  rw [insert] at hx
  split at hx
  · rcases List.mem_append.mp hx with hx | hx
    · exact hc x (mem_of_mem_evict hx)
    · rw [List.mem_singleton.mp hx]
      exact ha
  · rcases List.mem_append.mp hx with hx | hx
    · exact hc x hx
    · rw [List.mem_singleton.mp hx]
      exact ha

/-- A search finds an entry that was inserted if it finds none of the old ones. -/
theorem find_of_insert {p : α → Bool} {stamp : α → Int} (hcap : 0 < cap) {c : Lru α cap} {a : α}
    (hc : ∀ x ∈ c.entries, p x = false) (ha : p a = true) :
    (c.insert stamp hcap a).entries.find? p = some a := by
  have hnone (l : List α) (hl : ∀ x ∈ l, x ∈ c.entries) : (l ++ [a]).find? p = some a := by
    rw [List.find?_append, List.find?_eq_none.mpr fun x hx => by simp [hc x (hl x hx)]]
    simp [ha]
  rw [insert]
  split
  · exact hnone _ fun x hx => mem_of_mem_evict hx
  · exact hnone _ fun x hx => hx

end Lru
