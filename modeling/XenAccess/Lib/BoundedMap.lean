import Mathlib.Data.List.Basic
import Mathlib.Data.List.Nodup

/-!
# Bounded maps

A map of at most `cap` keys, as the list of its pairs. `Put cap k v m m'` is what a write to
the key `k` may do: change the pair of `k`, add one, or, when `k` is new and the map is full,
add one in place of the pair of some other key. Which pair leaves is not said here.
-/

namespace BoundedMap

variable {κ ν : Type}

/-- The keys of a map. -/
def keys (m : List (κ × ν)) : List κ := m.map Prod.fst

/-- A write of `v` to `k`. -/
inductive Put (cap : Nat) (k : κ) (v : ν) : List (κ × ν) → List (κ × ν) → Prop
  | change (pre post : List (κ × ν)) (w : ν) :
    Put cap k v (pre ++ (k, w) :: post) (pre ++ (k, v) :: post)
  | add (m : List (κ × ν)) : k ∉ keys m → m.length < cap → Put cap k v m (m ++ [(k, v)])
  | evict (pre post : List (κ × ν)) (x : κ × ν) : k ∉ keys (pre ++ x :: post) →
    (pre ++ x :: post).length = cap → Put cap k v (pre ++ x :: post) (pre ++ post ++ [(k, v)])

variable {cap : Nat} {k k' : κ} {v w : ν} {m m' : List (κ × ν)}

theorem mem_keys : k ∈ keys m ↔ ∃ v, (k, v) ∈ m := by
  simp [keys]

/-- With distinct keys, a key has one value. -/
theorem value_unique (hm : (keys m).Nodup) (hv : (k, v) ∈ m) (hw : (k, w) ∈ m) : v = w :=
  congrArg Prod.snd (List.inj_on_of_nodup_map hm hv hw rfl)

namespace Put

theorem nodup (hput : Put cap k v m m') (hm : (keys m).Nodup) : (keys m').Nodup := by
  cases hput with
  | change pre post w => simpa [keys] using hm
  | add m hk _ =>
    rw [keys, List.map_append]
    exact hm.append (List.nodup_singleton k) (by simpa using hk)
  | evict pre post x hk _ =>
    have hsub : (pre ++ post).Sublist (pre ++ x :: post) :=
      List.Sublist.append_left (List.sublist_cons_self x post) pre
    have hkeys := hsub.map Prod.fst
    rw [keys, List.map_append]
    refine (hm.sublist hkeys).append (List.nodup_singleton k) ?_
    rw [List.map_singleton, List.disjoint_singleton]
    exact fun hmem => hk (hkeys.subset hmem)

theorem self (hput : Put cap k v m m') : (k, v) ∈ m' := by
  cases hput <;> simp

/-- The other pairs after a write are old ones. -/
theorem mem_of_ne (hput : Put cap k v m m') (hne : k' ≠ k) (hmem : (k', w) ∈ m') :
    (k', w) ∈ m := by
  cases hput with
  | change pre post w =>
    simp only [List.mem_append, List.mem_cons, Prod.mk.injEq, hne, false_and, false_or] at hmem ⊢
    exact hmem
  | add m _ _ =>
    simp only [List.mem_append, List.mem_singleton, Prod.mk.injEq, hne, false_and, or_false] at hmem
    exact hmem
  | evict pre post x _ _ =>
    simp only [List.mem_append, List.mem_singleton, Prod.mk.injEq, hne, false_and, or_false] at hmem
    simp only [List.mem_append, List.mem_cons]
    exact hmem.imp_right Or.inr

/-- A key that is lost has made room in a full map. -/
theorem lost (hput : Put cap k v m m') (hmem : k' ∈ keys m) (hlost : k' ∉ keys m') :
    ∃ pre post w, m = pre ++ (k', w) :: post ∧ m' = pre ++ post ++ [(k, v)] ∧ m.length = cap := by
  cases hput with
  | change pre post w =>
    refine absurd hmem fun h => hlost ?_
    simpa [keys] using h
  | add m _ _ =>
    refine absurd hmem fun h => hlost ?_
    simp only [keys, List.map_append, List.mem_append] at h ⊢
    exact Or.inl h
  | evict pre post x hk hfull =>
    obtain ⟨a, b⟩ := x
    by_cases hx : k' = a
    · subst hx
      exact ⟨pre, post, b, rfl, rfl, hfull⟩
    · refine absurd hmem fun h => hlost ?_
      simp only [keys, List.map_append, List.map_cons, List.mem_append, List.mem_cons, hx,
        false_or] at h ⊢
      exact Or.inl h

end Put

end BoundedMap
