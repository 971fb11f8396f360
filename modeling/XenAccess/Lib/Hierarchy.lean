import XenAccess.Lib.Paging

/-!
# Hierarchies of tables

A hierarchy of tables maps an address digit by digit. The walk starts with a table of the highest
level and reads there the entry for the first digit of the address. The entry is absent, or it is a
page and the rest of the address is a displacement in it, or it leads to the table of the next
level, where the walk goes on with the next digit.
-/

namespace Paging

/-- What an entry of a table stands for. -/
inductive Entry where
  | absent
  | page (base : Nat)
  | table (base : Nat)
  deriving DecidableEq

/-- A format of tables with `2 ^ digit` entries of `width` units each, and with pages of
`2 ^ shift` units at level `0`. -/
structure Format (ε : Type) where
  shift : Nat
  digit : Nat
  width : Nat
  decode : Nat → ε → Entry

namespace Format

variable {ε : Type} (F : Format ε) (mem : Nat → Option ε)

/-- The size of a page of a level, as a power of two. -/
def span (level : Nat) : Nat := F.shift + level * F.digit

/-- Where the entry for an address stands in a table. -/
def slot (level base v : Nat) : Nat :=
  base + v / 2 ^ F.span level % 2 ^ F.digit * F.width

/-- What follows from an entry of a table of a level, when `next` is the walk from the next table. -/
def follow (next : Nat → Option (Option (Nat × Nat))) (v level : Nat) :
    Entry → Option (Option (Nat × Nat))
  | .absent => some none
  | .page base => some (some (level, base + v % 2 ^ F.span level))
  | .table base => next base

/-- The walk from a table of a level: the level of the page that the address is on, and where in
memory the address is mapped to. There is no result when a table cannot be read. -/
def walk (v : Nat) : (level base : Nat) → Option (Option (Nat × Nat))
  | 0, base => (mem (F.slot 0 base v)).bind fun entry =>
    F.follow (fun _ => some none) v 0 (F.decode 0 entry)
  | level + 1, base => (mem (F.slot (level + 1) base v)).bind fun entry =>
    F.follow (walk v level) v (level + 1) (F.decode (level + 1) entry)

variable {F mem} {v level base : Nat} {entry : ε}

theorem walk_zero (hread : mem (F.slot 0 base v) = some entry) :
    F.walk mem v 0 base = F.follow (fun _ => some none) v 0 (F.decode 0 entry) := by
  rw [walk, hread, Option.bind_some]

theorem walk_succ (hread : mem (F.slot (level + 1) base v) = some entry) :
    F.walk mem v (level + 1) base =
      F.follow (F.walk mem v level) v (level + 1) (F.decode (level + 1) entry) := by
  rw [walk, hread, Option.bind_some]

/-- A walk with a result has read the first entry. -/
theorem walk_readable {target : Option (Nat × Nat)}
    (hwalk : F.walk mem v level base = some target) :
    ∃ entry, mem (F.slot level base v) = some entry := by
  cases level with
  | zero =>
    obtain ⟨entry, hentry, -⟩ := Option.bind_eq_some_iff.mp hwalk
    exact ⟨entry, hentry⟩
  | succ level =>
    obtain ⟨entry, hentry, -⟩ := Option.bind_eq_some_iff.mp hwalk
    exact ⟨entry, hentry⟩

end Format

end Paging
