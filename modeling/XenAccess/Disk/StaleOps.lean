import XenAccess.Disk.Differences

/-!
# The memory of the result table

The result table of `compare_dirs` comes from `malloc`. The names are written into it with their
terminators, so the bytes that were there before are never part of a name. The field `op` is
written for files and directories only: what the events of other entries say is decided by the
memory.
-/

namespace XenAccess.Disk

variable {old new : List DirEntry}

/-! ## Two runs -/

/-- A table of a directory: sorted by distinct names, with at most as many entries as there are
slots. The entries may be of any type. -/
structure DirTable (t : List DirEntry) : Prop where
  sorted : t.Pairwise NameLt
  few : t.length ≤ dirMax
  proper : ∀ e ∈ t, e.Proper

/-- Whatever two result tables hold at first, `compare_dirs` comes back with the same
operations in both. -/
def Determined (old new : List DirEntry) : Prop :=
  ∀ init init' : OpSlots, ∃ ops,
    compareTable init old new = .ok ops ∧ compareTable init' old new = .ok ops

theorem opOf_op_iff {d : DirEntry ⊕ DirEntry} {u u' : U8} (hne : u ≠ u') :
    opOf u d = opOf u' d ↔ (diffEntry d).Typed := by
  constructor
  · intro heq
    have hop := congrArg DirOp.op heq
    by_contra hnot
    obtain ⟨h1, h2⟩ := not_or.mp hnot
    cases d with
    | inl e =>
      have hu (v : U8) : (opOf v (.inl e)).op = v := (if_neg h1).trans (if_neg h2)
      rw [hu, hu] at hop
      exact hne hop
    | inr e =>
      have hu (v : U8) : (opOf v (.inr e)).op = v := (if_neg h1).trans (if_neg h2)
      rw [hu, hu] at hop
      exact hne hop
  · intro ht
    have hop : (opOf u d).op = (opOf u' d).op := (opOf_op ht u).trans (opOf_op ht u').symm
    have hname : (opOf u d).pathElem = (opOf u' d).pathElem := by
      rw [opOf_pathElem, opOf_pathElem]
    show DirOp.mk (opOf u d).op (opOf u d).pathElem = _
    rw [hop, hname]

theorem opsFrom_eq_iff {ds : List (DirEntry ⊕ DirEntry)} {u u' : U8} (hne : u ≠ u') (k : Nat) :
    opsFrom (fun _ => u) k ds = opsFrom (fun _ => u') k ds ↔ ∀ d ∈ ds, (diffEntry d).Typed := by
  induction ds generalizing k with
  | nil => exact iff_of_true rfl fun d hd => nomatch hd
  | cons d ds ih => rw [opsFrom, opsFrom, List.cons.injEq, opOf_op_iff hne, ih, List.forall_mem_cons]

/-- **When the operations depend on the directories only.** -/
theorem determined_iff (old new : List DirEntry) (hold : DirTable old) (hnew : DirTable new) :
    Determined old new ↔ diffCount old new ≤ opMax ∧ TypedDifferences old new := by
  have hproper : ∀ e ∈ old ++ new, e.Proper :=
    List.forall_mem_append.mpr ⟨hold.proper, hnew.proper⟩
  have hfit : ∀ e ∈ old ++ new, e.Fits := fun e he => (hproper e he).2
  rw [Determined, typedDifferences_iff hold.sorted hnew.sorted,
    ← length_differences hold.sorted hnew.sorted]
  constructor
  · intro hall
    obtain ⟨ops, hrun, hrun'⟩ := hall (filledSlots 0) (filledSlots 1)
    rw [compareTable_of_fits hfit] at hrun hrun'
    by_cases hfits : (differences old new).length ≤ opMax
    · rw [if_pos hfits] at hrun hrun'
      have hne : (0 : U8) ≠ 1 := by decide
      exact ⟨hfits, (opsFrom_eq_iff hne 0).mp (Except.ok.inj (hrun.trans hrun'.symm))⟩
    · rw [if_neg hfits] at hrun
      cases hrun
  · rintro ⟨hfits, htyped⟩ init init'
    have hnames : ∀ d ∈ differences old new, 0 ∉ (diffEntry d).pathElem :=
      fun d hd => (hproper _ (diffEntry_mem hd)).1
    refine ⟨(differences old new).map typedOp, ?_, ?_⟩
    · rw [compareTable_of_fits hfit, if_pos hfits, opsFrom_typed htyped hnames]
    · rw [compareTable_of_fits hfit, if_pos hfits, opsFrom_typed htyped hnames]

/-- A directory with a symbolic link in it, and one with a file. -/
def linkTable : List DirEntry := [⟨11, 7, cstr "l"⟩]
def fileTable : List DirEntry := [⟨11, 1, cstr "l"⟩]

theorem dirTable_singleton {e : DirEntry} (he : e.Proper) : DirTable [e] where
  sorted := List.pairwise_singleton _ _
  few := by
    rw [List.length_singleton]
    decide
  proper := fun f hf => List.mem_singleton.mp hf ▸ he

theorem dirTable_nil : DirTable [] where
  sorted := .nil
  few := Nat.zero_le _
  proper := fun _ he => nomatch he

theorem fileTable_determined : Determined [] fileTable :=
  (determined_iff [] fileTable dirTable_nil (dirTable_singleton (by decide))).mpr (by decide)

/-- A new link is reported as a new directory or as a removed file. -/
theorem linkTable_not_determined :
    DirTable linkTable ∧
      compareTable (filledSlots 0) [] linkTable = .ok [⟨opMkdir, cstr "l"⟩] ∧
      compareTable (filledSlots 3) [] linkTable = .ok [⟨opRmfile, cstr "l"⟩] ∧
      ¬ Determined [] linkTable := by
  have hfits : ∀ e ∈ [] ++ linkTable, e.Fits := by decide
  have hrun (b : U8) : compareTable (filledSlots b) [] linkTable = .ok [⟨b, cstr "l"⟩] := by
    rw [compareTable_of_fits hfits]
    simp only [linkTable, differences, Merge.diff]
    rfl
  refine ⟨dirTable_singleton (by decide), hrun 0, hrun 3, fun hall => ?_⟩
  obtain ⟨ops, h0, h3⟩ := hall (filledSlots 0) (filledSlots 3)
  rw [hrun] at h0 h3
  have heq := Except.ok.inj (h0.trans h3.symm)
  revert heq
  decide

end XenAccess.Disk
