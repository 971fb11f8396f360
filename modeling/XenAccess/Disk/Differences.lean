import Mathlib.Data.List.GetD
import Mathlib.Data.List.OfFn
import XenAccess.Lib.Merge
import XenAccess.Disk.Directory

/-!
# Differences of two directories

`compare_dirs` walks along two sorted tables, as `Merge.diff` does along two lists, and writes a
slot of the result for each difference, in its order. It comes back if there are slots enough and
every name fits into its slot (`compareTable_eq`). Only the field `op` of an entry that is neither
a file nor a directory comes from the memory of the result table.
-/

namespace XenAccess.Disk

variable {old new : List DirEntry} {e : DirEntry} {k : Nat} {table : OpSlots}

/-- The entries of the old table only, on the left, and of the new one only, on the right. -/
def differences (dirOld dirNew : List DirEntry) : List (DirEntry ⊕ DirEntry) :=
  Merge.diff strcmpLt DirEntry.pathElem dirOld dirNew

/-- The entry that a difference is about. -/
def diffEntry : DirEntry ⊕ DirEntry → DirEntry := Sum.elim id id

theorem diffEntry_mem {d : DirEntry ⊕ DirEntry} (hd : d ∈ differences old new) :
    diffEntry d ∈ old ++ new := by
  rcases Merge.mem_of_mem_diff hd with ⟨e, he, rfl⟩ | ⟨e, he, rfl⟩
  · exact List.mem_append_left _ he
  · exact List.mem_append_right _ he

theorem sideKey_eq (d : DirEntry ⊕ DirEntry) :
    Merge.sideKey DirEntry.pathElem d = (diffEntry d).pathElem := by
  cases d <;> rfl

/-- The operation that is read for a difference, from a slot with the field `op` given. -/
def opOf (uninit : U8) : DirEntry ⊕ DirEntry → DirOp
  | .inl e =>
    { op := if e.type = 1 then opRmfile else if e.type = 2 then opRmdir else uninit
      pathElem := cstrOf e.pathElem }
  | .inr e =>
    { op := if e.type = 1 then opMkfile else if e.type = 2 then opMkdir else uninit
      pathElem := cstrOf e.pathElem }

theorem opOf_pathElem (uninit : U8) (d : DirEntry ⊕ DirEntry) :
    (opOf uninit d).pathElem = cstrOf (diffEntry d).pathElem := by
  cases d <;> rfl

/-- The operations in the slots from `k` on. -/
def opsFrom (uninit : Nat → U8) : Nat → List (DirEntry ⊕ DirEntry) → List DirOp
  | _, [] => []
  | k, d :: ds => opOf (uninit k) d :: opsFrom uninit (k + 1) ds

theorem length_opsFrom (uninit : Nat → U8) (k : Nat) (ds : List (DirEntry ⊕ DirEntry)) :
    (opsFrom uninit k ds).length = ds.length := by
  induction ds generalizing k with
  | nil => rfl
  | cons d ds ih => rw [opsFrom, List.length_cons, List.length_cons, ih]

theorem getElem?_opsFrom (uninit : Nat → U8) (k i : Nat) (ds : List (DirEntry ⊕ DirEntry)) :
    (opsFrom uninit k ds)[i]? = ds[i]?.map (opOf (uninit (k + i))) := by
  induction ds generalizing k i with
  | nil => rfl
  | cons d ds ih =>
    cases i with
    | zero => rfl
    | succ i =>
      rw [opsFrom, List.getElem?_cons_succ, List.getElem?_cons_succ, ih, Nat.add_assoc,
        Nat.add_comm 1 i]

theorem mem_opsFrom {uninit : Nat → U8} {ds : List (DirEntry ⊕ DirEntry)} {op : DirOp}
    (hop : op ∈ opsFrom uninit k ds) : ∃ d ∈ ds, ∃ u, op = opOf u d := by
  obtain ⟨i, hi⟩ := List.mem_iff_getElem?.mp hop
  rw [getElem?_opsFrom] at hi
  obtain ⟨d, hd, rfl⟩ := Option.map_eq_some_iff.mp hi
  exact ⟨d, List.mem_of_getElem? hd, _, rfl⟩

/-! ## Slots -/

/-- The name fits in a field `path_elem`. -/
def DirEntry.Fits (e : DirEntry) : Prop := e.pathElem.length + 1 ≤ maxPathLen

instance (e : DirEntry) : Decidable e.Fits := inferInstanceAs (Decidable (_ ≤ _))

/-- A name as `parse_block_dir` makes it: terminated, and not too long. -/
def DirEntry.Proper (e : DirEntry) : Prop := 0 ∉ e.pathElem ∧ e.Fits

instance (e : DirEntry) : Decidable e.Proper := inferInstanceAs (Decidable (_ ∧ _))

/-- The bytes of a field `path_elem` after `strcpy`. -/
def copied (dst : Fin maxPathLen → U8) (src : CStr) : Fin maxPathLen → U8 := fun i =>
  if i.val = src.length then 0 else src.getD i.val (dst i)

/-- A slot after a difference is written to it. -/
def written (slot : OpSlot) (d : DirEntry ⊕ DirEntry) : OpSlot where
  op := (opOf slot.op d).op
  pathElem := copied slot.pathElem (diffEntry d).pathElem

/-- The table after differences are written from the slot `k` on. -/
def writeSlots : List (DirEntry ⊕ DirEntry) → Nat → OpSlots → OpSlots
  | [], _, table => table
  | d :: ds, k, table =>
    writeSlots ds (k + 1) fun i => if i = k then written (table k) d else table i

/-- One assignment of a slot, for a difference. -/
def Assigns (k : Nat) (table : OpSlots) (d : DirEntry ⊕ DirEntry)
    (run : Except DiskFault OpSlots) : Prop :=
  run = if k < opMax ∧ (diffEntry d).Fits then
      .ok fun i => if i = k then written (table k) d else table i
    else .error .overflow

theorem assignSlot_eq (opFile opDir : U8) (e : DirEntry) (k : Nat) (table : OpSlots) :
    assignSlot opFile opDir e k table =
      if k < opMax ∧ e.Fits then
        .ok fun i => if i = k then
            { op := if e.type = 1 then opFile else if e.type = 2 then opDir else (table k).op
              pathElem := copied (table k).pathElem e.pathElem }
          else table i
      else .error .overflow := by
  rw [assignSlot]
  by_cases hk : k < opMax
  · by_cases he : e.Fits
    · have hcopy : strcpyElem (table k).pathElem e.pathElem =
          .ok (copied (table k).pathElem e.pathElem) := if_pos he
      rw [if_pos hk, hcopy]
      exact (if_pos ⟨hk, he⟩).symm
    · have hcopy : strcpyElem (table k).pathElem e.pathElem = .error .overflow := if_neg he
      rw [if_pos hk, hcopy]
      exact (if_neg fun h => he h.2).symm
  · rw [if_neg hk]
    exact (if_neg fun h => hk h.1).symm

theorem assigns_removed : Assigns k table (.inl e) (assignSlot opRmfile opRmdir e k table) :=
  assignSlot_eq opRmfile opRmdir e k table

theorem assigns_created : Assigns k table (.inr e) (assignSlot opMkfile opMkdir e k table) :=
  assignSlot_eq opMkfile opMkdir e k table

/-- The loops from the slot `k` on: they write the differences that are left. -/
def Writes (k : Nat) (table : OpSlots) (ds : List (DirEntry ⊕ DirEntry))
    (run : Except DiskFault (OpSlots × Nat)) : Prop :=
  run = if k + ds.length ≤ opMax ∧ ∀ d ∈ ds, (diffEntry d).Fits then
      .ok (writeSlots ds k table, k + ds.length)
    else .error .overflow

/-- A slot is written, and then the other differences. -/
theorem Writes.assign {d : DirEntry ⊕ DirEntry} {ds : List (DirEntry ⊕ DirEntry)}
    {first : Except DiskFault OpSlots} {rest : OpSlots → Except DiskFault (OpSlots × Nat)}
    (hfirst : Assigns k table d first)
    (hrest : k < opMax → ∀ t, Writes (k + 1) t ds (rest t)) :
    Writes k table (d :: ds) (first >>= rest) := by
  have hlength : k + (d :: ds).length = k + 1 + ds.length := by
    rw [List.length_cons]
    omega
  rw [Writes, hfirst, hlength]
  by_cases hk : k < opMax ∧ (diffEntry d).Fits
  · have hall : (∀ d' ∈ d :: ds, (diffEntry d').Fits) ↔ ∀ d' ∈ ds, (diffEntry d').Fits := by
      rw [List.forall_mem_cons, and_iff_right hk.2]
    rw [if_pos hk]
    exact (hrest hk.1 _).trans (if_congr (and_congr_right' hall.symm) rfl rfl)
  · rw [if_neg hk, if_neg]
    · rfl
    · rintro ⟨hlen, hall⟩
      exact hk ⟨by omega, hall d List.mem_cons_self⟩

theorem compareInto_writes (hk : k ≤ opMax) :
    Writes k table (differences old new) (compareInto old new k table) := by
  induction old, new using Merge.diff.induct strcmpLt DirEntry.pathElem generalizing k table with
  | case1 =>
    rw [differences, Merge.diff, compareInto, Writes, if_pos ⟨hk, by simp⟩]
    rfl
  | case2 x old ih =>
    rw [differences, Merge.diff, compareInto]
    exact Writes.assign assigns_removed fun hk t => ih hk
  | case3 y new ih =>
    rw [differences, Merge.diff, compareInto]
    exact Writes.assign assigns_created fun hk t => ih hk
  | case4 x old y new hlt ih =>
    rw [differences, Merge.diff, compareInto, if_pos hlt, if_pos hlt]
    exact Writes.assign assigns_removed fun hk t => ih hk
  | case5 x old y new hge hlt ih =>
    rw [differences, Merge.diff, compareInto, if_neg hge, if_pos hlt, if_neg hge, if_pos hlt]
    exact Writes.assign assigns_created fun hk t => ih hk
  | case6 x old y new hge hge' ih =>
    rw [differences, Merge.diff, compareInto, if_neg hge, if_neg hge', if_neg hge, if_neg hge']
    exact ih hk

/-! ## Reading the table -/

/-- Every slot is written once, from what it held at first. -/
theorem writeSlots_apply (ds : List (DirEntry ⊕ DirEntry)) (k : Nat) (table : OpSlots) (i : Nat) :
    writeSlots ds k table i =
      if k ≤ i then (ds[i - k]?).elim (table i) (written (table i)) else table i := by
  induction ds generalizing k table with
  | nil => simp [writeSlots]
  | cons d ds ih =>
    rw [writeSlots, ih]
    rcases Nat.lt_trichotomy i k with hik | rfl | hik
    · rw [if_neg (by omega), if_neg (by omega), if_neg (by omega)]
    · rw [if_neg (by omega), if_pos rfl, if_pos (Nat.le_refl i), Nat.sub_self]
      rfl
    · rw [if_pos (by omega), if_neg (by omega), if_pos (by omega),
        show i - k = (i - (k + 1)) + 1 by omega, List.getElem?_cons_succ]

/-- The name that is read is the one that was copied. -/
theorem cstrOf_copied {name : CStr} (hfits : name.length + 1 ≤ maxPathLen)
    (dst : Fin maxPathLen → U8) : cstrOf (List.ofFn (copied dst name)) = cstrOf name := by
  have hlt : name.length < (List.ofFn (copied dst name)).length := by
    rw [List.length_ofFn]
    exact hfits
  have htake : (List.ofFn (copied dst name)).take name.length = name := by
    refine List.ext_getElem (by rw [List.length_take]; omega) fun i hi hi' => ?_
    rw [List.getElem_take, List.getElem_ofFn, copied, if_neg (Nat.ne_of_lt hi')]
    exact List.getD_eq_getElem _ _ hi'
  have hzero : (List.ofFn (copied dst name))[name.length] = 0 := by
    rw [List.getElem_ofFn, copied, if_pos rfl]
  have hsplit : List.ofFn (copied dst name) =
      name ++ 0 :: (List.ofFn (copied dst name)).drop (name.length + 1) := by
    conv_lhs => rw [← List.take_append_drop name.length (List.ofFn (copied dst name)), htake]
    rw [List.drop_eq_getElem_cons hlt, hzero]
  rw [hsplit, cstrOf_append_zero]

theorem read_written {d : DirEntry ⊕ DirEntry} (hd : (diffEntry d).Fits) (slot : OpSlot) :
    (written slot d).read = opOf slot.op d := by
  have hname : cstrOf (List.ofFn (written slot d).pathElem) = (opOf slot.op d).pathElem := by
    rw [opOf_pathElem]
    exact cstrOf_copied hd _
  rw [OpSlot.read, hname]
  rfl

/-- `compare_dirs` gives one operation for each difference, if there are slots for them and the
names fit. -/
theorem compareTable_eq (init : OpSlots) (dirOld dirNew : List DirEntry) :
    compareTable init dirOld dirNew =
      if (differences dirOld dirNew).length ≤ opMax ∧
          ∀ d ∈ differences dirOld dirNew, (diffEntry d).Fits then
        .ok (opsFrom (fun i => (init i).op) 0 (differences dirOld dirNew))
      else .error .overflow := by
  have hrun : Writes 0 init (differences dirOld dirNew) (compareInto dirOld dirNew 0 init) :=
    compareInto_writes (Nat.zero_le _)
  rw [Writes, Nat.zero_add] at hrun
  rw [compareTable, hrun]
  split
  · rename_i hfits
    refine congrArg Except.ok (List.ext_getElem? fun i => ?_)
    rw [getElem?_opsFrom, List.getElem?_map, Nat.zero_add]
    by_cases hi : i < (differences dirOld dirNew).length
    · rw [List.getElem?_range hi, List.getElem?_eq_getElem hi, Option.map_some, Option.map_some]
      show some (writeSlots (differences dirOld dirNew) 0 init i).read = _
      rw [writeSlots_apply, if_pos (Nat.zero_le i), Nat.sub_zero, List.getElem?_eq_getElem hi]
      exact congrArg some (read_written (hfits.2 _ (List.getElem_mem hi)) (init i))
    · rw [List.getElem?_eq_none (by rw [List.length_range]; omega),
        List.getElem?_eq_none (by omega)]
      rfl
  · rfl

/-- Between tables whose names all fit, the number of differences decides. -/
theorem compareTable_of_fits (hfits : ∀ e ∈ old ++ new, e.Fits) (init : OpSlots) :
    compareTable init old new =
      if (differences old new).length ≤ opMax then
        .ok (opsFrom (fun i => (init i).op) 0 (differences old new))
      else .error .overflow := by
  have hall : ∀ d ∈ differences old new, (diffEntry d).Fits :=
    fun d hd => hfits _ (diffEntry_mem hd)
  rw [compareTable_eq]
  exact if_congr (and_iff_left hall) rfl rfl

/-! ## The symmetric difference -/

/-- The type of an entry that is a file or a directory. -/
def DirEntry.Typed (e : DirEntry) : Prop := e.type = 1 ∨ e.type = 2

instance (e : DirEntry) : Decidable e.Typed := inferInstanceAs (Decidable (_ ∨ _))

/-- The operation for a difference whose entry has one of the two types. -/
def typedOp : DirEntry ⊕ DirEntry → DirOp
  | .inl e => { op := if e.type = 1 then opRmfile else opRmdir, pathElem := e.pathElem }
  | .inr e => { op := if e.type = 1 then opMkfile else opMkdir, pathElem := e.pathElem }

theorem opOf_op {d : DirEntry ⊕ DirEntry} (hd : (diffEntry d).Typed) (uninit : U8) :
    (opOf uninit d).op = (typedOp d).op := by
  cases d with
  | inl e =>
    rcases hd with ht | ht <;> simp [opOf, typedOp, show e.type = _ from ht]
  | inr e =>
    rcases hd with ht | ht <;> simp [opOf, typedOp, show e.type = _ from ht]

theorem typedOp_pathElem (d : DirEntry ⊕ DirEntry) :
    (typedOp d).pathElem = (diffEntry d).pathElem := by
  cases d <;> rfl

theorem opOf_typed {d : DirEntry ⊕ DirEntry} (hd : (diffEntry d).Typed)
    (hname : 0 ∉ (diffEntry d).pathElem) (uninit : U8) : opOf uninit d = typedOp d := by
  have hpath : (opOf uninit d).pathElem = (typedOp d).pathElem := by
    rw [opOf_pathElem, typedOp_pathElem, cstrOf_eq_self_iff.mpr hname]
  show DirOp.mk (opOf uninit d).op (opOf uninit d).pathElem = _
  rw [opOf_op hd, hpath]

theorem opsFrom_typed {ds : List (DirEntry ⊕ DirEntry)} (hds : ∀ d ∈ ds, (diffEntry d).Typed)
    (hnames : ∀ d ∈ ds, 0 ∉ (diffEntry d).pathElem) (uninit : Nat → U8) (k : Nat) :
    opsFrom uninit k ds = ds.map typedOp := by
  induction ds generalizing k with
  | nil => rfl
  | cons d ds ih =>
    obtain ⟨hd, hds⟩ := List.forall_mem_cons.mp hds
    obtain ⟨hname, hnames⟩ := List.forall_mem_cons.mp hnames
    rw [opsFrom, List.map_cons, opOf_typed hd hname, ih hds hnames]

def names (table : List DirEntry) : List CStr := table.map DirEntry.pathElem

theorem mem_keys_names {n : CStr} {t : List DirEntry} :
    n ∈ Merge.keys DirEntry.pathElem t ↔ n ∈ names t := Iff.rfl

theorem inl_mem_differences (hold : old.Pairwise NameLt) (hnew : new.Pairwise NameLt)
    {e : DirEntry} : .inl e ∈ differences old new ↔ e ∈ old ∧ e.pathElem ∉ names new :=
  Merge.inl_mem_diff strcmpLt_order hold hnew

theorem inr_mem_differences (hold : old.Pairwise NameLt) (hnew : new.Pairwise NameLt)
    {e : DirEntry} : .inr e ∈ differences old new ↔ e ∈ new ∧ e.pathElem ∉ names old :=
  Merge.inr_mem_diff strcmpLt_order hold hnew

/-- Every entry whose name is in one table only is a file or a directory. -/
def TypedDifferences (old new : List DirEntry) : Prop :=
  (∀ e ∈ old, e.pathElem ∉ names new → e.Typed) ∧ ∀ e ∈ new, e.pathElem ∉ names old → e.Typed

instance (old new : List DirEntry) : Decidable (TypedDifferences old new) :=
  inferInstanceAs (Decidable (_ ∧ _))

/-- What holds of the entries of all differences. -/
theorem forall_differences_iff (hold : old.Pairwise NameLt) (hnew : new.Pairwise NameLt)
    {P : DirEntry → Prop} :
    (∀ d ∈ differences old new, P (diffEntry d)) ↔
      (∀ e ∈ old, e.pathElem ∉ names new → P e) ∧ ∀ e ∈ new, e.pathElem ∉ names old → P e := by
  constructor
  · intro hall
    refine ⟨fun e he hn => ?_, fun e he hn => ?_⟩
    · exact hall (.inl e) ((inl_mem_differences hold hnew).mpr ⟨he, hn⟩)
    · exact hall (.inr e) ((inr_mem_differences hold hnew).mpr ⟨he, hn⟩)
  · rintro ⟨hl, hr⟩ d hd
    cases d with
    | inl e =>
      obtain ⟨he, hn⟩ := (inl_mem_differences hold hnew).mp hd
      exact hl e he hn
    | inr e =>
      obtain ⟨he, hn⟩ := (inr_mem_differences hold hnew).mp hd
      exact hr e he hn

theorem typedDifferences_iff (hold : old.Pairwise NameLt) (hnew : new.Pairwise NameLt) :
    TypedDifferences old new ↔ ∀ d ∈ differences old new, (diffEntry d).Typed :=
  (forall_differences_iff hold hnew).symm

/-- Every name that is in one table only fits in its slot of the result. -/
def FittingDifferences (old new : List DirEntry) : Prop :=
  (∀ e ∈ old, e.pathElem ∉ names new → e.Fits) ∧ ∀ e ∈ new, e.pathElem ∉ names old → e.Fits

instance (old new : List DirEntry) : Decidable (FittingDifferences old new) :=
  inferInstanceAs (Decidable (_ ∧ _))

/-- The number of names that are in one table only. -/
def diffCount (old new : List DirEntry) : Nat :=
  (old.countP fun e => e.pathElem ∉ names new) + new.countP fun e => e.pathElem ∉ names old

theorem length_differences (hold : old.Pairwise NameLt) (hnew : new.Pairwise NameLt) :
    (differences old new).length = diffCount old new := by
  have hl := Merge.Strict.sorted strcmpLt_order (l := old) hold
  have hr := Merge.Strict.sorted strcmpLt_order hnew
  rw [differences, Merge.length_diff strcmpLt_order hl hr,
    Merge.Strict.card_keys_sub strcmpLt_order hold, Merge.Strict.card_keys_sub strcmpLt_order hnew]
  refine congrArg₂ (· + ·) (List.countP_congr fun e _ => ?_) (List.countP_congr fun e _ => ?_)
  · rw [decide_eq_true_iff, decide_eq_true_iff, mem_keys_names]
  · rw [decide_eq_true_iff, decide_eq_true_iff, mem_keys_names]

/-- The operations `ops` are the symmetric difference of two tables: one for each name that is in
one of them only, by the type of its entry, in the order of the names. -/
structure SymmetricDifference (old new : List DirEntry) (ops : List DirOp) : Prop where
  one : ∀ n, Xor (n ∈ names old) (n ∈ names new) → (ops.map DirOp.pathElem).count n = 1
  common : ∀ n, n ∈ names old → n ∈ names new → n ∉ ops.map DirOp.pathElem
  removed : ∀ e ∈ old, e.pathElem ∉ names new →
    (e.type = 1 → ⟨opRmfile, e.pathElem⟩ ∈ ops) ∧ (e.type = 2 → ⟨opRmdir, e.pathElem⟩ ∈ ops)
  created : ∀ e ∈ new, e.pathElem ∉ names old →
    (e.type = 1 → ⟨opMkfile, e.pathElem⟩ ∈ ops) ∧ (e.type = 2 → ⟨opMkdir, e.pathElem⟩ ∈ ops)
  nothingElse : ∀ n ∈ ops.map DirOp.pathElem, n ∈ names old ∨ n ∈ names new
  ascending : ops.Pairwise fun a b => strcmpLt a.pathElem b.pathElem = true

theorem map_typedOp_pathElem (ds : List (DirEntry ⊕ DirEntry)) :
    (ds.map typedOp).map DirOp.pathElem = ds.map (Merge.sideKey DirEntry.pathElem) := by
  rw [List.map_map]
  exact List.map_congr_left fun d _ => (typedOp_pathElem d).trans (sideKey_eq d).symm

/-- The names of the differences are those that one table has and the other has not. -/
theorem mem_sideKeys (hold : old.Pairwise NameLt) (hnew : new.Pairwise NameLt) {n : CStr} :
    n ∈ (differences old new).map (Merge.sideKey DirEntry.pathElem) ↔
      Xor (n ∈ names old) (n ∈ names new) := by
  constructor
  · intro hn
    obtain ⟨d, hd, rfl⟩ := List.mem_map.mp hn
    cases d with
    | inl e =>
      obtain ⟨he, hne⟩ := (inl_mem_differences hold hnew).mp hd
      exact Or.inl ⟨List.mem_map_of_mem he, hne⟩
    | inr e =>
      obtain ⟨he, hne⟩ := (inr_mem_differences hold hnew).mp hd
      exact Or.inr ⟨List.mem_map_of_mem he, hne⟩
  · rintro (⟨hmem, hne⟩ | ⟨hmem, hne⟩)
    · obtain ⟨e, he, rfl⟩ := List.mem_map.mp hmem
      exact List.mem_map.mpr ⟨.inl e, (inl_mem_differences hold hnew).mpr ⟨he, hne⟩, rfl⟩
    · obtain ⟨e, he, rfl⟩ := List.mem_map.mp hmem
      exact List.mem_map.mpr ⟨.inr e, (inr_mem_differences hold hnew).mpr ⟨he, hne⟩, rfl⟩

theorem symmetricDifference_typedOp (hold : old.Pairwise NameLt) (hnew : new.Pairwise NameLt) :
    SymmetricDifference old new ((differences old new).map typedOp) := by
  have hpairwise : ((differences old new).map typedOp).Pairwise fun a b =>
      strcmpLt a.pathElem b.pathElem = true := by
    rw [List.pairwise_map]
    apply (Merge.diff_pairwise strcmpLt_order hold hnew).imp
    intro z w hzw
    rw [typedOp_pathElem, typedOp_pathElem, ← sideKey_eq, ← sideKey_eq]
    exact hzw
  have hmem (n : CStr) : n ∈ ((differences old new).map typedOp).map DirOp.pathElem ↔
      Xor (n ∈ names old) (n ∈ names new) := by
    rw [map_typedOp_pathElem]
    exact mem_sideKeys hold hnew
  have hnodup : (((differences old new).map typedOp).map DirOp.pathElem).Nodup := by
    rw [List.Nodup, List.pairwise_map]
    exact hpairwise.imp fun hab => strcmpLt_order.ne hab
  refine ⟨fun n hn => ?_, fun n hn hn' => ?_, fun e he hne => ?_, fun e he hne => ?_,
    fun n hn => ?_, hpairwise⟩
  · exact List.count_eq_one_of_mem hnodup ((hmem n).mpr hn)
  · rw [hmem]
    rintro (⟨-, hnot⟩ | ⟨-, hnot⟩)
    · exact hnot hn'
    · exact hnot hn
  · have hop := List.mem_map_of_mem (f := typedOp) ((inl_mem_differences hold hnew).mpr ⟨he, hne⟩)
    refine ⟨fun ht => ?_, fun ht => ?_⟩
    · simpa [typedOp, ht] using hop
    · simpa [typedOp, ht] using hop
  · have hop := List.mem_map_of_mem (f := typedOp) ((inr_mem_differences hold hnew).mpr ⟨he, hne⟩)
    refine ⟨fun ht => ?_, fun ht => ?_⟩
    · simpa [typedOp, ht] using hop
    · simpa [typedOp, ht] using hop
  · rcases (hmem n).mp hn with ⟨h, -⟩ | ⟨h, -⟩
    · exact Or.inl h
    · exact Or.inr h

/-- **Comparison of two directories.** For tables with sorted and distinct names, the result of
`compare_dirs` is their symmetric difference exactly if the names that are in one table only fit
in their slots. -/
theorem compareTable_symmetricDifference_iff (init : OpSlots) (dirOld dirNew : List DirEntry)
    (hold : dirOld.Pairwise NameLt) (hnew : dirNew.Pairwise NameLt)
    (hnames : ∀ e ∈ dirOld ++ dirNew, 0 ∉ e.pathElem) (htyped : TypedDifferences dirOld dirNew)
    (hfits : diffCount dirOld dirNew ≤ opMax) :
    (∃ ops, compareTable init dirOld dirNew = .ok ops ∧
        SymmetricDifference dirOld dirNew ops) ↔
      FittingDifferences dirOld dirNew := by
  have htypes := (typedDifferences_iff hold hnew).mp htyped
  have hterminated : ∀ d ∈ differences dirOld dirNew, 0 ∉ (diffEntry d).pathElem :=
    fun d hd => hnames _ (diffEntry_mem hd)
  rw [compareTable_eq, length_differences hold hnew, FittingDifferences,
    ← forall_differences_iff hold hnew, opsFrom_typed htypes hterminated]
  constructor
  · rintro ⟨ops, hrun, -⟩
    by_contra hlong
    rw [if_neg fun h => hlong h.2] at hrun
    cases hrun
  · intro hall
    exact ⟨_, if_pos ⟨hfits, hall⟩, symmetricDifference_typedOp hold hnew⟩

instance : DecidableRel NameLt := fun e f =>
  inferInstanceAs (Decidable (strcmpLt e.pathElem f.pathElem = true))

/-- A result table whose bytes are all the same. -/
def filledSlots (b : U8) : OpSlots := fun _ => { op := b, pathElem := fun _ => b }

/-- A file goes, a directory stays and a directory is new. -/
theorem compareTable_symmetricDifference_three :
    ∃ ops, compareTable (filledSlots 0) [⟨11, 1, cstr "a"⟩, ⟨12, 2, cstr "b"⟩]
        [⟨12, 2, cstr "b"⟩, ⟨13, 2, cstr "c"⟩] = .ok ops ∧
      SymmetricDifference [⟨11, 1, cstr "a"⟩, ⟨12, 2, cstr "b"⟩]
        [⟨12, 2, cstr "b"⟩, ⟨13, 2, cstr "c"⟩] ops :=
  (compareTable_symmetricDifference_iff (filledSlots 0) _ _ (by decide) (by decide) (by decide)
    (by decide) (by decide)).mpr (by decide)

/-- A new file whose name does not fit in the slot. -/
def longTable : List DirEntry := [⟨11, 1, List.replicate 300 97⟩]

/-- It is the only difference, and is written over the end of its slot. -/
theorem longTable_not_symmetricDifference :
    [].Pairwise NameLt ∧ longTable.Pairwise NameLt ∧
      (∀ e ∈ [] ++ longTable, 0 ∉ e.pathElem) ∧ TypedDifferences [] longTable ∧
      diffCount [] longTable ≤ opMax ∧
      ∀ init, compareTable init [] longTable = .error .overflow ∧
        ¬∃ ops, compareTable init [] longTable = .ok ops ∧
          SymmetricDifference [] longTable ops := by
  have hsorted : longTable.Pairwise NameLt := List.pairwise_singleton _ _
  have hover (init : OpSlots) : compareTable init [] longTable = .error .overflow := by
    rw [compareTable_eq]
    apply if_neg
    rintro ⟨-, hall⟩
    have hlong := ((forall_differences_iff .nil hsorted).mp hall).2 _ List.mem_cons_self
      List.not_mem_nil
    change (List.replicate 300 (97 : U8)).length + 1 ≤ 256 at hlong
    rw [List.length_replicate] at hlong
    omega
  refine ⟨.nil, hsorted, by decide, by decide, by decide, fun init => ⟨hover init, ?_⟩⟩
  rintro ⟨ops, hrun, -⟩
  rw [hover] at hrun
  cases hrun

end XenAccess.Disk
