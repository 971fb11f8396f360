import Mathlib.Data.List.Perm.Basic
import Mathlib.Data.List.TakeWhile
import XenAccess.Lib.Insertion
import XenAccess.Model.DiskMonitor

/-!
# Parsing and sorting directory blocks

What `parse_block_dir` and `sort_dir` do with a well-formed block: records tile the block, and
the table has one entry for each of them, in the order of their names after sorting.
-/

namespace XenAccess.Disk

/-! ## The order of names -/

theorem strcmpLt_irrefl (a : CStr) : strcmpLt a a = false := by
  induction a with
  | nil => rfl
  | cons x a ih => rw [strcmpLt, if_pos rfl, ih]

theorem strcmpLt_trans {a b c : CStr} (hab : strcmpLt a b = true) (hbc : strcmpLt b c = true) :
    strcmpLt a c = true := by
  induction a generalizing b c with
  | nil =>
    cases c with
    | nil => cases b <;> cases hbc
    | cons z c => rfl
  | cons x a ih =>
    cases b with
    | nil => cases hab
    | cons y b =>
      cases c with
      | nil => cases hbc
      | cons z c =>
        rw [strcmpLt] at hab hbc ⊢
        split at hab
        · rename_i hxy
          subst hxy
          split at hbc
          · rename_i hyz
            rw [if_pos hyz]
            exact ih hab hbc
          · rename_i hyz
            rw [if_neg hyz]
            exact hbc
        · rename_i hxy
          split at hbc
          · rename_i hyz
            subst hyz
            rw [if_neg hxy]
            exact hab
          · rename_i hyz
            have h1 := of_decide_eq_true hab
            have h2 := of_decide_eq_true hbc
            have hlt : x < z := BitVec.lt_trans h1 h2
            rw [if_neg (BitVec.ne_of_lt hlt)]
            exact decide_eq_true hlt

theorem strcmpLt_connex {a b : CStr} (hab : strcmpLt a b = false) (hba : strcmpLt b a = false) :
    a = b := by
  induction a generalizing b with
  | nil =>
    cases b with
    | nil => rfl
    | cons y b => cases hab
  | cons x a ih =>
    cases b with
    | nil => cases hba
    | cons y b =>
      rw [strcmpLt] at hab hba
      split at hab
      · rename_i hxy
        rw [if_pos hxy.symm] at hba
        rw [hxy, ih hab hba]
      · rename_i hxy
        rw [if_neg (Ne.symm hxy)] at hba
        have h1 := of_decide_eq_false hab
        have h2 := of_decide_eq_false hba
        exact absurd (BitVec.le_antisymm (BitVec.not_lt.mp h2) (BitVec.not_lt.mp h1)) hxy

theorem strcmpLt_order : Merge.Order strcmpLt :=
  ⟨strcmpLt_irrefl, fun _ _ _ => strcmpLt_trans, fun _ _ => strcmpLt_connex⟩

/-! ## Sorting -/

/-- One entry before another in a sorted table. -/
def NameLt (e f : DirEntry) : Prop := strcmpLt e.pathElem f.pathElem = true

theorem shiftUp_eq (aux : DirEntry) (l : List DirEntry) :
    shiftUp aux l = Insertion.insert strcmpLt DirEntry.pathElem aux l := by
  induction l with
  | nil => rfl
  | cons e l ih => rw [shiftUp, Insertion.insert, ih]

theorem sortDir_eq (table : List DirEntry) :
    sortDir table = Insertion.sort strcmpLt DirEntry.pathElem table := by
  have hstep : (fun sorted aux => shiftUp aux sorted) =
      fun sorted aux => Insertion.insert strcmpLt DirEntry.pathElem aux sorted :=
    funext fun sorted => funext fun aux => shiftUp_eq aux sorted
  rw [sortDir, hstep]
  rfl

theorem sortDir_perm (table : List DirEntry) : (sortDir table).Perm table := by
  rw [sortDir_eq]
  exact Insertion.sort_perm table

/-- `sort_dir` sorts every table, also one in which names repeat. -/
theorem sortDir_sortedLe (table : List DirEntry) :
    Merge.Sorted strcmpLt DirEntry.pathElem (sortDir table) := by
  rw [sortDir_eq]
  exact Insertion.sort_sorted strcmpLt_order table

/-- Entries of one name stay in their order. -/
theorem sortDir_stable (name : CStr) (table : List DirEntry) :
    (sortDir table).filter (fun e => e.pathElem = name) =
      table.filter fun e => e.pathElem = name := by
  rw [sortDir_eq]
  exact Insertion.sort_stable strcmpLt_order name table

/-- A table with distinct names is strictly sorted. -/
theorem sortDir_sorted {table : List DirEntry} (hnodup : (table.map DirEntry.pathElem).Nodup) :
    (sortDir table).Pairwise NameLt := by
  have hdistinct : (sortDir table).Pairwise fun e f => e.pathElem ≠ f.pathElem :=
    List.pairwise_map.mp (((sortDir_perm table).map DirEntry.pathElem).nodup_iff.mpr hnodup)
  apply ((sortDir_sortedLe table).and hdistinct).imp
  intro e f hef
  by_contra hnot
  exact hef.2 (strcmpLt_connex (Bool.eq_false_iff.mpr hnot) hef.1)

/-! ## Well-formed blocks -/

/-- The bytes of a block; those behind it are not part of it. -/
def blockMem (data : Block) : Mem := fun d => if hd : d < blockBytes then data ⟨d, hd⟩ else 0

/-- A record of a directory block. -/
structure DirRecord where
  inode : U32
  recLen : Nat
  type : U8
  name : CStr
  deriving DecidableEq, Repr

def DirRecord.entry (r : DirRecord) : DirEntry where
  inode := r.inode
  type := r.type
  pathElem := r.name

/-- The fields of a record are in memory at a displacement. -/
structure RecordAt (m : Mem) (d : Nat) (r : DirRecord) : Prop where
  inode : dirGetinode m d = r.inode
  recLen : (dirGetreclen m d).toNat = r.recLen
  nameLen : (dirGetnamelen m d).toNat = r.name.length
  type : dirGettype m d = r.type
  name : dirGetname m d r.name.length = r.name

/-- Records follow each other from a displacement to the end of the block. -/
def Tiles (m : Mem) : Nat → List DirRecord → Prop
  | d, [] => d = blockBytes
  | d, r :: rs => RecordAt m d r ∧ r.recLen % 4 = 0 ∧ 8 + r.name.length ≤ r.recLen ∧
    d + r.recLen ≤ blockBytes ∧ Tiles m (d + r.recLen) rs

/-- The length of a name is a byte. -/
theorem name_length_lt {m : Mem} {d : Nat} {rs : List DirRecord} (hrs : Tiles m d rs) :
    ∀ r ∈ rs, r.name.length < 256 := by
  induction rs generalizing d with
  | nil => exact fun r hr => nomatch hr
  | cons r rs ih =>
    obtain ⟨hr, -, -, -, hrest⟩ := hrs
    rw [List.forall_mem_cons]
    exact ⟨hr.nameLen ▸ (dirGetnamelen m d).isLt, ih hrest⟩

theorem Mem.bytes_congr {m m' : Mem} {d n : Nat} (hsame : ∀ i < n, m' (d + i) = m (d + i)) :
    m'.bytes d n = m.bytes d n := by
  refine List.map_congr_left fun i hi => hsame i (List.mem_range.mp hi)

/-- Only bytes of the block are looked at. -/
theorem tiles_congr {m m' : Mem} {d : Nat} {rs : List DirRecord}
    (hsame : ∀ i < blockBytes, m' i = m i) (hrs : Tiles m d rs) : Tiles m' d rs := by
  induction rs generalizing d with
  | nil => exact hrs
  | cons r rs ih =>
    obtain ⟨hr, hmod, hlen, hle, hrest⟩ := hrs
    have hd (i : Nat) (hi : i < 8 + r.name.length) : m' (d + i) = m (d + i) := hsame _ (by omega)
    have hd0 : m' d = m d := hd 0 (by omega)
    refine ⟨⟨?_, ?_, ?_, ?_, ?_⟩, hmod, hlen, hle, ih hrest⟩
    · rw [← hr.inode, dirGetinode, Mem.u32, hd 3 (by omega), hd 2 (by omega), hd 1 (by omega), hd0]
      rfl
    · rw [← hr.recLen, dirGetreclen, Mem.u16, hd 5 (by omega), hd 4 (by omega)]
      rfl
    · rw [← hr.nameLen, dirGetnamelen, hd 6 (by omega)]
      rfl
    · rw [← hr.type, dirGettype, hd 7 (by omega)]
      rfl
    · refine Eq.trans (Mem.bytes_congr fun i hi => ?_) hr.name
      rw [Nat.add_assoc]
      exact hd (8 + i) (by omega)

/-- The entry that is made of a record: the name is copied up to its first zero byte. -/
def DirRecord.parsed (r : DirRecord) : DirEntry where
  inode := r.inode
  type := r.type
  pathElem := cstrOf r.name

theorem parseEntry_of_record {m : Mem} {d : Nat} {r : DirRecord} (hr : RecordAt m d r) :
    parseEntry m d = r.parsed := by
  rw [parseEntry, hr.inode, hr.type, parseName, hr.nameLen, hr.name]
  rfl

/-- `parse_block_dir` makes one entry of each record. -/
theorem parseLoop_parsed {m : Mem} {d slots : Nat} {rs : List DirRecord} (hrs : Tiles m d rs)
    (hslots : rs.length ≤ slots) :
    parseLoop m blockBytes slots d = .ok (rs.map DirRecord.parsed) := by
  induction rs generalizing d slots with
  | nil =>
    have hend : ¬ d < blockBytes := by
      rw [show d = blockBytes from hrs]
      exact Nat.lt_irrefl _
    cases slots with
    | zero => rw [parseLoop, if_neg hend]; rfl
    | succ n => rw [parseLoop, if_neg hend]; rfl
  | cons r rs ih =>
    obtain ⟨hr, -, hlen, hle, hrest⟩ := hrs
    cases slots with
    | zero => simp at hslots
    | succ n =>
      rw [parseLoop, if_pos (by omega), hr.recLen, ih hrest (by simpa using hslots),
        parseEntry_of_record hr]
      rfl

theorem parseLoop_tiles {m : Mem} {d slots : Nat} {rs : List DirRecord} (hrs : Tiles m d rs)
    (hslots : rs.length ≤ slots) (hnames : ∀ r ∈ rs, 0 ∉ r.name) :
    parseLoop m blockBytes slots d = .ok (rs.map DirRecord.entry) := by
  rw [parseLoop_parsed hrs hslots]
  refine congrArg Except.ok (List.map_congr_left fun r hr => ?_)
  rw [DirRecord.parsed, cstrOf_eq_self_iff.mpr (hnames r hr)]
  rfl

/-! ## Searching a block -/

/-- The record has the name. -/
def Named (m : Mem) (name : CStr) (d : Nat) : Prop :=
  name.length = (dirGetnamelen m d).toNat ∧ dirGetname m d name.length = name

instance (m : Mem) (name : CStr) (d : Nat) : Decidable (Named m name d) :=
  inferInstanceAs (Decidable (_ ∧ _))

/-- On terminated strings the comparison of `xa_linux_ext2_finddir` is that of the names. -/
theorem strncmp_name_iff {m : Mem} {d : Nat} {name : CStr} (hname : 0 ∉ name) :
    strncmpEq (cstrOf (dirGetname m d name.length)) name name.length = true ↔
      dirGetname m d name.length = name := by
  have hlen : (dirGetname m d name.length).length = name.length := by
    rw [dirGetname, Mem.bytes, List.length_map, List.length_range]
  have hpre : cstrOf (dirGetname m d name.length) <+: dirGetname m d name.length :=
    List.takeWhile_prefix _
  have hle := hpre.length_le
  rw [strncmpEq, beq_iff_eq, List.take_of_length_le (by omega), List.take_length]
  constructor
  · intro heq
    have := hpre.eq_of_length (by rw [heq, hlen])
    rw [← this]
    exact heq
  · intro heq
    rw [heq]
    exact cstrOf_eq_self_iff.mpr hname

theorem finddirLoop_succ {m : Mem} {d : Nat} {name : CStr} (hname : 0 ∉ name) (limit k : Nat)
    (hd : d < limit) :
    finddirLoop m name limit (k + 1) d =
      if Named m name d then .ok (some d)
      else finddirLoop m name limit k (d + (dirGetreclen m d).toNat) := by
  rw [finddirLoop, if_pos hd]
  refine if_congr ?_ rfl rfl
  rw [Bool.and_eq_true, decide_eq_true_iff, strncmp_name_iff hname]
  rfl

end XenAccess.Disk
