import XenAccess.Disk.Framing
import XenAccess.Disk.StaleOps

/-!
# Capacity of the tables

A directory block of 4096 bytes has room for up to 512 records of 8 bytes, and two blocks with
`n` records each can differ in `2 * n` names. The tables have 256 slots, and no index is
checked: the limits hold exactly for blocks with few records and few differences.
-/

namespace XenAccess.Disk

variable {m m' : Mem} {d slots : Nat} {rs rs' : List DirRecord} {t : List DirEntry}

/-! ## Names with repetition -/

theorem keys_perm {t t' : List DirEntry} (hperm : t.Perm t') :
    Merge.keys DirEntry.pathElem t = Merge.keys DirEntry.pathElem t' :=
  Multiset.coe_eq_coe.mpr (hperm.map DirEntry.pathElem)

/-! ## Parsing -/

/-- With fewer slots than records, an entry is written behind the table. -/
theorem parseLoop_full (hrs : Tiles m d rs) (hslots : slots < rs.length) :
    parseLoop m blockBytes slots d = .error .overflow := by
  induction rs generalizing d slots with
  | nil => cases hslots
  | cons r rs ih =>
    obtain ⟨hr, -, hlen, hle, hrest⟩ := hrs
    cases slots with
    | zero => rw [parseLoop, if_pos (by omega)]
    | succ n =>
      rw [parseLoop, if_pos (by omega), hr.recLen, ih hrest (by simpa using hslots)]
      rfl

theorem parseBlockDir_eq (hrs : Tiles m 0 rs) : parseBlockDir m blockBytes =
    if rs.length ≤ dirMax then .ok (rs.map DirRecord.parsed) else .error .overflow := by
  rw [parseBlockDir]
  split
  · rename_i hfew
    exact parseLoop_parsed hrs hfew
  · rename_i hmany
    exact parseLoop_full hrs (by omega)

/-- The names of the entries are terminated, and fit in the slots of the result. -/
theorem parsed_proper (hrs : Tiles m d rs) : ∀ e ∈ rs.map DirRecord.parsed, e.Proper := by
  intro e he
  obtain ⟨r, hr, rfl⟩ := List.mem_map.mp he
  constructor
  · intro hzero
    have := List.mem_takeWhile_imp (show 0 ∈ cstrOf r.name from hzero)
    rw [bne_self_eq_false] at this
    cases this
  · have hcut : (cstrOf r.name).length ≤ r.name.length := (List.takeWhile_prefix _).length_le
    have hname := name_length_lt hrs r hr
    show (cstrOf r.name).length + 1 ≤ 256
    omega

/-! ## Both tables and the result -/

/-- The number of differences of two blocks: how often a name is in one of them more often than in
the other. -/
def nameDiffs (rs rs' : List DirRecord) : Nat :=
  let old := Merge.keys DirEntry.pathElem (rs.map DirRecord.parsed)
  let new := Merge.keys DirEntry.pathElem (rs'.map DirRecord.parsed)
  (old - new).card + (new - old).card

/-- Two blocks are parsed, sorted and compared within the limits of the tables, and the sizes
are the numbers of records and of differences. The result table held `init`. -/
def WithinTables (init : OpSlots) (m m' : Mem) (rs rs' : List DirRecord) : Prop :=
  ∃ t t' ops, parseBlockDir m blockBytes = .ok t ∧ parseBlockDir m' blockBytes = .ok t' ∧
    compareTable init (sortDir t) (sortDir t') = .ok ops ∧
    tableSize t = rs.length ∧ tableSize t' = rs'.length ∧ tableSize ops = nameDiffs rs rs' ∧
    ∀ e ∈ t ++ t', e.Fits

theorem tableSize_eq {α : Type} {table : List α} (hlen : table.length ≤ 256) :
    tableSize table = table.length := by
  rw [tableSize, BitVec.toInt_eq_toNat_of_lt, BitVec.toNat_ofNat]
  · omega
  · rw [BitVec.toNat_ofNat]
    omega

theorem length_differences_sortDir (rs rs' : List DirRecord) :
    (differences (sortDir (rs.map DirRecord.parsed)) (sortDir (rs'.map DirRecord.parsed))).length =
      nameDiffs rs rs' := by
  rw [differences, Merge.length_diff strcmpLt_order (sortDir_sortedLe _) (sortDir_sortedLe _),
    keys_perm (sortDir_perm _), keys_perm (sortDir_perm _)]
  rfl

theorem compareTable_sortDir (hrs : Tiles m 0 rs) (hrs' : Tiles m' 0 rs') (init : OpSlots) :
    compareTable init (sortDir (rs.map DirRecord.parsed)) (sortDir (rs'.map DirRecord.parsed)) =
      if nameDiffs rs rs' ≤ opMax then
        .ok (opsFrom (fun i => (init i).op) 0 (differences (sortDir (rs.map DirRecord.parsed))
          (sortDir (rs'.map DirRecord.parsed))))
      else .error .overflow := by
  rw [compareTable_of_fits, length_differences_sortDir]
  intro e he
  rcases List.mem_append.mp he with he | he
  · exact (parsed_proper hrs e ((sortDir_perm _).mem_iff.mp he)).2
  · exact (parsed_proper hrs' e ((sortDir_perm _).mem_iff.mp he)).2

/-- **When the tables are large enough.** For two well-formed blocks, exactly if each has at
most 256 records and they differ in at most 256 names. -/
theorem withinTables_iff (init : OpSlots) (m m' : Mem) (rs rs' : List DirRecord)
    (hrs : Tiles m 0 rs) (hrs' : Tiles m' 0 rs') :
    WithinTables init m m' rs rs' ↔
      rs.length ≤ dirMax ∧ rs'.length ≤ dirMax ∧ nameDiffs rs rs' ≤ opMax := by
  rw [WithinTables, parseBlockDir_eq hrs, parseBlockDir_eq hrs']
  constructor
  · rintro ⟨t, t', ops, ht, ht', hops, -⟩
    split at ht
    · rename_i hfew
      split at ht'
      · rename_i hfew'
        cases ht
        cases ht'
        rw [compareTable_sortDir hrs hrs'] at hops
        split at hops
        · rename_i hfits
          exact ⟨hfew, hfew', hfits⟩
        · cases hops
      · cases ht'
    · cases ht
  · rintro ⟨hfew, hfew', hfits⟩
    have hops := compareTable_sortDir hrs hrs' init
    have hlen := length_opsFrom (fun i => (init i).op) 0
      (differences (sortDir (rs.map DirRecord.parsed)) (sortDir (rs'.map DirRecord.parsed)))
    rw [length_differences_sortDir] at hlen
    rw [if_pos hfits] at hops
    refine ⟨_, _, _, if_pos hfew, if_pos hfew', hops, ?_, ?_, ?_, fun e he => ?_⟩
    · rw [tableSize_eq (by rw [List.length_map]; exact hfew), List.length_map]
    · rw [tableSize_eq (by rw [List.length_map]; exact hfew'), List.length_map]
    · rw [tableSize_eq (by rw [hlen]; exact hfits), hlen]
    · rcases List.mem_append.mp he with he | he
      · exact (parsed_proper hrs e he).2
      · exact (parsed_proper hrs' e he).2

/-! ## Blocks from records -/

/-- The bytes of a record, with zeros behind the name. -/
def DirRecord.bytes (r : DirRecord) : List U8 :=
  leBytes r.inode 4 ++ (leBytes (BitVec.ofNat 16 r.recLen) 2 ++
    (BitVec.ofNat 8 r.name.length :: r.type ::
      (r.name ++ List.replicate (r.recLen - 8 - r.name.length) 0)))

/-- The record can be written: its fields fit, and its name is inside of it. -/
structure DirRecord.Writable (r : DirRecord) : Prop where
  aligned : r.recLen % 4 = 0
  inside : 8 + r.name.length ≤ r.recLen
  short : r.recLen < 2 ^ 16
  name : r.name.length < 2 ^ 8

/-- The block of some records. -/
def layout (rs : List DirRecord) : List U8 := rs.flatMap DirRecord.bytes

def memOf (l : List U8) : Mem := fun d => l.getD d 0

theorem DirRecord.bytes_length {r : DirRecord} (hr : r.Writable) : r.bytes.length = r.recLen := by
  have := hr.inside
  simp [DirRecord.bytes]
  omega

/-- The fields of a record behind some bytes. -/
theorem recordAt_bytes {r : DirRecord} (hr : r.Writable) (pre post : List U8) :
    RecordAt (memOf (pre ++ (r.bytes ++ post))) pre.length r := by
  have hbyte (i : Nat) : memOf (pre ++ (r.bytes ++ post)) (pre.length + i) =
      (r.bytes ++ post).getD i 0 := getD_append_add rfl
  have hinode (i : Nat) (hi : i < 4) :
      memOf (pre ++ (r.bytes ++ post)) (pre.length + i) = (r.inode >>> (8 * i)).setWidth 8 := by
    rw [hbyte, DirRecord.bytes, List.append_assoc, List.getD_append _ _ _ _ (by simpa using hi),
      leBytes_getD _ hi]
  have htail (i : Nat) : memOf (pre ++ (r.bytes ++ post)) (pre.length + (4 + i)) =
      (leBytes (BitVec.ofNat 16 r.recLen) 2 ++ (BitVec.ofNat 8 r.name.length :: r.type ::
        (r.name ++ (List.replicate (r.recLen - 8 - r.name.length) 0 ++ post)))).getD i 0 := by
    rw [hbyte, DirRecord.bytes, List.append_assoc, getD_append_add (leBytes_length r.inode 4)]
    simp
  have hlow (i : Nat) (hi : i < 2) : memOf (pre ++ (r.bytes ++ post)) (pre.length + (4 + i)) =
      ((BitVec.ofNat 16 r.recLen) >>> (8 * i)).setWidth 8 := by
    rw [htail, List.getD_append _ _ _ _ (by simpa using hi), leBytes_getD _ hi]
  have hhigh (i : Nat) : memOf (pre ++ (r.bytes ++ post)) (pre.length + (4 + (2 + i))) =
      (BitVec.ofNat 8 r.name.length :: r.type ::
        (r.name ++ (List.replicate (r.recLen - 8 - r.name.length) 0 ++ post))).getD i 0 := by
    rw [htail, getD_append_add (leBytes_length _ 2)]
  refine ⟨?_, ?_, ?_, hhigh 1, ?_⟩
  · rw [dirGetinode, Mem.u32, hinode 3 (by omega), hinode 2 (by omega), hinode 1 (by omega)]
    exact (congrArg _ (hinode 0 (by omega))).trans (Bits.word32_of_bytes r.inode)
  · have hlen : dirGetreclen (memOf (pre ++ (r.bytes ++ post))) pre.length =
        BitVec.ofNat 16 r.recLen := by
      rw [dirGetreclen, Mem.u16, Nat.add_assoc, hlow 1 (by omega)]
      exact (congrArg _ (hlow 0 (by omega))).trans (Bits.word16_of_bytes _)
    rw [hlen]
    exact Nat.mod_eq_of_lt hr.short
  · rw [show dirGetnamelen (memOf (pre ++ (r.bytes ++ post))) pre.length = _ from hhigh 0]
    exact Nat.mod_eq_of_lt hr.name
  · refine List.ext_getElem (Disk.bytes_length _ _ _) fun i _ hi => ?_
    simp only [dirGetname, Mem.bytes, List.getElem_map, List.getElem_range]
    rw [show pre.length + 8 + i = pre.length + (4 + (2 + (i + 2))) by omega, hhigh,
      List.getD_cons_succ, List.getD_cons_succ, List.getD_append _ _ _ _ hi]
    exact List.getD_eq_getElem _ _ hi

theorem tiles_append_layout (pre : List U8) (hrs : ∀ r ∈ rs, r.Writable)
    (hfull : pre.length + (rs.map DirRecord.recLen).sum = blockBytes) :
    Tiles (memOf (pre ++ layout rs)) pre.length rs := by
  induction rs generalizing pre with
  | nil => exact hfull
  | cons r rs ih =>
    obtain ⟨hr, hrest⟩ := List.forall_mem_cons.mp hrs
    rw [List.map_cons, List.sum_cons] at hfull
    rw [layout, List.flatMap_cons, ← layout]
    refine ⟨recordAt_bytes hr pre (layout rs), hr.aligned, hr.inside, by omega, ?_⟩
    have hpre : (pre ++ r.bytes).length = pre.length + r.recLen := by
      rw [List.length_append, r.bytes_length hr]
    have := ih (pre ++ r.bytes) hrest (by omega)
    rwa [hpre, List.append_assoc] at this

/-- Every list of records that fills a block is the content of a block. -/
theorem tiles_layout (hrs : ∀ r ∈ rs, r.Writable)
    (hfull : (rs.map DirRecord.recLen).sum = blockBytes) : Tiles (memOf (layout rs)) 0 rs :=
  tiles_append_layout [] hrs ((Nat.zero_add _).trans hfull)

/-- A block with one record. -/
def wholeRecord (type : U8) (name : CStr) : DirRecord where
  inode := 12
  recLen := 4096
  type := type
  name := name

theorem wholeRecord_tiles (type : U8) {name : CStr} (hname : name.length < 256) :
    Tiles (memOf (layout [wholeRecord type name])) 0 [wholeRecord type name] := by
  apply tiles_layout
  · intro r hr
    rw [List.mem_singleton.mp hr]
    refine ⟨(by decide : 4096 % 4 = 0), ?_, (by decide : 4096 < 2 ^ 16), hname⟩
    show 8 + name.length ≤ 4096
    omega
  · rfl

theorem wholeRecord_within :
    WithinTables (filledSlots 0) (memOf (layout [wholeRecord 1 (cstr "a")]))
      (memOf (layout [wholeRecord 2 (cstr "b")])) [wholeRecord 1 (cstr "a")]
      [wholeRecord 2 (cstr "b")] :=
  (withinTables_iff (filledSlots 0) _ _ _ _ (wholeRecord_tiles 1 (by decide))
    (wholeRecord_tiles 2 (by decide))).mpr (by decide)

/-- Records of the smallest length with a name of two letters. -/
def smallRecord (i : Nat) : DirRecord where
  inode := BitVec.ofNat 32 (11 + i)
  recLen := 12
  type := 1
  name := [BitVec.ofNat 8 (97 + i / 20), BitVec.ofNat 8 (97 + i % 20)]

/-- A block full of them. -/
def smallRecords : List DirRecord :=
  (List.range 340).map smallRecord ++ [⟨5000, 16, 1, cstr "zzz"⟩]

theorem smallRecords_tiles : Tiles (memOf (layout smallRecords)) 0 smallRecords := by
  apply tiles_layout
  · intro r hr
    rcases List.mem_append.mp hr with hr | hr
    · obtain ⟨i, -, rfl⟩ := List.mem_map.mp hr
      exact ⟨(by decide : 12 % 4 = 0), (by decide : 8 + 2 ≤ 12), (by decide : 12 < 2 ^ 16),
        (by decide : 2 < 2 ^ 8)⟩
    · rw [List.mem_singleton.mp hr]
      exact ⟨by decide, by decide, by decide, by decide⟩
  · have hlen : ((List.range 340).map smallRecord).map DirRecord.recLen = List.replicate 340 12 := by
      rw [List.map_map]
      exact List.map_const'.trans (by rw [List.length_range])
    rw [smallRecords, List.map_append, hlen, List.sum_append, List.sum_replicate_nat]
    rfl

theorem smallRecord_name_inj {i j : Nat} (hi : i < 340) (hj : j < 340)
    (hname : (smallRecord i).name = (smallRecord j).name) : i = j := by
  obtain ⟨hdiv, hmod⟩ := List.cons.inj hname
  have h1 := congrArg BitVec.toNat hdiv
  have h2 := congrArg BitVec.toNat (List.cons.inj hmod).1
  rw [BitVec.toNat_ofNat, BitVec.toNat_ofNat] at h1 h2
  omega

theorem smallRecords_nodup : (smallRecords.map DirRecord.name).Nodup := by
  rw [smallRecords, List.map_append, List.map_map]
  apply List.Nodup.append
  · refine List.Nodup.map_on (fun i hi j hj => ?_) List.nodup_range
    exact smallRecord_name_inj (List.mem_range.mp hi) (List.mem_range.mp hj)
  · exact List.nodup_singleton _
  · intro n hn hn'
    obtain ⟨i, -, rfl⟩ := List.mem_map.mp hn
    have hlen := congrArg List.length (List.mem_singleton.mp hn')
    exact absurd hlen (by decide : ¬ 2 = 3)

/-- A block with 341 records does not fit in a table. -/
theorem smallRecords_not_within :
    Tiles (memOf (layout smallRecords)) 0 smallRecords ∧
      (smallRecords.map DirRecord.name).Nodup ∧
      parseBlockDir (memOf (layout smallRecords)) blockBytes = .error .overflow ∧
      ∀ init, ¬ WithinTables init (memOf (layout smallRecords)) (memOf (layout smallRecords))
        smallRecords smallRecords := by
  have hmany : ¬ smallRecords.length ≤ dirMax := by
    rw [smallRecords, List.length_append, List.length_map, List.length_range]
    decide
  have hfull : parseBlockDir (memOf (layout smallRecords)) blockBytes = .error .overflow := by
    rw [parseBlockDir_eq smallRecords_tiles, if_neg hmany]
  refine ⟨smallRecords_tiles, smallRecords_nodup, hfull, ?_⟩
  rintro init ⟨t, t', ops, ht, -⟩
  rw [hfull] at ht
  cases ht

end XenAccess.Disk
