import XenAccess.Disk.Directory

/-!
# Live entries of a directory block

A record of a directory with the inode `0` is not in use. `parse_block_dir` does not look at
that: it makes an entry of every record.
-/

namespace XenAccess.Disk

/-- The records in use. -/
def liveRecords (rs : List DirRecord) : List DirRecord := rs.filter fun r => r.inode != 0

/-- `parse_block_dir` makes one entry of each record in use, with the whole name, and nothing
else. -/
def ParsesLive (m : Mem) (rs : List DirRecord) : Prop :=
  parseBlockDir m blockBytes = .ok ((liveRecords rs).map DirRecord.entry)

theorem liveRecords_eq_self_iff {rs : List DirRecord} :
    liveRecords rs = rs ↔ ∀ r ∈ rs, r.inode ≠ 0 := by
  rw [liveRecords, List.filter_eq_self]
  exact forall_congr' fun r => imp_congr_right fun _ => bne_iff_ne

/-- A record that is not in use makes the list longer. -/
theorem liveRecords_of_length {rs : List DirRecord} (hlen : rs.length = (liveRecords rs).length) :
    liveRecords rs = rs :=
  List.filter_sublist.eq_of_length hlen.symm

theorem parsed_eq_entry_iff {r : DirRecord} : r.parsed = r.entry ↔ 0 ∉ r.name := by
  rw [← cstrOf_eq_self_iff]
  constructor
  · exact congrArg DirEntry.pathElem
  · intro hname
    rw [DirRecord.parsed, hname]
    rfl

/-- **When a block is parsed to its live entries.** Exactly if all its records are in use and
have names without a zero byte. -/
theorem parsesLive_iff (m : Mem) (rs : List DirRecord) (hrs : Tiles m 0 rs)
    (hlen : rs.length ≤ dirMax) :
    ParsesLive m rs ↔ ∀ r ∈ rs, r.inode ≠ 0 ∧ 0 ∉ r.name := by
  rw [ParsesLive, parseBlockDir, parseLoop_parsed hrs hlen, Except.ok.injEq]
  constructor
  · intro heq
    have hall : liveRecords rs = rs := by
      have hlength := congrArg List.length heq
      rw [List.length_map, List.length_map] at hlength
      exact liveRecords_of_length hlength
    rw [hall] at heq
    exact fun r hr => ⟨liveRecords_eq_self_iff.mp hall r hr,
      parsed_eq_entry_iff.mp (List.map_inj_left.mp heq r hr)⟩
  · intro hrecords
    rw [liveRecords_eq_self_iff.mpr fun r hr => (hrecords r hr).1]
    exact List.map_congr_left fun r hr => parsed_eq_entry_iff.mpr (hrecords r hr).2

/-- A block with one record, which has the whole block and the name `a`. -/
def oneRecord (inode : U8) : Mem := fun d => [inode, 0, 0, 0, 0, 16, 1, 1, 97].getD d 0

theorem oneRecord_tiles (inode : U8) :
    Tiles (oneRecord inode) 0 [⟨inode.setWidth 32, 4096, 1, cstr "a"⟩] := by
  have hinode : (0 : U8) ++ (0 : U8) ++ (0 : U8) ++ inode = inode.setWidth 32 := by
    apply BitVec.eq_of_toNat_eq
    have hlt := inode.isLt
    rw [BitVec.toNat_append, BitVec.toNat_setWidth, Nat.mod_eq_of_lt (by omega)]
    exact Nat.zero_or inode.toNat
  have hlen : ((16 : U8) ++ (0 : U8)).toNat = 4096 := by decide
  have hmod : 4096 % 4 = 0 := by decide
  have hfits : 8 + (cstr "a").length ≤ 4096 := by decide
  exact ⟨⟨hinode, hlen, rfl, rfl, rfl⟩, hmod, hfits, Nat.le_refl blockBytes, rfl⟩

theorem oneRecord_parsesLive : ParsesLive (oneRecord 12) [⟨12, 4096, 1, cstr "a"⟩] :=
  (parsesLive_iff (oneRecord 12) _ (oneRecord_tiles 12) (by decide)).mpr (by decide)

/-- A record that is not in use becomes an entry. -/
theorem oneRecord_not_parsesLive :
    Tiles (oneRecord 0) 0 [⟨0, 4096, 1, cstr "a"⟩] ∧
      parseBlockDir (oneRecord 0) blockBytes = .ok [⟨0, 1, cstr "a"⟩] ∧
      ¬ParsesLive (oneRecord 0) [⟨0, 4096, 1, cstr "a"⟩] := by
  have hrun : parseBlockDir (oneRecord 0) blockBytes = .ok [⟨0, 1, cstr "a"⟩] := rfl
  refine ⟨oneRecord_tiles 0, hrun, fun hlive => ?_⟩
  rw [ParsesLive, hrun] at hlive
  exact absurd hlive (by decide)

end XenAccess.Disk
