import Mathlib.Order.Basic
import XenAccess.Disk.Directory
import XenAccess.Lib.Prog
import XenAccess.Model.DirScan

/-!
# The scans of a directory block on every block

The loops bound the place of a record, not the record: the fields and the name are read where
they lie, and the step to the next record is the length that the record has of itself.
-/

namespace XenAccess.Disk

open Checked Orbit Prog Scan

variable {data : Block} {m : Mem} {d n : Nat} {name : CStr}

/-! ## Statement -/

/-- The place of the record after the one at a displacement. -/
def nextRecord (data : Block) (d : Nat) : Option Nat :=
  if d < blockBytes then some (d + (Disk.dirGetreclen (blockMem data) d).toNat) else none

/-- A scan from the start of the block comes to the record at `d`, after `n` records. -/
def ComesTo (data : Block) (n d : Nat) : Prop :=
  nth (nextRecord data) 0 n = some d ∧ d < blockBytes

/-- Each of the three scans ends and reads no byte outside of the block, and the first writes no
entry behind its table, after which nothing would be known of it. -/
structure ScansInside (data : Block) : Prop where
  parse : ∃ rounds r, Checked.parseBlockDir data blockBytes rounds = .ok r
  find : ∀ name, ∃ rounds r, Checked.finddir data blockBytes name rounds = .ok r
  list : ∃ rounds r, Checked.listdirs data blockBytes rounds = .ok r

/-- Every record that a scan comes to has a length, its header and its name lie in the block,
and there is an entry of the table for it. -/
structure FitRecords (data : Block) : Prop where
  moves : ∀ n d, ComesTo data n d → (Disk.dirGetreclen (blockMem data) d).toNat ≠ 0
  inside : ∀ n d, ComesTo data n d →
    d + 8 + (Disk.dirGetnamelen (blockMem data) d).toNat ≤ blockBytes
  few : ∀ n d, ComesTo data n d → n < dirMax

/-! ## Bytes -/

/-- The bytes of a block are in memory. -/
def Holds (m : Mem) (data : Block) : Prop := ∀ i : Fin blockBytes, m i = data i

theorem holds_blockMem (data : Block) : Holds (blockMem data) data := fun i => dif_pos i.isLt

theorem byte_ok (hm : Holds m data) (hd : d < blockBytes) : byte data d = .ok (m d) := by
  rw [byte, dif_pos hd, ← hm ⟨d, hd⟩]

theorem lt_of_byte {c : U8} (hc : byte data d = .ok c) : d < blockBytes := by
  by_contra hd
  rw [byte, dif_neg hd] at hc
  cases hc

theorem u16_ok (hm : Holds m data) (hd : d + 2 ≤ blockBytes) : u16 data d = .ok (m.u16 d) := by
  rw [u16, byte_ok hm (by omega), byte_ok hm (by omega)]
  rfl

theorem u32_ok (hm : Holds m data) (hd : d + 4 ≤ blockBytes) : u32 data d = .ok (m.u32 d) := by
  rw [u32, byte_ok hm (by omega), byte_ok hm (by omega), byte_ok hm (by omega),
    byte_ok hm (by omega)]
  rfl

/-! ## Names -/

/-- At most `n` bytes are read from a displacement on, up to the first that stops; all of them
lie in the block. -/
def ReadsInside (m : Mem) (stop : Nat → U8 → Prop) (d n : Nat) : Prop :=
  ∀ i < n, (∀ j < i, ¬stop j (m (d + j))) → d + i < blockBytes

theorem readsInside_of_le {stop : Nat → U8 → Prop} (hd : d + n ≤ blockBytes) :
    ReadsInside m stop d n := fun i hi _ => by omega

/-- The first byte, and what is read after it. -/
theorem readsInside_succ {stop : Nat → U8 → Prop} :
    ReadsInside m stop d (n + 1) ↔ d < blockBytes ∧
      (¬stop 0 (m d) → ReadsInside m (fun i => stop (i + 1)) (d + 1) n) := by
  constructor
  · intro hreads
    refine ⟨hreads 0 n.succ_pos fun j hj => absurd hj j.not_lt_zero, fun hfirst i hi hbefore => ?_⟩
    rw [Nat.add_right_comm]
    refine hreads (i + 1) (Nat.succ_lt_succ hi) fun j hj => ?_
    cases j with
    | zero => exact hfirst
    | succ j =>
      have := hbefore j (Nat.lt_of_succ_lt_succ hj)
      rwa [Nat.add_right_comm] at this
  · rintro ⟨hd, hrest⟩ i hi hbefore
    cases i with
    | zero => exact hd
    | succ i =>
      have := hrest (hbefore 0 i.succ_pos) i (Nat.lt_of_succ_lt_succ hi) fun j hj => by
        rw [Nat.add_right_comm]
        exact hbefore (j + 1) (Nat.succ_lt_succ hj)
      rwa [Nat.add_right_comm] at this

theorem Mem.bytes_succ (m : Mem) (d n : Nat) : m.bytes d (n + 1) = m d :: m.bytes (d + 1) n := by
  rw [Mem.bytes, List.range_succ_eq_map, List.map_cons, List.map_map]
  refine congrArg (m d :: ·) (List.map_congr_left fun i _ => ?_)
  show m (d + (i + 1)) = m (d + 1 + i)
  rw [Nat.add_right_comm, Nat.add_assoc]

theorem strncpy_ok (hm : Holds m data) (hreads : ReadsInside m (fun _ c => c = 0) d n) :
    strncpy data n d = .ok (cstrOf (m.bytes d n)) := by
  induction n generalizing d with
  | zero => rfl
  | succ n ih =>
    obtain ⟨hd, hrest⟩ := readsInside_succ.mp hreads
    rw [strncpy, byte_ok hm hd, Mem.bytes_succ, cstrOf]
    by_cases hzero : m d = 0
    · show (if m d = 0 then _ else _) = _
      rw [if_pos hzero, List.takeWhile_cons_of_neg (by simp [hzero])]
      rfl
    · show (if m d = 0 then _ else _) = _
      rw [if_neg hzero, ih (hrest hzero), List.takeWhile_cons, if_pos (bne_iff_ne.mpr hzero)]
      rfl

theorem readsInside_of_strncpy (hm : Holds m data) {s : CStr} (hs : strncpy data n d = .ok s) :
    ReadsInside m (fun _ c => c = 0) d n := by
  induction n generalizing d s with
  | zero => exact fun i hi => absurd hi i.not_lt_zero
  | succ n ih =>
    obtain ⟨c, hc, hrest⟩ := except_bind_ok hs
    have hd := lt_of_byte hc
    rw [byte_ok hm hd] at hc
    cases hc
    refine readsInside_succ.mpr ⟨hd, fun hzero => ?_⟩
    rw [if_neg hzero] at hrest
    obtain ⟨s', hs', -⟩ := except_bind_ok hrest
    exact ih hs'

theorem strncmpEq_ok (hm : Holds m data)
    (hreads : ReadsInside m (fun i c => c ≠ name.getD i 0) d name.length) :
    Checked.strncmpEq data name d = .ok (decide (m.bytes d name.length = name)) := by
  induction name generalizing d with
  | nil => rfl
  | cons c name ih =>
    obtain ⟨hd, hrest⟩ := readsInside_succ.mp hreads
    rw [Checked.strncmpEq, byte_ok hm hd, List.length_cons, Mem.bytes_succ]
    by_cases heq : m d = c
    · show (if m d = c then _ else _) = _
      rw [if_pos heq, ih (hrest (not_not_intro heq))]
      exact congrArg Except.ok (decide_eq_decide.mpr (by simp [heq]))
    · show (if m d = c then _ else _) = _
      rw [if_neg heq]
      exact congrArg Except.ok (decide_eq_false (by simp [heq])).symm

theorem readsInside_of_strncmpEq (hm : Holds m data) {b : Bool}
    (hb : Checked.strncmpEq data name d = .ok b) :
    ReadsInside m (fun i c => c ≠ name.getD i 0) d name.length := by
  induction name generalizing d with
  | nil => exact fun i hi => absurd hi i.not_lt_zero
  | cons c name ih =>
    obtain ⟨c', hc, hrest⟩ := except_bind_ok hb
    have hd := lt_of_byte hc
    rw [byte_ok hm hd] at hc
    cases hc
    refine readsInside_succ.mpr ⟨hd, fun heq => ?_⟩
    have heq' : m d = c := not_not.mp heq
    rw [if_pos heq'] at hrest
    exact ih hrest

theorem putName_ok (hm : Holds m data) (hd : d + n ≤ blockBytes) :
    putName data n d = .ok (m.bytes d n) := by
  induction n generalizing d with
  | zero => rfl
  | succ n ih =>
    rw [putName, byte_ok hm (by omega), Mem.bytes_succ]
    show Except.bind (putName data n (d + 1)) _ = _
    rw [ih (by omega)]
    rfl

theorem le_of_putName {s : CStr} (hd : d ≤ blockBytes) (hs : putName data n d = .ok s) :
    d + n ≤ blockBytes := by
  induction n generalizing d s with
  | zero => exact hd
  | succ n ih =>
    obtain ⟨c, hc, hrest⟩ := except_bind_ok hs
    obtain ⟨s', hs', -⟩ := except_bind_ok hrest
    have := ih (lt_of_byte hc) hs'
    omega

/-! ## Rounds -/

theorem nextRecord_of_lt (hd : d < blockBytes) :
    nextRecord data d = some (d + (Disk.dirGetreclen (blockMem data) d).toNat) := if_pos hd

theorem nextRecord_eq_none_iff : nextRecord data d = none ↔ ¬d < blockBytes := by
  rw [nextRecord, ite_eq_right_iff]
  exact forall_congr' fun _ => iff_false_intro (Option.some_ne_none _)

/-- What `parse_block_dir` reads of a record lies in the block. -/
def ParseReads (m : Mem) (d : Nat) : Prop :=
  d + 8 ≤ blockBytes ∧
    ReadsInside m (fun _ c => c = 0) (d + 8) (Disk.dirGetnamelen m d).toNat

theorem dirGetnamelen_ok (hm : Holds m data) (hd : d + 8 ≤ blockBytes) :
    Checked.dirGetnamelen data d = .ok (Disk.dirGetnamelen m d) := byte_ok hm (by omega)

theorem parseRound_more (hm : Holds m data) {i : Nat} (hd : d < blockBytes) (hi : i < dirMax)
    (hreads : ParseReads m d) :
    parseRound data blockBytes (i, d) =
      .ok (.more (parseEntry m d) (i + 1, d + (Disk.dirGetreclen m d).toNat)) := by
  obtain ⟨hheader, hname⟩ := hreads
  rw [parseRound, if_pos hd, if_neg (Nat.not_le.mpr hi), Checked.dirGetinode,
    u32_ok hm (by omega), Checked.dirGettype, byte_ok hm (by omega), Checked.parseName,
    dirGetnamelen_ok hm hheader, Checked.dirGetreclen, u16_ok hm (by omega)]
  show Except.bind (strncpy data (Disk.dirGetnamelen m d).toNat (d + 8)) _ = _
  rw [strncpy_ok hm hname]
  rfl

theorem of_parseRound (hm : Holds m data) {i : Nat} {r : Round (Nat × Nat) DirEntry Unit}
    (hd : d < blockBytes) (hr : parseRound data blockBytes (i, d) = .ok r) :
    i < dirMax ∧ ParseReads m d := by
  rw [parseRound, if_pos hd] at hr
  have hi : i < dirMax := by
    by_contra hi
    rw [if_pos (Nat.not_lt.mp hi)] at hr
    cases hr
  rw [if_neg (Nat.not_le.mpr hi)] at hr
  obtain ⟨inode, -, hr⟩ := except_bind_ok hr
  obtain ⟨type, htype, hr⟩ := except_bind_ok hr
  obtain ⟨pathElem, hname, hr⟩ := except_bind_ok hr
  have hheader : d + 8 ≤ blockBytes := lt_of_byte htype
  rw [Checked.parseName, dirGetnamelen_ok hm hheader] at hname
  exact ⟨hi, hheader, readsInside_of_strncpy hm hname⟩

/-- What `xa_linux_ext2_finddir` reads of a record lies in the block. -/
def FindReads (m : Mem) (name : CStr) (d : Nat) : Prop :=
  d + 7 ≤ blockBytes ∧ (name.length = (Disk.dirGetnamelen m d).toNat →
    ReadsInside m (fun i c => c ≠ name.getD i 0) (d + 8) name.length)

theorem finddirRound_eq (hm : Holds m data) (hd : d < blockBytes) (hreads : FindReads m name d) :
    finddirRound data blockBytes name d =
      if Named m name d then .ok (.done (some d))
      else .ok (.more () (d + (Disk.dirGetreclen m d).toNat)) := by
  obtain ⟨hheader, hname⟩ := hreads
  have hlen : Checked.dirGetnamelen data d = .ok (Disk.dirGetnamelen m d) :=
    byte_ok hm (Nat.lt_of_succ_le hheader)
  have hrec : Checked.dirGetreclen data d = .ok (Disk.dirGetreclen m d) := u16_ok hm (by omega)
  rw [finddirRound, if_pos hd, hlen, hrec]
  by_cases heq : name.length = (Disk.dirGetnamelen m d).toNat
  · show (if name.length = (Disk.dirGetnamelen m d).toNat then
      Except.bind (Checked.strncmpEq data name (d + 8)) _ else _) = _
    rw [if_pos heq, strncmpEq_ok hm (hname heq)]
    by_cases hsame : m.bytes (d + 8) name.length = name
    · rw [if_pos (show Named m name d from ⟨heq, hsame⟩), decide_eq_true hsame]
      rfl
    · rw [if_neg (show ¬Named m name d from fun h => hsame h.2), decide_eq_false hsame]
      rfl
  · show (if name.length = (Disk.dirGetnamelen m d).toNat then _ else _) = _
    rw [if_neg heq, if_neg (show ¬Named m name d from fun h => heq h.1)]
    rfl

theorem of_finddirRound (hm : Holds m data) {r : Round Nat Unit (Option Nat)}
    (hd : d < blockBytes) (hr : finddirRound data blockBytes name d = .ok r) :
    FindReads m name d := by
  rw [finddirRound, if_pos hd] at hr
  obtain ⟨len, hlen, hr⟩ := except_bind_ok hr
  have hheader : d + 7 ≤ blockBytes := lt_of_byte hlen
  have hlen' : Checked.dirGetnamelen data d = .ok (Disk.dirGetnamelen m d) := byte_ok hm hheader
  obtain rfl := Except.ok.inj (hlen'.symm.trans hlen)
  refine ⟨hheader, fun heq => ?_⟩
  rw [if_pos heq] at hr
  obtain ⟨found, hfound, -⟩ := except_bind_ok hr
  exact readsInside_of_strncmpEq hm hfound

/-- What `xa_linux_ext2_listdirs` reads of a record lies in the block. -/
def ListReads (m : Mem) (d : Nat) : Prop :=
  d + 8 + (Disk.dirGetnamelen m d).toNat ≤ blockBytes

theorem listdirsRound_more (hm : Holds m data) (hd : d < blockBytes) (hreads : ListReads m d) :
    ∃ line, listdirsRound data blockBytes d =
      .ok (.more line (d + (Disk.dirGetreclen m d).toNat)) := by
  have hheader : d + 8 ≤ blockBytes := Nat.le_trans (Nat.le_add_right _ _) hreads
  rw [listdirsRound, if_pos hd, dirGetnamelen_ok hm hheader, Checked.dirGetinode,
    u32_ok hm (by omega), Checked.dirGettype, byte_ok hm (by omega), Checked.dirGetreclen,
    u16_ok hm (by omega)]
  show ∃ line, Except.bind (putName data (Disk.dirGetnamelen m d).toNat (d + 8)) _ = _
  rw [putName_ok hm hreads]
  exact ⟨_, rfl⟩

theorem of_listdirsRound (hm : Holds m data) {r : Round Nat DirLine Unit}
    (hd : d < blockBytes) (hr : listdirsRound data blockBytes d = .ok r) : ListReads m d := by
  rw [listdirsRound, if_pos hd] at hr
  obtain ⟨len, hlen, hr⟩ := except_bind_ok hr
  obtain ⟨name, hname, hr⟩ := except_bind_ok hr
  obtain ⟨inode, -, hr⟩ := except_bind_ok hr
  obtain ⟨type, htype, -⟩ := except_bind_ok hr
  have hheader : d + 8 ≤ blockBytes := lt_of_byte htype
  rw [dirGetnamelen_ok hm hheader] at hlen
  cases hlen
  exact le_of_putName hheader hname

/-! ## Walks -/

theorem nextRecord_eq_some {d' : Nat} (hd : nextRecord data d = some d') :
    d < blockBytes ∧ d' = d + (Disk.dirGetreclen (blockMem data) d).toNat := by
  by_cases hlt : d < blockBytes
  · rw [nextRecord_of_lt hlt] at hd
    exact ⟨hlt, (Option.some.inj hd).symm⟩
  · rw [nextRecord_eq_none_iff.mpr hlt] at hd
    cases hd

/-- A walk that follows the lengths of the records ends when no record it leaves has length
`0`. -/
theorem ends_iff_moves {next : Nat → Option Nat} {s : Nat}
    (hnext : ∀ d d', next d = some d' → nextRecord data d = some d') :
    Ends next s ↔ ∀ n d d', nth next s n = some d → next d = some d' →
      (Disk.dirGetreclen (blockMem data) d).toNat ≠ 0 := by
  constructor
  · intro hends n d d' hn hd hzero
    obtain ⟨-, rfl⟩ := nextRecord_eq_some (hnext d d' hd)
    rw [hzero] at hd
    exact hends.next_ne hn hd
  · intro hmoves
    apply ends_of_increasing id blockBytes
    intro n d d' hn hd
    obtain ⟨hlt, rfl⟩ := nextRecord_eq_some (hnext d d' hd)
    have := hmoves n d _ hn hd
    exact ⟨hlt, by show d < d + _; omega⟩

/-! ## `parse_block_dir` -/

/-- The next entry, and the record it is made of. -/
def nextEntry (data : Block) (s : Nat × Nat) : Option (Nat × Nat) :=
  (nextRecord data s.2).map fun d => (s.1 + 1, d)

theorem nth_nextEntry (data : Block) (n : Nat) :
    nth (nextEntry data) (0, 0) n = (nth (nextRecord data) 0 n).map fun d => (n, d) := by
  induction n with
  | zero => rfl
  | succ n ih =>
    show (nth (nextEntry data) (0, 0) n).bind (nextEntry data) = _
    rw [ih]
    show _ = ((nth (nextRecord data) 0 n).bind (nextRecord data)).map _
    cases nth (nextRecord data) 0 n with
    | none => rfl
    | some d => rfl

theorem parseRound_follows (data : Block) :
    Follows (parseRound data blockBytes) (nextEntry data)
      fun s => s.2 < blockBytes → s.1 < dirMax ∧ ParseReads (blockMem data) s.2 where
  done := by
    rintro ⟨i, d⟩ - hnone
    have hd : ¬d < blockBytes := nextRecord_eq_none_iff.mp (Option.map_eq_none_iff.mp hnone)
    exact ⟨(), by rw [parseRound, if_neg hd]; rfl⟩
  more := by
    rintro ⟨i, d⟩ s' hgood hsome
    obtain ⟨d', hd', rfl⟩ := Option.map_eq_some_iff.mp hsome
    obtain ⟨hd, rfl⟩ := nextRecord_eq_some hd'
    obtain ⟨hi, hreads⟩ := hgood hd
    exact ⟨_, parseRound_more (holds_blockMem data) hd hi hreads⟩
  good := by
    rintro ⟨i, d⟩ r hr hd
    exact of_parseRound (holds_blockMem data) hd hr

/-- **When `parse_block_dir` ends in the block.** -/
theorem parseBlockDir_ends_iff (data : Block) :
    (∃ rounds r, Checked.parseBlockDir data blockBytes rounds = .ok r) ↔
      ∀ n d, ComesTo data n d → n < dirMax ∧ ParseReads (blockMem data) d := by
  refine (parseRound_follows data).finishes_iff.trans ⟨fun h n d hn => ?_, fun h => ?_⟩
  · exact h.2 n (n, d) (by rw [nth_nextEntry, hn.1]; rfl) hn.2
  · have hwalk : ∀ n s, nth (nextEntry data) (0, 0) n = some s →
        s.2 < blockBytes → s.1 < dirMax ∧ ParseReads (blockMem data) s.2 := by
      intro n s hs hlt
      rw [nth_nextEntry] at hs
      obtain ⟨d, hd, rfl⟩ := Option.map_eq_some_iff.mp hs
      exact h n d ⟨hd, hlt⟩
    refine ⟨ends_of_increasing Prod.fst dirMax fun n s s' hs hs' => ?_, hwalk⟩
    obtain ⟨d', hd', rfl⟩ := Option.map_eq_some_iff.mp hs'
    exact ⟨(hwalk n s hs (nextRecord_eq_some hd').1).1, Nat.lt_succ_self s.1⟩

/-! ## `xa_linux_ext2_finddir` -/

/-- The record the search goes on with. -/
def nextUnnamed (data : Block) (name : CStr) (d : Nat) : Option Nat :=
  if Named (blockMem data) name d then none else nextRecord data d

theorem nextUnnamed_eq_some {d' : Nat} (hd : nextUnnamed data name d = some d') :
    ¬Named (blockMem data) name d ∧ nextRecord data d = some d' := by
  by_cases hnamed : Named (blockMem data) name d
  · rw [nextUnnamed, if_pos hnamed] at hd
    cases hd
  · rw [nextUnnamed, if_neg hnamed] at hd
    exact ⟨hnamed, hd⟩

/-- The search for a name comes to the record at `d`. -/
def SearchComesTo (data : Block) (name : CStr) (d : Nat) : Prop :=
  (∃ n, nth (nextUnnamed data name) 0 n = some d) ∧ d < blockBytes

theorem finddirRound_follows (data : Block) (name : CStr) :
    Follows (finddirRound data blockBytes name) (nextUnnamed data name)
      fun d => d < blockBytes → FindReads (blockMem data) name d where
  done := by
    intro d hgood hnone
    by_cases hd : d < blockBytes
    · have hnamed : Named (blockMem data) name d := by
        by_contra hnamed
        rw [nextUnnamed, if_neg hnamed] at hnone
        exact nextRecord_eq_none_iff.mp hnone hd
      exact ⟨some d, by rw [finddirRound_eq (holds_blockMem data) hd (hgood hd), if_pos hnamed]⟩
    · exact ⟨none, by rw [finddirRound, if_neg hd]; rfl⟩
  more := by
    intro d d' hgood hsome
    obtain ⟨hnamed, hnext⟩ := nextUnnamed_eq_some hsome
    obtain ⟨hd, rfl⟩ := nextRecord_eq_some hnext
    exact ⟨(), by rw [finddirRound_eq (holds_blockMem data) hd (hgood hd), if_neg hnamed]⟩
  good := fun d r hr hd => of_finddirRound (holds_blockMem data) hd hr

/-- **When `xa_linux_ext2_finddir` ends in the block.** -/
theorem finddir_ends_iff (data : Block) (name : CStr) :
    (∃ rounds r, Checked.finddir data blockBytes name rounds = .ok r) ↔
      ∀ d, SearchComesTo data name d → FindReads (blockMem data) name d ∧
        (Named (blockMem data) name d ∨ (Disk.dirGetreclen (blockMem data) d).toNat ≠ 0) := by
  refine (finddirRound_follows data name).finishes_iff.trans ?_
  rw [ends_iff_moves fun d d' hd => (nextUnnamed_eq_some hd).2]
  constructor
  · rintro ⟨hmoves, hgood⟩ d ⟨⟨n, hn⟩, hd⟩
    refine ⟨hgood n d hn hd, or_iff_not_imp_left.mpr fun hnamed => ?_⟩
    exact hmoves n d _ hn ((if_neg hnamed).trans (nextRecord_of_lt hd))
  · intro h
    refine ⟨fun n d d' hn hd => ?_, fun n d hn hd => (h d ⟨⟨n, hn⟩, hd⟩).1⟩
    obtain ⟨hnamed, hnext⟩ := nextUnnamed_eq_some hd
    exact (h d ⟨⟨n, hn⟩, (nextRecord_eq_some hnext).1⟩).2.resolve_left hnamed

/-! ## `xa_linux_ext2_listdirs` -/

theorem listdirsRound_follows (data : Block) :
    Follows (listdirsRound data blockBytes) (nextRecord data)
      fun d => d < blockBytes → ListReads (blockMem data) d where
  done := by
    intro d _ hnone
    exact ⟨(), by rw [listdirsRound, if_neg (nextRecord_eq_none_iff.mp hnone)]; rfl⟩
  more := by
    intro d d' hgood hsome
    obtain ⟨hd, rfl⟩ := nextRecord_eq_some hsome
    exact listdirsRound_more (holds_blockMem data) hd (hgood hd)
  good := fun d r hr hd => of_listdirsRound (holds_blockMem data) hd hr

/-- **When `xa_linux_ext2_listdirs` ends in the block.** -/
theorem listdirs_ends_iff (data : Block) :
    (∃ rounds r, Checked.listdirs data blockBytes rounds = .ok r) ↔
      ∀ n d, ComesTo data n d → ListReads (blockMem data) d ∧
        (Disk.dirGetreclen (blockMem data) d).toNat ≠ 0 := by
  refine (listdirsRound_follows data).finishes_iff.trans ?_
  rw [ends_iff_moves fun d d' hd => hd]
  constructor
  · rintro ⟨hmoves, hgood⟩ n d ⟨hn, hd⟩
    exact ⟨hgood n d hn hd, hmoves n d _ hn (nextRecord_of_lt hd)⟩
  · intro h
    refine ⟨fun n d d' hn hd => ?_, fun n d hn hd => (h n d ⟨hn, hd⟩).1⟩
    exact (h n d ⟨hn, (nextRecord_eq_some hd).1⟩).2

/-! ## The same results

A scan that ends in the block gives what the functions without checks give, in any memory that
holds the block.
-/

theorem parseLoop_of_run (hm : Holds m data) {rounds i : Nat} {l : List DirEntry} {u : Unit}
    (hi : i ≤ dirMax) (hr : run (parseRound data blockBytes) .late rounds (i, d) = .ok (l, u)) :
    parseLoop m blockBytes (dirMax - i) d = .ok l := by
  induction rounds generalizing i d l with
  | zero => cases hr
  | succ rounds ih =>
    by_cases hd : d < blockBytes
    · obtain ⟨r, hround⟩ := round_of_run hr
      obtain ⟨hlt, hreads⟩ := of_parseRound hm hd hround
      obtain ⟨⟨l', u'⟩, hrest, heq⟩ := of_run_more (parseRound_more hm hd hlt hreads) hr
      cases heq
      rw [show dirMax - i = dirMax - (i + 1) + 1 by omega, parseLoop, if_pos hd, ih hlt hrest]
      rfl
    · have hround : parseRound data blockBytes (i, d) = .ok (.done ()) := by
        rw [parseRound, if_neg hd]
        rfl
      cases of_run_done hround hr
      cases dirMax - i with
      | zero => rw [parseLoop, if_neg hd]
      | succ k => rw [parseLoop, if_neg hd]

theorem parseBlockDir_of_checked (hm : Holds m data) {rounds : Nat} {l : List DirEntry} {u : Unit}
    (hr : Checked.parseBlockDir data blockBytes rounds = .ok (l, u)) :
    Disk.parseBlockDir m blockBytes = .ok l :=
  parseLoop_of_run hm (Nat.zero_le dirMax) hr

theorem finddirLoop_of_run (hm : Holds m data) (hname : 0 ∉ name) {rounds k : Nat} {l : List Unit}
    {r : Option Nat} (hk : blockBytes ≤ d + k)
    (hr : run (finddirRound data blockBytes name) .late rounds d = .ok (l, r)) :
    finddirLoop m name blockBytes k d = .ok r := by
  induction rounds generalizing d k l with
  | zero => cases hr
  | succ rounds ih =>
    by_cases hd : d < blockBytes
    · obtain ⟨k, rfl⟩ : ∃ k', k = k' + 1 := Nat.exists_eq_add_one.mpr (by omega)
      rw [finddirLoop_succ hname blockBytes k hd]
      obtain ⟨r', hround⟩ := round_of_run hr
      have heq := finddirRound_eq hm hd (of_finddirRound hm hd hround)
      by_cases hnamed : Named m name d
      · rw [if_pos hnamed] at heq ⊢
        cases of_run_done heq hr
        rfl
      · rw [if_neg hnamed] at heq ⊢
        obtain ⟨⟨l', r'⟩, hrest, hl⟩ := of_run_more heq hr
        cases hl
        by_cases hzero : (Disk.dirGetreclen m d).toNat = 0
        · -- the next round is at the same record
          rw [hzero, Nat.add_zero] at hrest
          have hagain := ih hk hrest
          rwa [finddirLoop_succ hname blockBytes k hd, if_neg hnamed] at hagain
        · exact ih (by omega) hrest
    · have hround : finddirRound data blockBytes name d = .ok (.done none) := by
        rw [finddirRound, if_neg hd]
        rfl
      cases of_run_done hround hr
      cases k with
      | zero => rw [finddirLoop, if_neg hd]
      | succ k => rw [finddirLoop, if_neg hd]

theorem finddir_of_checked (hm : Holds m data) (hname : 0 ∉ name) {rounds : Nat} {l : List Unit}
    {r : Option Nat} (hr : Checked.finddir data blockBytes name rounds = .ok (l, r)) :
    Disk.finddir m name (BitVec.ofNat 16 blockBytes) = .ok r := by
  have hsize : (BitVec.ofNat 16 blockBytes).toInt.toNat = blockBytes := by decide
  rw [Disk.finddir, hsize]
  exact finddirLoop_of_run hm hname (Nat.le_add_left _ _) hr

/-! ## All three -/

/-- The search for a name comes only to records that the whole scan comes to. -/
theorem nth_nextRecord_of_nextUnnamed (hn : nth (nextUnnamed data name) 0 n = some d) :
    nth (nextRecord data) 0 n = some d := by
  induction n generalizing d with
  | zero => exact hn
  | succ n ih =>
    obtain ⟨x, hx, hxd⟩ := Option.bind_eq_some_iff.mp hn
    show (nth (nextRecord data) 0 n).bind (nextRecord data) = some d
    rw [ih hx]
    exact (nextUnnamed_eq_some hxd).2

/-- **When the scans of a block end in the block.** Exactly if each record that is come to has a
length, has its header and name in the block, and has an entry of the table. -/
theorem scansInside_iff (data : Block) : ScansInside data ↔ FitRecords data := by
  constructor
  · rintro ⟨hparse, -, hlist⟩
    rw [parseBlockDir_ends_iff] at hparse
    rw [listdirs_ends_iff] at hlist
    exact ⟨fun n d hd => (hlist n d hd).2, fun n d hd => (hlist n d hd).1,
      fun n d hd => (hparse n d hd).1⟩
  · rintro ⟨hmoves, hinside, hfew⟩
    have hheader (n d : Nat) (hd : ComesTo data n d) : d + 8 ≤ blockBytes :=
      Nat.le_trans (Nat.le_add_right _ _) (hinside n d hd)
    refine ⟨(parseBlockDir_ends_iff data).mpr fun n d hd => ?_, fun name => ?_,
      (listdirs_ends_iff data).mpr fun n d hd => ⟨hinside n d hd, hmoves n d hd⟩⟩
    · exact ⟨hfew n d hd, hheader n d hd, readsInside_of_le (hinside n d hd)⟩
    · apply (finddir_ends_iff data name).mpr
      rintro d ⟨⟨n, hn⟩, hlt⟩
      have hd : ComesTo data n d := ⟨nth_nextRecord_of_nextUnnamed hn, hlt⟩
      refine ⟨⟨Nat.le_of_succ_le (hheader n d hd), fun hlen => readsInside_of_le ?_⟩,
        .inr (hmoves n d hd)⟩
      rw [hlen]
      exact hinside n d hd

/-- A block of zeros, with a record of length `0` at its start. -/
def zeroBlock : Block := fun _ => 0

/-- In a block of zeros the scans stay at the first record for ever. -/
theorem zeroBlock_not_scansInside :
    (∀ rounds, Checked.listdirs zeroBlock blockBytes rounds = .error .late) ∧
      (∀ rounds, Checked.finddir zeroBlock blockBytes (cstr "a") rounds = .error .late) ∧
      ¬ScansInside zeroBlock := by
  have hlist (rounds : Nat) : Checked.listdirs zeroBlock blockBytes rounds = .error .late := by
    induction rounds with
    | zero => rfl
    | succ rounds ih =>
      have hround : listdirsRound zeroBlock blockBytes 0 = .ok (.more ⟨[], 0, 0, 0, 0⟩ 0) := rfl
      rw [Checked.listdirs] at ih ⊢
      rw [run_more rounds hround, ih]
      rfl
  have hfind (rounds : Nat) :
      Checked.finddir zeroBlock blockBytes (cstr "a") rounds = .error .late := by
    induction rounds with
    | zero => rfl
    | succ rounds ih =>
      have hround : finddirRound zeroBlock blockBytes (cstr "a") 0 = .ok (.more () 0) := rfl
      rw [Checked.finddir] at ih ⊢
      rw [run_more rounds hround, ih]
      rfl
  refine ⟨hlist, hfind, fun hscans => ?_⟩
  obtain ⟨rounds, r, hr⟩ := hscans.list
  rw [hlist rounds] at hr
  cases hr

end XenAccess.Disk
