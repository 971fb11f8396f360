import Mathlib.Data.List.GetD
import XenAccess.Lib.Bits
import XenAccess.Model.DiskMonitor

/-!
# Records in the FIFO

The drivers write records of `BUFSIZE` bytes, the monitor reads at most `BUFSIZE` bytes at a
time and takes each result of `read` for a record. So it obtains what was written exactly when
every `read` returns one whole record.
-/

namespace XenAccess.Disk

/-- A write of the guest: the memory from its data on, and the old content of the array in
which the driver makes the record. -/
structure GuestWrite where
  sector : U64
  nbSectors : U32
  buf : Mem
  stack : Mem

namespace GuestWrite

/-- The bytes the driver sends. -/
def bytes (w : GuestWrite) : List U8 := tdlogQueueWrite w.stack w.sector w.nbSectors w.buf

/-- The operation that was written. -/
def op (w : GuestWrite) : BlockOp where
  op := 1
  sector := w.sector
  nbSectors := w.nbSectors
  data i := w.buf i.val

end GuestWrite

/-- The results of successive calls of `read` deliver the records in order. -/
structure Delivers (writes : List GuestWrite) (reads : List (List U8)) : Prop where
  pos : ∀ r ∈ reads, 1 ≤ r.length
  le : ∀ r ∈ reads, r.length ≤ bufSize
  stream : reads.flatten = (writes.map GuestWrite.bytes).flatten

/-! ## One record -/

@[simp] theorem leBytes_length {w : Nat} (v : BitVec w) (n : Nat) : (leBytes v n).length = n := by
  simp [leBytes]

@[simp] theorem bytes_length (m : Mem) (d n : Nat) : (m.bytes d n).length = n := by
  simp [Mem.bytes]

theorem leBytes_getD {w : Nat} (v : BitVec w) {n i : Nat} (hi : i < n) (b : U8) :
    (leBytes v n).getD i b = (v >>> (8 * i)).setWidth 8 := by
  simp [leBytes, List.getD, hi]

theorem bytes_getD (m : Mem) (d : Nat) {n i : Nat} (hi : i < n) (b : U8) :
    (m.bytes d n).getD i b = m (d + i) := by
  simp [Mem.bytes, List.getD, hi]

theorem GuestWrite.bytes_length (w : GuestWrite) : w.bytes.length = bufSize := by
  simp [GuestWrite.bytes, tdlogQueueWrite, blockBytes, bufSize]

/-- A record starts with the operation code, the two numbers and the data. -/
theorem GuestWrite.bytes_eq (w : GuestWrite) :
    ∃ rest, w.bytes = [1] ++ (leBytes w.sector 8 ++ (leBytes w.nbSectors 4 ++
      (w.buf.bytes 0 blockBytes ++ rest))) := by
  refine ⟨w.stack.bytes (13 + blockBytes) (bufSize - 13 - blockBytes), ?_⟩
  rw [GuestWrite.bytes, tdlogQueueWrite, List.append_assoc, List.append_assoc, List.append_assoc]

theorem getD_append_add {l₁ l₂ : List U8} {n i : Nat} {b : U8} (hn : l₁.length = n) :
    (l₁ ++ l₂).getD (n + i) b = l₂.getD i b := by
  rw [List.getD_append_right _ _ _ _ (by omega), hn, Nat.add_sub_cancel_left]

theorem op_length : ([1] : List U8).length = 1 := rfl

variable {w : GuestWrite} {b : U8}

theorem GuestWrite.bytes_op : w.bytes.getD 0 b = 1 := by
  obtain ⟨rest, hw⟩ := w.bytes_eq
  rw [hw]
  rfl

theorem GuestWrite.bytes_sector {i : Nat} (hi : i < 8) :
    w.bytes.getD (1 + i) b = (w.sector >>> (8 * i)).setWidth 8 := by
  obtain ⟨rest, hw⟩ := w.bytes_eq
  rw [hw, getD_append_add op_length, List.getD_append _ _ _ _ (by simpa using hi), leBytes_getD w.sector hi]

theorem GuestWrite.bytes_nbSectors {i : Nat} (hi : i < 4) :
    w.bytes.getD (9 + i) b = (w.nbSectors >>> (8 * i)).setWidth 8 := by
  obtain ⟨rest, hw⟩ := w.bytes_eq
  rw [hw, show 9 + i = 1 + (8 + i) by omega, getD_append_add op_length,
    getD_append_add (leBytes_length w.sector 8), List.getD_append _ _ _ _ (by simpa using hi),
    leBytes_getD w.nbSectors hi]

theorem GuestWrite.bytes_data {i : Nat} (hi : i < blockBytes) :
    w.bytes.getD (13 + i) b = w.buf i := by
  obtain ⟨rest, hw⟩ := w.bytes_eq
  rw [hw, show 13 + i = 1 + (8 + (4 + i)) by omega, getD_append_add op_length,
    getD_append_add (leBytes_length w.sector 8), getD_append_add (leBytes_length w.nbSectors 4),
    List.getD_append _ _ _ _ (by simpa using hi), bytes_getD w.buf 0 hi, Nat.zero_add]

/-- What the monitor makes of a whole record. -/
theorem parseOp_bytes (w : GuestWrite) (buf : Mem) : parseOp (readInto w.bytes buf) = w.op := by
  have hsector (i : Nat) (hi : i < 8) :
      readInto w.bytes buf (1 + i) = (w.sector >>> (8 * i)).setWidth 8 :=
    GuestWrite.bytes_sector hi
  have hnb (i : Nat) (hi : i < 4) :
      readInto w.bytes buf (9 + i) = (w.nbSectors >>> (8 * i)).setWidth 8 :=
    GuestWrite.bytes_nbSectors hi
  have h64 : (parseOp (readInto w.bytes buf)).sector = w.sector := by
    refine Eq.trans ?_ (Bits.word64_of_bytes w.sector)
    rw [← hsector 7 (by omega), ← hsector 6 (by omega), ← hsector 5 (by omega),
      ← hsector 4 (by omega), ← hsector 3 (by omega), ← hsector 2 (by omega),
      ← hsector 1 (by omega), ← hsector 0 (by omega)]
    rfl
  have h32 : (parseOp (readInto w.bytes buf)).nbSectors = w.nbSectors := by
    refine Eq.trans ?_ (Bits.word32_of_bytes w.nbSectors)
    rw [← hnb 3 (by omega), ← hnb 2 (by omega), ← hnb 1 (by omega), ← hnb 0 (by omega)]
    rfl
  have hop : (parseOp (readInto w.bytes buf)).op = w.op.op :=
    GuestWrite.bytes_op (w := w) (b := buf 0)
  have hdata : (parseOp (readInto w.bytes buf)).data = w.op.data := by
    funext i
    exact GuestWrite.bytes_data i.isLt
  exact BlockOp.ext hop h64 h32 hdata

/-! ## Streams -/

theorem obtained_length (buf : Mem) (reads : List (List U8)) :
    (obtained buf reads).length = reads.length := by
  induction reads generalizing buf with
  | nil => rfl
  | cons r reads ih => rw [obtained, List.length_cons, ih, List.length_cons]

theorem stream_length (writes : List GuestWrite) :
    (writes.map GuestWrite.bytes).flatten.length = bufSize * writes.length := by
  induction writes with
  | nil => rfl
  | cons w writes ih =>
    rw [List.map_cons, List.flatten_cons, List.length_append, ih, w.bytes_length, List.length_cons,
      Nat.mul_succ, Nat.add_comm]

theorem length_flatten_le {reads : List (List U8)} {n : Nat} (hle : ∀ r ∈ reads, r.length ≤ n) :
    reads.flatten.length ≤ n * reads.length := by
  induction reads with
  | nil => exact Nat.zero_le _
  | cons r reads ih =>
    have hr := hle r List.mem_cons_self
    have hrest := ih fun r hr => hle r (List.mem_cons_of_mem _ hr)
    rw [List.flatten_cons, List.length_append, List.length_cons, Nat.mul_succ]
    omega

/-- Pieces of at most `n` bytes that have `n` bytes each on the average. -/
theorem length_eq_of_flatten {reads : List (List U8)} {n : Nat} (hle : ∀ r ∈ reads, r.length ≤ n)
    (htotal : reads.flatten.length = n * reads.length) : ∀ r ∈ reads, r.length = n := by
  induction reads with
  | nil => simp
  | cons r reads ih =>
    have hr := hle r List.mem_cons_self
    have hle' : ∀ r ∈ reads, r.length ≤ n := fun r hr => hle r (List.mem_cons_of_mem _ hr)
    have hrest := length_flatten_le hle'
    rw [List.flatten_cons, List.length_append, List.length_cons, Nat.mul_succ] at htotal
    intro q hq
    rcases List.mem_cons.mp hq with rfl | hq
    · omega
    · exact ih hle' (by omega) q hq

/-- Reads of one record each. -/
theorem obtained_of_whole {writes : List GuestWrite} {reads : List (List U8)}
    (hd : Delivers writes reads) (hwhole : ∀ r ∈ reads, r.length = bufSize) (buf : Mem) :
    obtained buf reads = writes.map GuestWrite.op := by
  induction writes generalizing reads buf with
  | nil =>
    cases reads with
    | nil => rfl
    | cons r reads =>
      have hpos := hd.pos r List.mem_cons_self
      have hnil : r ++ reads.flatten = [] := hd.stream
      rw [(List.append_eq_nil_iff.mp hnil).1] at hpos
      cases hpos
  | cons w writes ih =>
    have hstream : reads.flatten = w.bytes ++ (writes.map GuestWrite.bytes).flatten := hd.stream
    cases reads with
    | nil =>
      have hbytes : w.bytes = [] := (List.append_eq_nil_iff.mp hstream.symm).1
      have hlen := w.bytes_length
      rw [hbytes] at hlen
      cases hlen
    | cons r reads =>
      have hr := hwhole r List.mem_cons_self
      obtain ⟨rfl, hrest⟩ := List.append_inj hstream (hr.trans w.bytes_length.symm)
      have hd' : Delivers writes reads :=
        ⟨fun q hq => hd.pos q (List.mem_cons_of_mem _ hq),
          fun q hq => hd.le q (List.mem_cons_of_mem _ hq), hrest⟩
      rw [obtained, List.map_cons, parseOp_bytes,
        ih hd' fun q hq => hwhole q (List.mem_cons_of_mem _ hq)]

/-- The monitor obtains the operations that were written if and only if every `read` returns
a whole record. -/
theorem obtained_eq_iff (buf : Mem) (writes : List GuestWrite) (reads : List (List U8))
    (hd : Delivers writes reads) :
    obtained buf reads = writes.map GuestWrite.op ↔ ∀ r ∈ reads, r.length = bufSize := by
  constructor
  · intro hobtained
    have hcount : reads.length = writes.length := by
      rw [← obtained_length buf, hobtained, List.length_map]
    refine length_eq_of_flatten hd.le ?_
    rw [hd.stream, stream_length, hcount]
  · intro hwhole
    exact obtained_of_whole hd hwhole buf

/-- A write of one block of zeros. -/
def zeroWrite : GuestWrite where
  sector := 0
  nbSectors := 8
  buf _ := 0
  stack _ := 0

/-- The record of the write, read as a whole. -/
theorem zeroWrite_obtained :
    obtained (fun _ => 0) [zeroWrite.bytes] = [zeroWrite].map GuestWrite.op ↔
      ∀ r ∈ [zeroWrite.bytes], r.length = bufSize :=
  have hlen : ∀ r ∈ [zeroWrite.bytes], r.length = bufSize := by
    intro r hr
    rw [List.mem_singleton.mp hr, zeroWrite.bytes_length]
  obtained_eq_iff (fun _ => 0) [zeroWrite] [zeroWrite.bytes]
    ⟨fun r hr => by rw [hlen r hr]; decide, fun r hr => (hlen r hr).le, rfl⟩

/-- The same record, its first byte read alone. -/
theorem zeroWrite_split_not_obtained :
    Delivers [zeroWrite] [zeroWrite.bytes.take 1, zeroWrite.bytes.drop 1] ∧
      obtained (fun _ => 0) [zeroWrite.bytes.take 1, zeroWrite.bytes.drop 1] ≠
        [zeroWrite].map GuestWrite.op := by
  have hlen := zeroWrite.bytes_length
  constructor
  · constructor
    · intro r hr
      rcases List.mem_cons.mp hr with rfl | hr
      · rw [List.length_take, hlen]
        decide
      · rw [List.mem_singleton.mp hr, List.length_drop, hlen]
        decide
    · intro r hr
      rcases List.mem_cons.mp hr with rfl | hr
      · rw [List.length_take, hlen]
        decide
      · rw [List.mem_singleton.mp hr, List.length_drop, hlen]
        decide
    · simp only [List.flatten_cons, List.flatten_nil, List.append_nil, List.take_append_drop,
        List.map_cons, List.map_nil]
  · intro heq
    have := congrArg List.length heq
    rw [obtained_length] at this
    cases this

end XenAccess.Disk
