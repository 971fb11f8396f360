import XenAccess.Maps.PyxaReaders
import XenAccess.Model.Programs

/-!
# The file that `dump-memory` writes

`dump-memory` goes through the memory of a guest page by page, with a counter of 32 bits. The
file is the memory with zeros for the pages that cannot be mapped, up to the first call of
`fwrite` that writes less than a page. Without such a call the loop ends exactly if the counter
does not wrap, that is for sizes up to `0xFFFFF000` (`dumpMemory_file_iff`).
-/

namespace XenAccess

open Window

variable {h : Host} {p : XaParams} {fwrite : Nat → Nat} {file : List U8} {a k m n : Nat}

/-- The number of pages that start below a size. -/
def pageCount (size : U32) : Nat := (size.toNat + 4095) / 4096

theorem lt_pageCount {size : U32} : k < pageCount size ↔ 4096 * k < size.toNat := by
  rw [pageCount]
  omega

/-! ## One page -/

/-- The round of the loop for a page. -/
def Dumps (p : XaParams) (k : Nat) : Prop := BitVec.ofNat 32 (4096 * k) < p.size

instance (k : Nat) : Decidable (Dumps p k) := inferInstanceAs (Decidable (_ < _))

theorem dumps_iff : Dumps p k ↔ 4096 * k % 2 ^ 32 < p.size.toNat := by
  rw [Dumps, BitVec.lt_def, BitVec.toNat_ofNat]

theorem dumps_of_small (hsmall : p.size ≤ 0xFFFFF000) (hk : k ≤ pageCount p.size) :
    Dumps p k ↔ 4096 * k < p.size.toNat := by
  have hle : p.size.toNat ≤ 0xFFFFF000 := BitVec.le_def.mp hsmall
  have hlt : 4096 * k < 2 ^ 32 := by
    rw [pageCount] at hk
    omega
  rw [dumps_iff, Nat.mod_eq_of_lt hlt]

/-- With a larger size the counter stays below it. -/
theorem dumps_of_large (hlarge : ¬p.size ≤ 0xFFFFF000) (k : Nat) : Dumps p k := by
  have hlt : 0xFFFFF000 < p.size.toNat := Nat.lt_of_not_le fun hle => hlarge (BitVec.le_def.mpr hle)
  have hpage : 4096 * k % 2 ^ 32 % 4096 = 0 := by omega
  rw [dumps_iff]
  omega

section

variable (hps : p.pageSize = 4096) (hshift : p.pageShift = 12)
include hps hshift

omit hps hshift in
/-- The loop behind the last page. -/
theorem dumpLoop_end (hend : ¬Dumps p k) (fuel : Nat) :
    dumpLoop h p fwrite (fuel + 1) k (BitVec.ofNat 32 (4096 * k)) = .ok [] := by
  rw [dumpLoop]
  exact if_neg hend

theorem dumpPage_eq (ha : a % 4096 = 0) :
    dumpPage p (xaAccessPa h p (BitVec.ofNat 32 a) protRead) = window (seenByte h p) a 4096 := by
  have hsize : p.pageSize.toNat = 4096 := by
    rw [hps]
    rfl
  have hlt : a % 2 ^ 32 < 2 ^ 32 := Nat.mod_lt a (by decide)
  have haligned : a % 2 ^ 32 % 4096 = 0 := by omega
  rw [← ofNat_mod]
  cases hacc : xaAccessPa h p (BitVec.ofNat 32 (a % 2 ^ 32)) protRead with
  | none =>
    have hnone : ¬PageMapped h p a := by
      rw [PageMapped, ← ofNat_mod, hacc]
      exact Bool.false_ne_true
    rw [dumpPage, hsize]
    apply replicate_eq_window
    intro i hi
    exact seenByte_unmapped hshift hnone (firstBlock_aligned ha ▸ hi)
  | some acc =>
    have hoffset : acc.offset = 0 := by
      rw [xaAccessPa_offset_eq hps hlt hacc, haligned]
      rfl
    rw [dumpPage, hsize, window]
    apply List.map_congr_left
    intro i hi
    have hroom := List.mem_range.mp hi
    have hsum : (a + i) % 2 ^ 32 = a % 2 ^ 32 + i := by omega
    rw [seenByte, flatByte, hsum, physByte_add hps hshift hlt hacc (by omega), hoffset]
    exact congrArg acc.memory (BitVec.zero_add _).symm

/-- The loop from a page that is dumped. -/
theorem dumpLoop_succ (hdump : Dumps p k) (fuel : Nat) :
    dumpLoop h p fwrite (fuel + 1) k (BitVec.ofNat 32 (4096 * k)) =
      if 4096 ≤ fwrite k then
        (dumpLoop h p fwrite fuel (k + 1) (BitVec.ofNat 32 (4096 * (k + 1)))).map
          (window (seenByte h p) (4096 * k) 4096 ++ ·)
      else .ok (window (seenByte h p) (4096 * k) (fwrite k)) := by
  have hnext : BitVec.ofNat 32 (4096 * k) + p.pageSize = BitVec.ofNat 32 (4096 * (k + 1)) := by
    rw [hps, Nat.mul_succ, BitVec.ofNat_add]
    rfl
  have hsize : p.pageSize.toNat = 4096 := by
    rw [hps]
    rfl
  have hlt : BitVec.ofNat 32 (4096 * k) < p.size := hdump
  rw [dumpLoop, if_pos hlt, dumpPage_eq hps hshift (Nat.mul_mod_right 4096 k), take_window, hnext]
  dsimp only
  rw [length_window, hsize]
  by_cases hfull : 4096 ≤ fwrite k
  · rw [min_eq_right hfull, if_neg (not_not.mpr rfl), if_pos hfull]
    cases dumpLoop h p fwrite fuel (k + 1) (BitVec.ofNat 32 (4096 * (k + 1))) with
    | error e => rfl
    | ok rest => rfl
  · have hlt : fwrite k < 4096 := Nat.lt_of_not_le hfull
    rw [min_eq_left hlt.le, if_pos hlt.ne, if_neg hfull]
    rfl

end

/-! ## The loop -/

/-- The page at which a dump from page `k` on stops, and what it has written by then. -/
inductive Stops (h : Host) (p : XaParams) (fwrite : Nat → Nat) (k : Nat) : Nat → List U8 → Prop
  | size {m : Nat} (hend : ¬Dumps p (k + m)) :
      Stops h p fwrite k m (window (seenByte h p) (4096 * k) (4096 * m))
  | short {m : Nat} (hdump : Dumps p (k + m)) (hshort : fwrite (k + m) < 4096) :
      Stops h p fwrite k m (window (seenByte h p) (4096 * k) (4096 * m + fwrite (k + m)))

theorem Stops.before (hfull : Stops h p fwrite (k + 1) m file) :
    Stops h p fwrite k (m + 1) (window (seenByte h p) (4096 * k) 4096 ++ file) := by
  have hindex : k + 1 + m = k + (m + 1) := by omega
  have hpage (n : Nat) : window (seenByte h p) (4096 * k) 4096 ++
      window (seenByte h p) (4096 * (k + 1)) n = window (seenByte h p) (4096 * k) (4096 + n) := by
    rw [window_add, Nat.mul_succ]
  have hmul : 4096 + 4096 * m = 4096 * (m + 1) := by omega
  cases hfull with
  | size hend =>
    rw [hpage, hmul]
    exact .size (hindex ▸ hend)
  | short hdump hshort =>
    rw [hpage, hindex, ← Nat.add_assoc, hmul]
    exact .short (hindex ▸ hdump) (hindex ▸ hshort)

theorem Stops.of_succ (hstops : Stops h p fwrite k (m + 1) file) :
    ∃ rest, Stops h p fwrite (k + 1) m rest ∧
      file = window (seenByte h p) (4096 * k) 4096 ++ rest := by
  have hindex : k + (m + 1) = k + 1 + m := by omega
  cases hstops with
  | size hend =>
    rw [hindex] at hend
    refine ⟨_, .size hend, ?_⟩
    rw [Nat.mul_succ, Nat.add_comm, window_add, Nat.mul_succ]
  | short hdump hshort =>
    rw [hindex] at hdump hshort
    refine ⟨_, .short hdump hshort, ?_⟩
    rw [hindex, Nat.mul_succ, Nat.add_comm (4096 * m), Nat.add_assoc, window_add, Nat.mul_succ]

/-- What the loop writes: full pages up to the one at which it stops. -/
theorem dumpLoop_ok_iff (hps : p.pageSize = 4096) (hshift : p.pageShift = 12) :
    (∃ fuel, dumpLoop h p fwrite fuel k (BitVec.ofNat 32 (4096 * k)) = .ok file) ↔
      ∃ m, (∀ j < m, Dumps p (k + j) ∧ 4096 ≤ fwrite (k + j)) ∧ Stops h p fwrite k m file := by
  constructor
  · rintro ⟨fuel, hrun⟩
    induction fuel generalizing k file with
    | zero => cases hrun
    | succ fuel ih =>
      by_cases hdump : Dumps p k
      · rw [dumpLoop_succ hps hshift hdump] at hrun
        split at hrun
        · rename_i hfull
          cases hrest : dumpLoop h p fwrite fuel (k + 1) (BitVec.ofNat 32 (4096 * (k + 1))) with
          | error e =>
            rw [hrest] at hrun
            cases hrun
          | ok rest =>
            rw [hrest] at hrun
            obtain rfl : _ ++ rest = file := Except.ok.inj hrun
            obtain ⟨m, hpages, hstops⟩ := ih hrest
            refine ⟨m + 1, fun j hj => ?_, hstops.before⟩
            cases j with
            | zero => exact ⟨hdump, hfull⟩
            | succ j =>
              rw [← Nat.add_assoc, Nat.add_right_comm]
              exact hpages j (Nat.lt_of_succ_lt_succ hj)
        · rename_i hshort
          obtain rfl := Except.ok.inj hrun
          have hstops := Stops.short (h := h) (m := 0) hdump (Nat.lt_of_not_le hshort)
          rw [Nat.mul_zero, Nat.zero_add, Nat.add_zero] at hstops
          exact ⟨0, fun j hj => absurd hj (Nat.not_lt_zero j), hstops⟩
      · rw [dumpLoop_end hdump] at hrun
        cases hrun
        exact ⟨0, fun j hj => absurd hj (Nat.not_lt_zero j), .size hdump⟩
  · rintro ⟨m, hpages, hstops⟩
    induction m generalizing k file with
    | zero =>
      refine ⟨1, ?_⟩
      cases hstops with
      | size hend => exact dumpLoop_end hend 0
      | short hdump hshort =>
        rw [Nat.add_zero] at hdump hshort ⊢
        rw [dumpLoop_succ hps hshift hdump, Nat.mul_zero, Nat.zero_add]
        exact if_neg (Nat.not_le.mpr hshort)
    | succ m ih =>
      obtain ⟨rest, hrest, hfile⟩ := hstops.of_succ
      have hpages' : ∀ j < m, Dumps p (k + 1 + j) ∧ 4096 ≤ fwrite (k + 1 + j) := by
        intro j hj
        rw [Nat.add_assoc, Nat.add_comm 1]
        exact hpages (j + 1) (Nat.succ_lt_succ hj)
      obtain ⟨fuel, hrun⟩ := ih hpages' hrest
      obtain ⟨hdump, hfull⟩ := hpages 0 (Nat.succ_pos m)
      rw [Nat.add_zero] at hdump hfull
      refine ⟨fuel + 1, ?_⟩
      rw [hfile, dumpLoop_succ hps hshift hdump, hrun]
      exact if_pos hfull

/-- A dump whose pages are all written. -/
theorem dumpMemory_full_iff (hps : p.pageSize = 4096) (hshift : p.pageShift = 12)
    (hfull : ∀ k < pageCount p.size, 4096 ≤ fwrite k) (hsmall : p.size ≤ 0xFFFFF000) :
    (∃ fuel, dumpMemory h p fwrite fuel = .ok file) ↔
      file = window (flatByte h p) 0 (4096 * pageCount p.size) := by
  have hle : p.size.toNat ≤ 0xFFFFF000 := BitVec.le_def.mp hsmall
  have hdumps (k : Nat) (hk : k ≤ pageCount p.size) : Dumps p k ↔ k < pageCount p.size := by
    rw [dumps_of_small hsmall hk, lt_pageCount]
  have hflat : window (seenByte h p) 0 (4096 * pageCount p.size) =
      window (flatByte h p) 0 (4096 * pageCount p.size) := by
    rw [window_eq_iff]
    intro i hi
    apply seenByte_of_lt
    rw [pageCount] at hi
    omega
  refine (dumpLoop_ok_iff (k := 0) hps hshift).trans ?_
  constructor
  · rintro ⟨m, hpages, hstops⟩
    -- the loop cannot go beyond the last page, nor stop before it
    have hm : m ≤ pageCount p.size := by
      by_contra hgt
      have hdump := (hpages (pageCount p.size) (Nat.lt_of_not_le hgt)).1
      rw [Nat.zero_add] at hdump
      exact lt_irrefl _ ((hdumps _ le_rfl).mp hdump)
    cases hstops with
    | size hend =>
      rw [Nat.zero_add, hdumps m hm] at hend
      rw [Nat.le_antisymm hm (Nat.le_of_not_lt hend)]
      exact hflat
    | short hdump hshort =>
      rw [Nat.zero_add] at hdump hshort
      exact absurd (hfull m ((hdumps m hm).mp hdump)) (Nat.not_le.mpr hshort)
  · intro hfile
    refine ⟨pageCount p.size, fun j hj => ?_, ?_⟩
    · rw [Nat.zero_add]
      exact ⟨(hdumps j hj.le).mpr hj, hfull j hj⟩
    · rw [hfile, ← hflat]
      refine Stops.size ?_
      rw [Nat.zero_add, hdumps _ le_rfl]
      exact lt_irrefl _

/-- **What `dump-memory` writes.** It ends with a file exactly in one of two cases. Every page that
starts below the size is written, the size is at most `0xFFFFF000`, and the file is the memory
with zeros for what is not mapped. Or `fwrite` writes less than a page for the first time, and the
file is the memory up to there; for larger sizes the dump starts again at address `0` until
that happens. -/
theorem dumpMemory_file_iff (h : Host) (p : XaParams) (fwrite : Nat → Nat) (file : List U8)
    (hps : p.pageSize = 4096) (hshift : p.pageShift = 12) :
    (∃ fuel, dumpMemory h p fwrite fuel = .ok file) ↔
      (p.size ≤ 0xFFFFF000 ∧ (∀ k, 4096 * k < p.size.toNat → 4096 ≤ fwrite k) ∧
        file = window (flatByte h p) 0 (4096 * pageCount p.size)) ∨
      ∃ k, fwrite k < 4096 ∧ (∀ j < k, 4096 ≤ fwrite j) ∧
        (p.size ≤ 0xFFFFF000 → 4096 * k < p.size.toNat) ∧
        file = window (seenByte h p) 0 (4096 * k + fwrite k) := by
  constructor
  · intro hends
    by_cases hfull : p.size ≤ 0xFFFFF000 ∧ ∀ k, 4096 * k < p.size.toNat → 4096 ≤ fwrite k
    · obtain ⟨hsmall, hpages⟩ := hfull
      have hfile := (dumpMemory_full_iff hps hshift (fun k hk => hpages k (lt_pageCount.mp hk))
        hsmall).mp hends
      exact Or.inl ⟨hsmall, hpages, hfile⟩
    · obtain ⟨m, hpages, hstops⟩ := (dumpLoop_ok_iff (k := 0) hps hshift).mp hends
      cases hstops with
      | size hend =>
        rw [Nat.zero_add] at hend
        have hsmall : p.size ≤ 0xFFFFF000 := by
          by_contra hlarge
          exact hend (dumps_of_large hlarge m)
        exfalso
        apply hfull
        refine ⟨hsmall, fun k hk => ?_⟩
        have hm : k < m := by
          by_contra hge
          have hmk : 4096 * m % 2 ^ 32 ≤ 4096 * k := (Nat.mod_le _ _).trans (by omega)
          exact hend (dumps_iff.mpr (hmk.trans_lt hk))
        have := (hpages k hm).2
        rwa [Nat.zero_add] at this
      | short hdump hshort =>
        simp only [Nat.zero_add] at hdump hshort hpages
        refine Or.inr ⟨m, hshort, fun j hj => (hpages j hj).2, fun hsmall => ?_, by rw [Nat.zero_add]⟩
        have hle : m ≤ pageCount p.size := by
          by_contra hgt
          have hlast := (hpages (pageCount p.size) (Nat.lt_of_not_le hgt)).1
          rw [dumps_of_small hsmall le_rfl, ← lt_pageCount] at hlast
          exact lt_irrefl _ hlast
        exact (dumps_of_small hsmall hle).mp hdump
  · rintro (⟨hsmall, hpages, hfile⟩ | ⟨k, hshort, hbefore, hsize, hfile⟩)
    · exact (dumpMemory_full_iff hps hshift (fun k hk => hpages k (lt_pageCount.mp hk)) hsmall).mpr
        hfile
    · have hdumps (j : Nat) (hj : j ≤ k) : Dumps p j := by
        by_cases hsmall : p.size ≤ 0xFFFFF000
        · have hlt : 4096 * j < p.size.toNat := Nat.lt_of_le_of_lt (by omega) (hsize hsmall)
          exact (dumps_of_small hsmall (lt_pageCount.mpr hlt).le).mpr hlt
        · exact dumps_of_large hsmall j
      refine (dumpLoop_ok_iff (k := 0) hps hshift).mpr ⟨k, fun j hj => ?_, ?_⟩
      · rw [Nat.zero_add]
        exact ⟨hdumps j hj.le, hbefore j hj⟩
      · have hstops := Stops.short (h := h) (k := 0) (m := k) (by
          rw [Nat.zero_add]
          exact hdumps k le_rfl) (by
          rw [Nat.zero_add]
          exact hshort)
        rw [Nat.zero_add] at hstops
        rw [hfile]
        exact hstops

/-- A dump of two pages of which the second one is cut. -/
theorem oneWord_dump : ∃ fuel,
    dumpMemory (imageHost [(0x1000, 0x41)]) { pyxaParams with size := 0x1800 }
      (fun n => if n = 0 then 4096 else 5) fuel =
      .ok (window (seenByte (imageHost [(0x1000, 0x41)]) { pyxaParams with size := 0x1800 }) 0
        (4096 * 1 + 5)) :=
  (dumpMemory_file_iff (imageHost [(0x1000, 0x41)]) { pyxaParams with size := 0x1800 }
    (fun n => if n = 0 then 4096 else 5) _ rfl rfl).mpr
    (Or.inr ⟨1, by decide, by decide, fun _ => by decide, rfl⟩)

end XenAccess
