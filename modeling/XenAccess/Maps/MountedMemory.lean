import XenAccess.Maps.Dump

/-!
# The mounted memory and the dump

`pyxafs` shows the memory of a guest as a file, and `dump-memory` writes it to one. A reader that
goes through the mounted file in requests that start with a page, as the kernel makes them, gets
the bytes of the dump (`mountedMemory_eq_dump`).
-/

namespace XenAccess

open Window

variable {h : Host} {p : XaParams}

namespace PyXaFS

/-- What a program gets that reads the file in requests of the given sizes one after the other. -/
def readAll (h : Host) (p : XaParams) (path : PyStr) : Nat → List Nat → Except Errno (Py PyStr)
  | _, [] => .ok (pure [])
  | offset, size :: sizes => do
    let first ← read h p path size offset
    let rest ← readAll h p path (offset + size) sizes
    return do return (← first) ++ (← rest)

/-- A request that `zread` answers with the flat memory: it starts with a page, ends in its first
page or starts in a mapped page. -/
def Answered (h : Host) (p : XaParams) (offset size : Nat) : Prop :=
  offset % 0x1000 = 0 ∨ size < firstBlock offset ∨ PageMapped h p offset

/-- Every request of a sequence is answered. -/
def AllAnswered (h : Host) (p : XaParams) : Nat → List Nat → Prop
  | _, [] => True
  | offset, size :: sizes => Answered h p offset size ∧ AllAnswered h p (offset + size) sizes

theorem allAnswered_of_aligned {offset : Nat} {sizes : List Nat} (hoffset : offset % 0x1000 = 0)
    (hsizes : ∀ size ∈ sizes.dropLast, size % 0x1000 = 0) : AllAnswered h p offset sizes := by
  induction sizes generalizing offset with
  | nil => exact trivial
  | cons size sizes ih =>
    refine ⟨Or.inl hoffset, ?_⟩
    cases sizes with
    | nil => exact trivial
    | cons next sizes =>
      have hsize := hsizes size List.mem_cons_self
      apply ih
      · omega
      · intro other hother
        exact hsizes other (List.mem_cons_of_mem _ hother)

/-- The answers to the requests, put together. -/
theorem readAll_eq (hps : p.pageSize = 4096) (hshift : p.pageShift = 12) {offset : Nat}
    {sizes : List Nat} (hanswered : AllAnswered h p offset sizes)
    (hend : offset + sizes.sum ≤ 2 ^ 32) :
    readAll h p memPath offset sizes = .ok (pure (window (flatByte h p) offset sizes.sum)) := by
  induction sizes generalizing offset with
  | nil => rfl
  | cons size sizes ih =>
    rw [List.sum_cons] at hend
    have hfirst : zread h p offset size = pure (window (flatByte h p) offset size) := by
      refine (zread_flat_iff hps hshift offset size).mpr ⟨hanswered.1, fun i hi hle => ?_⟩
      omega
    have hread : read h p memPath size offset = .ok (pure (window (flatByte h p) offset size)) := by
      rw [read, hfirst]
      exact if_neg (not_not.mpr rfl)
    rw [readAll, hread, ih hanswered.2 (by omega), List.sum_cons, window_add]
    rfl

end PyXaFS

open PyXaFS in
/-- **The mounted memory is the dump.** When `dump-memory` has written all pages of a guest, a
program that opens `/mem` for reading and reads as many bytes as its attributes say, in requests
that start with a page, gets the file of the dump up to that size. -/
theorem mountedMemory_eq_dump (h : Host) (p : XaParams) (fwrite : Nat → Nat) (file : List U8)
    (fuel : Nat) (hps : p.pageSize = 4096) (hshift : p.pageShift = 12)
    (hfull : ∀ k, 4096 * k < p.size.toNat → 4096 ≤ fwrite k) (hsmall : p.size ≤ 0xFFFFF000)
    (hdump : dumpMemory h p fwrite fuel = .ok file) (sizes : List Nat)
    (hsizes : ∀ size ∈ sizes.dropLast, size % 0x1000 = 0) (st : MyStat)
    (hstat : getattr p memPath = .ok st) (hall : sizes.sum = st.stSize) :
    PyXaFS.open memPath 0 = .ok () ∧
      readAll h p memPath 0 sizes = .ok (pure (file.take p.size.toNat)) := by
  have hsize : sizes.sum = p.size.toNat := by
    rw [hall]
    cases hstat
    rfl
  have hle : p.size.toNat ≤ 4096 * pageCount p.size := by
    rw [pageCount]
    omega
  have hfile : file = window (flatByte h p) 0 (4096 * pageCount p.size) :=
    (dumpMemory_full_iff hps hshift (fun k hk => hfull k (lt_pageCount.mp hk)) hsmall).mp
      ⟨fuel, hdump⟩
  have hlt := p.size.isLt
  refine ⟨rfl, ?_⟩
  rw [readAll_eq hps hshift (allAnswered_of_aligned rfl hsizes) (by omega), hsize, hfile,
    take_window, min_eq_left hle]

theorem oneWord_mounted : ∃ fuel file,
    dumpMemory (imageHost [(0x1000, 0x41)]) { pyxaParams with size := 0x1800 } (fun _ => 4096)
      fuel = .ok file ∧
    PyXaFS.open PyXaFS.memPath 0 = .ok () ∧
    PyXaFS.readAll (imageHost [(0x1000, 0x41)]) { pyxaParams with size := 0x1800 }
      PyXaFS.memPath 0 [0x1000, 0x800] = .ok (pure (file.take 0x1800)) := by
  have hends : ∃ fuel, dumpMemory (imageHost [(0x1000, 0x41)])
      { pyxaParams with size := 0x1800 } (fun _ => 4096) fuel = .ok (window (flatByte
        (imageHost [(0x1000, 0x41)]) { pyxaParams with size := 0x1800 }) 0 (4096 * 2)) :=
    (dumpMemory_full_iff rfl rfl (fun _ _ => le_rfl) (by decide)).mpr rfl
  obtain ⟨fuel, hdump⟩ := hends
  refine ⟨fuel, _, hdump, ?_⟩
  exact mountedMemory_eq_dump (imageHost [(0x1000, 0x41)]) { pyxaParams with size := 0x1800 }
    (fun _ => 4096) _ fuel rfl rfl (fun _ _ => le_rfl) (by decide) hdump [0x1000, 0x800]
    (by simp) _ rfl rfl

end XenAccess
