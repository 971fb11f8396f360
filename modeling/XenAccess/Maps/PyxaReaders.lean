import XenAccess.Lib.Window
import XenAccess.Maps.Physical
import XenAccess.Model.Image
import XenAccess.Model.Pyxa

/-!
# Range readers and the flat memory

The readers of the Python bindings are to return the bytes of the guest from an address on.
`PyXaFS.zread` puts a whole page of zeros in the place of a first block that is not mapped,
`PyXaAddressSpace.read` returns the first block instead of each later one, and an address from
`2^32` on is taken modulo `2^32`. `rangeReaders_iff` says for which ranges both are right.
-/

namespace XenAccess

open Window

variable {h : Host} {p : XaParams} {a n : Nat}

/-- The byte at an address of the flat memory, zero if its page is not mapped. -/
def flatByte (h : Host) (p : XaParams) (a : Nat) : U8 := (physByte h p a).getD 0

/-- The byte that the bindings take for the one at an address. -/
def seenByte (h : Host) (p : XaParams) (a : Nat) : U8 := flatByte h p (a % 2 ^ 32)

/-- The bindings can map the page of an address. -/
def PageMapped (h : Host) (p : XaParams) (a : Nat) : Prop :=
  (xaAccessPa h p (BitVec.ofNat 32 a) protRead).isSome

instance : Decidable (PageMapped h p a) := inferInstanceAs (Decidable (_ = true))

/-- The number of bytes from an address to the end of its page. -/
def firstBlock (a : Nat) : Nat := 0x1000 - a % 0x1000

theorem firstBlock_aligned (ha : a % 0x1000 = 0) : firstBlock a = 0x1000 := by
  rw [firstBlock, ha]

theorem seenByte_of_lt (ha : a < 2 ^ 32) : seenByte h p a = flatByte h p a := by
  rw [seenByte, Nat.mod_eq_of_lt ha]

theorem ofNat_mod (a : Nat) : BitVec.ofNat 32 (a % 2 ^ 32) = BitVec.ofNat 32 a := by
  apply BitVec.eq_of_toNat_eq
  rw [BitVec.toNat_ofNat, BitVec.toNat_ofNat, Nat.mod_mod]

theorem mapped_of_physByte (ha : (physByte h p a).isSome) : a < 2 ^ 32 ∧ PageMapped h p a := by
  rw [physByte] at ha
  split at ha
  · rename_i hlt
    exact ⟨hlt, by rwa [Option.isSome_map] at ha⟩
  · cases ha

theorem flatByte_of_le (ha : 2 ^ 32 ≤ a) : flatByte h p a = 0 := by
  rw [flatByte, physByte, if_neg (Nat.not_lt.mpr ha)]
  rfl

/-- The bindings see the flat memory, and from `2^32` on only where they see zeros. -/
theorem window_seen_iff : window (seenByte h p) a n = window (flatByte h p) a n ↔
    ∀ i < n, 2 ^ 32 ≤ a + i → seenByte h p (a + i) = 0 := by
  rw [window_eq_iff]
  constructor
  · intro heq i hi hle
    rw [heq i hi, flatByte_of_le hle]
  · intro hzero i hi
    rcases Nat.lt_or_ge (a + i) (2 ^ 32) with hlt | hle
    · exact seenByte_of_lt hlt
    · rw [hzero i hi hle, flatByte_of_le hle]

theorem pure_inj_iff {x y : PyStr} : (pure x : Py PyStr) = pure y ↔ x = y :=
  ⟨fun heq => Except.ok.inj (Option.some.inj heq), congrArg pure⟩

/-! ## One page -/

section

variable (hps : p.pageSize = 4096) (hshift : p.pageShift = 12)
include hps hshift

theorem pyxaRead_mapped (hmapped : PageMapped h p a) :
    pyxaRead h p a = pure (window (seenByte h p) a (firstBlock a)) := by
  obtain ⟨acc, hacc⟩ := Option.isSome_iff_exists.mp hmapped
  have hlt : a % 2 ^ 32 < 2 ^ 32 := Nat.mod_lt a (by decide)
  have haccmod : xaAccessPa h p (BitVec.ofNat 32 (a % 2 ^ 32)) protRead = some acc := by
    rw [ofNat_mod, hacc]
  have hpage : a % 2 ^ 32 % 4096 = a % 4096 := Nat.mod_mod_of_dvd a ⟨2 ^ 20, rfl⟩
  have hlen : (0x1000 - acc.offset).toNat = firstBlock a := by
    rw [xaAccessPa_offset_eq hps hlt haccmod, hpage, firstBlock, BitVec.toNat_sub,
      BitVec.toNat_ofNat]
    have hoffset := Nat.mod_lt a (show 0 < 4096 by decide)
    show (2 ^ 32 - a % 4096 % 2 ^ 32 + 4096) % 2 ^ 32 = _
    omega
  rw [pyxaRead, hacc]
  show pure _ = _
  rw [hlen]
  apply congrArg pure
  apply List.map_congr_left
  intro i hi
  have hroom : a % 2 ^ 32 % 4096 + i < 4096 := by
    have hlt := List.mem_range.mp hi
    rw [firstBlock] at hlt
    omega
  have hsum : (a + i) % 2 ^ 32 = a % 2 ^ 32 + i := by omega
  rw [seenByte, flatByte, hsum, physByte_add hps hshift hlt haccmod hroom]
  rfl

omit hps hshift in
theorem pyxaRead_unmapped (hnone : ¬PageMapped h p a) : pyxaRead h p a = throw .valueError := by
  have hacc : xaAccessPa h p (BitVec.ofNat 32 a) protRead = none := by
    rwa [PageMapped, Option.not_isSome_iff_eq_none] at hnone
  rw [pyxaRead, hacc]

omit hps in
/-- The rest of a page that is not mapped. -/
theorem seenByte_unmapped (hnone : ¬PageMapped h p a) {i : Nat} (hi : i < firstBlock a) :
    seenByte h p (a + i) = 0 := by
  rw [PageMapped, Option.not_isSome_iff_eq_none, ← ofNat_mod] at hnone
  have hlt : a % 2 ^ 32 < 2 ^ 32 := Nat.mod_lt a (by decide)
  rw [firstBlock] at hi
  have hroom : a % 2 ^ 32 % 4096 + i < 4096 := by omega
  have hsum : (a + i) % 2 ^ 32 = a % 2 ^ 32 + i := by omega
  rw [seenByte, flatByte, hsum,
    physByte_none (xaAccessPa_none_samePage hshift (samePage_add hlt hroom) hnone)]
  rfl

end

/-- What `zread` puts together: a page from an address on, or a whole page of zeros. -/
def zeroedBlock (h : Host) (p : XaParams) (a : Nat) : PyStr :=
  if PageMapped h p a then window (seenByte h p) a (firstBlock a) else List.replicate 0x1000 0

section

variable (hps : p.pageSize = 4096) (hshift : p.pageShift = 12)
include hps hshift

theorem xaiRead_eq (a : Nat) : PyXaFS.xaiRead h p a = pure (zeroedBlock h p a) := by
  rw [zeroedBlock]
  split
  · rename_i hmapped
    rw [PyXaFS.xaiRead, pyxaRead_mapped hps hshift hmapped]
    rfl
  · rename_i hnone
    rw [PyXaFS.xaiRead, pyxaRead_unmapped hnone]
    rfl

omit hps in
theorem take_zeroedBlock (hn : n ≤ firstBlock a) :
    (zeroedBlock h p a).take n = window (seenByte h p) a n := by
  rw [zeroedBlock]
  split
  · rw [take_window, min_eq_left hn]
  · rename_i hnone
    have hle : n ≤ 0x1000 := hn.trans (Nat.sub_le _ _)
    rw [List.take_replicate, min_eq_left hle]
    exact replicate_eq_window fun i hi => seenByte_unmapped hshift hnone (hi.trans_le hn)

omit hps in
/-- The block is right if the page is mapped or the address is at its start. -/
theorem zeroedBlock_eq (hfirst : a % 0x1000 = 0 ∨ PageMapped h p a) :
    zeroedBlock h p a = window (seenByte h p) a (firstBlock a) := by
  by_cases hmapped : PageMapped h p a
  · exact if_pos hmapped
  · have hblock : firstBlock a = 0x1000 := by
      rw [firstBlock, hfirst.resolve_right hmapped]
    rw [← take_zeroedBlock hshift le_rfl, hblock, zeroedBlock, if_neg hmapped,
      List.take_replicate, min_self]

end

/-! ## The loop over full blocks -/

theorem blockLoop_eq {block : Nat → Py PyStr} {str : Nat → PyStr}
    (hblock : ∀ k < n, block (a + 0x1000 * k) = pure (str k)) (stuffRead : PyStr) :
    blockLoop block n stuffRead a =
      pure (stuffRead ++ (List.range n).flatMap str, a + 0x1000 * n) := by
  induction n generalizing a stuffRead str with
  | zero =>
    rw [List.range_zero, List.flatMap_nil, List.append_nil]
    rfl
  | succ n ih =>
    have hrest : ∀ k < n, block (a + 0x1000 + 0x1000 * k) = pure (str (k + 1)) := by
      intro k hk
      rw [Nat.add_assoc, Nat.add_comm 0x1000, ← Nat.mul_succ]
      exact hblock (k + 1) (Nat.succ_lt_succ hk)
    rw [blockLoop, show block a = _ from hblock 0 (Nat.succ_pos n), pure_bind, ih hrest,
      List.range_succ_eq_map, List.flatMap_cons, List.flatMap_map, List.append_assoc,
      Nat.add_assoc, Nat.add_comm 0x1000, ← Nat.mul_succ]

/-- The number of full blocks, which is not negative behind a whole first block. -/
theorem toNat_fullBlocks (length : Nat) :
    ((((length + a % 0x1000) / 0x1000 : Nat) : Int) - 1).toNat =
      (length + a % 0x1000) / 0x1000 - 1 := by
  omega

/-! ## `PyXaFS.zread` -/

section

variable (hps : p.pageSize = 4096) (hshift : p.pageShift = 12)
include hps hshift

/-- A range that ends in its first page. -/
theorem zread_short {length : Nat} (hlen : length < firstBlock a) :
    PyXaFS.zread h p a length = pure (window (seenByte h p) a length) := by
  rw [PyXaFS.zread]
  dsimp only
  rw [if_pos (show length < 0x1000 - a % 0x1000 from hlen), xaiRead_eq hps hshift, pure_bind,
    take_zeroedBlock hshift hlen.le]

/-- A longer range: behind the first block everything is right. -/
theorem zread_long {length : Nat} (hlen : firstBlock a ≤ length) :
    PyXaFS.zread h p a length = pure (zeroedBlock h p a ++
      window (seenByte h p) (a + firstBlock a) (length - firstBlock a)) := by
  generalize hfull : (length + a % 0x1000) / 0x1000 - 1 = full
  generalize hleft : (length + a) % 0x1000 = left
  have hlength : firstBlock a + 0x1000 * full + left = length := by
    rw [← hfull, ← hleft]
    exact blocks_length (by decide) hlen
  have hstart (k : Nat) : (a + firstBlock a + 0x1000 * k) % 0x1000 = 0 := by
    rw [firstBlock]
    omega
  have hblock (k : Nat) : zeroedBlock h p (a + firstBlock a + 0x1000 * k) =
      window (seenByte h p) (a + firstBlock a + 0x1000 * k) 0x1000 := by
    rw [zeroedBlock_eq hshift (Or.inl (hstart k)), firstBlock_aligned (hstart k)]
  have hloop : blockLoop (PyXaFS.xaiRead h p) full (zeroedBlock h p a) (a + firstBlock a) =
      pure (zeroedBlock h p a ++ window (seenByte h p) (a + firstBlock a) (0x1000 * full),
        a + firstBlock a + 0x1000 * full) := by
    rw [← flatMap_window]
    apply blockLoop_eq
    intro k _
    rw [xaiRead_eq hps hshift, hblock]
  have hrest : length - firstBlock a = 0x1000 * full + left := by omega
  rw [PyXaFS.zread]
  dsimp only
  rw [if_neg (show ¬length < 0x1000 - a % 0x1000 from Nat.not_lt.mpr hlen),
    xaiRead_eq hps hshift, pure_bind, toNat_fullBlocks, hfull, hleft]
  show (blockLoop _ full (zeroedBlock h p a) (a + firstBlock a) >>= _) = _
  rw [hloop, pure_bind, hrest, window_add, ← List.append_assoc]
  split
  · rw [xaiRead_eq hps hshift, pure_bind, hblock, take_window, min_eq_left]
    rw [← hleft]
    exact (Nat.mod_lt _ (by decide)).le
  · rename_i hzero
    rw [Nat.eq_zero_of_not_pos hzero, window_zero, List.append_nil]

/-- When `zread` returns the flat memory. -/
theorem zread_flat_iff (a length : Nat) :
    PyXaFS.zread h p a length = pure (window (flatByte h p) a length) ↔
      (a % 0x1000 = 0 ∨ length < firstBlock a ∨ PageMapped h p a) ∧
        ∀ i < length, 2 ^ 32 ≤ a + i → seenByte h p (a + i) = 0 := by
  by_cases hshort : length < firstBlock a
  · rw [zread_short hps hshift hshort, pure_inj_iff, window_seen_iff]
    exact (and_iff_right (Or.inr (Or.inl hshort))).symm
  · have hlen : firstBlock a ≤ length := Nat.le_of_not_lt hshort
    rw [zread_long hps hshift hlen, pure_inj_iff]
    by_cases hfirst : a % 0x1000 = 0 ∨ PageMapped h p a
    · rw [zeroedBlock_eq hshift hfirst, ← window_add, Nat.add_sub_cancel' hlen, window_seen_iff]
      exact (and_iff_right (hfirst.imp_right Or.inr)).symm
    · obtain ⟨hoffset, hnone⟩ := not_or.mp hfirst
      constructor
      · -- the zeros are longer than the rest of the page
        intro heq
        have hsum := congrArg List.length heq
        rw [zeroedBlock, if_neg hnone, List.length_append, List.length_replicate, length_window,
          length_window] at hsum
        rw [firstBlock] at hlen hsum
        omega
      · rintro ⟨hoffset' | hshort' | hmapped, -⟩
        · exact absurd hoffset' hoffset
        · exact absurd hshort' hshort
        · exact absurd hmapped hnone

end

/-! ## `PyXaAddressSpace.read` -/

section

variable (hps : p.pageSize = 4096) (hshift : p.pageShift = 12)
include hps hshift

omit hps hshift in
/-- The lengths of what is read: the first block comes in the place of each later one. -/
theorem repeated_length_iff {full left length : Nat}
    (hlength : firstBlock a + 0x1000 * full + left = length) (hleft : left < 0x1000) :
    firstBlock a * (full + 1) + min left (firstBlock a) = length ↔
      a % 0x1000 = 0 ∨ length ≤ 2 * firstBlock a := by
  have hmin : min left (firstBlock a) ≤ left := min_le_left left (firstBlock a)
  have hmod : a % 0x1000 < 0x1000 := Nat.mod_lt a (by decide)
  rw [Nat.mul_succ]
  by_cases hoffset : a % 0x1000 = 0
  · rw [firstBlock_aligned hoffset] at hlength ⊢
    omega
  · have hblock : firstBlock a ≤ 0xFFF := by
      rw [firstBlock]
      omega
    have hmul : firstBlock a * full ≤ 0xFFF * full := Nat.mul_le_mul_right full hblock
    constructor
    · intro heq
      obtain rfl : full = 0 := by omega
      omega
    · intro hle
      have hshort := hle.resolve_left hoffset
      obtain rfl : full = 0 := by omega
      omega

/-- The first block, and then the first block again. -/
theorem read_mapped (hmapped : PageMapped h p a) (length : Nat) :
    ∃ n, PyXaAddressSpace.read h p a length =
        pure (window (fun i => seenByte h p (a + i % firstBlock a)) 0 n) ∧
      (n = length ↔ a % 0x1000 = 0 ∨ length ≤ 2 * firstBlock a) := by
  have hread := pyxaRead_mapped hps hshift hmapped
  have hfirst (m : Nat) (hm : m ≤ firstBlock a) : window (seenByte h p) a m =
      window (fun i => seenByte h p (a + i % firstBlock a)) 0 m := by
    rw [window_eq_iff]
    intro i hi
    rw [Nat.zero_add, Nat.mod_eq_of_lt (hi.trans_le hm)]
  by_cases hshort : length < firstBlock a
  · refine ⟨length, ?_, by omega⟩
    rw [PyXaAddressSpace.read]
    dsimp only
    rw [if_pos (show length < 0x1000 - a % 0x1000 from hshort), hread, pure_bind, take_window,
      min_eq_left hshort.le, hfirst length hshort.le]
  · have hlen : firstBlock a ≤ length := Nat.le_of_not_lt hshort
    generalize hfull : (length + a % 0x1000) / 0x1000 - 1 = full
    generalize hleft : (length + a) % 0x1000 = left
    have hlength : firstBlock a + 0x1000 * full + left = length := by
      rw [← hfull, ← hleft]
      exact blocks_length (by decide) hlen
    have hroom : left < 0x1000 := by
      rw [← hleft]
      exact Nat.mod_lt _ (by decide)
    refine ⟨firstBlock a * (full + 1) + min left (firstBlock a), ?_,
      repeated_length_iff hlength hroom⟩
    have hloop : blockLoop (fun _ => pyxaRead h p a) full (window (seenByte h p) a (firstBlock a))
        (a + firstBlock a) =
        pure (window (fun i => seenByte h p (a + i % firstBlock a)) 0 (firstBlock a * (full + 1)),
          a + firstBlock a + 0x1000 * full) := by
      rw [← flatMap_const, List.range_succ_eq_map, List.flatMap_cons, List.flatMap_map]
      exact blockLoop_eq (fun k _ => hread) _
    have hlast : window (fun i => seenByte h p (a + i % firstBlock a))
        (0 + firstBlock a * (full + 1)) (min left (firstBlock a)) =
        window (seenByte h p) a (min left (firstBlock a)) := by
      rw [hfirst _ (min_le_right left (firstBlock a)), window_eq_iff]
      intro i _
      rw [Nat.zero_add, Nat.mul_add_mod, Nat.zero_add]
    rw [hread] at hloop
    rw [PyXaAddressSpace.read]
    dsimp only
    rw [if_neg (show ¬length < 0x1000 - a % 0x1000 from hshort), hread, pure_bind,
      toNat_fullBlocks, hfull, hleft]
    show (blockLoop _ full (window (seenByte h p) a (firstBlock a)) (a + firstBlock a) >>= _) = _
    rw [hloop, pure_bind, window_add, hlast]
    split
    · rw [pure_bind, take_window]
    · rename_i hzero
      rw [Nat.eq_zero_of_not_pos hzero, Nat.zero_min, window_zero, List.append_nil]

/-- When `read` returns the flat memory, for a range of mapped pages. -/
theorem read_flat_iff {length : Nat} (hrange : ∀ i < length, (physByte h p (a + i)).isSome) :
    PyXaAddressSpace.read h p a length = pure (window (flatByte h p) a length) ↔
      PageMapped h p a ∧ (a % 0x1000 = 0 ∨ length ≤ 2 * firstBlock a) ∧
        ∀ i < length, flatByte h p (a + i) = flatByte h p (a + i % firstBlock a) := by
  have hlt (i : Nat) (hi : i < length) : a + i < 2 ^ 32 := (mapped_of_physByte (hrange i hi)).1
  by_cases hmapped : PageMapped h p a
  · obtain ⟨n, hread, hn⟩ := read_mapped hps hshift hmapped length
    rw [hread, pure_inj_iff, window_eq_window_iff, hn, and_iff_right hmapped]
    apply and_congr_right
    intro _
    refine forall₂_congr fun i hi => ?_
    have hle : a + i % firstBlock a < 2 ^ 32 :=
      (Nat.add_le_add_left (Nat.mod_le i _) a).trans_lt (hlt i hi)
    rw [Nat.zero_add, seenByte_of_lt hle]
    exact eq_comm
  · have hraise : PyXaAddressSpace.read h p a length = throw .valueError := by
      rw [PyXaAddressSpace.read, pyxaRead_unmapped hmapped]
      dsimp only
      exact ite_self _
    rw [hraise]
    constructor
    · intro heq
      cases Option.some.inj heq
    · intro hall
      exact absurd hall.1 hmapped

end

/-! ## Both readers -/

/-- The readers return the flat memory of a range; `read` has to when all of it is mapped. -/
structure RangeReaders (h : Host) (p : XaParams) (addr length : Nat) : Prop where
  zread : PyXaFS.zread h p addr length = pure (window (flatByte h p) addr length)
  read : (∀ i < length, (physByte h p (addr + i)).isSome) →
    PyXaAddressSpace.read h p addr length = pure (window (flatByte h p) addr length)

/-- **When the range readers return the flat memory**: `zread` if the range starts with a page,
ends in its first page or starts in a mapped page, and holds only zeros where addresses are
taken modulo `2^32`; `read` if it is not called for an empty range in a page that is not
mapped, and the bytes of the range repeat those of its first block. -/
theorem rangeReaders_iff (h : Host) (p : XaParams) (addr length : Nat) (hps : p.pageSize = 4096)
    (hshift : p.pageShift = 12) :
    RangeReaders h p addr length ↔
      (addr % 0x1000 = 0 ∨ length < firstBlock addr ∨ PageMapped h p addr) ∧
        (∀ i < length, 2 ^ 32 ≤ addr + i → seenByte h p (addr + i) = 0) ∧
        ((∀ i < length, (physByte h p (addr + i)).isSome) →
          PageMapped h p addr ∧ (addr % 0x1000 = 0 ∨ length ≤ 2 * firstBlock addr) ∧
            ∀ i < length, flatByte h p (addr + i) = flatByte h p (addr + i % firstBlock addr)) := by
  have hzread := zread_flat_iff (h := h) hps hshift addr length
  constructor
  · intro hreaders
    obtain ⟨hfirst, hzero⟩ := hzread.mp hreaders.zread
    exact ⟨hfirst, hzero, fun hrange => (read_flat_iff hps hshift hrange).mp (hreaders.read hrange)⟩
  · rintro ⟨hfirst, hzero, hread⟩
    exact ⟨hzread.mpr ⟨hfirst, hzero⟩,
      fun hrange => (read_flat_iff hps hshift hrange).mpr (hread hrange)⟩

/-- A Xen guest. -/
def pyxaParams : XaParams :=
  { fileState.toXaParams with mode := .xen, hvm := true, pageShift := 12, pageSize := 4096 }

theorem image_mapped (words : Words) {a : Nat} (ha : a < 2 ^ 32) :
    (physByte (imageHost words) pyxaParams a).isSome := by
  have hframe : BitVec.ofNat 32 a >>> pyxaParams.pageShift ≠ -1 := by
    intro heq
    have hnat := congrArg BitVec.toNat heq
    rw [frame_eq_ofNat rfl, BitVec.toNat_ofNat, BitVec.toNat_ofNat] at hnat
    change a % 2 ^ 32 / 4096 % 2 ^ 32 = 2 ^ 32 - 1 at hnat
    omega
  rw [physByte, if_pos ha, Option.isSome_map]
  show (Option.map _ (if BitVec.ofNat 32 a >>> pyxaParams.pageShift = -1 then none else _)).isSome
  rw [if_neg hframe]
  rfl

/-- A range at the end of a page. -/
theorem oneWord_rangeReaders : RangeReaders (imageHost [(0x1000, 0x41)]) pyxaParams 0x1FF0 16 := by
  have hmapped := mapped_of_physByte (image_mapped [(0x1000, 0x41)] (a := 0x1FF0) (by decide))
  apply (rangeReaders_iff (imageHost [(0x1000, 0x41)]) pyxaParams 0x1FF0 16 rfl rfl).mpr
  refine ⟨Or.inr (Or.inr hmapped.2), ?_, fun _ => ⟨hmapped.2, Or.inr (by decide), ?_⟩⟩
  · intro i hi hle
    omega
  · intro i hi
    rw [Nat.mod_eq_of_lt (show i < firstBlock 0x1FF0 from hi)]

/-- Two pages are read, and the first one is returned twice. -/
theorem oneWord_not_rangeReaders :
    ¬RangeReaders (imageHost [(0x1000, 0x41)]) pyxaParams 0x1000 0x2000 := by
  intro hreaders
  have hrange (i : Nat) (hi : i < 0x2000) :
      (physByte (imageHost [(0x1000, 0x41)]) pyxaParams (0x1000 + i)).isSome :=
    image_mapped _ (by omega)
  obtain ⟨-, -, hrepeats⟩ := (read_flat_iff rfl rfl hrange).mp (hreaders.read hrange)
  have hsecond : flatByte (imageHost [(0x1000, 0x41)]) pyxaParams 0x2000 = 0x41 :=
    hrepeats 0x1000 (by decide)
  revert hsecond
  decide

end XenAccess
