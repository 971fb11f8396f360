import XenAccess.Model.Memory
import XenAccess.Walk.PageMap

/-!
# Physical memory

What the pages of a guest hold, independently of where a function of the library starts to
read: bytes, 32-bit values and strings at physical addresses (`physByte`, `physU32`,
`PhysString`), each of which may go on in the next page. A function that maps one page sees
the same as long as what it reads lies in that page. For a guest whose memory is given as a
whole, `MapsPa` says that a page can be mapped and holds its part of it.
-/

namespace XenAccess

variable {h : Host} {p : XaParams} {memory : Page} {a : U32}

/-! ## Pages of a given memory -/

/-- The page of a physical address can be mapped, and from the address on it has the bytes of
`memory`. -/
def MapsPa (h : Host) (p : XaParams) (memory : Page) (a : U32) : Prop :=
  ∃ acc, xaAccessPa h p a protRead = some acc ∧
    ∀ d : U32, a.toNat % 4096 + d.toNat < 4096 → acc.memory (acc.offset + d) = memory (a + d)

/-- Each of `n` bytes at an address is in such a page. -/
def MapsBytes (h : Host) (p : XaParams) (memory : Page) (a : U32) (n : Nat) : Prop :=
  ∀ j < n, MapsPa h p memory (a + BitVec.ofNat 32 j)

theorem MapsBytes.first {n : Nat} (hmap : MapsBytes h p memory a n) (hn : 0 < n) :
    MapsPa h p memory a := by
  simpa using hmap 0 hn

/-- `n` bytes at an address lie in one page. -/
def InPage (a : U32) (n : Nat) : Prop := a.toNat % 4096 + n ≤ 4096

instance (n : Nat) : Decidable (InPage a n) := inferInstanceAs (Decidable (_ ≤ _))

theorem u32_of_bytes_eq {mapped : Page} {offset : U32} (hpage : InPage a 4)
    (hbytes : ∀ d : U32, a.toNat % 4096 + d.toNat < 4096 → mapped (offset + d) = memory (a + d)) :
    mapped.u32 offset = memory.u32 a := by
  have hbyte (d : U32) (hd : d.toNat < 4) : mapped (offset + d) = memory (a + d) := by
    apply hbytes
    unfold InPage at hpage
    omega
  have hfirst : mapped offset = memory a := by simpa using hbyte 0 (by decide)
  unfold Page.u32
  rw [hbyte 3 (by decide), hbyte 2 (by decide), hbyte 1 (by decide), hfirst]

/-- A field of a structure that lies in one page. -/
theorem MapsPa.field (hmap : MapsPa h p memory a) {n : Nat} (hpage : InPage a n) :
    ∃ acc, xaAccessPa h p a protRead = some acc ∧ ∀ d : U32, d.toNat + 4 ≤ n →
      acc.memory.u32 (acc.offset + d) = memory.u32 (a + d) := by
  obtain ⟨acc, hacc, hbytes⟩ := hmap
  refine ⟨acc, hacc, fun d hd => ?_⟩
  have hlt := a.isLt
  unfold InPage at hpage
  have hadd : (a + d).toNat % 4096 = a.toNat % 4096 + d.toNat := by
    rw [BitVec.toNat_add]
    omega
  apply u32_of_bytes_eq
  · unfold InPage
    omega
  · intro e he
    have hsum : (d + e).toNat = d.toNat + e.toNat := by
      rw [BitVec.toNat_add]
      omega
    rw [BitVec.add_assoc, BitVec.add_assoc]
    apply hbytes
    omega

theorem MapsPa.readLong (hmap : MapsPa h p memory a) (hpage : InPage a 4) :
    xaReadLongPhys h p a = some (memory.u32 a) := by
  obtain ⟨acc, hacc, hbytes⟩ := hmap
  unfold xaReadLongPhys
  rw [hacc]
  exact congrArg some (u32_of_bytes_eq hpage hbytes)

/-- The 16-bit value at an address. -/
def Page.u16 (memory : Page) (d : U32) : BitVec 16 := memory (d + 1) ++ memory d

theorem u32_and_ffff (memory : Page) (a : U32) :
    memory.u32 a &&& 0xffff = (memory.u16 a).setWidth 32 := by
  have hmask : ∀ i < 32, (0xffff : U32).getLsbD i = decide (i < 16) := by decide
  unfold Page.u32 Page.u16
  apply BitVec.eq_of_getLsbD_eq
  intro i hi
  simp only [BitVec.getLsbD_and, hmask i hi, BitVec.getLsbD_setWidth, BitVec.getLsbD_append]
  by_cases hlow : i < 16
  · have hbyte : ¬i < 8 → i - 8 < 8 := by omega
    simp only [hlow, hi, decide_true, Bool.and_true, Bool.true_and]
    split <;> simp_all
  · have hout : (memory (a + 1)).getLsbD (i - 8) = false :=
      BitVec.getLsbD_of_ge _ _ (by omega)
    rw [if_neg (show ¬i < 8 by omega), if_neg (show ¬i < 8 by omega), hout, decide_eq_false hlow,
      Bool.and_false, Bool.and_false]

/-- The 16-bit value is right even in the last two bytes of a page, where two of the four
bytes that are read lie behind it. -/
theorem MapsPa.readOrdinal (hmap : MapsPa h p memory a) (hpage : InPage a 2) :
    (xaReadLongPhys h p a).map (· &&& 0xffff) = some ((memory.u16 a).setWidth 32) := by
  obtain ⟨acc, hacc, hbytes⟩ := hmap
  unfold InPage at hpage
  have hfirst : acc.memory acc.offset = memory a := by
    simpa using hbytes 0 (by simp; omega)
  have hsecond : acc.memory (acc.offset + 1) = memory (a + 1) := hbytes 1 (by simp; omega)
  unfold xaReadLongPhys
  rw [hacc]
  show some (acc.memory.u32 acc.offset &&& 0xffff) = _
  rw [u32_and_ffff]
  unfold Page.u16
  rw [hfirst, hsecond]

/-! ## Strings -/

/-- The string `s` with its terminator stands at an address. -/
def StringAt (memory : Page) : U32 → CStr → Prop
  | a, [] => memory a = 0
  | a, c :: s => memory a = c ∧ c ≠ 0 ∧ StringAt memory (a + 1) s

def StringAt.decide (memory : Page) : (a : U32) → (s : CStr) → Decidable (StringAt memory a s)
  | a, [] => inferInstanceAs (Decidable (memory a = 0))
  | a, c :: s =>
    have := StringAt.decide memory (a + 1) s
    inferInstanceAs (Decidable (memory a = c ∧ c ≠ 0 ∧ StringAt memory (a + 1) s))

instance (s : CStr) : Decidable (StringAt memory a s) := StringAt.decide memory a s

theorem StringAt.cstr_eq {s : CStr} (hs : StringAt memory a s) (n : Nat) :
    memory.cstr a n = s.take n := by
  induction n generalizing a s with
  | zero => rfl
  | succ n ih =>
    unfold Page.cstr
    cases s with
    | nil =>
      have hend : memory a = 0 := hs
      rw [if_pos hend, List.take_nil]
    | cons c s =>
      obtain ⟨rfl, hne, hrest⟩ := hs
      rw [if_neg hne, ih hrest, List.take_succ_cons]

/-- A string that is shorter than what is looked at is read as a whole. -/
theorem cstr_eq_iff {memory : Page} {d : U32} {s : CStr} {n : Nat} (hlen : s.length < n) :
    memory.cstr d n = s ↔ StringAt memory d s := by
  constructor
  · intro heq
    induction n generalizing d s with
    | zero => omega
    | succ n ih =>
      unfold Page.cstr at heq
      by_cases hzero : memory d = 0
      · rw [if_pos hzero] at heq
        subst heq
        exact hzero
      · rw [if_neg hzero] at heq
        subst heq
        exact ⟨rfl, hzero, ih (by simpa using hlen) rfl⟩
  · intro hs
    rw [hs.cstr_eq, List.take_of_length_le hlen.le]

theorem cstr_of_bytes_eq {mapped : Page} {offset : U32} {n : Nat}
    (hbytes : ∀ d : U32, d.toNat < n → mapped (offset + d) = memory (a + d)) (hn : n ≤ 4096) :
    mapped.cstr offset n = memory.cstr a n := by
  induction n generalizing a offset with
  | zero => rfl
  | succ n ih =>
    have hfirst : mapped offset = memory a := by simpa using hbytes 0 (by simp)
    have hrest : mapped.cstr (offset + 1) n = memory.cstr (a + 1) n := by
      apply ih _ (by omega)
      intro d hd
      have hone : (1 + d).toNat = d.toNat + 1 := by
        rw [BitVec.toNat_add]
        show (1 + d.toNat) % 2 ^ 32 = d.toNat + 1
        omega
      have hnext := hbytes (1 + d) (by omega)
      rwa [← BitVec.add_assoc, ← BitVec.add_assoc] at hnext
    unfold Page.cstr
    rw [hfirst, hrest]

/-! ## Bytes of the guest -/

/-- The byte at a physical address, if its page can be mapped. -/
def physByte (h : Host) (p : XaParams) (a : Nat) : Option U8 :=
  if a < 2 ^ 32 then
    (xaAccessPa h p (BitVec.ofNat 32 a) protRead).map fun acc => acc.memory acc.offset
  else none

/-- The 32-bit value at a physical address. -/
def physU32 (h : Host) (p : XaParams) (a : Nat) : Option U32 := do
  let b0 ← physByte h p a
  let b1 ← physByte h p (a + 1)
  let b2 ← physByte h p (a + 2)
  let b3 ← physByte h p (a + 3)
  return b3 ++ b2 ++ b1 ++ b0

/-- The string `s` with its terminator stands at a physical address. -/
def PhysString (h : Host) (p : XaParams) : Nat → CStr → Prop
  | a, [] => physByte h p a = some 0
  | a, c :: s => physByte h p a = some c ∧ c ≠ 0 ∧ PhysString h p (a + 1) s

theorem PhysString.terminator {a : Nat} {s : CStr} (hs : PhysString h p a s) :
    physByte h p (a + s.length) = some 0 := by
  induction s generalizing a with
  | nil => exact hs
  | cons c s ih =>
    rw [List.length_cons, Nat.add_comm s.length, ← Nat.add_assoc]
    exact ih hs.2.2

theorem not_physString {a : Nat} (hnone : physByte h p a = none) (s : CStr) :
    ¬PhysString h p a s := by
  intro hs
  cases s with
  | nil => cases hnone.symm.trans hs
  | cons c s => cases hnone.symm.trans hs.1

theorem physByte_none {a : Nat} (hnone : xaAccessPa h p (BitVec.ofNat 32 a) protRead = none) :
    physByte h p a = none := by
  rw [physByte, hnone]
  exact ite_self _

/-- All addresses of a page are mapped by the same call. -/
theorem xaAccessPa_samePage (hshift : p.pageShift = 12) {a b prot : U32} {acc : Access}
    (hab : a.toNat / 4096 = b.toNat / 4096) (hacc : xaAccessPa h p a prot = some acc) :
    xaAccessPa h p b prot = some { acc with offset := (p.pageSize - 1) &&& b } := by
  have hframe : a >>> p.pageShift = b >>> p.pageShift := by
    rw [frame_eq_ofNat hshift, frame_eq_ofNat hshift, hab]
  obtain ⟨m, hm, rfl⟩ := Option.map_eq_some_iff.mp hacc
  rw [hframe] at hm
  show (xaMmapPfn h p prot (b >>> p.pageShift)).map _ = _
  rw [hm]
  rfl

theorem xaAccessPa_none_samePage (hshift : p.pageShift = 12) {a b prot : U32}
    (hab : a.toNat / 4096 = b.toNat / 4096) (hnone : xaAccessPa h p a prot = none) :
    xaAccessPa h p b prot = none := by
  cases hb : xaAccessPa h p b prot with
  | none => rfl
  | some acc => cases hnone.symm.trans (xaAccessPa_samePage hshift hab.symm hb)

/-- What starts in a page and ends in it. -/
theorem samePage_add {n i : Nat} (hn : n < 2 ^ 32) (hi : n % 4096 + i < 4096) :
    (BitVec.ofNat 32 n).toNat / 4096 = (BitVec.ofNat 32 (n + i)).toNat / 4096 := by
  rw [BitVec.toNat_ofNat, BitVec.toNat_ofNat, Nat.mod_eq_of_lt hn, Nat.mod_eq_of_lt (by omega)]
  omega

section

variable (hsize : p.pageSize = 4096) (hshift : p.pageShift = 12) {n : Nat} {acc : Access}
include hsize

theorem xaAccessPa_offset_eq (hn : n < 2 ^ 32)
    (hacc : xaAccessPa h p (BitVec.ofNat 32 n) protRead = some acc) :
    acc.offset = BitVec.ofNat 32 (n % 4096) := by
  obtain ⟨m, -, rfl⟩ := Option.map_eq_some_iff.mp hacc
  show p.pageSize - 1 &&& BitVec.ofNat 32 n = _
  rw [offset_eq_ofNat hsize, BitVec.toNat_ofNat, Nat.mod_eq_of_lt hn]

include hshift

/-- The bytes that a mapping shows up to the end of its page. -/
theorem physByte_add (hn : n < 2 ^ 32)
    (hacc : xaAccessPa h p (BitVec.ofNat 32 n) protRead = some acc) {i : Nat}
    (hi : n % 4096 + i < 4096) :
    physByte h p (n + i) = some (acc.memory (acc.offset + BitVec.ofNat 32 i)) := by
  have hlt : n + i < 2 ^ 32 := by omega
  have hpage := samePage_add hn hi
  have hoffset : p.pageSize - 1 &&& BitVec.ofNat 32 (n + i) = acc.offset + BitVec.ofNat 32 i := by
    rw [offset_eq_ofNat hsize, xaAccessPa_offset_eq hsize hn hacc, BitVec.toNat_ofNat,
      Nat.mod_eq_of_lt hlt, ← BitVec.ofNat_add]
    congr 1
    omega
  rw [physByte, if_pos hlt, xaAccessPa_samePage hshift hpage hacc, Option.map_some, hoffset]

/-- A 32-bit field of a structure that is read through the mapping of its first page. -/
theorem physU32_field (hn : n < 2 ^ 32)
    (hacc : xaAccessPa h p (BitVec.ofNat 32 n) protRead = some acc) {i : Nat}
    (hpage : n % 4096 + i + 4 ≤ 4096) :
    physU32 h p (n + i) = some (acc.memory.u32 (acc.offset + BitVec.ofNat 32 i)) := by
  have hbyte (j : Nat) (hj : j < 4) :
      physByte h p (n + i + j) =
        some (acc.memory (acc.offset + BitVec.ofNat 32 i + BitVec.ofNat 32 j)) := by
    rw [Nat.add_assoc, BitVec.add_assoc, ← BitVec.ofNat_add]
    exact physByte_add hsize hshift hn hacc (by omega)
  have hfirst := hbyte 0 (by decide)
  rw [Nat.add_zero, BitVec.add_zero] at hfirst
  rw [physU32, hfirst, hbyte 1 (by decide), hbyte 2 (by decide), hbyte 3 (by decide)]
  rfl

omit hsize in
theorem physU32_field_none (hn : n < 2 ^ 32)
    (hnone : xaAccessPa h p (BitVec.ofNat 32 n) protRead = none) {i : Nat}
    (hi : n % 4096 + i < 4096) : physU32 h p (n + i) = none := by
  have hmapped := xaAccessPa_none_samePage hshift (samePage_add hn hi) hnone
  rw [physU32, physByte_none hmapped]
  rfl

/-- A 32-bit value in one page is the one that is read. -/
theorem physU32_eq (hn : n < 2 ^ 32) (hpage : n % 4096 + 4 ≤ 4096) :
    physU32 h p n = xaReadLongPhys h p (BitVec.ofNat 32 n) := by
  unfold xaReadLongPhys
  cases hacc : xaAccessPa h p (BitVec.ofNat 32 n) protRead with
  | none => exact physU32_field_none hshift hn hacc (i := 0) (by omega)
  | some acc =>
    have hfield := physU32_field hsize hshift hn hacc (i := 0) hpage
    rw [Nat.add_zero, BitVec.add_zero] at hfield
    rw [hfield]
    rfl

/-- A string that ends in the page it starts in. -/
theorem physString_iff (hn : n < 2 ^ 32)
    (hacc : xaAccessPa h p (BitVec.ofNat 32 n) protRead = some acc) {i : Nat} {s : CStr}
    (hpage : n % 4096 + i + s.length < 4096) :
    PhysString h p (n + i) s ↔ StringAt acc.memory (acc.offset + BitVec.ofNat 32 i) s := by
  induction s generalizing i with
  | nil =>
    unfold PhysString StringAt
    rw [physByte_add hsize hshift hn hacc (by simpa using hpage), Option.some_inj]
  | cons c s ih =>
    rw [List.length_cons] at hpage
    have hrest := ih (i := i + 1) (by omega)
    rw [BitVec.ofNat_add, ← BitVec.add_assoc] at hrest
    unfold PhysString StringAt
    rw [physByte_add hsize hshift hn hacc (by omega), Option.some_inj, Nat.add_assoc, hrest]
    rfl

theorem physString_mapped (hn : n < 2 ^ 32)
    (hacc : xaAccessPa h p (BitVec.ofNat 32 n) protRead = some acc) {s : CStr}
    (hpage : n % 4096 + s.length < 4096) :
    PhysString h p n s ↔ StringAt acc.memory acc.offset s := by
  have hstring := physString_iff hsize hshift hn hacc (i := 0) hpage
  rwa [Nat.add_zero, BitVec.add_zero] at hstring

end

end XenAccess
