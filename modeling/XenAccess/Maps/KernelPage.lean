import XenAccess.Maps.Bounds
import XenAccess.Maps.Physical

/-!
# What the mapping of a kernel address shows

The programs map the page of a link in kernel memory and then read the fields around it through
that mapping. As long as a field lies in the page of the link, what they read is what stands at
the virtual address of the field (`refKernelVa_shows`).
-/

namespace XenAccess

open Paging Traced

variable {h : Host} {p : XaParams} {node v : U32} {a : Access}

/-! ## Kernel memory -/

/-- The byte at a virtual address of the kernel, under its page tables. -/
def kernelByte (h : Host) (p : XaParams) (v : U32) : Option U8 := virtByte h p 0 0 v

/-- The 32-bit value at a virtual address of the kernel. -/
def KernelU32 (h : Host) (p : XaParams) (v value : U32) : Prop :=
  ∀ i < 4, kernelByte h p (v + BitVec.ofNat 32 i) = some (value.extractLsb' (8 * i) 8)

instance (v value : U32) : Decidable (KernelU32 h p v value) :=
  inferInstanceAs (Decidable (∀ i < 4, _ = _))

/-- The string `s` with its terminator stands at a virtual address of the kernel. -/
def KernelString (h : Host) (p : XaParams) : U32 → CStr → Prop
  | v, [] => kernelByte h p v = some 0
  | v, c :: s => kernelByte h p v = some c ∧ c ≠ 0 ∧ KernelString h p (v + 1) s

def KernelString.decide (h : Host) (p : XaParams) :
    (v : U32) → (s : CStr) → Decidable (KernelString h p v s)
  | v, [] => inferInstanceAs (Decidable (kernelByte h p v = some 0))
  | v, c :: s =>
    have := KernelString.decide h p (v + 1) s
    inferInstanceAs (Decidable (kernelByte h p v = some c ∧ c ≠ 0 ∧ KernelString h p (v + 1) s))

instance (v : U32) (s : CStr) : Decidable (KernelString h p v s) := KernelString.decide h p v s

/-- `n` bytes at an address lie in the page of a node. -/
def InPageOf (node v : U32) (n : Nat) : Prop :=
  v.toNat / 4096 = node.toNat / 4096 ∧ v.toNat % 4096 + n ≤ 4096

instance (node v : U32) (n : Nat) : Decidable (InPageOf node v n) :=
  inferInstanceAs (Decidable (_ ∧ _))

theorem InPageOf.add {n i : Nat} (hpage : InPageOf node v n) (hi : i < n) :
    InPageOf node (v + BitVec.ofNat 32 i) (n - i) := by
  obtain ⟨hsame, hroom⟩ := hpage
  have hsum : (v + BitVec.ofNat 32 i).toNat = v.toNat + i := toNat_add_in_page (by omega)
  constructor
  · omega
  · omega

/-! ## Values and their bytes -/

/-- Values with the same bytes. -/
theorem eq_of_bytes {n : Nat} {x y : BitVec (8 * n)}
    (hbytes : ∀ i < n, x.extractLsb' (8 * i) 8 = y.extractLsb' (8 * i) 8) : x = y := by
  apply BitVec.eq_of_getLsbD_eq
  intro j hj
  have hbyte := congrArg (fun b : U8 => b.getLsbD (j % 8)) (hbytes (j / 8) (by omega))
  have hindex : 8 * (j / 8) + j % 8 = j := Nat.div_add_mod j 8
  simpa only [BitVec.getLsbD_extractLsb', hindex, Nat.mod_lt j (show 8 > 0 by decide), decide_true,
    Bool.true_and] using hbyte

/-! ## Reading through a mapping -/

/-- A 32-bit value is put together from its bytes. -/
theorem u32_of_bytes {memory : Page} {d value : U32}
    (hbytes : ∀ i < 4, memory (d + BitVec.ofNat 32 i) = value.extractLsb' (8 * i) 8) :
    memory.u32 d = value := by
  have h0 : memory d = (value >>> 0).setWidth 8 := by
    have := hbytes 0 (by decide)
    rwa [BitVec.add_zero] at this
  have h1 : memory (d + 1) = (value >>> 8).setWidth 8 := hbytes 1 (by decide)
  have h2 : memory (d + 2) = (value >>> 16).setWidth 8 := hbytes 2 (by decide)
  have h3 : memory (d + 3) = (value >>> 24).setWidth 8 := hbytes 3 (by decide)
  rw [Page.u32, h0, h1, h2, h3]
  exact Bits.word32_of_bytes value

section

variable (hps : p.pageSize = 4096) (hshift : p.pageShift = 12)
include hps hshift

/-- **The mapping of a node shows the bytes of its page.** -/
theorem refKernelVa_shows (ha : refKernelVa h p node protRead = some a) (hpage : InPageOf node v 1)
    {b : U8} (hb : kernelByte h p v = some b) : a.memory (a.offset + (v - node)) = b := by
  rw [refKernelVa, accessTranslated] at ha
  split at ha
  · cases ha
  · rename_i hne
    obtain ⟨q, hq⟩ :=
      (xaPagetableLookup_translates h p (xaCurrentCr3 h p 0)).frame (u := node) hne
    have hsome : (virtByte h p 0 0 v).isSome := Option.isSome_iff_exists.mpr ⟨b, hb⟩
    obtain ⟨m, hv, hm, -⟩ := refTranslate_of_virtByte hsome
    have hmv : xaTranslateKv2p h p v = m := Except.ok.inj hv
    have hmnat : m.toNat = q * 4096 + v.toNat % 4096 := by
      rw [← hmv]
      exact hq v hpage.1.symm
    have hnode : (xaTranslateKv2p h p node).toNat = q * 4096 + node.toNat % 4096 := hq node rfl
    have hmach : machByte h p m = some b := by
      rw [← hb, kernelByte, virtByte, hv]
      exact (if_neg hm).symm
    obtain ⟨memory, hmemory, rfl⟩ := Option.map_eq_some_iff.mp ha
    rw [hshift, frame_eq_ofNat (p := { p with pageShift := 12 }) rfl] at hmemory
    rw [machByte, frameByte] at hmach
    have hframe : m.toNat / 4096 = (xaTranslateKv2p h p node).toNat / 4096 := by omega
    rw [hframe] at hmach
    obtain ⟨memory', hmemory', hbyte⟩ := Option.map_eq_some_iff.mp hmach
    have hsame : memory = memory' := Option.some.inj (hmemory.symm.trans hmemory')
    rw [← hbyte, hsame]
    apply congrArg memory'
    rw [offset_eq_ofNat hps]
    apply BitVec.eq_of_toNat_eq
    have hsub : (v - node).toNat = (2 ^ 32 - node.toNat + v.toNat) % 2 ^ 32 := BitVec.toNat_sub v node
    have hlt := node.isLt
    rw [BitVec.toNat_add, hsub, BitVec.toNat_ofNat, BitVec.toNat_ofNat, hmnat, hnode]
    obtain ⟨hdiv, -⟩ := hpage
    omega

omit hps in
/-- A byte that can be read stands in a page that can be mapped. -/
theorem mapped_of_kernelByte {b : U8} (hb : kernelByte h p v = some b) :
    ∃ a, refKernelVa h p v protRead = some a := by
  have hsome : (virtByte h p 0 0 v).isSome := Option.isSome_iff_exists.mpr ⟨b, hb⟩
  obtain ⟨m, hv, hm, hmach⟩ := refTranslate_of_virtByte hsome
  have hmv : xaTranslateKv2p h p v = m := Except.ok.inj hv
  rw [machByte, frameByte_eq, Option.isSome_map] at hmach
  obtain ⟨memory, hmemory⟩ := Option.isSome_iff_exists.mp hmach
  refine ⟨⟨m >>> p.pageShift, protRead, memory, (p.pageSize - 1) &&& m⟩, ?_⟩
  rw [refKernelVa, hmv, accessTranslated, if_neg hm, xaAccessMa, hshift]
  show (xaMmapMfn h p protRead (m >>> (12 : U32))).map _ = _
  rw [hmemory]
  rfl

/-- A value in the page of the node. -/
theorem u32_shown (ha : refKernelVa h p node protRead = some a) (hpage : InPageOf node v 4)
    {value : U32} (hv : KernelU32 h p v value) : a.memory.u32 (a.offset + (v - node)) = value := by
  apply u32_of_bytes
  intro i hi
  have hin := hpage.add hi
  have hbyte := refKernelVa_shows hps hshift ha ⟨hin.1, by have := hin.2; omega⟩ (hv i hi)
  rw [← hbyte]
  congr 1
  rw [BitVec.add_assoc]
  congr 1
  bv_omega

/-- A string in the page of the node. -/
theorem string_shown (ha : refKernelVa h p node protRead = some a) {s : CStr}
    (hpage : InPageOf node v (s.length + 1)) (hs : KernelString h p v s) :
    StringAt a.memory (a.offset + (v - node)) s := by
  induction s generalizing v with
  | nil => exact refKernelVa_shows hps hshift ha hpage hs
  | cons c s ih =>
    obtain ⟨hc, hne, hrest⟩ := hs
    have hnext : InPageOf node (v + 1) (s.length + 1) := by
      have := hpage.add (i := 1) (by simp)
      rw [List.length_cons, Nat.add_sub_cancel] at this
      exact this
    have hstring := ih hnext hrest
    have hstep : v + 1 - node = v - node + 1 := by bv_omega
    rw [hstep, ← BitVec.add_assoc] at hstring
    refine ⟨refKernelVa_shows hps hshift ha ⟨hpage.1, ?_⟩ hc, hne, hstring⟩
    have := hpage.2
    omega

/-- The bytes of a value that is read at a machine address. -/
theorem readMach_bytes {w n : Nat} {value : Page → U32 → BitVec w}
    (hvalue : LittleEndian n value) {a : U32} (hpage : a.toNat % 4096 + n ≤ 4096)
    {acc : Access} (hacc : xaAccessMa h p a protRead = some acc) {i : Nat} (hi : i < n) :
    machByte h p (a + BitVec.ofNat 32 i) =
      some ((value acc.memory acc.offset).extractLsb' (8 * i) 8) := by
  obtain ⟨memory, hmemory, rfl⟩ := Option.map_eq_some_iff.mp hacc
  rw [hshift] at hmemory
  rw [machByte, frameByte_add (by omega), hmemory, hvalue _ _ i hi, hps]
  rfl

end

end XenAccess
