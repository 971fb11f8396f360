import XenAccess.Maps.Release

/-!
# Values at the end of a page

A reader maps the page of its address and reads the whole value from it. If the value lies
in that page it is the little-endian value of its bytes in the address space; if it does
not, the reader reads past the mapping, whatever the next page of the guest holds. The same
is true of the fields of tasks, of the headers of the kernel image and of the ordinals of
its exports, which are 16 bits wide and are read as 32 bits.
-/

namespace XenAccess.Traced

open Audit Prog Paging

variable {h : Host} {p : XaParams} {s : XaState}

/-! ## Bytes of a value -/

theorem append_byte_zero {v : Nat} (x : BitVec v) (b : U8) : (x ++ b).extractLsb' (8 * 0) 8 = b :=
  BitVec.extractLsb'_append_eq_right

theorem append_byte_succ {v : Nat} (x : BitVec v) (b : U8) (i : Nat) :
    (x ++ b).extractLsb' (8 * (i + 1)) 8 = x.extractLsb' (8 * i) 8 := by
  rw [BitVec.extractLsb'_append_eq_of_le (by omega)]
  rfl

theorem u32_byte (memory : Page) (d : U32) {i : Nat} (hi : i < 4) :
    (memory.u32 d).extractLsb' (8 * i) 8 = memory (d + BitVec.ofNat 32 i) := by
  have h0 := append_byte_zero (memory (d + 3) ++ memory (d + 2) ++ memory (d + 1)) (memory d)
  have h1 := append_byte_zero (memory (d + 3) ++ memory (d + 2)) (memory (d + 1))
  have h2 := append_byte_zero (memory (d + 3)) (memory (d + 2))
  obtain rfl | rfl | rfl | rfl : i = 0 ∨ i = 1 ∨ i = 2 ∨ i = 3 := by omega
  · exact h0.trans (congrArg memory (BitVec.add_zero d).symm)
  · exact (append_byte_succ _ _ 0).trans h1
  · exact (append_byte_succ _ _ 1).trans ((append_byte_succ _ _ 0).trans h2)
  · exact (append_byte_succ _ _ 2).trans ((append_byte_succ _ _ 1).trans
      ((append_byte_succ _ _ 0).trans BitVec.extractLsb'_eq_self))

theorem u64_byte (memory : Page) (d : U32) {i : Nat} (hi : i < 8) :
    (memory.u64 d).extractLsb' (8 * i) 8 = memory (d + BitVec.ofNat 32 i) := by
  rw [Page.u64]
  by_cases hlow : i < 4
  · exact (BitVec.extractLsb'_append_eq_of_add_le (by omega)).trans (u32_byte memory d hlow)
  · obtain ⟨k, rfl⟩ : ∃ k, i = 4 + k := ⟨i - 4, by omega⟩
    have hstart : 8 * (4 + k) - 32 = 8 * k := by omega
    refine (BitVec.extractLsb'_append_eq_of_le (by omega)).trans ?_
    rw [hstart, u32_byte memory _ (by omega), BitVec.add_assoc, BitVec.ofNat_add]
    rfl

/-! ## Bytes of the address spaces -/

/-- The byte at an address of a space whose frames are given, if its frame can be mapped. -/
def frameByte (frame : U32 → Option Page) (address : U32) : Option U8 :=
  (frame (BitVec.ofNat 32 (address.toNat / 4096))).map fun memory =>
    memory (BitVec.ofNat 32 (address.toNat % 4096))

/-- The byte at a machine address. -/
def machByte (h : Host) (p : XaParams) : U32 → Option U8 :=
  frameByte (XenAccess.xaMmapMfn h p protRead)

/-- The byte at a physical address. -/
def physByte (h : Host) (p : XaParams) : U32 → Option U8 :=
  frameByte fun pfn => (XenAccess.xaMmapPfn h p protRead pfn).map Prod.snd

/-- The byte at a virtual address of a process, under the translation without caches. -/
def virtByte (h : Host) (p : XaParams) (fuel : Nat) (pid vaddr : U32) : Option U8 :=
  match refTranslate h p fuel pid vaddr with
  | .ok maddr => if maddr = 0 then none else machByte h p maddr
  | .error _ => none

/-- If every byte of a value of `n` bytes can be mapped, the outcome of its reader is the
little-endian value of the bytes. -/
def ReadsLe {w : Nat} (byte : U32 → Option U8) (address : U32) (n : Nat)
    (o : Except Fault (Option (BitVec w) × XaState)) : Prop :=
  (∀ i < n, (byte (address + BitVec.ofNat 32 i)).isSome) →
    ∃ value t, o = .ok (some value, t) ∧
      ∀ i < n, byte (address + BitVec.ofNat 32 i) = some (value.extractLsb' (8 * i) 8)

/-- What a call should return: of the readers, the value at their address. A reader by
virtual address does so when the caches hold what they are for. -/
def Op.Right (h : Host) (fuel : Nat) (s : XaState) :
    (op : Op) → Except Fault (op.Result × XaState) → Prop
  | .readLongMach maddr, o => ReadsLe (machByte h s.toXaParams) maddr 4 o
  | .readLongLongMach maddr, o => ReadsLe (machByte h s.toXaParams) maddr 8 o
  | .readLongPhys paddr, o => ReadsLe (physByte h s.toXaParams) paddr 4 o
  | .readLongLongPhys paddr, o => ReadsLe (physByte h s.toXaParams) paddr 8 o
  | .readLongVirt vaddr pid, o => Sound h s.toXaParams fuel s →
      ReadsLe (virtByte h s.toXaParams fuel pid) vaddr 4 o
  | .readLongLongVirt vaddr pid, o => Sound h s.toXaParams fuel s →
      ReadsLe (virtByte h s.toXaParams fuel pid) vaddr 8 o
  | _, _ => True

/-! ## Addresses in one page -/

theorem toNat_add_in_page {a : U32} {i : Nat} (hi : a.toNat % 4096 + i < 4096) :
    (a + BitVec.ofNat 32 i).toNat = a.toNat + i := by
  have hlt := a.isLt
  rw [BitVec.toNat_add, BitVec.toNat_ofNat]
  omega

theorem frameByte_add {frame : U32 → Option Page} {a : U32} {i : Nat}
    (hi : a.toNat % 4096 + i < 4096) :
    frameByte frame (a + BitVec.ofNat 32 i) =
      (frame (a >>> (12 : U32))).map fun memory =>
        memory (((4096 : U32) - 1 &&& a) + BitVec.ofNat 32 i) := by
  have hsum := toNat_add_in_page hi
  have hframe : BitVec.ofNat 32 ((a + BitVec.ofNat 32 i).toNat / 4096) = a >>> (12 : U32) := by
    apply BitVec.eq_of_toNat_eq
    have hlt := a.isLt
    rw [hsum, BitVec.toNat_ofNat, BitVec.ushiftRight_eq', BitVec.toNat_ushiftRight,
      Nat.shiftRight_eq_div_pow]
    show (a.toNat + i) / 4096 % 4294967296 = a.toNat / 4096
    omega
  have hbyte : BitVec.ofNat 32 ((a + BitVec.ofNat 32 i).toNat % 4096) =
      ((4096 : U32) - 1 &&& a) + BitVec.ofNat 32 i := by
    apply BitVec.eq_of_toNat_eq
    have hmask : ((4096 : U32) - 1 &&& a).toNat = a.toNat % 4096 := by
      rw [BitVec.and_comm]
      exact toNat_and_fff a
    rw [hsum, BitVec.toNat_ofNat, BitVec.toNat_add, hmask, BitVec.toNat_ofNat]
    omega
  rw [frameByte, hframe, hbyte]

theorem frameByte_eq (frame : U32 → Option Page) (a : U32) :
    frameByte frame a =
      (frame (a >>> (12 : U32))).map fun memory => memory ((4096 : U32) - 1 &&& a) := by
  have hzero (b : U32) : b + BitVec.ofNat 32 0 = b := BitVec.add_zero b
  have hadd : a.toNat % 4096 + 0 < 4096 := Nat.mod_lt _ (by decide)
  have hbyte : frameByte frame (a + BitVec.ofNat 32 0) = _ := frameByte_add hadd
  simp only [hzero] at hbyte
  exact hbyte

/-- A value read from the page that is mapped for it. -/
theorem readsLe_of_inPage {w n : Nat} {frame : U32 → Option Page} {a : U32}
    {value : Page → U32 → BitVec w} (hn : 0 < n)
    (hvalue : ∀ memory d i, i < n →
      (value memory d).extractLsb' (8 * i) 8 = memory (d + BitVec.ofNat 32 i))
    (hin : ∀ memory, frame (a >>> (12 : U32)) = some memory → a.toNat % 4096 + n ≤ 4096) :
    ReadsLe (frameByte frame) a n (.ok ((frame (a >>> (12 : U32))).map fun memory =>
      value memory ((4096 : U32) - 1 &&& a), s)) := by
  intro hall
  have hfirst := hall 0 hn
  rw [BitVec.add_zero, frameByte_eq, Option.isSome_map] at hfirst
  obtain ⟨memory, hmemory⟩ := Option.isSome_iff_exists.mp hfirst
  have hpage := hin memory hmemory
  refine ⟨_, s, by rw [hmemory]; rfl, ?_⟩
  intro i hi
  rw [frameByte_add (by omega), hmemory, hvalue _ _ i hi]
  rfl

/-- The translation of an address gives those of the addresses after it in its page. -/
theorem lookup_add {cr3 v : U32} (hne : XenAccess.xaPagetableLookup h p cr3 v ≠ 0) :
    (XenAccess.xaPagetableLookup h p cr3 v).toNat % 4096 = v.toNat % 4096 ∧
      ∀ i, v.toNat % 4096 + i < 4096 → XenAccess.xaPagetableLookup h p cr3 (v + BitVec.ofNat 32 i) =
        XenAccess.xaPagetableLookup h p cr3 v + BitVec.ofNat 32 i := by
  obtain ⟨q, hq⟩ := (xaPagetableLookup_translates h p cr3).frame hne
  have hself := hq v rfl
  refine ⟨by omega, ?_⟩
  intro i hi
  have hsum := toNat_add_in_page hi
  have hsame : SamePage 12 v (v + BitVec.ofNat 32 i) := by
    show v.toNat / 4096 = (v + BitVec.ofNat 32 i).toNat / 4096
    omega
  have hnext := hq _ hsame
  apply BitVec.eq_of_toNat_eq
  rw [toNat_add_in_page (by omega)]
  omega

theorem refTranslate_add {fuel : Nat} {pid v m : U32} (hv : refTranslate h p fuel pid v = .ok m)
    (hm : m ≠ 0) : m.toNat % 4096 = v.toNat % 4096 ∧ ∀ i, v.toNat % 4096 + i < 4096 →
      refTranslate h p fuel pid (v + BitVec.ofNat 32 i) = .ok (m + BitVec.ofNat 32 i) := by
  rw [refTranslate] at hv
  split at hv
  · rename_i hpid
    obtain rfl := Except.ok.inj hv
    obtain ⟨hoff, hadd⟩ := lookup_add hm
    refine ⟨hoff, fun i hi => ?_⟩
    rw [refTranslate, if_pos hpid]
    exact congrArg Except.ok (hadd i hi)
  · rename_i hpid
    cases hpgd : refPidToPgd h p fuel pid with
    | error e =>
      rw [hpgd] at hv
      cases hv
    | ok pgd =>
      rw [hpgd] at hv
      obtain rfl := Except.ok.inj hv
      by_cases hzero : pgd != 0
      · have hbelow (u : U32) : XenAccess.lookupBelow h p pgd u = XenAccess.xaPagetableLookup h p pgd u :=
          if_pos hzero
        rw [hbelow] at hm ⊢
        obtain ⟨hoff, hadd⟩ := lookup_add hm
        refine ⟨hoff, fun i hi => ?_⟩
        rw [refTranslate, if_neg hpid, hpgd]
        exact congrArg Except.ok ((hbelow _).trans (hadd i hi))
      · exact absurd (if_neg hzero) hm

/-! ## Readers -/

/-- `value` has the `n` bytes at a displacement, the lowest first. -/
def LittleEndian {w : Nat} (n : Nat) (value : Page → U32 → BitVec w) : Prop :=
  ∀ memory d i, i < n → (value memory d).extractLsb' (8 * i) 8 = memory (d + BitVec.ofNat 32 i)

section reader

variable {w n : Nat} {value : Page → U32 → BitVec w} {frame : U32 → Option Page} {a : U32}
  {o : Option Access}

/-- An access to an address maps its frame. -/
def Accesses (frame : U32 → Option Page) (a : U32) (o : Option Access) : Prop :=
  (o.map fun b => (b.memory, b.offset)) =
    (frame (a >>> (12 : U32))).map fun memory => (memory, (4096 : U32) - 1 &&& a)

theorem xaAccessMa_accesses (hps : p.pageSize = 4096) (hshift : p.pageShift = 12) (maddr : U32) :
    Accesses (XenAccess.xaMmapMfn h p protRead) maddr (XenAccess.xaAccessMa h p maddr protRead) := by
  rw [Accesses, XenAccess.xaAccessMa, Option.map_map, hps, hshift]
  rfl

theorem xaAccessPa_accesses (hps : p.pageSize = 4096) (hshift : p.pageShift = 12) (paddr : U32) :
    Accesses (fun pfn => (XenAccess.xaMmapPfn h p protRead pfn).map Prod.snd) paddr
      (XenAccess.xaAccessPa h p paddr protRead) := by
  rw [Accesses, XenAccess.xaAccessPa, Option.map_map, Option.map_map, hps, hshift]
  rfl

theorem Accesses.inPage (ho : Accesses frame a o) (hin : ValueIn n o) {memory : Page}
    (hmemory : frame (a >>> (12 : U32)) = some memory) : a.toNat % 4096 + n ≤ 4096 := by
  rw [Accesses, hmemory] at ho
  obtain ⟨b, hb, hpair⟩ := Option.map_eq_some_iff.mp ho
  have hoff : b.offset = (4096 : U32) - 1 &&& a := (Prod.mk.inj hpair).2
  have hpage := hin b hb
  rw [InMapping, hoff, BitVec.and_comm] at hpage
  have hmask : (a &&& ((4096 : U32) - 1)).toNat = a.toNat % 4096 := toNat_and_fff a
  rw [hmask] at hpage
  exact hpage

/-- A value read through an access, when it lies in the page. -/
theorem Accesses.readsLe (ho : Accesses frame a o) (hn : 0 < n) (hvalue : LittleEndian n value)
    (hin : ValueIn n o) :
    ReadsLe (frameByte frame) a n (.ok (o.map fun b => value b.memory b.offset, s)) := by
  have hread : (o.map fun b => value b.memory b.offset) =
      (frame (a >>> (12 : U32))).map fun memory => value memory ((4096 : U32) - 1 &&& a) := by
    have hpairs := congrArg (Option.map fun b : Page × U32 => value b.1 b.2) ho
    rw [Option.map_map, Option.map_map] at hpairs
    exact hpairs
  rw [hread]
  exact readsLe_of_inPage hn hvalue fun memory hmemory => ho.inPage hin hmemory

theorem ReadsLe.congr {byte byte' : U32 → Option U8} {a' : U32}
    {r : Except Fault (Option (BitVec w) × XaState)}
    (hr : ReadsLe byte' a' n r)
    (hbytes : ∀ i < n, byte (a + BitVec.ofNat 32 i) = byte' (a' + BitVec.ofNat 32 i)) :
    ReadsLe byte a n r := by
  intro hall
  obtain ⟨x, t, hx, hle⟩ := hr fun i hi => by rw [← hbytes i hi]; exact hall i hi
  exact ⟨x, t, hx, fun i hi => (hbytes i hi).trans (hle i hi)⟩

/-- The bytes of a page of virtual memory are those of a page of machine memory. -/
theorem virtByte_add {fuel i : Nat} {pid v m : U32} (hv : refTranslate h p fuel pid v = .ok m)
    (hm : m ≠ 0) (hi : v.toNat % 4096 + i < 4096) :
    virtByte h p fuel pid (v + BitVec.ofNat 32 i) = machByte h p (m + BitVec.ofNat 32 i) := by
  obtain ⟨hoff, hadd⟩ := refTranslate_add hv hm
  have hne : m + BitVec.ofNat 32 i ≠ 0 := by
    intro hzero
    have hsum : (m + BitVec.ofNat 32 i).toNat = m.toNat + i := toNat_add_in_page (by omega)
    have hpos : m.toNat ≠ 0 := fun h0 => hm (BitVec.eq_of_toNat_eq h0)
    have hlhs : (m + BitVec.ofNat 32 i).toNat = 0 := congrArg BitVec.toNat hzero
    omega
  rw [virtByte, hadd i hi]
  exact if_neg hne

/-- The first byte of a value at a virtual address can be mapped only through a translation. -/
theorem refTranslate_of_virtByte {fuel : Nat} {pid v : U32}
    (hbyte : (virtByte h p fuel pid v).isSome) : ∃ m, refTranslate h p fuel pid v = .ok m ∧ m ≠ 0 ∧
      (machByte h p m).isSome := by
  rw [virtByte] at hbyte
  cases hv : refTranslate h p fuel pid v with
  | error e =>
    rw [hv] at hbyte
    cases hbyte
  | ok m =>
    rw [hv] at hbyte
    by_cases hm : m = 0
    · simp only [hm, if_true] at hbyte
      cases hbyte
    · simp only [hm, if_false] at hbyte
      exact ⟨m, rfl, hm, hbyte⟩

/-- A value at a virtual address, with caches that hold what they are for. -/
theorem readVirt_right {fuel : Nat} {pid v : U32} (hps : s.pageSize = 4096)
    (hshift : s.pageShift = 12) (hs : Sound h s.toXaParams fuel s) (hn : 0 < n)
    (hvalue : LittleEndian n value)
    (hin : After (XenAccess.xaAccessUserVa h fuel v pid protRead) s fun r _ => ValueIn n r) :
    ReadsLe (virtByte h s.toXaParams fuel pid) v n ((do
      return (← XenAccess.xaAccessUserVa h fuel v pid protRead).map fun b =>
        value b.memory b.offset : XaM (Option (BitVec w))) s) := by
  intro hall
  have hfirst := hall 0 hn
  rw [BitVec.add_zero] at hfirst
  obtain ⟨m, hv, hm, hbyte⟩ := refTranslate_of_virtByte hfirst
  -- the access is the one to the machine address
  have hread := xaAccessMa_accesses (h := h) hps hshift m
  have href : refUserVa h s.toXaParams fuel v pid protRead =
      .ok (XenAccess.xaAccessMa h s.toXaParams m protRead) := by
    rw [refUserVa, hv]
    exact congrArg Except.ok (if_neg hm)
  obtain ⟨t, hrun, -⟩ := follows_exists (xaAccessUserVa_follows hps hs v pid protRead) href
  have hvalueIn := hin _ t hrun
  -- so the value lies in one page of machine memory
  obtain ⟨hoff, -⟩ := refTranslate_add hv hm
  rw [machByte, frameByte_eq, Option.isSome_map] at hbyte
  obtain ⟨memory, hmemory⟩ := Option.isSome_iff_exists.mp hbyte
  have hpage := hread.inPage hvalueIn hmemory
  rw [bind_of_ok hrun]
  refine (hread.readsLe hn hvalue hvalueIn).congr ?_ hall
  intro i hi
  exact virtByte_add hv hm (by omega)

end reader

theorem long_littleEndian : LittleEndian 4 Page.u32 := fun memory d _ hi => u32_byte memory d hi

theorem longLong_littleEndian : LittleEndian 8 Page.u64 := fun memory d _ hi => u64_byte memory d hi

/-- What a call reads from pages that hold it is right. -/
theorem op_right_of_inBounds (hps : s.pageSize = 4096) (hshift : s.pageShift = 12) {fuel : Nat}
    {op : Op} (hin : op.InBounds h fuel s) : op.Right h fuel s (op.exec h fuel s) := by
  cases op with
  | readLongMach maddr =>
    exact (xaAccessMa_accesses hps hshift maddr).readsLe (by decide) long_littleEndian hin
  | readLongLongMach maddr =>
    exact (xaAccessMa_accesses hps hshift maddr).readsLe (by decide) longLong_littleEndian hin
  | readLongPhys paddr =>
    exact (xaAccessPa_accesses hps hshift paddr).readsLe (by decide) long_littleEndian hin.2
  | readLongLongPhys paddr =>
    exact (xaAccessPa_accesses hps hshift paddr).readsLe (by decide) longLong_littleEndian hin.2
  | readLongVirt vaddr pid =>
    exact fun hs => readVirt_right hps hshift hs (by decide) long_littleEndian hin.2
  | readLongLongVirt vaddr pid =>
    exact fun hs => readVirt_right hps hshift hs (by decide) longLong_littleEndian hin.2
  | _ => trivial

/-- **When a call reads what it should.** A value reader returns the little-endian value of
the bytes at its address, and no load of the run leaves the pages it goes through, exactly
if all that the call reads lies in the pages that it maps for it. -/
theorem op_right_iff (h : Host) (fuel : Nat) (s : XaState) (hps : s.pageSize = 4096)
    (hshift : s.pageShift = 12) (L : Ledger (Option SavedTable)) (hL : L.WF)
    (hfits : ∀ table, L.store = some table → pfnTable h s.toXaParams = some table) (op : Op) :
    (op.Right h fuel s (op.run h fuel s L).1 ∧
        (op.run h fuel s L).2.strayLoads = L.strayLoads) ↔
      op.InBounds h fuel s ∧ (op.MapsPfn fuel s → ListsIn h s.toXaParams L.store) := by
  have htracks := op_tracks (h := h) hps fuel op
  rw [htracks.outcome_eq hL rfl hfits, htracks.strayLoads_iff hL rfl hfits]
  exact and_iff_right_of_imp fun hin => op_right_of_inBounds hps hshift hin.1

/-- The link of the first task of a list. -/
theorem taskState_reads :
    (Op.readLongPhys 0x3010).Right (imageHost taskWords) 3 taskState
        ((Op.readLongPhys 0x3010).run (imageHost taskWords) 3 taskState (Ledger.empty none)).1 ∧
      ((Op.readLongPhys 0x3010).run (imageHost taskWords) 3 taskState (Ledger.empty none)).2.strayLoads
        = 0 := by
  have hin : (Op.readLongPhys 0x3010).InBounds (imageHost taskWords) 3 taskState := by
    constructor
    · intro hmode
      cases hmode
    · intro b hb
      cases hb
      decide
  refine (op_right_iff (imageHost taskWords) 3 taskState rfl rfl (Ledger.empty none) (.empty none) ?_
    (.readLongPhys 0x3010)).mpr ⟨hin, ?_⟩
  · intro table htable
    cases htable
  · intro _ hbuild
    cases hbuild.1

/-! ### A value over the end of a page -/

/-- A guest with the bytes `11 22` at the end of a page and `33 44` at the start of the next. -/
def splitWords : Words := [(0x3FFC, 0x22110000), (0x4000, 0x4433)]

/-- What follows a mapping is not the next page of the guest. -/
def splitHost : Host :=
  { imageHost splitWords with
    mmap := fun _ address => some fun d => if d < 4096 then imagePage splitWords address d else 0 }

/-- All four bytes at `0x3FFE` can be mapped. The reader reads two of them, and two bytes
that are not in its page. -/
theorem readLongPhys_over_page :
    ¬(Op.readLongPhys 0x3FFE).Right splitHost 0 taskState
        ((Op.readLongPhys 0x3FFE).run splitHost 0 taskState (Ledger.empty none)).1 ∧
      ((Op.readLongPhys 0x3FFE).run splitHost 0 taskState (Ledger.empty none)).2.strayLoads ≠ 0 := by
  have htracks := op_tracks (h := splitHost) (s := taskState) rfl 0 (.readLongPhys 0x3FFE)
  have hfits : (rules splitHost taskState.toXaParams).fits none := fun table htable => by cases htable
  constructor
  · intro hright
    rw [htracks.outcome_eq (.empty none) rfl hfits] at hright
    obtain ⟨value, t, hrun, hle⟩ := hright (by decide)
    have hread : XenAccess.xaReadLongPhys splitHost taskState.toXaParams 0x3FFE = some 0x2211 := by
      decide
    have hvalue : some value = some (0x2211 : U32) :=
      (congrArg Prod.fst (Except.ok.inj hrun)).symm.trans hread
    cases hvalue
    have hbyte := hle 2 (by decide)
    revert hbyte
    decide
  · intro hloads
    have hin := (htracks.strayLoads_iff (.empty none) rfl hfits).mp hloads
    have hpage := hin.1.2 _ rfl
    revert hpage
    decide

end XenAccess.Traced
