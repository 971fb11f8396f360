import XenAccess.Maps.Physical
import XenAccess.Process.Sweeps

/-!
# The scan for a process object

`windows_find_eprocess` keeps the value of the last slot it could read, and it compares as much
of the name as the mapping of one page shows. So there are slots that seem to be the process and
are not, and slots that are and do not seem so. Where both agree up to the first of them, the
scan is right.
-/

namespace XenAccess

open Orbit Sweep

variable {h : Host} {p : XaParams} {name : CStr}

/-! ## Processes in memory -/

/-- The type and size fields of a process object, of two versions of Windows. -/
def IsProcessType (value : U32) : Prop := value = 0x001b0003 ∨ value = 0x00200003

instance : DecidablePred IsProcessType := fun _ => inferInstanceAs (Decidable (_ ∨ _))

/-- At the slot there is the object of a process with the name. -/
structure IsEprocess (h : Host) (p : XaParams) (name : CStr) (o : Nat) : Prop where
  aligned : o % 8 = 0
  below : o < p.size.toNat
  type : ∃ value, physU32 h p o = some value ∧ IsProcessType value
  name : PhysString h p (o + 0x174) name

/-- The value of the last slot up to the slot `k` that can be read, `0` if there is none. -/
def lastValue (h : Host) (p : XaParams) : Nat → U32
  | 0 => (physU32 h p 0).getD 0
  | k + 1 => (physU32 h p (8 * (k + 1))).getD (lastValue h p k)

/-- To the scan the slot seems to be a process with the name. -/
structure SeemsEprocess (h : Host) (p : XaParams) (name : CStr) (o : Nat) : Prop where
  aligned : o % 8 = 0
  below : o < p.size.toNat
  type : IsProcessType (lastValue h p (o / 8))
  name : windowsGetEprocessName h p (BitVec.ofNat 32 o) = some name

/-- `windows_find_eprocess` gives the lowest process with the name, and `0` only if there is
none. -/
def FindsEprocess (h : Host) (p : XaParams) (name : CStr) : Prop :=
  ∃ fuel r, windowsFindEprocess h p fuel name = .ok r ∧
    (r ≠ 0 → IsEprocess h p name r.toNat ∧ ∀ o < r.toNat, ¬IsEprocess h p name o) ∧
    (r = 0 → ∀ o, ¬IsEprocess h p name o)

/-! ## Names -/

theorem slotFound_iff (hlen : name.length < 50) (x : U32 × U32) :
    slotFound h p name x = true ↔
      IsProcessType (slotValue h p x) ∧ windowsGetEprocessName h p x.1 = some name := by
  unfold slotFound IsProcessType
  by_cases htype : slotValue h p x = 0x001b0003 ∨ slotValue h p x = 0x00200003
  · rw [if_pos htype]
    cases hprocname : windowsGetEprocessName h p x.1 with
    | none => simp
    | some procname =>
      simp only [strncmpEq_comm procname, strncmpEq_iff hlen, Option.some_inj, htype, true_and]
  · rw [if_neg htype]
    exact iff_of_false Bool.false_ne_true fun hboth => htype hboth.1

/-! ## Slots -/

theorem lastValue_of_read {k : Nat} {value : U32} (hread : physU32 h p (8 * k) = some value) :
    lastValue h p k = value := by
  cases k with
  | zero => rw [lastValue, hread, Option.getD_some]
  | succ k => rw [lastValue, hread, Option.getD_some]

/-- The value with which the scan comes to the slot `k` for the first time. -/
def carriedValue (h : Host) (p : XaParams) : Nat → U32
  | 0 => 0
  | k + 1 => lastValue h p k

section

variable (hsize : p.pageSize = 4096) (hshift : p.pageShift = 12)
include hsize hshift

theorem slot_read {k : Nat} (hk : 8 * k < 2 ^ 32) :
    physU32 h p (8 * k) = xaReadLongPhys h p (BitVec.ofNat 32 (8 * k)) :=
  physU32_eq hsize hshift hk (by omega)

theorem slotValue_carried {k : Nat} (hk : 8 * k < 2 ^ 32) :
    slotValue h p (BitVec.ofNat 32 (8 * k), carriedValue h p k) = lastValue h p k := by
  unfold slotValue
  rw [← slot_read hsize hshift hk]
  cases k with
  | zero => rfl
  | succ k => rfl

/-- A slot that can be read, with the name in one page, seems to be a process exactly if it is
one. -/
theorem seemsEprocess_iff {o : Nat} (hread : (physU32 h p o).isSome)
    (haddress : o + 0x174 < 2 ^ 32) (hlen : name.length < 50)
    (hpage : (o + 0x174) % 4096 + name.length < 4096) :
    SeemsEprocess h p name o ↔ IsEprocess h p name o := by
  obtain ⟨value, hvalue⟩ := Option.isSome_iff_exists.mp hread
  have htype (haligned : o % 8 = 0) : lastValue h p (o / 8) = value := by
    apply lastValue_of_read
    rwa [show 8 * (o / 8) = o by omega]
  have hname : windowsGetEprocessName h p (BitVec.ofNat 32 o) = some name ↔
      PhysString h p (o + 0x174) name := by
    have hsum : BitVec.ofNat 32 o + 0x174 = BitVec.ofNat 32 (o + 0x174) :=
      (BitVec.ofNat_add o 0x174).symm
    unfold windowsGetEprocessName
    rw [hsum]
    cases hacc : xaAccessPa h p (BitVec.ofNat 32 (o + 0x174)) protRead with
    | none => exact iff_of_false (by simp) (not_physString (physByte_none hacc) name)
    | some acc =>
      rw [Option.map_some, Option.some_inj, cstr_eq_iff hlen,
        physString_mapped hsize hshift haddress hacc hpage]
  constructor
  · intro hseems
    refine ⟨hseems.aligned, hseems.below, ⟨value, hvalue, ?_⟩, hname.mp hseems.name⟩
    rw [← htype hseems.aligned]
    exact hseems.type
  · intro his
    obtain ⟨value', hvalue', hprocess⟩ := his.type
    obtain rfl : value = value' := Option.some.inj (hvalue.symm.trans hvalue')
    refine ⟨his.aligned, his.below, ?_, hname.mpr his.name⟩
    rw [htype his.aligned]
    exact hprocess

/-- The name of the slot `0` stands in the page of the slot. -/
theorem firstSlot_read (hname : windowsGetEprocessName h p 0 = some name) :
    (physU32 h p 0).isSome := by
  obtain ⟨acc, hacc, -⟩ := Option.map_eq_some_iff.mp hname
  have hpage : ((0 : U32) + 0x174).toNat / 4096 = (0 : U32).toNat / 4096 := by decide
  have hfirst := xaAccessPa_samePage hshift hpage hacc
  have hread : physU32 h p 0 = xaReadLongPhys h p 0 := slot_read (k := 0) hsize hshift (by decide)
  rw [hread, xaReadLongPhys, hfirst]
  rfl

theorem firstSlot_is (hlen : name.length < 50) (hseems : SeemsEprocess h p name 0) :
    IsEprocess h p name 0 :=
  (seemsEprocess_iff hsize hshift (firstSlot_read hsize hshift hseems.name) (by decide) hlen
    (by omega)).mp hseems

/-! ## Rounds -/

/-- Before a slot that seems to be the process, the scan passes all slots. -/
theorem nth_slot (hlen : name.length < 50) {k : Nat}
    (hpass : ∀ j < k, 8 * j < p.size.toNat ∧ ¬SeemsEprocess h p name (8 * j)) :
    nth (slotNext h p name) (0, 0) k = some (BitVec.ofNat 32 (8 * k), carriedValue h p k) := by
  induction k with
  | zero => rfl
  | succ k ih =>
    obtain ⟨hlt, hnot⟩ := hpass k k.lt_succ_self
    have hk : 8 * k < 2 ^ 32 := hlt.trans p.size.isLt
    have hvalue := slotValue_carried (h := h) hsize hshift hk
    have hbelow : BitVec.ofNat 32 (8 * k) < p.size := by
      rw [BitVec.lt_def, BitVec.toNat_ofNat, Nat.mod_eq_of_lt hk]
      exact hlt
    have hlost : ¬slotFound h p name (BitVec.ofNat 32 (8 * k), carriedValue h p k) = true := by
      intro hfound
      obtain ⟨htype, hname⟩ := (slotFound_iff hlen _).mp hfound
      rw [hvalue] at htype
      refine hnot ⟨Nat.mul_mod_right 8 k, hlt, ?_, hname⟩
      rwa [Nat.mul_div_cancel_left k (by decide)]
    show (nth (slotNext h p name) (0, 0) k).bind (slotNext h p name) = _
    rw [ih fun j hj => hpass j (by omega), Option.bind_some, slotNext, if_pos hbelow,
      if_neg hlost, hvalue, Nat.mul_succ, BitVec.ofNat_add]
    rfl

end

/-- The result of the scan comes from the state without successor. -/
theorem windowsFindEprocess_ok {r : U32} :
    (∃ fuel, windowsFindEprocess h p fuel name = .ok r) ↔
      ∃ k y, nth (slotNext h p name) (0, 0) k = some y ∧ slotNext h p name y = none ∧
        r = slotResult p y := by
  constructor
  · rintro ⟨fuel, hr⟩
    obtain ⟨k, y, hy, hstop, hlast⟩ := eprocessLoop_goesAlong.last_round (s := (0, 0)) hr
    exact ⟨k, y, hy, hstop, Except.ok.inj (hlast.symm.trans (eprocessLoop_stop hstop 0))⟩
  · rintro ⟨k, y, hy, hstop, rfl⟩
    have hend : nth (slotNext h p name) (0, 0) (k + 1) = none := by
      show (nth (slotNext h p name) (0, 0) k).bind _ = none
      rw [hy]
      exact hstop
    obtain ⟨r, hr⟩ := (eprocessLoop_goesAlong.ends_iff (k + 1) (0, 0)).mpr hend
    obtain ⟨k', y', hy', hstop', hlast⟩ := eprocessLoop_goesAlong.last_round (s := (0, 0)) hr
    obtain rfl := stop_unique hy hstop hy' hstop'
    rw [← Except.ok.inj (hlast.symm.trans (eprocessLoop_stop hstop 0))]
    exact ⟨k + 1, hr⟩

section

variable (hsize : p.pageSize = 4096) (hshift : p.pageShift = 12) (hlen : name.length < 50)
include hsize hshift hlen

/-- The scan stops at the lowest slot that seems to be the process. -/
theorem scan_stops_at {o : Nat} (hseems : SeemsEprocess h p name o)
    (hfirst : ∀ o' < o, ¬SeemsEprocess h p name o') :
    ∃ k y, nth (slotNext h p name) (0, 0) k = some y ∧ slotNext h p name y = none ∧
      slotResult p y = BitVec.ofNat 32 o := by
  obtain ⟨m, rfl⟩ := Nat.dvd_of_mod_eq_zero hseems.aligned
  have hm : 8 * m < 2 ^ 32 := hseems.below.trans p.size.isLt
  have hwalk := nth_slot (h := h) hsize hshift hlen (k := m) fun j hj =>
    ⟨Nat.lt_trans (by omega) hseems.below, hfirst (8 * j) (by omega)⟩
  have hbelow : BitVec.ofNat 32 (8 * m) < p.size := by
    rw [BitVec.lt_def, BitVec.toNat_ofNat, Nat.mod_eq_of_lt hm]
    exact hseems.below
  have hfound : slotFound h p name (BitVec.ofNat 32 (8 * m), carriedValue h p m) = true := by
    rw [slotFound_iff hlen, slotValue_carried hsize hshift hm]
    have htype := hseems.type
    rw [Nat.mul_div_cancel_left m (by decide)] at htype
    exact ⟨htype, hseems.name⟩
  refine ⟨m, _, hwalk, ?_, if_pos hbelow⟩
  rw [slotNext, if_pos hbelow, if_pos hfound]

/-- Without a slot that seems to be the process, the scan ends at the size, unless it wraps. -/
theorem scan_stops_at_size (hle : p.size ≤ 0xFFFFFFF8) (hnone : ∀ o, ¬SeemsEprocess h p name o) :
    ∃ k y, nth (slotNext h p name) (0, 0) k = some y ∧ slotNext h p name y = none ∧
      slotResult p y = 0 := by
  have hroom : p.size.toNat ≤ 0xFFFFFFF8 := BitVec.le_def.mp hle
  let k := (p.size.toNat + 7) / 8
  have hk : 8 * k < 2 ^ 32 := by omega
  have hwalk := nth_slot (h := h) hsize hshift hlen (k := k) fun j hj => ⟨by omega, hnone (8 * j)⟩
  have hend : ¬BitVec.ofNat 32 (8 * k) < p.size := by
    rw [BitVec.lt_def, BitVec.toNat_ofNat, Nat.mod_eq_of_lt hk]
    omega
  exact ⟨k, _, hwalk, if_neg hend, if_neg hend⟩

/-- In whatever round the scan finds something: a slot that can be read seems to be the
process. -/
theorem seems_of_found {k : Nat} {y : U32 × U32}
    (hy : nth (slotNext h p name) (0, 0) k = some y) (hbelow : y.1 < p.size)
    (hfound : slotFound h p name y = true) (hread : (physU32 h p y.1.toNat).isSome) :
    SeemsEprocess h p name y.1.toNat := by
  obtain ⟨htype, hname⟩ := (slotFound_iff hlen y).mp hfound
  have hcursor : y.1 = BitVec.ofNat 32 (k * 8) := slotNext_sweeps.cursor_nth rfl hy
  obtain ⟨m, hm⟩ : ∃ m, y.1.toNat = 8 * m := by
    refine ⟨k * 8 % 2 ^ 32 / 8, ?_⟩
    rw [hcursor, BitVec.toNat_ofNat]
    omega
  have hslot : y.1 = BitVec.ofNat 32 (8 * m) := by
    rw [← hm, BitVec.ofNat_toNat, BitVec.setWidth_eq]
  have hlt : 8 * m < 2 ^ 32 := hm ▸ y.1.isLt
  obtain ⟨value, hvalue⟩ := Option.isSome_iff_exists.mp hread
  rw [hm] at hvalue
  have hown : slotValue h p y = lastValue h p m := by
    rw [lastValue_of_read hvalue, slotValue, hslot, ← slot_read hsize hshift hlt, hvalue,
      Option.getD_some]
  rw [hm]
  rw [hown] at htype
  rw [hslot] at hname
  refine ⟨Nat.mul_mod_right 8 m, hm ▸ BitVec.lt_def.mp hbelow, ?_, hname⟩
  rwa [Nat.mul_div_cancel_left m (by decide)]

end

theorem stop_below {k : Nat} {y : U32 × U32} (hgt : ¬p.size ≤ 0xFFFFFFF8)
    (hy : nth (slotNext h p name) (0, 0) k = some y) (hstop : slotNext h p name y = none) :
    y.1 < p.size ∧ slotFound h p name y = true := by
  have hcursor : y.1 = BitVec.ofNat 32 (k * 8) := slotNext_sweeps.cursor_nth rfl hy
  have hbelow : y.1 < p.size := by
    rw [BitVec.not_le, BitVec.lt_def] at hgt
    rw [BitVec.lt_def, hcursor, BitVec.toNat_ofNat]
    have : (0xFFFFFFF8 : U32).toNat = 0xFFFFFFF8 := rfl
    omega
  refine ⟨hbelow, ?_⟩
  by_contra hlost
  rw [slotNext, if_pos hbelow, if_neg hlost] at hstop
  cases hstop

/-- The scan has one result at most, so it is right if that one is. -/
theorem findsEprocess_of_result {r : U32} (hr : ∃ fuel, windowsFindEprocess h p fuel name = .ok r) :
    FindsEprocess h p name ↔
      (r ≠ 0 → IsEprocess h p name r.toNat ∧ ∀ o < r.toNat, ¬IsEprocess h p name o) ∧
        (r = 0 → ∀ o, ¬IsEprocess h p name o) := by
  constructor
  · rintro ⟨fuel, r', hrun, hright⟩
    obtain ⟨k, y, hy, hstop, rfl⟩ := windowsFindEprocess_ok.mp hr
    obtain ⟨k', y', hy', hstop', rfl⟩ := windowsFindEprocess_ok.mp ⟨fuel, hrun⟩
    obtain rfl := stop_unique hy hstop hy' hstop'
    exact hright
  · intro hright
    obtain ⟨fuel, hrun⟩ := hr
    exact ⟨fuel, r, hrun, hright⟩

section

variable (hsize : p.pageSize = 4096) (hshift : p.pageShift = 12) (hlen : name.length < 50)
include hsize hshift hlen

/-- The lowest slot that seems to be the process decides. -/
theorem findsEprocess_at {o : Nat} (hseems : SeemsEprocess h p name o)
    (hfirst : ∀ o' < o, ¬SeemsEprocess h p name o') :
    FindsEprocess h p name ↔
      o ≠ 0 ∧ IsEprocess h p name o ∧ ∀ o' < o, ¬IsEprocess h p name o' := by
  obtain ⟨k, y, hy, hstop, hresult⟩ := scan_stops_at hsize hshift hlen hseems hfirst
  have htoNat : (BitVec.ofNat 32 o).toNat = o := by
    rw [BitVec.toNat_ofNat, Nat.mod_eq_of_lt (hseems.below.trans p.size.isLt)]
  rw [findsEprocess_of_result (windowsFindEprocess_ok.mpr ⟨k, y, hy, hstop, rfl⟩), hresult, htoNat]
  by_cases ho : o = 0
  · subst ho
    -- the result is `0`, but there is a process
    refine iff_of_false (fun hright => ?_) fun hright => hright.1 rfl
    exact hright.2 rfl 0 (firstSlot_is hsize hshift hlen hseems)
  · have hne : BitVec.ofNat 32 o ≠ 0 := by
      intro hzero
      rw [hzero] at htoNat
      exact ho htoNat.symm
    constructor
    · exact fun hright => ⟨ho, hright.1 hne⟩
    · exact fun hright => ⟨fun _ => hright.2, fun hzero => absurd hzero hne⟩

/-- Where no slot seems to be the process, the scan has to end at the size, and is right if
there is no process. -/
theorem findsEprocess_of_none (hnone : ∀ o, ¬SeemsEprocess h p name o) :
    FindsEprocess h p name ↔ p.size ≤ 0xFFFFFFF8 ∧ ∀ o, ¬IsEprocess h p name o := by
  by_cases hle : p.size ≤ 0xFFFFFFF8
  · obtain ⟨k, y, hy, hstop, hresult⟩ := scan_stops_at_size hsize hshift hlen hle hnone
    rw [findsEprocess_of_result (windowsFindEprocess_ok.mpr ⟨k, y, hy, hstop, rfl⟩), hresult]
    constructor
    · exact fun hright => ⟨hle, hright.2 rfl⟩
    · exact fun hright => ⟨fun hne => absurd rfl hne, fun _ => hright.2⟩
  · refine iff_of_false ?_ fun hright => hle hright.1
    rintro ⟨fuel, r, hrun, hfound, -⟩
    obtain ⟨k, y, hy, hstop, rfl⟩ := windowsFindEprocess_ok.mp ⟨fuel, hrun⟩
    -- a later pass can only find a slot that cannot be read
    obtain ⟨hbelow, hslot⟩ := stop_below hle hy hstop
    refine absurd (seems_of_found hsize hshift hlen hy hbelow hslot ?_) (hnone _)
    have hresult : slotResult p y = y.1 := if_pos hbelow
    by_cases hr : y.1 = 0
    · have hname := ((slotFound_iff hlen y).mp hslot).2
      rw [hr] at hname ⊢
      exact firstSlot_read hsize hshift hname
    · obtain ⟨value, hvalue, -⟩ := (hfound (hresult ▸ hr)).1.type
      rw [hresult] at hvalue
      rw [hvalue]
      rfl

end

/-- **When the scan for a process object is right.** Either the lowest slot that is the process
or seems to be it is both, and is not the slot `0`; or there is no such slot, and the cursor
does not wrap. -/
theorem findsEprocess_iff (h : Host) (p : XaParams) (name : CStr) (hsize : p.pageSize = 4096)
    (hshift : p.pageShift = 12) (hlen : name.length < 50) :
    FindsEprocess h p name ↔
      (∃ o, o ≠ 0 ∧ IsEprocess h p name o ∧ SeemsEprocess h p name o ∧
        ∀ o' < o, ¬IsEprocess h p name o' ∧ ¬SeemsEprocess h p name o') ∨
      (p.size ≤ 0xFFFFFFF8 ∧ ∀ o, ¬IsEprocess h p name o ∧ ¬SeemsEprocess h p name o) := by
  classical
  by_cases hseems : ∃ o, SeemsEprocess h p name o
  · have hlowest := Nat.find_spec hseems
    have hfirst : ∀ o' < Nat.find hseems, ¬SeemsEprocess h p name o' := fun o' ho' =>
      Nat.find_min hseems ho'
    generalize Nat.find hseems = o at hlowest hfirst
    rw [findsEprocess_at hsize hshift hlen hlowest hfirst]
    constructor
    · rintro ⟨ho, his, hbefore⟩
      exact Or.inl ⟨o, ho, his, hlowest, fun o' ho' => ⟨hbefore o' ho', hfirst o' ho'⟩⟩
    · rintro (⟨o', ho', his, hseems', hbefore⟩ | ⟨-, hnone⟩)
      · obtain rfl : o' = o := by
          rcases Nat.lt_trichotomy o' o with hlt | heq | hgt
          · exact absurd hseems' (hfirst o' hlt)
          · exact heq
          · exact absurd hlowest (hbefore o hgt).2
        exact ⟨ho', his, fun o'' ho'' => (hbefore o'' ho'').1⟩
      · exact absurd hlowest (hnone o).2
  · have hnone : ∀ o, ¬SeemsEprocess h p name o := not_exists.mp hseems
    rw [findsEprocess_of_none hsize hshift hlen hnone]
    constructor
    · exact fun hright => Or.inr ⟨hright.1, fun o => ⟨hright.2 o, hnone o⟩⟩
    · rintro (⟨o, -, -, hseems', -⟩ | ⟨hle, hall⟩)
      · exact absurd hseems' (hnone o)
      · exact ⟨hle, fun o => (hall o).1⟩

/-! ## Two guests -/

/-- A guest with the System process in the slot `8`. -/
def nearParams : XaParams := (imageState .windows 0x80000000 0 0 windowsEntry.offsets).toXaParams

theorem near_finds : FindsEprocess (imageHost (systemEprocess 8)) nearParams (cstr "System") := by
  rw [findsEprocess_iff _ _ _ rfl rfl (by decide)]
  have hseems : SeemsEprocess (imageHost (systemEprocess 8)) nearParams (cstr "System") 8 :=
    ⟨rfl, by decide, by decide, rfl⟩
  have his := (seemsEprocess_iff rfl rfl rfl (by decide) (by decide) (by decide)).mp hseems
  refine Or.inl ⟨8, by decide, his, hseems, fun o ho => ?_⟩
  have hfirst : ¬SeemsEprocess (imageHost (systemEprocess 8)) nearParams (cstr "System") 0 := by
    intro hzero
    exact absurd hzero.type (by decide)
  constructor
  · intro hother
    obtain rfl : o = 0 := by
      have := hother.aligned
      omega
    exact hfirst ((seemsEprocess_iff rfl rfl rfl (by decide) (by decide) (by decide)).mpr hother)
  · intro hother
    obtain rfl : o = 0 := by
      have := hother.aligned
      omega
    exact hfirst hother

/-- The frames of a domain whose second page cannot be mapped. On the first page there is a
process type at the end, on the third one the name. -/
def holePage (mfn : U32) : Option Page :=
  if mfn = 0 then some fun d => if d = 0xFF8 then 0x03 else if d = 0xFFA then 0x1B else 0
  else if mfn = 2 then some fun d => ((cstr "System")[(d - 4).toNat]?).getD 0
  else none

def holeHost : Host := { imageHost [] with xcMapForeignRange := fun _ mfn => holePage mfn }

/-- An instance for a fully virtualised domain of three pages. -/
def holeParams : XaParams := { nearParams with mode := .xen, size := 0x3000 }

theorem holeHost_access (a : U32) :
    xaAccessPa holeHost holeParams a protRead =
      (holePage (a >>> 12)).map fun memory => ⟨a >>> 12, protRead, memory, 0xFFF &&& a⟩ := by
  show (if a >>> 12 = -1 then none
    else (holePage (a >>> 12)).map fun memory => (a >>> 12, memory)).map _ = _
  by_cases hlast : a >>> 12 = -1
  · rw [if_pos hlast, hlast]
    rfl
  · rw [if_neg hlast, Option.map_map]
    rfl

theorem holeHost_byte {a : Nat} (ha : a < 2 ^ 32) :
    physByte holeHost holeParams a =
      (holePage (BitVec.ofNat 32 (a / 4096))).map fun memory =>
        memory (BitVec.ofNat 32 (a % 4096)) := by
  have hframe : BitVec.ofNat 32 a >>> 12 = BitVec.ofNat 32 (a / 4096) := by
    have := frame_eq_ofNat (p := holeParams) rfl (BitVec.ofNat 32 a)
    rwa [BitVec.toNat_ofNat, Nat.mod_eq_of_lt ha] at this
  have hoffset : 0xFFF &&& BitVec.ofNat 32 a = BitVec.ofNat 32 (a % 4096) := by
    have := offset_eq_ofNat (p := holeParams) rfl (BitVec.ofNat 32 a)
    rwa [BitVec.toNat_ofNat, Nat.mod_eq_of_lt ha] at this
  rw [physByte, if_pos ha, holeHost_access, hframe, hoffset, Option.map_map]
  rfl

/-- The second page cannot be read. -/
theorem holeHost_hole {a : Nat} (ha : a / 4096 = 1) : physU32 holeHost holeParams a = none := by
  have hbyte : physByte holeHost holeParams a = none := by
    rw [holeHost_byte (by omega), ha]
    rfl
  rw [physU32, hbyte]
  rfl

/-- The name starts at one address only. -/
theorem holeHost_name {a : Nat} (hbyte : physByte holeHost holeParams a = some 0x53) :
    a = 0x2004 := by
  have ha : a < 2 ^ 32 := by
    by_contra hge
    rw [physByte, if_neg hge] at hbyte
    cases hbyte
  have hframe : BitVec.ofNat 32 (a / 4096) = 2 → a / 4096 = 2 := by
    intro heq
    have := congrArg BitVec.toNat heq
    rw [BitVec.toNat_ofNat, Nat.mod_eq_of_lt (by omega)] at this
    exact this
  rw [holeHost_byte ha] at hbyte
  unfold holePage at hbyte
  split_ifs at hbyte with hfirst hthird
  · have hzero := Option.some.inj hbyte
    dsimp only at hzero
    split_ifs at hzero
    · cases hzero
    · cases hzero
    · cases hzero
  · have hchar := Option.some.inj hbyte
    have hindex : ∀ i : Nat, ((cstr "System")[i]?).getD 0 = 0x53 → i = 0 := by
      have hletters : ∀ i < 6, ((cstr "System")[i]?).getD 0 = 0x53 → i = 0 := by decide
      intro i hi
      by_cases hlt : i < 6
      · exact hletters i hlt hi
      · rw [List.getElem?_eq_none (Nat.le_of_not_lt hlt)] at hi
        cases hi
    have hzero := hindex _ hchar
    have hpage := hframe hthird
    bv_omega
  · cases hbyte

/-- In the hole no slot is a process. -/
theorem holeHost_none (o : Nat) : ¬IsEprocess holeHost holeParams (cstr "System") o := by
  intro his
  have ho : o = 0x1E90 := by
    have := holeHost_name his.name.1
    omega
  obtain ⟨value, hvalue, -⟩ := his.type
  rw [ho, holeHost_hole (by decide)] at hvalue
  cases hvalue

/-- In the hole the value of the last slot before it stays. -/
theorem holeHost_lastValue (j : Nat) (hj : j ≤ 512) :
    lastValue holeHost holeParams (511 + j) = 0x001B0003 := by
  induction j with
  | zero => exact lastValue_of_read rfl
  | succ j ih =>
    show (physU32 holeHost holeParams (8 * (511 + j + 1))).getD _ = _
    rw [holeHost_hole (by omega)]
    exact ih (by omega)

/-- The scan gives an offset that cannot be read, where there is no process at all. -/
theorem holeHost_not_finds : ¬FindsEprocess holeHost holeParams (cstr "System") := by
  have hseems : SeemsEprocess holeHost holeParams (cstr "System") 0x1E90 :=
    ⟨rfl, by decide, Or.inl (holeHost_lastValue 467 (by decide)), by
      rw [windowsGetEprocessName, holeHost_access]; rfl⟩
  rintro ⟨fuel, r, hrun, hfound, -⟩
  have hr : r = 0 := by
    by_contra hr
    exact holeHost_none _ (hfound hr).1
  classical
  have hex : ∃ o, SeemsEprocess holeHost holeParams (cstr "System") o := ⟨_, hseems⟩
  obtain ⟨k, y, hy, hstop, hresult⟩ := scan_stops_at rfl rfl (by decide) (Nat.find_spec hex)
    fun o' ho' => Nat.find_min hex ho'
  obtain ⟨k', y', hy', hstop', rfl⟩ := windowsFindEprocess_ok.mp ⟨fuel, hrun⟩
  obtain rfl := stop_unique hy hstop hy' hstop'
  have hlowest := Nat.find_spec hex
  generalize Nat.find hex = o at hlowest hresult
  have ho : o = 0 := by
    have := congrArg BitVec.toNat (hresult.symm.trans hr)
    rw [BitVec.toNat_ofNat, Nat.mod_eq_of_lt (hlowest.below.trans (by decide))] at this
    exact this
  subst ho
  exact holeHost_none 0 (firstSlot_is rfl rfl (by decide) hlowest)

end XenAccess
