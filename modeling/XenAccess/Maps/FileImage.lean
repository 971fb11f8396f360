import XenAccess.Cache.Protection
import XenAccess.Init.Prior
import XenAccess.Model.Image

/-!
# Access to an image file

The size of an image is kept in 32 bits. `xa_map_file_range` compares the start of a page with
that number, so the pages that can be mapped are those below the size modulo `2^32`.
-/

namespace XenAccess

open Prog

variable {h : Host} {fuel : Nat} {size : U32}

/-! ## The layout of an instance in file mode -/

/-- The fields that decide which pages of an image are mapped. -/
structure FileLayout (size : U32) (p : XaParams) : Prop where
  mode : p.mode = .file
  size : p.size = size
  pageShift : p.pageShift = 12
  pageSize : p.pageSize = 4096

/-- The instance has this layout. -/
def InLayout (size : U32) (s : XaState) : Prop := FileLayout size s.toXaParams

/-- What keeps the parameters of an instance keeps its layout. -/
theorem keeps_layout {α : Type} {x : XaM α} (hx : ∀ p, Keeps (HasParams p) x) :
    Keeps (InLayout size) x := by
  intro s a t hs hrun
  have ht : t.toXaParams = s.toXaParams := hx s.toXaParams s a t rfl hrun
  rw [InLayout, ht]
  exact hs

theorem report_keeps {I : XaState → Prop} (errorType : ErrorType) : Keeps I (report errorType) :=
  keeps_bind keeps_get fun _ => keeps_pure _

theorem linuxAccessKernelSymbol_params {p : XaParams} (symbol : CStr) (prot : U32) :
    Keeps (HasParams p) (linuxAccessKernelSymbol h symbol prot) := by
  refine keeps_bind (xaCheckCacheSym_params symbol 0) fun r => ?_
  cases r with
  | some address => exact keeps_bind keeps_get fun _ => keeps_pure _
  | none =>
    have hlook : Keeps (HasParams p) (linuxSystemMapSymbolToAddress h symbol) := by
      intro s a t hs hrun
      cases hrun
      exact hs
    refine keeps_bind hlook fun r => ?_
    cases r with
    | none => exact keeps_pure _
    | some v =>
      exact keeps_bind (xaUpdateCache_params _ _ _ _) fun _ => xaAccessKernelVa_params v prot

theorem windowsAccessKernelSymbol_params {p : XaParams} (symbol : CStr) (prot : U32) :
    Keeps (HasParams p) (windowsAccessKernelSymbol h symbol prot) := by
  refine keeps_bind (xaCheckCacheSym_params symbol 0) fun r => ?_
  cases r with
  | some address => exact keeps_bind keeps_get fun _ => keeps_pure _
  | none =>
    refine keeps_bind keeps_get fun s => ?_
    dsimp only
    split
    · exact keeps_pure _
    · exact keeps_bind (xaUpdateCache_params _ _ _ _) fun _ =>
        keeps_bind keeps_get fun _ => keeps_pure _

theorem xaAccessKernelSym_params {p : XaParams} (symbol : CStr) (prot : U32) :
    Keeps (HasParams p) (xaAccessKernelSym h symbol prot) := by
  refine keeps_bind keeps_get fun s => ?_
  cases s.osType with
  | linux => exact linuxAccessKernelSymbol_params symbol prot
  | windows => exact windowsAccessKernelSymbol_params symbol prot
  | unknown => exact keeps_pure _

theorem setInitTask_keeps (a : Access) : Keeps (InLayout size) (setInitTask a) :=
  keeps_bind (keeps_modify fun _ hs => ⟨hs.mode, hs.size, hs.pageShift, hs.pageSize⟩)
    fun _ => keeps_pure _

theorem linuxInit_keeps : Keeps (InLayout size) (linuxInit h) := by
  refine keeps_orExit ?_ (keeps_orExit ?_ ?_)
  · refine keeps_bind (keeps_layout fun p s a t hs hrun => ?_) fun r => ?_
    · cases hrun
      exact hs
    · cases r with
      | none => exact report_keeps .minor
      | some kpgd =>
        exact keeps_bind (keeps_modify fun _ hs => ⟨hs.mode, hs.size, hs.pageShift, hs.pageSize⟩)
          fun _ => keeps_pure _
  · refine keeps_get_bind fun s hs => ?_
    split
    · exact (keeps_pure _).after hs
    · dsimp only
      split
      · exact after_set_bind (keeps_pure _) ⟨hs.mode, hs.size, hs.pageShift, hs.pageSize⟩
      · exact after_set_bind (report_keeps .minor) ⟨hs.mode, hs.size, hs.pageShift, hs.pageSize⟩
  · refine keeps_bind (keeps_layout fun p => xaAccessKernelSym_params _ _) fun r => ?_
    cases r with
    | some a => exact setInitTask_keeps a
    | none =>
      refine keeps_bind (keeps_modify fun _ hs => ⟨hs.mode, hs.size, hs.pageShift, hs.pageSize⟩)
        fun _ => keeps_bind (keeps_layout fun p => xaAccessKernelSym_params _ _) fun r => ?_
      cases r with
      | some a => exact setInitTask_keeps a
      | none =>
        refine keeps_bind (report_keeps .minor) fun r => ?_
        cases r with
        | success => exact keeps_throw
        | failure => exact keeps_pure _

theorem storeKpgd_keeps (value : Option U32) (sysproc : U32) :
    Keeps (InLayout size) (storeKpgd value sysproc) := by
  refine keeps_get_bind fun s hs => after_set_bind ?_ ⟨hs.mode, hs.size, hs.pageShift, hs.pageSize⟩
  split
  · exact keeps_bind (report_keeps .minor) fun _ => keeps_pure _
  · exact keeps_pure _

theorem getKpgdMethod1_keeps (sysproc : U32) :
    Keeps (InLayout size) (getKpgdMethod1 h sysproc) := by
  have hread : Keeps (InLayout size) (xaReadLongSym h (cstr "PsInitialSystemProcess")) :=
    keeps_layout fun p => keeps_bind (xaAccessKernelSym_params _ _) fun _ => keeps_pure _
  refine keeps_bind hread fun value => keeps_bind keeps_get fun s => ?_
  split
  · exact keeps_pure _
  · dsimp only
    split
    · exact keeps_pure _
    · exact storeKpgd_keeps _ _

theorem getKpgdMethod2_keeps : Keeps (InLayout size) (getKpgdMethod2 h fuel) := by
  refine keeps_bind keeps_get fun s => ?_
  split
  · exact keeps_throw
  · split
    · exact keeps_pure _
    · dsimp only
      split
      · exact keeps_pure _
      · exact storeKpgd_keeps _ _

theorem windowsFindKpgd_keeps : Keeps (InLayout size) (windowsFindKpgd h fuel) := by
  refine keeps_bind (getKpgdMethod1_keeps 0) fun r => ?_
  obtain ⟨ret, sysproc⟩ := r
  cases ret with
  | success => exact keeps_pure _
  | failure =>
    refine keeps_bind getKpgdMethod2_keeps fun r => ?_
    obtain ⟨ret, sysproc⟩ := r
    cases ret with
    | success => exact keeps_pure _
    | failure => exact keeps_bind (report_keeps .minor) fun _ => keeps_pure _

theorem windowsInit_keeps : Keeps (InLayout size) (windowsInit h fuel) := by
  refine keeps_orExit (fun s r t hs hrun => ?_) (keeps_bind windowsFindKpgd_keeps fun r => ?_)
  · obtain ⟨ntoskrnl, rfl⟩ := windowsFindBase_state hrun
    exact ⟨hs.mode, hs.size, hs.pageShift, hs.pageSize⟩
  · obtain ⟨ret, sysproc⟩ := r
    cases ret with
    | failure => exact keeps_pure _
    | success =>
      intro s r t hs hrun
      cases (windowsReadInitTask_eq sysproc).symm.trans hrun
      exact ⟨hs.mode, hs.size, hs.pageShift, hs.pageSize⟩

theorem osInit_keeps : Keeps (InLayout size) (osInit h fuel) := by
  refine keeps_bind keeps_get fun s => ?_
  cases s.osType with
  | linux => exact linuxInit_keeps
  | windows => exact windowsInit_keeps
  | unknown => exact keeps_pure _

variable {s t : XaState} {m : ErrorMode} {filename imageType : CStr}

/-- What `get_memory_size` leaves of an image of some size. -/
theorem initPrelude_size {S : U64} (hS : h.fstat = some S) (hmode : t.mode = .file)
    (hrun : initPrelude h s = .ok (.success, t)) : t.size = S.setWidth 32 := by
  obtain ⟨u, r, -, -, hlast⟩ := initPrelude_last hrun
  have hfile : u.mode = .file := by
    obtain ⟨size, rfl⟩ := getMemorySize_state hlast
    exact hmode
  rw [getMemorySize_file hfile, hS] at hlast
  cases hlast
  rfl

/-- **The instance of an image file** after a successful initialisation. -/
theorem xaInitFilePrivate_layout {S : U64} (hS : h.fstat = some S)
    (hrun : xaInitFilePrivate h fuel filename imageType m s = .ok (.success, t)) :
    FileLayout (S.setWidth 32) t.toXaParams := by
  rw [xaInitFilePrivate_eq] at hrun
  split at hrun
  · rw [helperInit_eq] at hrun
    obtain ⟨⟨⟩, -⟩ | ⟨u, hpre, hrest⟩ := orExit_ok_iff.mp hrun
    have hmode : u.mode = .file := (initPrelude_untouched hpre).mode
    obtain ⟨hsize, hshift⟩ := initPrelude_pageSize hpre
    have hu : InLayout (S.setWidth 32) u := ⟨hmode, initPrelude_size hS hmode hpre, hshift, hsize⟩
    exact osInit_keeps u _ t hu hrest
  · cases hrun

/-! ## Pages of the image -/

/-- The start of the page of an address. -/
def pageStart (a : U32) : Nat := a.toNat / 4096 * 4096

/-- `mmap` maps the pages that start inside of the image. -/
def MapsInside (h : Host) (S : U64) : Prop :=
  ∀ prot address, address.toNat % 4096 = 0 → address.toNat < S.toNat → (h.mmap prot address).isSome

/-- An access to the address maps its page of the image, if that page starts inside. -/
def Addressable (h : Host) (p : XaParams) (S : U64) (prot a : U32) : Prop :=
  ((xaAccessPa h p a prot).isSome ↔ pageStart a < S.toNat) ∧
    ∀ r, xaAccessPa h p a prot = some r →
      h.mmap prot (BitVec.ofNat 32 (pageStart a)) = some r.memory ∧ r.offset.toNat = a.toNat % 4096

variable {p : XaParams} {prot a : U32}

theorem pageStart_lt (a : U32) : pageStart a < 2 ^ 32 := by
  have := a.isLt
  rw [pageStart]
  omega

/-- The address `xa_map_file_range` computes from the frame number. -/
theorem frame_address (a : U32) : (a >>> 12) <<< 12 = BitVec.ofNat 32 (pageStart a) := by
  apply BitVec.eq_of_toNat_eq
  rw [BitVec.toNat_shiftLeft, BitVec.toNat_ushiftRight, BitVec.toNat_ofNat, Nat.shiftRight_eq_div_pow,
    Nat.shiftLeft_eq]
  rfl

theorem xaAccessPa_file (hp : FileLayout size p) (prot a : U32) :
    xaAccessPa h p a prot =
      if pageStart a < size.toNat then
        (h.mmap prot (BitVec.ofNat 32 (pageStart a))).map fun memory =>
          ⟨a >>> 12, prot, memory, 4095 &&& a⟩
      else none := by
  have hpfn : a >>> p.pageShift = a >>> 12 := by rw [hp.pageShift]; rfl
  have haddress : (a >>> p.pageShift) <<< p.pageShift = BitVec.ofNat 32 (pageStart a) := by
    rw [hp.pageShift]
    exact frame_address a
  have hne : ¬ a >>> 12 = -1 := by
    intro heq
    have := congrArg BitVec.toNat heq
    have hlt := a.isLt
    rw [BitVec.toNat_ushiftRight, Nat.shiftRight_eq_div_pow,
      show (-1 : U32).toNat = 2 ^ 32 - 1 from rfl] at this
    omega
  have hmap : xaMmapPfn h p prot (a >>> p.pageShift) =
      (xaMapFileRange h p prot (a >>> p.pageShift)).map fun memory => (a >>> 12, memory) := by
    rw [xaMmapPfn, xaMapPage, hp.mode, hpfn]
    exact if_neg hne
  have hrange : xaMapFileRange h p prot (a >>> p.pageShift) =
      if pageStart a < size.toNat then h.mmap prot (BitVec.ofNat 32 (pageStart a)) else none := by
    have hle : size ≤ BitVec.ofNat 32 (pageStart a) ↔ ¬ pageStart a < size.toNat := by
      rw [BitVec.le_def, BitVec.toNat_ofNat, Nat.mod_eq_of_lt (pageStart_lt a), Nat.not_lt]
    rw [xaMapFileRange, haddress, hp.size]
    by_cases hlt : pageStart a < size.toNat
    · rw [if_pos hlt]
      exact if_neg fun hge => hle.mp hge hlt
    · rw [if_neg hlt]
      exact if_pos (hle.mpr hlt)
  rw [xaAccessPa, hmap, hrange, hp.pageSize]
  split
  · rw [Option.map_map]
    rfl
  · rfl

theorem addressable_layout_iff {S : U64} (hp : FileLayout (S.setWidth 32) p)
    (hinside : MapsInside h S) :
    Addressable h p S prot a ↔ S.toNat < 2 ^ 32 ∨ pageStart a < S.toNat % 2 ^ 32 := by
  have hpage := pageStart_lt a
  have hsize : (S.setWidth 32).toNat = S.toNat % 2 ^ 32 := BitVec.toNat_setWidth 32 S
  have haccess := xaAccessPa_file (h := h) hp prot a
  rw [hsize] at haccess
  by_cases hlt : pageStart a < S.toNat % 2 ^ 32
  · have hmapped : (h.mmap prot (BitVec.ofNat 32 (pageStart a))).isSome := by
      apply hinside
      · rw [BitVec.toNat_ofNat, Nat.mod_eq_of_lt hpage, pageStart]
        exact Nat.mul_mod_left _ _
      · rw [BitVec.toNat_ofNat, Nat.mod_eq_of_lt hpage]
        exact Nat.lt_of_lt_of_le hlt (Nat.mod_le _ _)
    obtain ⟨memory, hmemory⟩ := Option.isSome_iff_exists.mp hmapped
    rw [if_pos hlt, hmemory] at haccess
    refine iff_of_true ⟨?_, fun r hr => ?_⟩ (Or.inr hlt)
    · rw [haccess]
      exact iff_of_true rfl (Nat.lt_of_lt_of_le hlt (Nat.mod_le _ _))
    · rw [haccess] at hr
      cases hr
      refine ⟨hmemory, ?_⟩
      rw [BitVec.and_comm]
      exact toNat_and_fff a
  · rw [if_neg hlt] at haccess
    rw [Addressable, haccess]
    constructor
    · rintro ⟨hiff, -⟩
      refine Or.inl ?_
      by_contra hlarge
      have := hiff.mpr (by omega)
      cases this
    · rintro (hsmall | hpos)
      · rw [Nat.mod_eq_of_lt hsmall] at hlt
        exact ⟨iff_of_false (by simp) hlt, fun r hr => nomatch hr⟩
      · exact absurd hpos hlt

/-- **When an address of an image can be accessed.** For an instance that was initialised from an
image of `S` bytes: if `S` is below `2^32`, or the page starts below `S` modulo `2^32`. -/
theorem addressable_iff (h : Host) (fuel : Nat) (filename imageType : CStr) (m : ErrorMode)
    (s t : XaState) (S : U64) (prot a : U32) (hS : h.fstat = some S) (hinside : MapsInside h S)
    (hrun : xaInitFilePrivate h fuel filename imageType m s = .ok (.success, t)) :
    Addressable h t.toXaParams S prot a ↔
      S.toNat < 2 ^ 32 ∨ pageStart a < S.toNat % 2 ^ 32 :=
  addressable_layout_iff (xaInitFilePrivate_layout hS hrun) hinside

/-- An image of some size without a configuration, whose pages can all be mapped. -/
def sizedHost (S : U64) : Host :=
  { imageHost [] with
    fstat := some S
    mmap := fun _ address => if address.toNat < S.toNat then some fun _ => 0 else none
    configFile := false }

theorem sizedHost_inside (S : U64) : MapsInside (sizedHost S) S := by
  intro prot address _ hlt
  show (if address.toNat < S.toNat then some fun _ => 0 else none : Option Page).isSome
  rw [if_pos hlt]
  rfl

/-- The instance after the initialisation, which goes on without a configuration. -/
def sizedState (S : U64) : XaState :=
  { zeroState 0 with
    mode := .file
    errorMode := .failsoft
    imageType := some []
    hvm := true
    pageShift := 12
    pageSize := 4096
    size := S.setWidth 32 }

theorem sizedHost_init (S : U64) :
    xaInitFilePrivate (sizedHost S) 0 [] [] .failsoft (zeroState 0) =
      .ok (.success, sizedState S) := rfl

theorem sizedHost_addressable :
    Addressable (sizedHost 0x1800) (sizedState 0x1800).toXaParams 0x1800 protRead 0x1ABC :=
  (addressable_iff (sizedHost 0x1800) 0 [] [] .failsoft (zeroState 0) _ 0x1800 protRead 0x1ABC rfl
    (sizedHost_inside _) (sizedHost_init _)).mpr (Or.inl (by decide))

/-- Of an image of 4 GiB no page can be accessed. -/
theorem sizedHost_not_addressable :
    xaInitFilePrivate (sizedHost 0x100000000) 0 [] [] .failsoft (zeroState 0) =
        .ok (.success, sizedState 0x100000000) ∧
      MapsInside (sizedHost 0x100000000) 0x100000000 ∧
      xaAccessPa (sizedHost 0x100000000) (sizedState 0x100000000).toXaParams 0x1000 protRead =
        none ∧
      ¬ Addressable (sizedHost 0x100000000) (sizedState 0x100000000).toXaParams 0x100000000
        protRead 0x1000 := by
  have hnone : xaAccessPa (sizedHost 0x100000000) (sizedState 0x100000000).toXaParams 0x1000
      protRead = none := rfl
  refine ⟨sizedHost_init _, sizedHost_inside _, hnone, fun haddressable => ?_⟩
  have hsome := haddressable.1.mpr (by decide)
  rw [hnone] at hsome
  cases hsome

end XenAccess
