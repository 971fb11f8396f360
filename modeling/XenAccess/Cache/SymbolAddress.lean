import XenAccess.Cache.Symbols

/-!
# The address of a symbol and access by symbol

`xa_symbol_to_address` is documented to return a virtual address, so reading there and
reading the symbol by name should be the same. For Linux it is: both take the address of
the System.map. For Windows the address returned is the one relative to the kernel image,
while the access by name adds the base of the image, and the two meet only by chance.
-/

namespace XenAccess

open Prog

variable {h : Host} {p : XaParams} {fuel : Nat} {s : XaState} {sym : CStr}

/-! ## Statement -/

/-- Both reads of a symbol go to one place: `xa_read_long_virt` at the address that
`xa_symbol_to_address` gives, and `xa_read_long_sym`, make the same access and read the
same value, or both fail. -/
def ReadsAgree (h : Host) (fuel : Nat) (s : XaState) (sym : CStr) : Prop :=
  ∀ a s₁, xaSymbolToAddress h sym s = .ok (some a, s₁) →
    ∃ r t₁ t₂, xaAccessUserVa h fuel a 0 protRead s₁ = .ok (r, t₁) ∧
      xaAccessKernelSym h sym protRead s₁ = .ok (r, t₂) ∧
      xaReadLongVirt h fuel a 0 s₁ = .ok (r.map Access.long, t₁) ∧
      xaReadLongSym h sym s₁ = .ok (r.map Access.long, t₂)

/-- The virtual address of a symbol. -/
def symbolVirt (h : Host) (s : XaState) (sym : CStr) : Option U32 :=
  match s.osType with
  | .linux => sysmapAddress h (sysmapName h s.toXaParams s.sysmap) sym
  | .windows =>
    (windowsSymbolToAddress h s.toXaParams sym).map fun rva => s.os.ntoskrnl + rva + s.pageOffset
  | .unknown => none

theorem symbolVirt_linux (hos : s.osType = .linux) :
    symbolVirt h s sym = sysmapAddress h (sysmapName h s.toXaParams s.sysmap) sym := by
  rw [symbolVirt, hos]

theorem symbolVirt_windows (hos : s.osType = .windows) :
    symbolVirt h s sym = (windowsSymbolToAddress h s.toXaParams sym).map
      fun rva => s.os.ntoskrnl + rva + s.pageOffset := by
  rw [symbolVirt, hos]

/-- The caches of the instance agree with the guest: those of addresses, and the entries
that a lookup of the symbol can take. -/
structure CoherentFor (h : Host) (fuel : Nat) (s : XaState) (sym : CStr) : Prop where
  sound : Sound h s.toXaParams fuel s
  symbol : ∀ e ∈ s.cache.entries, e.hitsSym sym 0 = true → ∀ v ∈ symbolVirt h s sym,
    e.machAddress = xaTranslateKv2p h s.toXaParams v

/-- The kernel page tables map `page_offset + q` to the physical address `q`. -/
def DirectMapped (h : Host) (p : XaParams) (q : U32) : Prop :=
  refKernelVa h p (q + p.pageOffset) protRead = xaAccessPa h p q protRead

/-- Two virtual addresses are translated to one machine address, or neither of them can be
mapped. -/
def SameTarget (h : Host) (p : XaParams) (u v : U32) : Prop :=
  xaTranslateKv2p h p u = xaTranslateKv2p h p v ∨
    (refKernelVa h p u protRead = none ∧ refKernelVa h p v protRead = none)

/-! ## Accesses and addresses -/

theorem accessTranslated_some {address prot : U32} {a : Access}
    (ha : accessTranslated h p address prot = some a) :
    address ≠ 0 ∧ a.frame = address >>> p.pageShift ∧ a.offset = (p.pageSize - 1) &&& address := by
  rw [accessTranslated] at ha
  split at ha
  · cases ha
  · rename_i hne
    obtain ⟨memory, -, rfl⟩ := Option.map_eq_some_iff.mp ha
    exact ⟨hne, rfl, rfl⟩

/-- A mapped address can be read off the access to it. -/
theorem eq_of_frame_offset (hps : p.pageSize = 4096) (hshift : p.pageShift = 12) {a b : U32}
    (hframe : a >>> p.pageShift = b >>> p.pageShift)
    (hoffset : (p.pageSize - 1) &&& a = (p.pageSize - 1) &&& b) : a = b := by
  have h1 := congrArg BitVec.toNat hframe
  have h2 := congrArg BitVec.toNat hoffset
  rw [hshift] at h1
  rw [BitVec.and_comm, pageOff_toNat hps, BitVec.and_comm, pageOff_toNat hps] at h2
  have h1' : a.toNat / 4096 = b.toNat / 4096 := by
    simpa [Nat.shiftRight_eq_div_pow] using h1
  apply BitVec.eq_of_toNat_eq
  omega

theorem refKernelVa_eq_iff (hps : p.pageSize = 4096) (hshift : p.pageShift = 12) {u v : U32} :
    refKernelVa h p u protRead = refKernelVa h p v protRead ↔ SameTarget h p u v := by
  constructor
  · intro heq
    cases hu : refKernelVa h p u protRead with
    | none => exact Or.inr ⟨hu, heq.symm.trans hu⟩
    | some a =>
      obtain ⟨-, hframe, hoffset⟩ := accessTranslated_some hu
      obtain ⟨-, hframe', hoffset'⟩ := accessTranslated_some (heq.symm.trans hu)
      exact Or.inl (eq_of_frame_offset hps hshift (hframe.symm.trans hframe')
        (hoffset.symm.trans hoffset'))
  · rintro (heq | ⟨hu, hv⟩)
    · rw [refKernelVa, refKernelVa, heq]
    · rw [hu, hv]

theorem coherentFor_clear (s : XaState) (sym : CStr) : CoherentFor h fuel s.clear sym :=
  ⟨sound_clear s, by simp [XaState.clear, Lru.empty]⟩

/-- A lookup of a symbol keeps the caches sound, and gives only its translation. -/
theorem xaCheckCacheSym_coherent (hc : CoherentFor h fuel s sym) {v : U32}
    (hv : symbolVirt h s sym = some v) :
    Returns (xaCheckCacheSym h sym 0) s fun r s' => Sound h s.toXaParams fuel s' ∧
      s'.sysmap = s.sysmap ∧ ∀ a, r = some a → a ≠ 0 ∧ a = xaTranslateKv2p h s.toXaParams v := by
  obtain ⟨r, s', hrun, hs'⟩ := xaCheckCacheSym_sound hc.sound sym 0
  refine ⟨r, s', hrun, hs', ?_⟩
  simp only [xaCheckCacheSym] at hrun
  split at hrun
  · rename_i e c hupd
    cases hrun
    refine ⟨rfl, ?_⟩
    rintro a ha
    cases ha
    obtain ⟨x, hx, hhit, rfl⟩ := Lru.update_found hupd
    exact ⟨(hitsSym_iff.mp hhit).2.2, hc.symbol x hx hhit v hv⟩
  · cases hrun
    exact ⟨rfl, by simp⟩

/-! ## Linux -/

/-- The access by name is the access at the address of the System.map. -/
theorem linuxAccessKernelSymbol_coherent (hps : s.pageSize = 4096) (hos : s.osType = .linux)
    (hc : CoherentFor h fuel s sym) {v : U32} (hv : symbolVirt h s sym = some v) :
    ∃ t, linuxAccessKernelSymbol h sym protRead s =
      .ok (refKernelVa h s.toXaParams v protRead, t) := by
  obtain ⟨r, t, hcheck, ht, hmap, hr⟩ := xaCheckCacheSym_coherent hc hv
  rw [linuxAccessKernelSymbol, bind_of_ok hcheck]
  cases r with
  | some a =>
    obtain ⟨hne, ha⟩ := hr a rfl
    refine ⟨t, ?_⟩
    simp only [get_bind, pure_apply, ht.params]
    rw [refKernelVa, accessTranslated, ← ha, if_neg hne]
  | none =>
    have hlook : linuxSystemMapSymbolToAddress h sym t =
        .ok (some v, { t with sysmap := sysmapName h s.toXaParams s.sysmap }) := by
      rw [symbolVirt_linux hos] at hv
      rw [linuxSystemMapSymbolToAddress, ht.params, hmap]
      simp only [hv]
    have ht' : Sound h s.toXaParams fuel { t with sysmap := sysmapName h s.toXaParams s.sysmap } :=
      ⟨ht.params, ht.entries, ht.pids⟩
    obtain ⟨_, t2, hupd, ht2⟩ := xaUpdateCache_sym_sound hps ht' sym v 0
    obtain ⟨t3, hacc, -⟩ := follows_exists (xaAccessKernelVa_follows hps ht2 v protRead) rfl
    refine ⟨t3, ?_⟩
    simp only [bind_of_ok hlook, bind_of_ok hupd]
    exact hacc

/-! ## Windows -/

/-- The access by name is the access at the physical address of the symbol. -/
theorem windowsAccessKernelSymbol_coherent (hps : s.pageSize = 4096) (hos : s.osType = .windows)
    (hc : CoherentFor h fuel s sym) {rva : U32}
    (hrva : windowsSymbolToAddress h s.toXaParams sym = some rva)
    (hdirect : DirectMapped h s.toXaParams (s.os.ntoskrnl + rva)) :
    ∃ t, windowsAccessKernelSymbol h sym protRead s =
      .ok (xaAccessPa h s.toXaParams (s.os.ntoskrnl + rva) protRead, t) := by
  have hv : symbolVirt h s sym = some (s.os.ntoskrnl + rva + s.pageOffset) := by
    rw [symbolVirt_windows hos, hrva, Option.map_some]
  obtain ⟨r, t, hcheck, ht, -, hr⟩ := xaCheckCacheSym_coherent hc hv
  rw [windowsAccessKernelSymbol, bind_of_ok hcheck]
  cases r with
  | some a =>
    obtain ⟨hne, ha⟩ := hr a rfl
    refine ⟨t, ?_⟩
    simp only [get_bind, pure_apply, ht.params]
    rw [← hdirect, refKernelVa, accessTranslated, ← ha, if_neg hne]
  | none =>
    obtain ⟨_, t2, hupd, ht2⟩ := xaUpdateCache_sym_sound hps ht sym
      (s.os.ntoskrnl + rva + s.pageOffset) 0
    refine ⟨t2, ?_⟩
    simp only [get_bind, ht.params, hrva, bind_of_ok hupd, pure_apply, ht2.params]

/-! ## Both systems -/

theorem readLong_of_access {x : XaM (Option Access)} {t t' : XaState} {r : Option Access}
    (hx : x t = .ok (r, t')) :
    (do return (← x).map Access.long : XaM (Option U32)) t = .ok (r.map Access.long, t') :=
  bind_of_ok hx

theorem sameReads_iff {a : U32} {t t₁ t₂ : XaState} {r₁ r₂ : Option Access}
    (hvirt : xaAccessUserVa h fuel a 0 protRead t = .ok (r₁, t₁))
    (hsym : xaAccessKernelSym h sym protRead t = .ok (r₂, t₂)) :
    (∃ r t₁ t₂, xaAccessUserVa h fuel a 0 protRead t = .ok (r, t₁) ∧
      xaAccessKernelSym h sym protRead t = .ok (r, t₂) ∧
      xaReadLongVirt h fuel a 0 t = .ok (r.map Access.long, t₁) ∧
      xaReadLongSym h sym t = .ok (r.map Access.long, t₂)) ↔ r₁ = r₂ := by
  constructor
  · rintro ⟨r, u₁, u₂, h1, h2, -, -⟩
    cases hvirt.symm.trans h1
    cases hsym.symm.trans h2
    rfl
  · rintro rfl
    exact ⟨r₁, t₁, t₂, hvirt, hsym, readLong_of_access hvirt, readLong_of_access hsym⟩

theorem xaAccessUserVa_kernel (hps : p.pageSize = 4096) (hs : Sound h p fuel s) (a : U32) :
    ∃ t, xaAccessUserVa h fuel a 0 protRead s = .ok (refKernelVa h p a protRead, t) := by
  obtain ⟨t, hrun, -⟩ := follows_exists (xaAccessUserVa_follows hps hs a 0 protRead)
    (refUserVa_kernel h p fuel a protRead)
  exact ⟨t, hrun⟩

/-- The instance after a lookup in the System.map. -/
def XaState.withSysmap (h : Host) (s : XaState) : XaState :=
  { s with sysmap := sysmapName h s.toXaParams s.sysmap }

theorem symbolVirt_withSysmap (hos : s.osType = .linux) :
    symbolVirt h (s.withSysmap h) sym = symbolVirt h s sym := by
  have hos' : (s.withSysmap h).osType = .linux := hos
  rw [symbolVirt_linux hos, symbolVirt_linux hos']
  exact congrArg (sysmapAddress h · sym) (sysmapName_idem h s.toXaParams s.sysmap)

/-- Looking the symbol up in the System.map first changes nothing for its access. -/
theorem coherentFor_withSysmap (hos : s.osType = .linux) (hc : CoherentFor h fuel s sym) :
    CoherentFor h fuel (s.withSysmap h) sym := by
  refine ⟨⟨rfl, hc.sound.entries, hc.sound.pids⟩, ?_⟩
  intro e he hhit v hv
  rw [symbolVirt_withSysmap hos] at hv
  exact hc.symbol e he hhit v hv

theorem readsAgree_linux (hps : s.pageSize = 4096) (hos : s.osType = .linux)
    (hc : CoherentFor h fuel s sym) : ReadsAgree h fuel s sym := by
  intro a s₁ haddr
  have hos' : (s.withSysmap h).osType = .linux := hos
  have hps' : (s.withSysmap h).pageSize = 4096 := hps
  have hlook : xaSymbolToAddress h sym s = .ok (symbolVirt h s sym, s.withSysmap h) := by
    rw [symbolVirt_linux hos]
    simp only [xaSymbolToAddress, get_bind, hos]
    rfl
  obtain ⟨hv, rfl⟩ := Prod.mk.inj (Except.ok.inj (haddr.symm.trans hlook))
  have hc' := coherentFor_withSysmap hos hc
  obtain ⟨t₁, hvirt⟩ := xaAccessUserVa_kernel hps' hc'.sound a
  obtain ⟨t₂, hsym⟩ := linuxAccessKernelSymbol_coherent hps' hos' hc'
    ((symbolVirt_withSysmap hos).trans hv.symm)
  have hsym' := (xaAccessKernelSym_linux h hos' sym protRead).trans hsym
  exact (sameReads_iff hvirt hsym').mpr rfl

theorem readsAgree_windows_iff (hps : s.pageSize = 4096) (hshift : s.pageShift = 12)
    (hos : s.osType = .windows) (hc : CoherentFor h fuel s sym)
    (hdirect : ∀ rva, windowsSymbolToAddress h s.toXaParams sym = some rva →
      DirectMapped h s.toXaParams (s.os.ntoskrnl + rva)) :
    ReadsAgree h fuel s sym ↔ ∀ rva, windowsSymbolToAddress h s.toXaParams sym = some rva →
      SameTarget h s.toXaParams rva (s.os.ntoskrnl + rva + s.pageOffset) := by
  have haddr : xaSymbolToAddress h sym s =
      .ok (windowsSymbolToAddress h s.toXaParams sym, s) := by
    simp only [xaSymbolToAddress, get_bind, hos]
    rfl
  have hone (rva : U32) (hrva : windowsSymbolToAddress h s.toXaParams sym = some rva) :
      (∃ r t₁ t₂, xaAccessUserVa h fuel rva 0 protRead s = .ok (r, t₁) ∧
        xaAccessKernelSym h sym protRead s = .ok (r, t₂) ∧
        xaReadLongVirt h fuel rva 0 s = .ok (r.map Access.long, t₁) ∧
        xaReadLongSym h sym s = .ok (r.map Access.long, t₂)) ↔
      SameTarget h s.toXaParams rva (s.os.ntoskrnl + rva + s.pageOffset) := by
    obtain ⟨t₁, hvirt⟩ := xaAccessUserVa_kernel hps hc.sound rva
    obtain ⟨t₂, hsym⟩ := windowsAccessKernelSymbol_coherent hps hos hc hrva (hdirect rva hrva)
    have hsym' := (xaAccessKernelSym_windows h hos sym protRead).trans hsym
    rw [sameReads_iff hvirt hsym', ← hdirect rva hrva]
    exact refKernelVa_eq_iff hps hshift
  constructor
  · intro hagree rva hrva
    exact (hone rva hrva).mp (hagree rva s (by rw [haddr, hrva]))
  · intro hsame a s₁ ha
    rw [haddr] at ha
    simp only [Except.ok.injEq, Prod.mk.injEq] at ha
    obtain ⟨hrva, rfl⟩ := ha
    exact (hone a hrva).mpr (hsame a hrva)

/-- **When the address and the access agree.** On Linux they always do. On Windows, with the
kernel image mapped at `page_offset`, they do exactly when the kernel page tables take the
relative address of the symbol where they take its virtual address. -/
theorem readsAgree_iff (h : Host) (fuel : Nat) (s : XaState) (hps : s.pageSize = 4096)
    (hshift : s.pageShift = 12) (sym : CStr) (hc : CoherentFor h fuel s sym)
    (hdirect : s.osType = .windows → ∀ rva, windowsSymbolToAddress h s.toXaParams sym = some rva →
      DirectMapped h s.toXaParams (s.os.ntoskrnl + rva)) :
    ReadsAgree h fuel s sym ↔
      (s.osType = .windows → ∀ rva, windowsSymbolToAddress h s.toXaParams sym = some rva →
        SameTarget h s.toXaParams rva (s.os.ntoskrnl + rva + s.pageOffset)) := by
  cases hos : s.osType with
  | linux => exact iff_of_true (readsAgree_linux hps hos hc) (by rintro ⟨⟩)
  | windows =>
    rw [readsAgree_windows_iff hps hshift hos hc (hdirect hos)]
    simp only [forall_const]
  | unknown =>
    refine iff_of_true ?_ (by rintro ⟨⟩)
    intro a s₁ haddr
    simp only [xaSymbolToAddress, get_bind, hos] at haddr
    cases haddr

/-- In an image file, physical and machine addresses are the same. -/
theorem directMapped_file (hmode : p.mode = .file) {q : U32}
    (hq : xaTranslateKv2p h p (q + p.pageOffset) = q) (hne : q ≠ 0)
    (hpfn : q >>> p.pageShift ≠ -1) : DirectMapped h p q := by
  rw [DirectMapped, refKernelVa, hq, accessTranslated, if_neg hne]
  simp only [xaAccessMa, xaAccessPa, xaMmapMfn, xaMmapPfn, hmode, if_neg hpfn, Option.map_map]
  rfl

/-- A Windows guest with its kernel at the physical address `0x400000`, mapped at
`0x80400000`, that exports a symbol at the relative address `0x1000`. Addresses below
`0x80400000` are not mapped. -/
def exportWords : Words :=
  [(0x1804, 0x00400083), (0x400078, 0x200), (0x400218, 1), (0x40021C, 0x3C0), (0x400220, 0x300),
    (0x400224, 0x380), (0x400300, 0x340), (0x400340, 0x61), (0x4003C0, 0x1000),
    (0x401000, 0xDEADBEEF)]

def exportState : XaState :=
  imageState .windows 0x80000000 0x80001000 0 ⟨0x00400000, 0, 0, 0, 0, 0, 0⟩

/-- The address of the symbol cannot be read, but the symbol can. -/
theorem exportState_not_readsAgree :
    CoherentFor (imageHost exportWords) 0 exportState.clear (cstr "a") ∧
      (∀ rva, windowsSymbolToAddress (imageHost exportWords) exportState.toXaParams
        (cstr "a") = some rva → DirectMapped (imageHost exportWords) exportState.toXaParams
          (exportState.os.ntoskrnl + rva)) ∧
      ¬ ReadsAgree (imageHost exportWords) 0 exportState.clear (cstr "a") := by
  have haddr : windowsSymbolToAddress (imageHost exportWords) exportState.toXaParams
      (cstr "a") = some 0x1000 := by decide
  refine ⟨coherentFor_clear _ _, fun rva hrva => ?_, fun hagree => ?_⟩
  · cases hrva.symm.trans haddr
    exact directMapped_file rfl (by decide) (by decide) (by decide)
  · have hrun : xaSymbolToAddress (imageHost exportWords) (cstr "a") exportState.clear =
        .ok (windowsSymbolToAddress (imageHost exportWords) exportState.toXaParams (cstr "a"),
          exportState.clear) := rfl
    have hvirt : Returns (xaReadLongVirt (imageHost exportWords) 0 0x1000 0) exportState.clear
        fun r _ => r = none := by decide
    have hsym : Returns (xaReadLongSym (imageHost exportWords) (cstr "a")) exportState.clear
        fun r _ => r = some 0xDEADBEEF := by decide
    obtain ⟨r, t₁, t₂, -, -, h1, h2⟩ := hagree 0x1000 _ (by rw [hrun, haddr])
    obtain ⟨_, _, h1', rfl⟩ := hvirt
    obtain ⟨_, _, h2', rfl⟩ := hsym
    have hnone : r.map Access.long = none := congrArg (·.1) (Except.ok.inj (h1.symm.trans h1'))
    have hsome : r.map Access.long = some 0xDEADBEEF :=
      congrArg (·.1) (Except.ok.inj (h2.symm.trans h2'))
    cases hnone.symm.trans hsome

/-- The same guest with the relative addresses mapped too. -/
theorem exportState_readsAgree :
    ReadsAgree (imageHost ((0x1000, 0x00400083) :: exportWords)) 0 exportState.clear
      (cstr "a") := by
  have haddr : windowsSymbolToAddress (imageHost ((0x1000, 0x00400083) :: exportWords))
      exportState.clear.toXaParams (cstr "a") = some 0x1000 := by decide
  refine (readsAgree_iff _ 0 exportState.clear rfl rfl (cstr "a") (coherentFor_clear _ _)
    ?_).mpr ?_
  · intro _ rva hrva
    cases hrva.symm.trans haddr
    exact directMapped_file rfl (by decide) (by decide) (by decide)
  · intro _ rva hrva
    cases hrva.symm.trans haddr
    exact Or.inl (by decide)

end XenAccess
