import XenAccess.Init.Linux
import XenAccess.Init.Windows

/-!
# The caches across initialisation

Initialisation caches translations while `pae` and `kpgd` are still being guessed, and
neither the change of `pae` in `linux_init` nor the one of `kpgd` in `windows_init` touches
the cache. Both leave one symbol in it, so what a later lookup finds is right exactly when
the frame of that symbol has stayed the same, or when it was stored without one.
-/

namespace XenAccess

open Prog

variable {h : Host} {s : XaState} {fuel : Nat}

/-- The caches are coherent across `linux_init`: in the state in which it tries again no
lookup is out of date, the second attempt gives what it gives with empty caches, and when
it returns no lookup is out of date. -/
structure LinuxInitCoherent (h : Host) (s : XaState) : Prop where
  retry : ∀ s₂, LinuxRetries h s s₂ → LookupsCurrent h s₂ ∧
    ∃ r t t', xaAccessKernelSym h initTaskSymbol protRead s₂ = .ok (r, t) ∧
      xaAccessKernelSym h initTaskSymbol protRead s₂.clear = .ok (r, t')
  final : ∀ r s', linuxInit h s = .ok (r, s') → LookupsCurrent h s'

/-- Where the first attempt fails, it has stored no machine address, or one in the frame
that the other PAE mode gives too. -/
def LinuxFrameKept (h : Host) (s : XaState) : Prop :=
  ∀ s₁ v, linuxFindKpgd h s = .ok (.success, s₁) →
    symbolVirt h s initTaskSymbol = some v →
    refKernelVa h s₁.toXaParams v protRead = none →
    storedMach h s₁.toXaParams v = 0 ∨
      pageBase s.toXaParams (xaTranslateKv2p h s₁.toXaParams v) =
        pageBase s.toXaParams (xaTranslateKv2p h s₁.flipPae.toXaParams v)

theorem Attempted.lookupsCurrent_iff {v m : U32} (hs : Attempted h v m s) :
    LookupsCurrent h s ↔ m = 0 ∨ pageBase s.toXaParams m =
      pageBase s.toXaParams (xaTranslateKv2p h s.toXaParams v) :=
  XenAccess.lookupsCurrent_iff hs.pageSize initTaskSymbol_ne initTaskSymbol_length hs.pids
    hs.entries hs.symbol

theorem Attempted.lookupsCurrent_setInitTask {v m : U32} (hs : Attempted h v m s)
    (initTask : U32) :
    LookupsCurrent h { s with initTask } ↔ m = 0 ∨ pageBase s.toXaParams m =
      pageBase s.toXaParams (xaTranslateKv2p h s.toXaParams v) :=
  (hs.setInitTask initTask).lookupsCurrent_iff

/-- With empty caches, the second attempt returns the access without caches. -/
theorem attempt_clear {v m : U32} (hs : Attempted h v m s) :
    ∃ t, xaAccessKernelSym h initTaskSymbol protRead s.clear =
      .ok (refKernelVa h s.toXaParams v protRead, t) := by
  obtain ⟨t, hacc, -⟩ := attempt_of_bare (s := s.clear) hs.os hs.pageSize hs.pageShift rfl
    (Or.inl rfl) ((symbolVirt_clear hs.os).trans hs.symbol)
  exact ⟨t, hacc⟩

/-- The lookups in the state in which `linux_init` tries again. -/
theorem retry_lookupsCurrent_iff {s₁ s₂ : XaState} {v : U32}
    (hatt : Attempted h v (storedMach h s₁.toXaParams v) s₂)
    (hp₂ : s₂.toXaParams = s₁.flipPae.toXaParams) :
    LookupsCurrent h s₂ ↔ storedMach h s₁.toXaParams v = 0 ∨
      pageBase s₁.toXaParams (xaTranslateKv2p h s₁.toXaParams v) =
        pageBase s₁.toXaParams (xaTranslateKv2p h s₁.flipPae.toXaParams v) := by
  have hps : s₁.pageSize = 4096 := (congrArg XaParams.pageSize hp₂).symm.trans hatt.pageSize
  rw [hatt.lookupsCurrent_iff, hp₂, ← pageBase_storedMach hps v]
  rfl

/-! ## `linux_init` -/

/-- After a stored address in the right frame, the second attempt is the one with empty
caches. -/
theorem linuxInit_retry_coherent (hs : LinuxReady s) (hkept : LinuxFrameKept h s)
    {s₂ : XaState} (hretry : LinuxRetries h s s₂) :
    LookupsCurrent h s₂ ∧
      ∃ r t t', xaAccessKernelSym h initTaskSymbol protRead s₂ = .ok (r, t) ∧
        xaAccessKernelSym h initTaskSymbol protRead s₂.clear = .ok (r, t') := by
  rcases hretry.cases hs with ⟨hs₂, hos₂, hv₂⟩ | ⟨s₁, v, hfind, hv, hnone, hp₂, hatt⟩
  · exact ⟨hs₂.lookupsCurrent, none, _, _, hs₂.attempt hos₂ hv₂,
      (cachesEmpty_clear s₂).attempt hos₂ ((symbolVirt_clear hos₂).trans hv₂)⟩
  · have hs₁ := hs.findKpgd hfind
    have hsize := hs.pageSize.trans hs₁.pageSize.symm
    have hframe := hkept s₁ v hfind hv hnone
    rw [pageBase_congr hsize, pageBase_congr hsize] at hframe
    refine ⟨(retry_lookupsCurrent_iff hatt hp₂).mpr hframe, ?_⟩
    obtain ⟨r, t, m, hacc, -, -, -, hr⟩ := LinuxRetries.second hatt hp₂ hnone
    obtain ⟨t', hclear⟩ := attempt_clear hatt
    refine ⟨r, t, t', hacc, ?_⟩
    rcases hr with ⟨hm, rfl, -⟩ | ⟨-, rfl, -⟩
    · have hfresh : refKernelVa h s₂.toXaParams v protRead = none := by
        rw [refKernelVa, accessTranslated]
        split
        · rfl
        · refine stored_unmapped hs₁.pageSize hs₁.pageShift hp₂ hnone hm ?_
          rw [hp₂]
          exact hframe.resolve_left hm
      rw [← hfresh]
      exact hclear
    · exact hclear

theorem linuxInit_final_coherent (hs : LinuxReady s) (hkept : LinuxFrameKept h s) {r : Ret}
    {s' : XaState} (hrun : linuxInit h s = .ok (r, s')) : LookupsCurrent h s' := by
  have hrun' := hrun
  rw [linuxInit_eq] at hrun
  obtain ⟨r₁, s₁, hfind, hrest⟩ := bind_ok_iff.mp hrun
  have hs₁ := hs.findKpgd hfind
  cases r₁ with
  | failure =>
    cases hrest
    exact hs₁.empty.lookupsCurrent
  | success =>
    obtain ⟨x, t, hacc, htail⟩ := bind_ok_iff.mp hrest
    cases x with
    | some a =>
      -- the first attempt succeeds, and nothing changes after it
      cases htail
      cases hv : symbolVirt h s initTaskSymbol with
      | none =>
        have hmiss := hs₁.empty.attempt hs₁.os ((hs.symbolVirt_findKpgd hfind).trans hv)
        cases (Prod.mk.inj (Except.ok.inj (hacc.symm.trans hmiss))).1
      | some v =>
        obtain ⟨t', hacc', hpar, -, hatt⟩ := attempt_of_bare hs₁.os hs₁.pageSize hs₁.pageShift
          hs₁.empty.pidCache (Or.inl hs₁.empty.cache) ((hs.symbolVirt_findKpgd hfind).trans hv)
        obtain ⟨-, rfl⟩ := Prod.mk.inj (Except.ok.inj (hacc.symm.trans hacc'))
        refine (hatt.lookupsCurrent_setInitTask _).mpr (Or.inr ?_)
        rw [← hpar]
        exact pageBase_storedMach hatt.pageSize v
    | none =>
      have hretry : LinuxRetries h s t.flipPae := ⟨s₁, t, hfind, hacc, rfl⟩
      rw [hretry.linuxInit_eq] at hrun'
      rcases hretry.cases hs with ⟨hs₂, hos₂, hv₂⟩ | ⟨s₁', v, hfind', hv, hnone, hp₂, hatt⟩
      · obtain ⟨initTask, rfl⟩ := (linuxRetryInitTask_eq (hs₂.attempt hos₂ hv₂)).state hrun'
        exact CachesEmpty.lookupsCurrent ⟨hs₂.cache, hs₂.pidCache⟩
      · obtain ⟨x, u, m, hacc₂, hpar, -, hu, hm⟩ := LinuxRetries.second hatt hp₂ hnone
        obtain ⟨initTask, rfl⟩ := (linuxRetryInitTask_eq hacc₂).state hrun'
        refine (hu.lookupsCurrent_setInitTask initTask).mpr (Or.inr ?_)
        rcases hm with ⟨hne, -, rfl⟩ | ⟨-, -, rfl⟩
        · have hs₁' := hs.findKpgd hfind'
          have hsize := hs.pageSize.trans hs₁'.pageSize.symm
          have hframe := (hkept s₁' v hfind' hv hnone).resolve_left hne
          rw [pageBase_congr hsize, pageBase_congr hsize,
            ← pageBase_storedMach hs₁'.pageSize v] at hframe
          rw [hpar, hp₂]
          exact hframe
        · rw [← hpar]
          exact pageBase_storedMach hu.pageSize v

theorem linuxInitCoherent_iff (hs : LinuxReady s) :
    LinuxInitCoherent h s ↔ LinuxFrameKept h s := by
  constructor
  · intro hcoh s₁ v hfind hv hnone
    have hs₁ := hs.findKpgd hfind
    obtain ⟨t, hacc, hpar, -, hatt⟩ := attempt_of_bare hs₁.os hs₁.pageSize hs₁.pageShift
      hs₁.empty.pidCache (Or.inl hs₁.empty.cache) ((hs.symbolVirt_findKpgd hfind).trans hv)
    rw [hnone] at hacc
    have hp₂ : t.flipPae.toXaParams = s₁.flipPae.toXaParams := by
      have hflip : t.flipPae.toXaParams = { t.toXaParams with pae := !t.pae } := rfl
      rw [hflip, hpar]
      rfl
    have hcur := (hcoh.retry t.flipPae ⟨s₁, t, hfind, hacc, rfl⟩).1
    have hframe := (retry_lookupsCurrent_iff hatt.flipPae hp₂).mp hcur
    have hsize := hs.pageSize.trans hs₁.pageSize.symm
    rw [pageBase_congr hsize, pageBase_congr hsize]
    exact hframe
  · intro hkept
    exact ⟨fun s₂ hretry => linuxInit_retry_coherent hs hkept hretry,
      fun r s' hrun => linuxInit_final_coherent hs hkept hrun⟩

/-! ## `windows_init` -/

/-- When `windows_init` returns, no lookup is out of date. -/
def WindowsInitCoherent (h : Host) (fuel : Nat) (s : XaState) : Prop :=
  ∀ r s', windowsInit h fuel s = .ok (r, s') → LookupsCurrent h s'

/-- The exported pointer to the System process is stored without a machine address, or in
the frame that the page directory found in the end gives. -/
def WindowsFrameKept (h : Host) (fuel : Nat) (s : XaState) : Prop :=
  ∀ t rva found, windowsFindBase h s = .ok (.success, t) →
    windowsSymbolToAddress h t.toXaParams psInitialSystemProcess = some rva →
    refFindKpgd h t.toXaParams t.errorMode fuel = .ok found →
    xaTranslateKv2p h t.toXaParams (t.os.ntoskrnl + rva + t.pageOffset) = 0 ∨
      pageBase t.toXaParams (xaTranslateKv2p h t.toXaParams
          (t.os.ntoskrnl + rva + t.pageOffset)) =
        pageBase t.toXaParams (xaTranslateKv2p h { t.toXaParams with kpgd := found.kpgd }
          (t.os.ntoskrnl + rva + t.pageOffset))

/-- A live domain is translated by its CR3, whatever `kpgd` is. -/
theorem windowsFrameKept_xen (hmode : s.mode = .xen) : WindowsFrameKept h fuel s := by
  intro t rva found hbase _ _
  obtain ⟨ntoskrnl, rfl⟩ := windowsFindBase_state hbase
  right
  simp only [xaTranslateKv2p, xaCurrentCr3, hmode]
  rfl

/-- The lookups at the end of `windows_init`. -/
theorem windows_lookupsCurrent_iff {t : XaState} (ht : WindowsReady t) {rva : U32}
    (hrva : windowsSymbolToAddress h t.toXaParams psInitialSystemProcess = some rva)
    {c : Lru CacheEntry xaCacheSize} (hent : PointerCached h t.toXaParams c.entries)
    (n : Nat) (kpgd initTask : U32) :
    LookupsCurrent h { t with cache := c, ticks := n, kpgd, initTask } ↔
      xaTranslateKv2p h t.toXaParams (t.os.ntoskrnl + rva + t.pageOffset) = 0 ∨
      pageBase t.toXaParams (xaTranslateKv2p h t.toXaParams
          (t.os.ntoskrnl + rva + t.pageOffset)) =
        pageBase t.toXaParams (xaTranslateKv2p h { t.toXaParams with kpgd }
          (t.os.ntoskrnl + rva + t.pageOffset)) := by
  have hos : ({ t with cache := c, ticks := n, kpgd, initTask } : XaState).osType = .windows :=
    ht.os
  rw [PointerCached, hrva] at hent
  refine lookupsCurrent_iff (s := { t with cache := c, ticks := n, kpgd, initTask })
    ht.pageSize (by decide) (by decide) ht.empty.pidCache (hent.congr rfl) ?_
  rw [symbolVirt_windows hos]
  have hparams := ((samePhys_kpgd h t.toXaParams kpgd initTask).symbolToAddress
    psInitialSystemProcess).trans hrva
  exact congrArg (Option.map _) hparams

theorem windowsInitCoherent_iff (hs : WindowsReady s) :
    WindowsInitCoherent h fuel s ↔ WindowsFrameKept h fuel s := by
  constructor
  · intro hcoh t rva found hbase hrva hfind
    have ht := hs.findBase hbase
    obtain ⟨c, n, hrun, hent⟩ := windowsInit_eq fuel hbase ht.os ht.empty.cache
    rw [hfind] at hrun
    exact (windows_lookupsCurrent_iff ht hrva hent n _ _).mp (hcoh _ _ hrun)
  · intro hkept r s' hrun
    obtain ⟨r₁, t, hbase, hrest⟩ := bind_ok_iff.mp hrun
    have ht := hs.findBase hbase
    cases r₁ with
    | failure =>
      cases hrest
      exact ht.empty.lookupsCurrent
    | success =>
      obtain ⟨c, n, heq, hent⟩ := windowsInit_eq fuel hbase ht.os ht.empty.cache
      rw [heq] at hrun
      cases hfind : refFindKpgd h t.toXaParams t.errorMode fuel with
      | error e =>
        rw [hfind] at hrun
        cases hrun
      | ok found =>
        rw [hfind] at hrun
        obtain ⟨-, rfl⟩ := Prod.mk.inj (Except.ok.inj hrun)
        cases hrva : windowsSymbolToAddress h t.toXaParams psInitialSystemProcess with
        | none =>
          rw [PointerCached, hrva] at hent
          exact CachesEmpty.lookupsCurrent ⟨hent, ht.empty.pidCache⟩
        | some rva =>
          exact (windows_lookupsCurrent_iff ht hrva hent n _ _).mpr
            (hkept t rva found hbase hrva hfind)

/-! ## Both systems -/

/-- **When the caches are coherent across initialisation.** -/
theorem init_coherent_iff (h : Host) (fuel : Nat) (s : XaState) :
    (LinuxReady s → (LinuxInitCoherent h s ↔ LinuxFrameKept h s)) ∧
      (WindowsReady s → (WindowsInitCoherent h fuel s ↔ WindowsFrameKept h fuel s)) :=
  ⟨linuxInitCoherent_iff, windowsInitCoherent_iff⟩

/-- A Linux guest with PAE tables, which map `init_task`. The first attempt walks them
without PAE, and `words` says what it finds there. -/
def paeLinuxHost (words : Words) : Host :=
  { imageHost (words ++ [(0x1018, 0x2001), (0x2000, 0x83), (0x5000, 0xC0006000)]) with
    fopen := fun _ => some (cstr "c0001000 A swapper_pg_dir\nc0005000 D init_task\n") }

def paeLinuxState : XaState :=
  imageState .linux 0xC0000000 0 0 ⟨0, 0, 0, 0, 0, 0, 0⟩

theorem paeLinuxState_ready : LinuxReady paeLinuxState := ⟨rfl, rfl, rfl, rfl, rfl⟩

/-- The first attempt finds no entry. -/
theorem paeLinuxHost_coherent : LinuxInitCoherent (paeLinuxHost []) paeLinuxState := by
  refine ((init_coherent_iff (paeLinuxHost []) 0 paeLinuxState).1 paeLinuxState_ready).mpr ?_
  intro s₁ v hfind hv _
  have hsym : symbolVirt (paeLinuxHost []) paeLinuxState initTaskSymbol = some 0xC0005000 := by
    decide
  have hzero : After (linuxFindKpgd (paeLinuxHost [])) paeLinuxState fun _ s₁ =>
      storedMach (paeLinuxHost []) s₁.toXaParams 0xC0005000 = 0 := by decide
  cases hv.symm.trans hsym
  exact Or.inl (hzero _ _ hfind)

/-- The first attempt finds a frame behind the end of the image, and the second one takes it
from the cache. -/
theorem paeLinuxHost_not_coherent :
    LinuxReady paeLinuxState ∧
      ¬ LinuxInitCoherent (paeLinuxHost [(0x1C00, 0x40000083)]) paeLinuxState := by
  refine ⟨paeLinuxState_ready, fun hcoh => ?_⟩
  have hstale : Returns (linuxFindKpgd (paeLinuxHost [(0x1C00, 0x40000083)])) paeLinuxState
      fun r s₁ => r = .success ∧ Returns (xaAccessKernelSym
        (paeLinuxHost [(0x1C00, 0x40000083)]) initTaskSymbol protRead) s₁ fun x t => x.isNone ∧
          Returns (xaAccessKernelSym (paeLinuxHost [(0x1C00, 0x40000083)]) initTaskSymbol
            protRead) t.flipPae (fun x _ => x.isNone) ∧
          Returns (xaAccessKernelSym (paeLinuxHost [(0x1C00, 0x40000083)]) initTaskSymbol
            protRead) t.flipPae.clear (fun x _ => x.isSome) := by decide
  obtain ⟨_, s₁, hfind, rfl, x, t, hacc, hx, ⟨y, _, hsecond, hy⟩, ⟨z, _, hfresh, hz⟩⟩ := hstale
  rw [Option.isNone_iff_eq_none.mp hx] at hacc
  obtain ⟨-, r, _, _, h1, h2⟩ := hcoh.retry t.flipPae ⟨s₁, t, hfind, hacc, rfl⟩
  cases hsecond.symm.trans h1
  cases hfresh.symm.trans h2
  cases y with
  | none => cases hz
  | some a => cases hy

end XenAccess
