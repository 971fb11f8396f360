import XenAccess.Init.First

/-!
# `linux_init`

The two attempts of `linux_init` at `init_task`. What the first one leaves in the cache decides
the second one (`LinuxRetries.second`): a machine address that could not be mapped is taken
from the cache and fails again.
-/

namespace XenAccess

open Prog

variable {h : Host} {s : XaState}

/-! ## The steps of `linux_init` -/

/-- The symbol whose address `linux_init` reads. -/
def initTaskSymbol : CStr := cstr "init_task"

/-- The steps of `linux_init` before `init_task` is read. -/
def linuxFindKpgd (h : Host) : XaM Ret := orExit (linuxLookupKpgd h) (linuxReadKpgd h)

theorem linuxInit_eq (h : Host) :
    linuxInit h = orExit (linuxFindKpgd h) (linuxReadInitTask h) :=
  orExit_assoc _ _ _

theorem linuxLookupKpgd_state {r : Ret} {t : XaState} (hrun : linuxLookupKpgd h s = .ok (r, t)) :
    ∃ kpgd, t = { s.withSysmap h with kpgd } := by
  rw [linuxLookupKpgd] at hrun
  obtain ⟨look, t', hlook, hrest⟩ := bind_ok_iff.mp hrun
  obtain ⟨-, rfl⟩ := Prod.mk.inj (Except.ok.inj hlook)
  cases look with
  | some kpgd =>
    cases hrest
    exact ⟨kpgd, rfl⟩
  | none =>
    cases hrest
    exact ⟨s.kpgd, rfl⟩

theorem linuxReadKpgd_state {r : Ret} {t : XaState} (hrun : linuxReadKpgd h s = .ok (r, t)) :
    ∃ kpgd, t = { s with kpgd } := by
  rw [linuxReadKpgd, get_bind] at hrun
  by_cases hhvm : s.hvm = true
  · rw [if_pos hhvm] at hrun
    cases hrun
    exact ⟨s.kpgd, rfl⟩
  · rw [if_neg hhvm] at hrun
    cases hread : xaReadLongPhys h s.toXaParams (s.kpgd - s.pageOffset) with
    | some value =>
      simp only [hread] at hrun
      cases hrun
      exact ⟨value, rfl⟩
    | none =>
      simp only [hread] at hrun
      cases hrun
      exact ⟨s.kpgd - s.pageOffset, rfl⟩

/-- The steps before `init_task` is read change the name of the System.map and `kpgd`. -/
theorem linuxFindKpgd_state {r : Ret} {t : XaState} (hrun : linuxFindKpgd h s = .ok (r, t)) :
    ∃ kpgd, t = { s.withSysmap h with kpgd } := by
  obtain ⟨r₁, t₁, hfirst, hrest⟩ := bind_ok_iff.mp hrun
  obtain ⟨k₁, rfl⟩ := linuxLookupKpgd_state hfirst
  cases r₁ with
  | failure =>
    cases hrest
    exact ⟨k₁, rfl⟩
  | success =>
    obtain ⟨k₂, rfl⟩ := linuxReadKpgd_state hrest
    exact ⟨k₂, rfl⟩

/-- An instance for a Linux guest as the steps for the operating system find it: the page
sizes are set and nothing is cached. -/
structure LinuxReady (s : XaState) : Prop where
  os : s.osType = .linux
  pageSize : s.pageSize = 4096
  pageShift : s.pageShift = 12
  empty : CachesEmpty s

theorem LinuxReady.findKpgd (hs : LinuxReady s) {r : Ret} {t : XaState}
    (hrun : linuxFindKpgd h s = .ok (r, t)) : LinuxReady t := by
  obtain ⟨kpgd, rfl⟩ := linuxFindKpgd_state hrun
  exact ⟨hs.os, hs.pageSize, hs.pageShift, hs.empty.cache, hs.empty.pidCache⟩

theorem LinuxReady.symbolVirt_findKpgd (hs : LinuxReady s) {r : Ret} {t : XaState}
    (hrun : linuxFindKpgd h s = .ok (r, t)) :
    symbolVirt h t initTaskSymbol = symbolVirt h s initTaskSymbol := by
  rw [symbolVirt_linux (hs.findKpgd hrun).os, symbolVirt_linux hs.os]
  obtain ⟨kpgd, rfl⟩ := linuxFindKpgd_state hrun
  exact congrArg (sysmapAddress h · initTaskSymbol) (sysmapName_idem h s.toXaParams s.sysmap)

/-! ## The second attempt -/

/-- The other PAE mode. -/
def XaState.flipPae (s : XaState) : XaState := { s with pae := !s.pae }

/-- `linux_init`, started in `s`, tries `init_task` again in the state `s₂`. -/
def LinuxRetries (h : Host) (s s₂ : XaState) : Prop :=
  ∃ s₁ t, linuxFindKpgd h s = .ok (.success, s₁) ∧
    xaAccessKernelSym h initTaskSymbol protRead s₁ = .ok (none, t) ∧ s₂ = t.flipPae

/-- From there on, `linux_init` is its second attempt. -/
theorem LinuxRetries.linuxInit_eq {s₂ : XaState} (hretry : LinuxRetries h s s₂) :
    linuxInit h s = linuxRetryInitTask h s₂ := by
  obtain ⟨s₁, t, hfind, hacc, rfl⟩ := hretry
  rw [XenAccess.linuxInit_eq, orExit_success hfind]
  exact bind_of_ok hacc

/-- A state of `linux_init` at one of its attempts: the symbol is at `v`, and the cache holds
it with the machine address `m`. -/
structure Attempted (h : Host) (v m : U32) (s : XaState) : Prop where
  os : s.osType = .linux
  pageSize : s.pageSize = 4096
  pageShift : s.pageShift = 12
  pids : s.pidCache.entries = []
  symbol : symbolVirt h s initTaskSymbol = some v
  entries : HoldsSymbol s.toXaParams initTaskSymbol v m s.cache.entries

theorem initTaskSymbol_ne : initTaskSymbol ≠ [] := by decide

theorem initTaskSymbol_length : initTaskSymbol.length < maxSymLen := by decide

theorem symbolVirt_flipPae (hos : s.osType = .linux) :
    symbolVirt h s.flipPae initTaskSymbol = symbolVirt h s initTaskSymbol := by
  have hos' : s.flipPae.osType = .linux := hos
  rw [symbolVirt_linux hos, symbolVirt_linux hos']
  rfl

theorem symbolVirt_clear (hos : s.osType = .linux) :
    symbolVirt h s.clear initTaskSymbol = symbolVirt h s initTaskSymbol := by
  have hos' : s.clear.osType = .linux := hos
  rw [symbolVirt_linux hos, symbolVirt_linux hos']
  rfl

theorem Attempted.flipPae {v m : U32} (hs : Attempted h v m s) : Attempted h v m s.flipPae :=
  ⟨hs.os, hs.pageSize, hs.pageShift, hs.pids, (symbolVirt_flipPae hs.os).trans hs.symbol,
    hs.entries.congr rfl⟩

theorem Attempted.setInitTask {v m : U32} (hs : Attempted h v m s) (initTask : U32) :
    Attempted h v m { s with initTask } := by
  have hos : ({ s with initTask } : XaState).osType = .linux := hs.os
  refine ⟨hs.os, hs.pageSize, hs.pageShift, hs.pids, ?_, hs.entries.congr rfl⟩
  rw [symbolVirt_linux hos]
  exact (symbolVirt_linux hs.os).symm.trans hs.symbol

/-- What an access to a symbol leaves alone besides the parameters. The name of the System.map
stays when it has been resolved. -/
structure SameSettings (h : Host) (s t : XaState) : Prop where
  errorMode : t.errorMode = s.errorMode
  sysmap : sysmapName h s.toXaParams s.sysmap = s.sysmap → t.sysmap = s.sysmap

/-- The first attempt, and the second one after a first that stored no machine address. -/
theorem attempt_of_bare (hos : s.osType = .linux) (hps : s.pageSize = 4096)
    (hshift : s.pageShift = 12) (hpids : s.pidCache.entries = [])
    (hbare : Bare initTaskSymbol s.cache.entries) {v : U32}
    (hv : symbolVirt h s initTaskSymbol = some v) :
    ∃ t, xaAccessKernelSym h initTaskSymbol protRead s =
        .ok (refKernelVa h s.toXaParams v protRead, t) ∧ t.toXaParams = s.toXaParams ∧
      SameSettings h s t ∧ Attempted h v (storedMach h s.toXaParams v) t := by
  have hv' := (symbolVirt_linux hos).symm.trans hv
  obtain ⟨c, n, hacc, hent⟩ := linuxAccessKernelSymbol_first initTaskSymbol_length hbare hv' protRead
  refine ⟨{ s.withSysmap h with cache := c, ticks := n },
    (xaAccessKernelSym_linux h hos _ _).trans hacc, rfl, ⟨rfl, id⟩, hos, hps, hshift, hpids, ?_,
    hent⟩
  exact (symbolVirt_withSysmap hos).trans hv

/-- The second attempt after a first that stored a machine address takes it from the cache. -/
theorem attempt_of_stored {v m : U32} (hs : Attempted h v m s) (hm : m ≠ 0) :
    ∃ t, xaAccessKernelSym h initTaskSymbol protRead s =
        .ok (xaAccessMa h s.toXaParams m protRead, t) ∧ t.toXaParams = s.toXaParams ∧
      SameSettings h s t ∧ Attempted h v m t := by
  obtain ⟨c, hcheck, hent⟩ := hs.entries.checkSym (h := h) hm
  refine ⟨s.setCache c, ?_, rfl, ⟨rfl, fun _ => rfl⟩, hs.os, hs.pageSize, hs.pageShift, hs.pids,
    hs.symbol, hent⟩
  rw [xaAccessKernelSym_linux h hs.os, linuxAccessKernelSymbol, bind_of_ok hcheck]
  rfl

/-- Addresses of one frame can be mapped together or not at all. -/
theorem xaAccessMa_none_of_frame {p p' : XaParams} (hps : p.pageSize = 4096)
    (hshift : p.pageShift = 12) {a b prot : U32} (hab : pageBase p a = pageBase p b)
    (hmap : ∀ frame, xaMapPage h p' prot frame = xaMapPage h p prot frame)
    (hshift' : p'.pageShift = 12) (ha : xaAccessMa h p a prot = none) :
    xaAccessMa h p' b prot = none := by
  have hframe : a >>> p.pageShift = b >>> p'.pageShift := by
    have := congrArg BitVec.toNat hab
    rw [pageBase_toNat hps, pageBase_toNat hps] at this
    apply BitVec.eq_of_toNat_eq
    rw [hshift, hshift']
    simp only [BitVec.ushiftRight_eq', BitVec.toNat_ushiftRight, Nat.shiftRight_eq_div_pow]
    show a.toNat / 2 ^ 12 = b.toNat / 2 ^ 12
    omega
  rw [xaAccessMa, Option.map_eq_none_iff] at ha ⊢
  rw [xaMmapMfn, hmap, ← hframe]
  exact ha

theorem CachesEmpty.attempt (hs : CachesEmpty s) (hos : s.osType = .linux)
    (hv : symbolVirt h s initTaskSymbol = none) :
    xaAccessKernelSym h initTaskSymbol protRead s = .ok (none, s.withSysmap h) := by
  have hv' := (symbolVirt_linux hos).symm.trans hv
  exact (xaAccessKernelSym_linux h hos _ _).trans
    (linuxAccessKernelSymbol_missing (Or.inl hs.cache) hv' protRead)

/-- What is known when `linux_init` tries again: the symbol is missing and nothing is cached,
or the first attempt has left it in the cache. -/
theorem LinuxRetries.cases {s₂ : XaState} (hretry : LinuxRetries h s s₂) (hs : LinuxReady s) :
    (CachesEmpty s₂ ∧ s₂.osType = .linux ∧ symbolVirt h s₂ initTaskSymbol = none) ∨
    ∃ s₁ v, linuxFindKpgd h s = .ok (.success, s₁) ∧
      symbolVirt h s initTaskSymbol = some v ∧
      refKernelVa h s₁.toXaParams v protRead = none ∧
      s₂.toXaParams = s₁.flipPae.toXaParams ∧
      Attempted h v (storedMach h s₁.toXaParams v) s₂ := by
  obtain ⟨s₁, t, hfind, hacc, rfl⟩ := hretry
  have hs₁ := hs.findKpgd hfind
  have hsym := hs.symbolVirt_findKpgd hfind
  cases hv : symbolVirt h s initTaskSymbol with
  | none =>
    have hv₁ := hsym.trans hv
    obtain ⟨-, rfl⟩ := Prod.mk.inj (Except.ok.inj (hacc.symm.trans (hs₁.empty.attempt hs₁.os hv₁)))
    refine Or.inl ⟨⟨hs₁.empty.cache, hs₁.empty.pidCache⟩, hs₁.os, ?_⟩
    rw [symbolVirt_flipPae (s := s₁.withSysmap h) hs₁.os, symbolVirt_withSysmap hs₁.os]
    exact hv₁
  | some v =>
    obtain ⟨t', hacc', hpar, -, hatt⟩ := attempt_of_bare hs₁.os hs₁.pageSize hs₁.pageShift
      hs₁.empty.pidCache (Or.inl hs₁.empty.cache) (hsym.trans hv)
    obtain ⟨hnone, rfl⟩ := Prod.mk.inj (Except.ok.inj (hacc.symm.trans hacc'))
    refine Or.inr ⟨s₁, v, hfind, rfl, hnone.symm, ?_, hatt.flipPae⟩
    have hflip : t.flipPae.toXaParams = { t.toXaParams with pae := !t.pae } := rfl
    rw [hflip, hpar]
    rfl

/-- A machine address stored by a failed attempt cannot be mapped, in either PAE mode. -/
theorem stored_unmapped {s₁ : XaState} {p₂ : XaParams} (hps : s₁.pageSize = 4096)
    (hshift : s₁.pageShift = 12) (hp₂ : p₂ = s₁.flipPae.toXaParams) {v b : U32}
    (hnone : refKernelVa h s₁.toXaParams v protRead = none)
    (hm : storedMach h s₁.toXaParams v ≠ 0)
    (hb : pageBase s₁.toXaParams (xaTranslateKv2p h s₁.toXaParams v) =
      pageBase s₁.toXaParams b) : xaAccessMa h p₂ b protRead = none := by
  have hne : xaTranslateKv2p h s₁.toXaParams v ≠ 0 :=
    fun hzero => hm (storedMach_eq_zero_of_translate hzero)
  rw [refKernelVa, accessTranslated, if_neg hne] at hnone
  subst hp₂
  exact xaAccessMa_none_of_frame hps hshift hb (fun _ => rfl) hshift hnone

/-- The second attempt: it fails when the first one has stored a machine address, and
otherwise is made as with empty caches. -/
theorem LinuxRetries.second {s₁ s₂ : XaState} {v : U32}
    (hatt : Attempted h v (storedMach h s₁.toXaParams v) s₂)
    (hp₂ : s₂.toXaParams = s₁.flipPae.toXaParams)
    (hnone : refKernelVa h s₁.toXaParams v protRead = none) :
    ∃ r t m, xaAccessKernelSym h initTaskSymbol protRead s₂ = .ok (r, t) ∧
      t.toXaParams = s₂.toXaParams ∧ SameSettings h s₂ t ∧ Attempted h v m t ∧
      (storedMach h s₁.toXaParams v ≠ 0 ∧ r = none ∧ m = storedMach h s₁.toXaParams v ∨
        storedMach h s₁.toXaParams v = 0 ∧ r = refKernelVa h s₂.toXaParams v protRead ∧
          m = storedMach h s₂.toXaParams v) := by
  have hps : s₁.pageSize = 4096 := (congrArg XaParams.pageSize hp₂).symm.trans hatt.pageSize
  have hshift : s₁.pageShift = 12 := (congrArg XaParams.pageShift hp₂).symm.trans hatt.pageShift
  by_cases hm : storedMach h s₁.toXaParams v = 0
  · have hbare : Bare initTaskSymbol s₂.cache.entries := by
      have hent := hatt.entries
      rw [hm] at hent
      exact hent.bare
    obtain ⟨t, hacc, hpar, hmode, ht⟩ := attempt_of_bare hatt.os hatt.pageSize hatt.pageShift
      hatt.pids hbare hatt.symbol
    exact ⟨_, t, _, hacc, hpar, hmode, ht, Or.inr ⟨hm, rfl, rfl⟩⟩
  · obtain ⟨t, hacc, hpar, hmode, ht⟩ := attempt_of_stored hatt hm
    refine ⟨_, t, _, hacc, hpar, hmode, ht, Or.inl ⟨hm, ?_, rfl⟩⟩
    exact stored_unmapped hps hshift hp₂ hnone hm (pageBase_storedMach hps v).symm

/-! ## What `linux_init` returns -/

/-- The mapping through which `linux_init` reads `init_task`: that of the first attempt, or
one in the other PAE mode when the first attempt has stored no machine address. -/
def mapInitTask (h : Host) (p : XaParams) (v : U32) : Option Access :=
  match refKernelVa h p v protRead with
  | some a => some a
  | none =>
    if storedMach h p v = 0 then refKernelVa h { p with pae := !p.pae } v protRead else none

/-- The state `t` of `linux_init` after its attempts at `init_task`: the PAE mode may have
changed, and a mapping that was found is one under the present parameters. -/
structure AfterAttempts (h : Host) (s t : XaState) : Prop where
  params : ∃ pae, t.toXaParams = { s.toXaParams with pae }
  settings : SameSettings h s t
  mapped : ∀ v a, symbolVirt h s initTaskSymbol = some v →
    mapInitTask h s.toXaParams v = some a → refKernelVa h t.toXaParams v protRead = some a

theorem AfterAttempts.kept {t : XaState} (ht : AfterAttempts h s t) :
    t.osType = s.osType ∧ t.os = s.os ∧ t.kpgd = s.kpgd ∧ t.initTask = s.initTask := by
  obtain ⟨pae, hp⟩ := ht.params
  show t.toXaParams.osType = _ ∧ t.toXaParams.os = _ ∧ t.toXaParams.kpgd = _ ∧
    t.toXaParams.initTask = _
  rw [hp]
  exact ⟨rfl, rfl, rfl, rfl⟩

/-- The end of `linux_init` when a mapping was found, and when not. -/
def EndsWith (t : XaState) (result : Except Fault (Ret × XaState)) : Option Access → Prop
  | some a => result =
      .ok (.success, { t with initTask := a.memory.u32 (a.offset + t.os.linuxTasks) })
  | none => result =
      match t.errorMode with
      | .failhard => .ok (.failure, t)
      | .failsoft => .error .nullPage

/-- A run that ends so and returns changes `init_task` at most. -/
theorem EndsWith.state {t s' : XaState} {result : Except Fault (Ret × XaState)} {r : Ret}
    {x : Option Access} (hend : EndsWith t result x) (hrun : result = .ok (r, s')) :
    ∃ initTask, s' = { t with initTask } := by
  cases x with
  | some a =>
    cases hend.symm.trans hrun
    exact ⟨_, rfl⟩
  | none =>
    rw [EndsWith] at hend
    split at hend
    · cases hend.symm.trans hrun
      exact ⟨t.initTask, rfl⟩
    · cases hend.symm.trans hrun

theorem linuxRetryInitTask_eq {x : Option Access} {t : XaState}
    (hacc : xaAccessKernelSym h initTaskSymbol protRead s = .ok (x, t)) :
    EndsWith t (linuxRetryInitTask h s) x := by
  have hacc' : xaAccessKernelSym h (cstr "init_task") protRead s = .ok (x, t) := hacc
  rw [linuxRetryInitTask, bind_of_ok hacc']
  cases x with
  | some a => rfl
  | none =>
    have hrep : (report .minor : XaM Ret) t = .ok (xaReportError t.errorMode .minor, t) := rfl
    simp only [bind_of_ok hrep, EndsWith]
    cases t.errorMode with
    | failhard => rfl
    | failsoft => rfl

/-- **How `linux_init` ends** once it has the page directory. -/
theorem linuxReadInitTask_eq (hs : LinuxReady s) :
    ∃ t, AfterAttempts h s t ∧ EndsWith t (linuxReadInitTask h s)
      ((symbolVirt h s initTaskSymbol).bind (mapInitTask h s.toXaParams)) := by
  cases hv : symbolVirt h s initTaskSymbol with
  | none =>
    have hfirst := hs.empty.attempt (h := h) hs.os hv
    have hv₂ : symbolVirt h (s.withSysmap h).flipPae initTaskSymbol = none := by
      rw [symbolVirt_flipPae (s := s.withSysmap h) hs.os, symbolVirt_withSysmap hs.os]
      exact hv
    have hempty : CachesEmpty (s.withSysmap h).flipPae := ⟨hs.empty.cache, hs.empty.pidCache⟩
    have hsecond := hempty.attempt hs.os hv₂
    refine ⟨(s.withSysmap h).flipPae.withSysmap h, ⟨⟨!s.pae, rfl⟩, ⟨rfl, ?_⟩, ?_⟩, ?_⟩
    · intro hsys
      exact (sysmapName_idem h s.toXaParams s.sysmap).trans hsys
    · intro v a hv'
      cases hv.symm.trans hv'
    · rw [show linuxReadInitTask h s = _ from bind_of_ok hfirst]
      exact linuxRetryInitTask_eq hsecond
  | some v =>
    obtain ⟨t, hfirst, hpar, hset, hatt⟩ := attempt_of_bare hs.os hs.pageSize hs.pageShift
      hs.empty.pidCache (Or.inl hs.empty.cache) hv
    rw [Option.bind_some, mapInitTask]
    cases hva : refKernelVa h s.toXaParams v protRead with
    | some a =>
      rw [hva] at hfirst
      refine ⟨t, ⟨⟨s.pae, hpar⟩, hset, ?_⟩, bind_of_ok hfirst⟩
      intro w b hw hb
      cases hv.symm.trans hw
      rw [mapInitTask, hva] at hb
      rw [hpar, hva]
      exact hb
    | none =>
      rw [hva] at hfirst
      have hp₂ : t.flipPae.toXaParams = s.flipPae.toXaParams := by
        have hflip : t.flipPae.toXaParams = { t.toXaParams with pae := !t.pae } := rfl
        rw [hflip, hpar]
        rfl
      obtain ⟨x, u, m, hsecond, hpar₂, hset₂, -, hx⟩ := LinuxRetries.second hatt.flipPae hp₂ hva
      have hx' : x = if storedMach h s.toXaParams v = 0 then
          refKernelVa h { s.toXaParams with pae := !s.pae } v protRead else none := by
        rcases hx with ⟨hm, rfl, -⟩ | ⟨hm, rfl, -⟩
        · rw [if_neg hm]
        · rw [if_pos hm, hp₂]
          rfl
      have hu : AfterAttempts h s u := by
        refine ⟨⟨!s.pae, hpar₂.trans hp₂⟩, ⟨hset₂.errorMode.trans hset.errorMode, ?_⟩, ?_⟩
        · intro hsys
          have ht : t.sysmap = s.sysmap := hset.sysmap hsys
          refine (hset₂.sysmap ?_).trans ht
          show sysmapName h t.flipPae.toXaParams t.sysmap = t.sysmap
          rw [hp₂, ht]
          exact hsys
        · intro w b hw hb
          cases hv.symm.trans hw
          simp only [mapInitTask, hva] at hb
          split_ifs at hb
          rw [hpar₂, hp₂]
          exact hb
      refine ⟨u, hu, ?_⟩
      rw [show linuxReadInitTask h s = _ from bind_of_ok hfirst]
      simp only
      rw [← hx']
      exact linuxRetryInitTask_eq hsecond

/-- The page directory of a Linux guest: the address of `swapper_pg_dir`, or the word behind
it for a paravirtualised guest. -/
def linuxKpgd (h : Host) (s : XaState) : Option U32 :=
  (sysmapAddress h (sysmapName h s.toXaParams s.sysmap) (cstr "swapper_pg_dir")).bind fun v =>
    if s.hvm then some v else xaReadLongPhys h s.toXaParams (v - s.pageOffset)

theorem linuxKpgd_hvm (hhvm : s.hvm = true) :
    linuxKpgd h s =
      sysmapAddress h (sysmapName h s.toXaParams s.sysmap) (cstr "swapper_pg_dir") := by
  simp [linuxKpgd, hhvm]

theorem linuxLookupKpgd_eq (h : Host) (s : XaState) :
    linuxLookupKpgd h s =
      match sysmapAddress h (sysmapName h s.toXaParams s.sysmap) (cstr "swapper_pg_dir") with
      | some kpgd => .ok (.success, { s.withSysmap h with kpgd })
      | none => .ok (xaReportError s.errorMode .minor, s.withSysmap h) := by
  have hlook : linuxSystemMapSymbolToAddress h (cstr "swapper_pg_dir") s = .ok (_, s.withSysmap h) :=
    rfl
  rw [linuxLookupKpgd, bind_of_ok hlook]
  cases sysmapAddress h (sysmapName h s.toXaParams s.sysmap) (cstr "swapper_pg_dir") with
  | some kpgd => rfl
  | none => rfl

theorem linuxReadKpgd_hvm (hhvm : s.hvm = true) : linuxReadKpgd h s = .ok (.success, s) := by
  rw [linuxReadKpgd, get_bind, if_pos hhvm]
  rfl

theorem linuxReadKpgd_read {kpgd : U32} (hhvm : s.hvm = false)
    (hread : xaReadLongPhys h s.toXaParams (s.kpgd - s.pageOffset) = some kpgd) :
    linuxReadKpgd h s = .ok (.success, { s with kpgd }) := by
  rw [linuxReadKpgd, get_bind, if_neg (by rw [hhvm]; exact Bool.false_ne_true)]
  simp only [hread, set_bind, pure_apply]

theorem linuxReadKpgd_unread (hhvm : s.hvm = false)
    (hread : xaReadLongPhys h s.toXaParams (s.kpgd - s.pageOffset) = none) :
    linuxReadKpgd h s =
      .ok (xaReportError s.errorMode .minor, { s with kpgd := s.kpgd - s.pageOffset }) := by
  rw [linuxReadKpgd, get_bind, if_neg (by rw [hhvm]; exact Bool.false_ne_true)]
  simp only [hread, set_bind]
  rfl

theorem linuxFindKpgd_some {kpgd : U32} (hk : linuxKpgd h s = some kpgd) :
    linuxFindKpgd h s = .ok (.success, { s.withSysmap h with kpgd }) := by
  obtain ⟨v, hv, hread⟩ := Option.bind_eq_some_iff.mp hk
  have hlook := linuxLookupKpgd_eq h s
  rw [hv] at hlook
  rw [linuxFindKpgd, orExit_success hlook]
  cases hhvm : s.hvm with
  | true =>
    rw [if_pos hhvm] at hread
    cases hread
    exact linuxReadKpgd_hvm (s := { s.withSysmap h with kpgd }) hhvm
  | false =>
    rw [if_neg (by rw [hhvm]; exact Bool.false_ne_true)] at hread
    exact linuxReadKpgd_read (s := { s.withSysmap h with kpgd := v }) hhvm hread

/-- Without a page directory `linux_init` goes on in lax mode only. -/
theorem linuxFindKpgd_none (hk : linuxKpgd h s = none) :
    ∃ kpgd, linuxFindKpgd h s =
        .ok (xaReportError s.errorMode .minor, { s.withSysmap h with kpgd }) ∧
      (s.hvm = true → kpgd = s.kpgd) := by
  have hlook := linuxLookupKpgd_eq h s
  cases hv : sysmapAddress h (sysmapName h s.toXaParams s.sysmap) (cstr "swapper_pg_dir") with
  | none =>
    rw [hv] at hlook
    cases hmode : s.errorMode with
    | failhard =>
      rw [hmode] at hlook
      exact ⟨s.kpgd, orExit_failure hlook, fun _ => rfl⟩
    | failsoft =>
      rw [hmode] at hlook
      rw [linuxFindKpgd, orExit_success hlook]
      cases hhvm : s.hvm with
      | true => exact ⟨s.kpgd, linuxReadKpgd_hvm (s := s.withSysmap h) hhvm, fun _ => rfl⟩
      | false =>
        cases hread : xaReadLongPhys h (s.withSysmap h).toXaParams (s.kpgd - s.pageOffset) with
        | some kpgd =>
          exact ⟨kpgd, linuxReadKpgd_read (s := s.withSysmap h) hhvm hread, by rintro ⟨⟩⟩
        | none =>
          rw [← hmode]
          exact ⟨s.kpgd - s.pageOffset, linuxReadKpgd_unread (s := s.withSysmap h) hhvm hread,
            by rintro ⟨⟩⟩
  | some v =>
    rw [hv] at hlook
    rw [linuxKpgd, hv, Option.bind_some] at hk
    cases hhvm : s.hvm with
    | true =>
      rw [if_pos hhvm] at hk
      cases hk
    | false =>
      rw [if_neg (by rw [hhvm]; exact Bool.false_ne_true)] at hk
      rw [linuxFindKpgd, orExit_success hlook]
      exact ⟨v - s.pageOffset,
        linuxReadKpgd_unread (s := { s.withSysmap h with kpgd := v }) hhvm hk, by rintro ⟨⟩⟩

end XenAccess
