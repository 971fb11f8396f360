import XenAccess.Cache.Untouched
import XenAccess.Model.Image

/-!
# The protection of mapped pages

The caller of an access function asks for a protection, and every mapping is made with one
(`MapsWith`). Both functions for symbols map with `PROT_READ` when the cache has the symbol,
whatever they were asked for; all other ways to a page hand the protection on.
-/

namespace XenAccess

open Prog

/-! ## Calls -/

/-- A call of an access function. -/
inductive AccessCall where
  | pa (physAddress prot : U32)
  | ma (machAddress prot : U32)
  | kernelVa (virtAddress prot : U32)
  | userVa (virtAddress pid prot : U32)
  | kernelSym (symbol : CStr) (prot : U32)

/-- The protection that is asked for. -/
def AccessCall.prot : AccessCall → U32
  | .pa _ prot | .ma _ prot | .kernelVa _ prot | .userVa _ _ prot | .kernelSym _ prot => prot

def AccessCall.exec (h : Host) (fuel : Nat) : AccessCall → XaM (Option Access)
  | .pa physAddress prot => do
    let s ← get
    return xaAccessPa h s.toXaParams physAddress prot
  | .ma machAddress prot => do
    let s ← get
    return xaAccessMa h s.toXaParams machAddress prot
  | .kernelVa virtAddress prot => xaAccessKernelVa h virtAddress prot
  | .userVa virtAddress pid prot => xaAccessUserVa h fuel virtAddress pid prot
  | .kernelSym symbol prot => xaAccessKernelSym h symbol prot

variable {h : Host} {p : XaParams} {fuel : Nat} {prot : U32}

/-! ## Mappings -/

/-- The page of an access was mapped with the given protection. -/
def MapsWith (h : Host) (p : XaParams) (prot : U32) (a : Access) : Prop :=
  a.prot = prot ∧ xaMapPage h p prot a.frame = some a.memory

theorem xaAccessMa_mapsWith {m : U32} {a : Access} (ha : xaAccessMa h p m prot = some a) :
    MapsWith h p prot a := by
  obtain ⟨memory, hmap, rfl⟩ := Option.map_eq_some_iff.mp ha
  exact ⟨rfl, hmap⟩

theorem xaAccessPa_mapsWith {paddr : U32} {a : Access} (ha : xaAccessPa h p paddr prot = some a) :
    MapsWith h p prot a := by
  obtain ⟨⟨mfn, memory⟩, hmap, rfl⟩ := Option.map_eq_some_iff.mp ha
  simp only [xaMmapPfn] at hmap
  split_ifs at hmap with hmfn
  obtain ⟨memory', hpage, hpair⟩ := Option.map_eq_some_iff.mp hmap
  obtain ⟨rfl, rfl⟩ := Prod.mk.inj hpair
  exact ⟨rfl, hpage⟩

/-! ## The translation parameters stay -/

/-- The translation parameters of a state. -/
def HasParams (p : XaParams) (s : XaState) : Prop := s.toXaParams = p

theorem hasParams_offCache : OffCache (HasParams p) := fun _ _ hs => hs

theorem xaCheckCacheVirt_params (v pid : U32) : Keeps (HasParams p) (xaCheckCacheVirt h v pid) :=
  xaCheckCacheVirt_keeps hasParams_offCache v pid

theorem xaCheckCacheSym_params (sym : CStr) (pid : U32) :
    Keeps (HasParams p) (xaCheckCacheSym h sym pid) :=
  xaCheckCacheSym_keeps hasParams_offCache sym pid

theorem xaUpdateCache_params (sym : Option CStr) (v pid m : U32) :
    Keeps (HasParams p) (xaUpdateCache h sym v pid m) :=
  xaUpdateCache_keeps hasParams_offCache sym v pid m

theorem xaCheckPidCache_params (pid : U32) : Keeps (HasParams p) (xaCheckPidCache h pid) := by
  intro s a s' hI hrun
  simp only [xaCheckPidCache] at hrun
  split at hrun
  · cases hrun
    exact hI
  · cases hrun
    exact hI

theorem xaUpdatePidCache_params (pid pgd : U32) :
    Keeps (HasParams p) (xaUpdatePidCache h pid pgd) := by
  intro s a s' hI hrun
  simp only [xaUpdatePidCache] at hrun
  split_ifs at hrun
  · cases hrun
    exact hI
  · split at hrun
    · cases hrun
      exact hI
    · cases hrun
      exact hI

/-! ## Accesses by virtual address -/

/-- The ways in which an access by virtual address returns: from the cache, without a
translation, or with one that is stored. -/
theorem accessVa_cases {pidToPgd : XaM U32} {v pid : U32} {s s' : XaState} {r : Option Access}
    (hpgd : Keeps (HasParams p) pidToPgd) (hs : HasParams p s)
    (hrun : accessVa h pidToPgd v pid prot s = .ok (r, s')) :
    HasParams p s' ∧ (r = none ∨ ∃ m, r = xaAccessMa h p m prot) := by
  obtain ⟨hit, t, hcheck, hrest⟩ := bind_ok_iff.mp hrun
  have ht : HasParams p t := xaCheckCacheVirt_params v pid s hit t hs hcheck
  have hfinish {m : U32} {u : XaState} (hu : HasParams p u)
      (hfin : (if m = 0 then pure none else do
        xaUpdateCache h none v pid m
        let s ← get
        pure (xaAccessMa h s.toXaParams m prot) : XaM (Option Access)) u = .ok (r, s')) :
      HasParams p s' ∧ (r = none ∨ ∃ m, r = xaAccessMa h p m prot) := by
    split_ifs at hfin
    · cases hfin
      exact ⟨hu, Or.inl rfl⟩
    · obtain ⟨_, w, hupd, hget⟩ := bind_ok_iff.mp hfin
      have hw : HasParams p w := xaUpdateCache_params none v pid m u _ w hu hupd
      cases hget
      exact ⟨hw, Or.inr ⟨m, by rw [hw]⟩⟩
  cases hit with
  | some m =>
    cases hrest
    exact ⟨ht, Or.inr ⟨m, by rw [ht]⟩⟩
  | none =>
    by_cases hpid : pid = 0
    · simp only [if_pos hpid, pure_bind, get_bind] at hrest
      exact hfinish ht hrest
    · simp only [if_neg hpid] at hrest
      obtain ⟨pgd, u, hlook, hrest⟩ := bind_ok_iff.mp hrest
      simp only [pure_bind, get_bind] at hrest
      exact hfinish (hpgd t pgd u ht hlook) hrest

theorem xaAccessKernelVa_params (v prot : U32) :
    Keeps (HasParams p) (xaAccessKernelVa h v prot) :=
  xaAccessKernelVa_keeps hasParams_offCache v prot

theorem taskLoop_params (pidOffset tasksOffset pid listHead : U32) (n : Nat) (next : U32) :
    Keeps (HasParams p) (taskLoop h pidOffset tasksOffset pid listHead n next) :=
  taskLoop_keeps hasParams_offCache pidOffset tasksOffset pid listHead n next

theorem linuxPidToPgd_params (fuel : Nat) (pid : U32) :
    Keeps (HasParams p) (linuxPidToPgd h fuel pid) := by
  refine keeps_bind (keeps_bind keeps_get fun s => taskLoop_params _ _ _ _ _ _) fun r => ?_
  cases r with
  | none => exact keeps_pure _
  | some a =>
    refine keeps_bind keeps_get fun s => keeps_bind (xaAccessKernelVa_params _ _) fun b => ?_
    exact keeps_bind keeps_get fun _ => keeps_bind (xaUpdatePidCache_params _ _) fun _ =>
      keeps_pure _

theorem windowsPidToPgd_params (fuel : Nat) (pid : U32) :
    Keeps (HasParams p) (windowsPidToPgd h fuel pid) := by
  refine keeps_bind (keeps_bind keeps_get fun s => taskLoop_params _ _ _ _ _ _) fun r => ?_
  cases r with
  | none => exact keeps_pure _
  | some a =>
    exact keeps_bind keeps_get fun s => keeps_bind (xaUpdatePidCache_params _ _) fun _ =>
      keeps_pure _

theorem xaPidToPgd_params (fuel : Nat) (pid : U32) :
    Keeps (HasParams p) (xaPidToPgd h fuel pid) := by
  refine keeps_bind (xaCheckPidCache_params pid) fun r => ?_
  cases r with
  | some pgd => exact keeps_pure _
  | none =>
    refine keeps_bind keeps_get fun s => ?_
    cases s.osType with
    | linux => exact linuxPidToPgd_params fuel pid
    | windows => exact windowsPidToPgd_params fuel pid
    | unknown => exact keeps_pure _

theorem xaAccessUserVa_mapsWith {v pid : U32} {s s' : XaState} {r : Option Access}
    (hs : HasParams p s) (hrun : xaAccessUserVa h fuel v pid prot s = .ok (r, s')) :
    ∀ a, r = some a → MapsWith h p prot a := by
  rintro a rfl
  rcases (accessVa_cases (xaPidToPgd_params fuel pid) hs hrun).2 with hnone | ⟨m, hm⟩
  · cases hnone
  · exact xaAccessMa_mapsWith hm.symm

theorem xaAccessKernelVa_mapsWith {v : U32} {s s' : XaState} {r : Option Access}
    (hs : HasParams p s) (hrun : xaAccessKernelVa h v prot s = .ok (r, s')) :
    ∀ a, r = some a → MapsWith h p prot a := by
  rw [xaAccessKernelVa_eq h 0] at hrun
  exact xaAccessUserVa_mapsWith hs hrun

/-! ## Accesses by symbol -/

/-- The machine address that a lookup of the symbol takes from the cache. -/
def cachedSymbol (s : XaState) (sym : CStr) : Option U32 :=
  (s.cache.entries.find? (CacheEntry.hitsSym sym 0)).map CacheEntry.machAddress

theorem xaCheckCacheSym_cached (h : Host) (s : XaState) (sym : CStr) :
    ∃ t, xaCheckCacheSym h sym 0 s = .ok (cachedSymbol s sym, t) ∧
      t.toXaParams = s.toXaParams ∧ t.osType = s.osType := by
  rw [xaCheckCacheSym, cachedSymbol]
  cases hupd : s.cache.update (CacheEntry.hitsSym sym 0) ({ · with lastUsed := s.now h }) with
  | none =>
    have hnone := Lru.update_eq_none.mp hupd
    rw [List.find?_eq_none.mpr (by simpa using hnone)]
    exact ⟨s, rfl, rfl, rfl⟩
  | some r =>
    obtain ⟨e, c⟩ := r
    obtain ⟨a, hfind, rfl⟩ := Lru.update_find hupd
    rw [hfind]
    exact ⟨s.setCache c, rfl, rfl, rfl⟩

/-- An access by symbol that the cache answers asks for `PROT_READ`. -/
theorem xaAccessKernelSym_hit (h : Host) (prot : U32) {s : XaState} (hos : s.osType ≠ .unknown)
    {sym : CStr} {m : U32} (hhit : cachedSymbol s sym = some m) :
    ∃ t, xaAccessKernelSym h sym prot s = .ok (xaAccessMa h s.toXaParams m protRead, t) := by
  obtain ⟨t, hcheck, hp, -⟩ := xaCheckCacheSym_cached h s sym
  rw [hhit] at hcheck
  refine ⟨t, ?_⟩
  rw [← hp]
  cases hty : s.osType with
  | unknown => exact absurd hty hos
  | linux =>
    rw [xaAccessKernelSym_linux h hty]
    exact bind_of_ok hcheck
  | windows =>
    rw [xaAccessKernelSym_windows h hty]
    exact bind_of_ok hcheck

theorem linuxAccessKernelSymbol_miss {s s' : XaState} (hs : HasParams p s) {sym : CStr}
    (hmiss : cachedSymbol s sym = none) {r : Option Access}
    (hrun : linuxAccessKernelSymbol h sym prot s = .ok (r, s')) :
    ∀ a, r = some a → MapsWith h p prot a := by
  obtain ⟨t, hcheck, hp, -⟩ := xaCheckCacheSym_cached h s sym
  rw [hmiss] at hcheck
  rw [linuxAccessKernelSymbol, bind_of_ok hcheck] at hrun
  obtain ⟨v, u, haddr, hrest⟩ := bind_ok_iff.mp hrun
  have hu : HasParams p u := by
    cases haddr
    exact hp.trans hs
  cases v with
  | none =>
    cases hrest
    intro a ha
    cases ha
  | some v =>
    obtain ⟨_, w, hupd, hacc⟩ := bind_ok_iff.mp hrest
    exact xaAccessKernelVa_mapsWith (xaUpdateCache_params _ _ _ _ u _ w hu hupd) hacc

theorem windowsAccessKernelSymbol_miss {s s' : XaState} (hs : HasParams p s) {sym : CStr}
    (hmiss : cachedSymbol s sym = none) {r : Option Access}
    (hrun : windowsAccessKernelSymbol h sym prot s = .ok (r, s')) :
    ∀ a, r = some a → MapsWith h p prot a := by
  obtain ⟨t, hcheck, hp, -⟩ := xaCheckCacheSym_cached h s sym
  rw [hmiss] at hcheck
  rw [windowsAccessKernelSymbol, bind_of_ok hcheck] at hrun
  have ht : HasParams p t := hp.trans hs
  simp only [get_bind] at hrun
  cases hrva : windowsSymbolToAddress h t.toXaParams sym with
  | none =>
    rw [hrva] at hrun
    cases hrun
    intro a ha
    cases ha
  | some rva =>
    rw [hrva] at hrun
    obtain ⟨_, w, hupd, hacc⟩ := bind_ok_iff.mp hrun
    have hw : HasParams p w := xaUpdateCache_params _ _ _ _ t _ w ht hupd
    cases hacc
    intro a ha
    rw [hw] at ha
    exact xaAccessPa_mapsWith ha

/-! ## Runs -/

/-- Every page that a call of the run returns was mapped with the protection the call asked
for. -/
def ProtectionsKept (h : Host) (fuel : Nat) : List AccessCall → XaState → Prop
  | [], _ => True
  | c :: cs, s => ∀ r t, c.exec h fuel s = .ok (r, t) →
    (∀ a, r = some a → MapsWith h s.toXaParams c.prot a) ∧ ProtectionsKept h fuel cs t

/-- The call is not one for a cached symbol with another protection than `PROT_READ`. A
symbol whose frame cannot be mapped does no harm, for no page is returned. -/
def Readable (h : Host) (s : XaState) : AccessCall → Prop
  | .kernelSym sym prot => prot = protRead ∨ s.osType = .unknown ∨
    ∀ m, cachedSymbol s sym = some m → xaAccessMa h s.toXaParams m protRead = none
  | _ => True

/-- Every call of the run is of that kind in the state it is made in. -/
def ReadableSteps (h : Host) (fuel : Nat) : List AccessCall → XaState → Prop
  | [], _ => True
  | c :: cs, s => Readable h s c ∧ ∀ r t, c.exec h fuel s = .ok (r, t) → ReadableSteps h fuel cs t

theorem accessCall_kept_of_readable {c : AccessCall} {s t : XaState} {r : Option Access}
    (hrun : c.exec h fuel s = .ok (r, t)) (hc : Readable h s c) :
    ∀ a, r = some a → MapsWith h s.toXaParams c.prot a := by
  cases c with
  | pa physAddress prot =>
    cases hrun
    exact fun a ha => xaAccessPa_mapsWith ha
  | ma machAddress prot =>
    cases hrun
    exact fun a ha => xaAccessMa_mapsWith ha
  | kernelVa v prot => exact xaAccessKernelVa_mapsWith rfl hrun
  | userVa v pid prot => exact xaAccessUserVa_mapsWith rfl hrun
  | kernelSym sym prot =>
    show ∀ a, r = some a → MapsWith h s.toXaParams prot a
    replace hrun : xaAccessKernelSym h sym prot s = .ok (r, t) := hrun
    by_cases hos : s.osType = .unknown
    · have hnone : xaAccessKernelSym h sym prot s = .ok (none, s) := by
        rw [xaAccessKernelSym, get_bind, hos]
        rfl
      cases hrun.symm.trans hnone
      intro a ha
      cases ha
    · cases hhit : cachedSymbol s sym with
      | some m =>
        obtain ⟨u, hsym⟩ := xaAccessKernelSym_hit h prot hos hhit
        cases hrun.symm.trans hsym
        intro a ha
        rcases hc with rfl | hunk | hnone
        · exact xaAccessMa_mapsWith ha
        · exact absurd hunk hos
        · rw [hnone m hhit] at ha
          cases ha
      | none =>
        cases hty : s.osType with
        | unknown => exact absurd hty hos
        | linux =>
          rw [xaAccessKernelSym_linux h hty] at hrun
          exact linuxAccessKernelSymbol_miss rfl hhit hrun
        | windows =>
          rw [xaAccessKernelSym_windows h hty] at hrun
          exact windowsAccessKernelSymbol_miss rfl hhit hrun

theorem readable_of_accessCall_kept {c : AccessCall} {s : XaState}
    (hkept : ∀ r t, c.exec h fuel s = .ok (r, t) →
      ∀ a, r = some a → MapsWith h s.toXaParams c.prot a) : Readable h s c := by
  cases c with
  | kernelSym sym prot =>
    by_cases hos : s.osType = .unknown
    · exact Or.inr (Or.inl hos)
    · by_cases hprot : prot = protRead
      · exact Or.inl hprot
      · refine Or.inr (Or.inr fun m hhit => ?_)
        obtain ⟨t, hsym⟩ := xaAccessKernelSym_hit h prot hos hhit
        cases ha : xaAccessMa h s.toXaParams m protRead with
        | none => rfl
        | some a =>
          have hreq := (hkept _ t hsym a ha).1
          rw [(xaAccessMa_mapsWith ha).1] at hreq
          exact absurd hreq.symm hprot
  | _ => trivial

/-- **When every page is mapped with the protection that was asked for**, in every run from
every state. -/
theorem protectionsKept_iff (h : Host) (fuel : Nat) (calls : List AccessCall) (s : XaState) :
    ProtectionsKept h fuel calls s ↔ ReadableSteps h fuel calls s := by
  induction calls generalizing s with
  | nil => exact Iff.rfl
  | cons c cs ih =>
    constructor
    · intro hkept
      exact ⟨readable_of_accessCall_kept fun r t hrun => (hkept r t hrun).1,
        fun r t hrun => (ih t).mp (hkept r t hrun).2⟩
    · rintro ⟨hc, hcs⟩ r t hrun
      exact ⟨accessCall_kept_of_readable hrun hc, (ih t).mpr (hcs r t hrun)⟩

/-- A Linux guest with the symbol `a` in frame 5. -/
def symbolHost : Host := linuxHost [(0x1C00, 0x83)] (some (cstr "c0005000 D a\n"))

def symbolState : XaState := imageState .linux 0xC0000000 0xC0001000 0 ⟨0, 0, 0, 0, 0, 0, 0⟩

/-- The same guest while it runs. Every frame can be mapped for reading and writing. -/
def runningHost : Host := { symbolHost with xcVcpuGetcontext := some ⟨0x80000001, 0x1000, 0x10⟩ }

def runningState : XaState := { symbolState with mode := .xen }

/-- The second of two accesses for reading and writing maps the page for reading. -/
theorem runningHost_not_protectionsKept :
    ¬ ProtectionsKept runningHost 0 [.kernelSym (cstr "a") 3, .kernelSym (cstr "a") 3]
      runningState := by
  intro hkept
  have hruns : Returns (xaAccessKernelSym runningHost (cstr "a") 3) runningState fun r t =>
      r.map Access.prot = some 3 ∧ Returns (xaAccessKernelSym runningHost (cstr "a") 3) t
        fun r' _ => r'.map Access.prot = some 1 := by decide
  obtain ⟨r, t, hfirst, -, r', u, hsecond, hprot⟩ := hruns
  obtain ⟨a, rfl, ha⟩ := Option.map_eq_some_iff.mp hprot
  have hreq := ((hkept r t hfirst).2 (some a) u hsecond).1 a rfl
  cases ha.symm.trans hreq.1

end XenAccess
