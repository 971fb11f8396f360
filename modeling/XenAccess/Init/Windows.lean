import XenAccess.Init.First

/-!
# The kernel page directory of a Windows guest

What `windows_init` computes from empty caches, as functions of the guest and the
parameters: the pointer to the System process that the kernel exports, the two methods for
the page directory and their combination. `windowsFindKpgd_eq` says that the code computes
them and what it leaves in the cache.
-/

namespace XenAccess

open Prog

variable (h : Host) (p : XaParams)

/-- The symbol that points to the System process. -/
def psInitialSystemProcess : CStr := cstr "PsInitialSystemProcess"

/-- The value of the exported pointer to the System process. -/
def systemProcessPointer : Option U32 :=
  (windowsSymbolToAddress h p psInitialSystemProcess).bind fun rva =>
    xaReadLongPhys h p (p.os.ntoskrnl + rva)

/-- Result of a method: its return value, what it leaves in `sysproc`, and `kpgd`. -/
structure KpgdResult where
  ret : Ret
  sysproc : U32
  kpgd : U32

/-- `storeKpgd` as a function. -/
def refStoreKpgd (errorMode : ErrorMode) (value : Option U32) (sysproc : U32) : KpgdResult :=
  let kpgd := value.getD p.kpgd + p.pageOffset
  { ret := if kpgd = p.pageOffset then xaReportError errorMode .minor else .success
    sysproc, kpgd }

/-- `get_kpgd_method1` without caches. -/
def refKpgdMethod1 (errorMode : ErrorMode) : KpgdResult :=
  let value := systemProcessPointer h p
  if value = none ∧ xaReportError errorMode .minor = .failure then
    { ret := .failure, sysproc := 0, kpgd := p.kpgd }
  else
    let sysproc := xaTranslateKv2p h p (value.getD 0)
    let kpgd := xaReadLongPhys h p (sysproc + p.os.winPdbase)
    if kpgd = none ∧ xaReportError errorMode .minor = .failure then
      { ret := .failure, sysproc, kpgd := p.kpgd }
    else refStoreKpgd p errorMode kpgd sysproc

/-- `get_kpgd_method2` as a function. -/
def refKpgdMethod2 (errorMode : ErrorMode) (fuel : Nat) : Except Fault KpgdResult :=
  match windowsFindEprocess h p fuel (cstr "System") with
  | .error e => .error e
  | .ok sysproc =>
    if sysproc = 0 ∧ xaReportError errorMode .minor = .failure then
      .ok { ret := .failure, sysproc, kpgd := p.kpgd }
    else
      let kpgd := xaReadLongPhys h p (sysproc + 0x18)
      if kpgd = none ∧ xaReportError errorMode .minor = .failure then
        .ok { ret := .failure, sysproc, kpgd := p.kpgd }
      else .ok (refStoreKpgd p errorMode kpgd sysproc)

/-- The search for the page directory: the second method when the first one fails. -/
def refFindKpgd (errorMode : ErrorMode) (fuel : Nat) : Except Fault KpgdResult :=
  let first := refKpgdMethod1 h p errorMode
  match first.ret with
  | .success => .ok first
  | .failure =>
    match refKpgdMethod2 h { p with kpgd := first.kpgd } errorMode fuel with
    | .error e => .error e
    | .ok second =>
      match second.ret with
      | .success => .ok second
      | .failure => .ok { second with ret := xaReportError errorMode .minor }

/-! ## Searches of physical memory -/

variable {h p} {s : XaState}

/-- Two sets of parameters under which physical memory is read in the same way. -/
structure SamePhys (h : Host) (p p' : XaParams) : Prop where
  access : xaAccessPa h p = xaAccessPa h p'
  os : p.os = p'.os
  pageSize : p.pageSize = p'.pageSize
  size : p.size = p'.size

/-- Physical memory is read without page tables. -/
theorem samePhys_kpgd (h : Host) (p : XaParams) (kpgd initTask : U32) :
    SamePhys h { p with kpgd, initTask } p := ⟨rfl, rfl, rfl, rfl⟩

theorem SamePhys.readLong {p' : XaParams} (hp : SamePhys h p p') (paddr : U32) :
    xaReadLongPhys h p paddr = xaReadLongPhys h p' paddr := by
  rw [xaReadLongPhys, xaReadLongPhys, hp.access]

theorem SamePhys.rvaToString {p' : XaParams} (hp : SamePhys h p p') (rva : U32) :
    rvaToString h p rva = rvaToString h p' rva := by
  rw [XenAccess.rvaToString, XenAccess.rvaToString, hp.access, hp.os, hp.pageSize]

theorem SamePhys.aonLoop {p' : XaParams} (hp : SamePhys h p p') (symbol : CStr)
    (et : ExportTable) (n : Nat) (i : U32) :
    aonLoop h p symbol et n i = aonLoop h p' symbol et n i := by
  induction n generalizing i with
  | zero => rfl
  | succ n ih => simp only [XenAccess.aonLoop, ih, hp.readLong, hp.rvaToString, hp.os]

theorem SamePhys.symbolToAddress {p' : XaParams} (hp : SamePhys h p p') (symbol : CStr) :
    windowsSymbolToAddress h p symbol = windowsSymbolToAddress h p' symbol := by
  simp only [windowsSymbolToAddress, windowsExportToRva, getAonIndex, hp.aonLoop, getExportTable,
    getAofIndex, getExportRva, hp.readLong, hp.access, hp.os]

theorem SamePhys.eprocessLoop {p' : XaParams} (hp : SamePhys h p p') (name : CStr) (n : Nat)
    (offset value : U32) :
    eprocessLoop h p name n offset value = eprocessLoop h p' name n offset value := by
  induction n generalizing offset value with
  | zero => rfl
  | succ n ih =>
    have hname : windowsGetEprocessName h p offset = windowsGetEprocessName h p' offset := by
      rw [windowsGetEprocessName, windowsGetEprocessName, hp.access]
    rw [XenAccess.eprocessLoop, XenAccess.eprocessLoop, hp.size, hp.readLong, hname]
    simp only [ih]

theorem SamePhys.findEprocess {p' : XaParams} (hp : SamePhys h p p') (fuel : Nat) (name : CStr) :
    windowsFindEprocess h p fuel name = windowsFindEprocess h p' fuel name :=
  hp.eprocessLoop name fuel 0 0

theorem SamePhys.pointer {p' : XaParams} (hp : SamePhys h p p') :
    systemProcessPointer h p = systemProcessPointer h p' := by
  simp only [systemProcessPointer, hp.symbolToAddress, hp.readLong, hp.os]

/-! ## The code computes these functions -/

theorem storeKpgd_eq (value : Option U32) (sysproc : U32) :
    storeKpgd value sysproc s =
      .ok (((refStoreKpgd s.toXaParams s.errorMode value sysproc).ret, sysproc),
        { s with kpgd := (refStoreKpgd s.toXaParams s.errorMode value sysproc).kpgd }) := by
  simp only [storeKpgd, get_bind, set_bind, refStoreKpgd]
  split
  · rfl
  · rfl

/-- What the access to the exported pointer leaves in the cache. -/
def PointerCached (h : Host) (p : XaParams) (entries : List CacheEntry) : Prop :=
  match windowsSymbolToAddress h p psInitialSystemProcess with
  | none => entries = []
  | some rva => HoldsSymbol p psInitialSystemProcess (p.os.ntoskrnl + rva + p.pageOffset)
      (xaTranslateKv2p h p (p.os.ntoskrnl + rva + p.pageOffset)) entries

theorem xaReadLongSym_pointer (hos : s.osType = .windows) (hs : s.cache.entries = []) :
    ∃ c n, xaReadLongSym h psInitialSystemProcess s =
        .ok (systemProcessPointer h s.toXaParams, { s with cache := c, ticks := n }) ∧
      PointerCached h s.toXaParams c.entries := by
  have hlen : psInitialSystemProcess.length < maxSymLen := by decide
  have hsym := xaAccessKernelSym_windows h hos psInitialSystemProcess protRead
  cases hrva : windowsSymbolToAddress h s.toXaParams psInitialSystemProcess with
  | none =>
    refine ⟨s.cache, s.ticks, ?_, ?_⟩
    · have hacc := hsym.trans (windowsAccessKernelSymbol_missing (Or.inl hs) hrva protRead)
      rw [xaReadLongSym, bind_of_ok hacc, systemProcessPointer, hrva]
      rfl
    · rw [PointerCached, hrva]
      exact hs
  | some rva =>
    obtain ⟨c, hacc, hent⟩ := windowsAccessKernelSymbol_first hlen (Or.inl hs) hrva protRead
    refine ⟨c, s.ticks + 1, ?_, ?_⟩
    · rw [xaReadLongSym, bind_of_ok (hsym.trans hacc), systemProcessPointer, hrva]
      rfl
    · rw [PointerCached, hrva]
      exact hent

theorem getKpgdMethod1_eq (hos : s.osType = .windows) (hs : s.cache.entries = []) :
    ∃ c n, getKpgdMethod1 h 0 s =
        .ok (((refKpgdMethod1 h s.toXaParams s.errorMode).ret,
            (refKpgdMethod1 h s.toXaParams s.errorMode).sysproc),
          { s with
            cache := c
            ticks := n
            kpgd := (refKpgdMethod1 h s.toXaParams s.errorMode).kpgd }) ∧
      PointerCached h s.toXaParams c.entries := by
  obtain ⟨c, n, hread, hent⟩ := xaReadLongSym_pointer (h := h) hos hs
  refine ⟨c, n, ?_, hent⟩
  have hread' : xaReadLongSym h (cstr "PsInitialSystemProcess") s = _ := hread
  rw [getKpgdMethod1, bind_of_ok hread', get_bind, refKpgdMethod1]
  simp only
  split_ifs
  · rfl
  · rfl
  · rw [storeKpgd_eq]
    rfl

theorem getKpgdMethod2_eq (h : Host) (fuel : Nat) (s : XaState) :
    getKpgdMethod2 h fuel s =
      match refKpgdMethod2 h s.toXaParams s.errorMode fuel with
      | .error e => .error e
      | .ok r => .ok ((r.ret, r.sysproc), { s with kpgd := r.kpgd }) := by
  rw [getKpgdMethod2, get_bind, refKpgdMethod2]
  cases windowsFindEprocess h s.toXaParams fuel (cstr "System") with
  | error e => rfl
  | ok sysproc =>
    simp only
    split_ifs
    · rfl
    · rfl
    · rw [storeKpgd_eq]
      rfl

/-- **The search for the page directory from empty caches.** -/
theorem windowsFindKpgd_eq (fuel : Nat) (hos : s.osType = .windows) (hs : s.cache.entries = []) :
    ∃ c n, windowsFindKpgd h fuel s =
        (match refFindKpgd h s.toXaParams s.errorMode fuel with
        | .error e => .error e
        | .ok r => .ok ((r.ret, r.sysproc),
            { s with cache := c, ticks := n, kpgd := r.kpgd })) ∧
      PointerCached h s.toXaParams c.entries := by
  obtain ⟨c, n, hfirst, hent⟩ := getKpgdMethod1_eq (h := h) hos hs
  refine ⟨c, n, ?_, hent⟩
  rw [windowsFindKpgd, bind_of_ok hfirst, refFindKpgd]
  generalize refKpgdMethod1 h s.toXaParams s.errorMode = first
  obtain ⟨ret, sysproc, kpgd⟩ := first
  cases ret with
  | success => rfl
  | failure =>
    have hsecond := getKpgdMethod2_eq h fuel { s with cache := c, ticks := n, kpgd := kpgd }
    show (getKpgdMethod2 h fuel >>= _) { s with cache := c, ticks := n, kpgd := kpgd } = _
    simp only
    cases hr : refKpgdMethod2 h { s.toXaParams with kpgd := kpgd } s.errorMode fuel with
    | error e =>
      rw [hr] at hsecond
      exact bind_of_error hsecond
    | ok r =>
      rw [hr] at hsecond
      rw [bind_of_ok hsecond]
      obtain ⟨ret, sysproc, kpgd⟩ := r
      cases ret with
      | success => rfl
      | failure => rfl

/-! ## `windows_init` -/

/-- A configured base is taken as it is. -/
theorem windowsFindBase_configured (hne : s.os.ntoskrnl ≠ 0) :
    windowsFindBase h s = .ok (.success, s) := by
  rw [windowsFindBase, get_bind, if_neg hne]
  rfl

theorem windowsFindBase_state {r : Ret} {t : XaState} (hrun : windowsFindBase h s = .ok (r, t)) :
    ∃ ntoskrnl, t = { s with os := { s.os with w0 := ntoskrnl } } := by
  rw [windowsFindBase, get_bind] at hrun
  by_cases hzero : s.os.ntoskrnl = 0
  · simp only [if_pos hzero, set_bind] at hrun
    by_cases hbase : getNtoskrnlBase h s.toXaParams = 0
    · rw [if_pos hbase] at hrun
      cases hrun
      exact ⟨_, rfl⟩
    · rw [if_neg hbase] at hrun
      cases hrun
      exact ⟨_, rfl⟩
  · simp only [if_neg hzero] at hrun
    cases hrun
    exact ⟨s.os.w0, rfl⟩

/-- An instance for a Windows guest as the steps for the operating system find it. -/
structure WindowsReady (s : XaState) : Prop where
  os : s.osType = .windows
  pageSize : s.pageSize = 4096
  empty : CachesEmpty s

theorem WindowsReady.findBase (hs : WindowsReady s) {r : Ret} {t : XaState}
    (hrun : windowsFindBase h s = .ok (r, t)) : WindowsReady t := by
  obtain ⟨ntoskrnl, rfl⟩ := windowsFindBase_state hrun
  exact ⟨hs.os, hs.pageSize, hs.empty.cache, hs.empty.pidCache⟩

/-- `init_task` at the end of `windows_init`: the read that is not checked leaves the old
value when it fails. -/
def refInitTask (h : Host) (p : XaParams) (found : KpgdResult) : U32 :=
  match found.ret with
  | .success => (xaReadLongPhys h p (found.sysproc + p.os.winTasks)).getD p.initTask
  | .failure => p.initTask

theorem windowsReadInitTask_eq (sysproc : U32) :
    windowsReadInitTask h sysproc s = .ok (.success, { s with
      initTask := (xaReadLongPhys h s.toXaParams (sysproc + s.os.winTasks)).getD s.initTask }) := by
  rw [windowsReadInitTask, get_bind]
  cases xaReadLongPhys h s.toXaParams (sysproc + s.os.winTasks) with
  | some initTask => rfl
  | none => rfl

/-- **`windows_init` from empty caches**, once it has the base of the kernel. -/
theorem windowsInit_eq (fuel : Nat) {t : XaState} (hbase : windowsFindBase h s = .ok (.success, t))
    (hos : t.osType = .windows) (ht : t.cache.entries = []) :
    ∃ c n, windowsInit h fuel s =
        (match refFindKpgd h t.toXaParams t.errorMode fuel with
        | .error e => .error e
        | .ok r => .ok (r.ret, { t with
            cache := c
            ticks := n
            kpgd := r.kpgd
            initTask := refInitTask h t.toXaParams r })) ∧
      PointerCached h t.toXaParams c.entries := by
  obtain ⟨c, n, hfind, hent⟩ := windowsFindKpgd_eq (h := h) fuel hos ht
  refine ⟨c, n, ?_, hent⟩
  rw [windowsInit, orExit_success hbase]
  cases hr : refFindKpgd h t.toXaParams t.errorMode fuel with
  | error e =>
    rw [hr] at hfind
    exact bind_of_error hfind
  | ok r =>
    rw [hr] at hfind
    rw [bind_of_ok hfind]
    obtain ⟨ret, sysproc, kpgd⟩ := r
    cases ret with
    | failure => rfl
    | success => exact windowsReadInitTask_eq sysproc

/-! ## What the two methods find -/

/-- The page directory of a process, unless it cannot be read or is zero. -/
def directoryAt (h : Host) (p : XaParams) (paddr : U32) : Option U32 :=
  (xaReadLongPhys h p paddr).filter (· ≠ 0)

/-- The System process and its page directory by the exported pointer. -/
def pointerProcess (h : Host) (p : XaParams) : Option (U32 × U32) :=
  (systemProcessPointer h p).bind fun ptr =>
    (directoryAt h p (xaTranslateKv2p h p ptr + p.os.winPdbase)).map (xaTranslateKv2p h p ptr, ·)

/-- The System process and its page directory by the search through memory. -/
def scannedProcess (h : Host) (p : XaParams) (fuel : Nat) : Except Fault (Option (U32 × U32)) :=
  match windowsFindEprocess h p fuel (cstr "System") with
  | .error e => .error e
  | .ok sysproc =>
    .ok (if sysproc = 0 then none else (directoryAt h p (sysproc + 0x18)).map (sysproc, ·))

/-- The System process and its page directory: by the search when the pointer does not lead
to them. -/
def systemProcess (h : Host) (p : XaParams) (fuel : Nat) : Except Fault (Option (U32 × U32)) :=
  match pointerProcess h p with
  | some found => .ok (some found)
  | none => scannedProcess h p fuel

theorem SamePhys.scannedProcess {p' : XaParams} (hp : SamePhys h p p') (fuel : Nat) :
    scannedProcess h p fuel = scannedProcess h p' fuel := by
  simp only [XenAccess.scannedProcess, hp.findEprocess, directoryAt, hp.readLong]

theorem refStoreKpgd_hard (value sysproc : U32) :
    refStoreKpgd p .failhard (some value) sysproc =
      { ret := if value = 0 then .failure else .success, sysproc, kpgd := value + p.pageOffset } := by
  have hzero : value + p.pageOffset = p.pageOffset ↔ value = 0 := by
    constructor
    · intro hsum
      have := congrArg (· - p.pageOffset) hsum
      simpa using this
    · rintro rfl
      exact BitVec.zero_add _
  simp only [refStoreKpgd, Option.getD_some, hzero]
  rfl

theorem refKpgdMethod1_pointer {sysproc value : U32}
    (hfound : pointerProcess h p = some (sysproc, value)) :
    refKpgdMethod1 h p .failhard =
      { ret := .success, sysproc, kpgd := value + p.pageOffset } := by
  obtain ⟨ptr, hptr, hdir⟩ := Option.bind_eq_some_iff.mp hfound
  obtain ⟨value', hread, hpair⟩ := Option.map_eq_some_iff.mp hdir
  obtain ⟨rfl, rfl⟩ := Prod.mk.inj hpair
  obtain ⟨hread, hne⟩ := Option.filter_eq_some_iff.mp hread
  have hne : value' ≠ 0 := of_decide_eq_true hne
  simp only [refKpgdMethod1, hptr, Option.getD_some, hread, refStoreKpgd_hard, if_neg hne]
  rfl

theorem refKpgdMethod1_no_pointer (hnone : pointerProcess h p = none) :
    (refKpgdMethod1 h p .failhard).ret = .failure := by
  simp only [refKpgdMethod1]
  cases hptr : systemProcessPointer h p with
  | none => rfl
  | some ptr =>
    rw [pointerProcess, hptr, Option.bind_some, Option.map_eq_none_iff, directoryAt] at hnone
    simp only [Option.getD_some]
    cases hread : xaReadLongPhys h p (xaTranslateKv2p h p ptr + p.os.winPdbase) with
    | none => rfl
    | some value =>
      have hzero : value = 0 := by
        rw [hread] at hnone
        by_contra hne
        rw [Option.filter_some_pos (by simpa using hne)] at hnone
        cases hnone
      rw [refStoreKpgd_hard, if_pos hzero]
      rfl

/-- What a search in strict mode returns when it finds, or does not find, the process. -/
def StrictResult (p : XaParams) (result : Except Fault KpgdResult) :
    Except Fault (Option (U32 × U32)) → Prop
  | .error e => result = .error e
  | .ok none => ∃ r, result = .ok r ∧ r.ret = .failure
  | .ok (some (sysproc, value)) =>
    result = .ok { ret := .success, sysproc, kpgd := value + p.pageOffset }

theorem refKpgdMethod2_hard (fuel : Nat) :
    StrictResult p (refKpgdMethod2 h p .failhard fuel) (scannedProcess h p fuel) := by
  simp only [refKpgdMethod2, scannedProcess]
  cases windowsFindEprocess h p fuel (cstr "System") with
  | error e => rfl
  | ok sysproc =>
    by_cases hsys : sysproc = 0
    · simp only [if_pos hsys]
      rw [if_pos ⟨hsys, rfl⟩]
      exact ⟨_, rfl, rfl⟩
    · simp only [if_neg hsys, directoryAt]
      rw [if_neg fun hboth => hsys hboth.1]
      cases xaReadLongPhys h p (sysproc + 0x18) with
      | none => exact ⟨_, rfl, rfl⟩
      | some value =>
        rw [if_neg fun hboth => Option.some_ne_none _ hboth.1, refStoreKpgd_hard]
        by_cases hzero : value = 0
        · subst hzero
          exact ⟨_, rfl, rfl⟩
        · rw [Option.filter_some_pos (by simpa using hzero), if_neg hzero]
          rfl

/-- **The search for the page directory in strict mode** finds the System process. -/
theorem refFindKpgd_hard (fuel : Nat) :
    StrictResult p (refFindKpgd h p .failhard fuel) (systemProcess h p fuel) := by
  rw [systemProcess, refFindKpgd]
  cases hfound : pointerProcess h p with
  | some found =>
    obtain ⟨sysproc, value⟩ := found
    simp only [refKpgdMethod1_pointer hfound]
    rfl
  | none =>
    simp only [refKpgdMethod1_no_pointer hfound]
    have hphys := samePhys_kpgd h p (refKpgdMethod1 h p .failhard).kpgd p.initTask
    have hsecond := refKpgdMethod2_hard (h := h)
      (p := { p with kpgd := (refKpgdMethod1 h p .failhard).kpgd }) fuel
    rw [hphys.scannedProcess] at hsecond
    cases hscan : scannedProcess h p fuel with
    | error e =>
      rw [hscan] at hsecond
      rw [show refKpgdMethod2 h _ .failhard fuel = .error e from hsecond]
      rfl
    | ok found =>
      rw [hscan] at hsecond
      cases found with
      | none =>
        obtain ⟨r, hr, hret⟩ := hsecond
        rw [hr]
        simp only [hret]
        exact ⟨_, rfl, rfl⟩
      | some found =>
        obtain ⟨sysproc, value⟩ := found
        rw [show refKpgdMethod2 h _ .failhard fuel = .ok _ from hsecond]
        rfl

/-- The address at which the first method ends up in lax mode, where a pointer that cannot be
read is taken to be zero. -/
def laxProcess (h : Host) (p : XaParams) : U32 :=
  xaTranslateKv2p h p ((systemProcessPointer h p).getD 0)

/-- The page directory that the first method takes in lax mode: the word it reads, or the old
value of `kpgd` when it cannot read. -/
def laxDirectory (h : Host) (p : XaParams) : U32 :=
  (xaReadLongPhys h p (laxProcess h p + p.os.winPdbase)).getD p.kpgd

/-- **The search for the page directory in lax mode** is the first method, which never
fails. -/
theorem refFindKpgd_soft (fuel : Nat) :
    refFindKpgd h p .failsoft fuel =
      .ok { ret := .success, sysproc := laxProcess h p
            kpgd := laxDirectory h p + p.pageOffset } := by
  have hfirst : refKpgdMethod1 h p .failsoft =
      { ret := .success, sysproc := laxProcess h p
        kpgd := laxDirectory h p + p.pageOffset } := by
    rw [refKpgdMethod1, if_neg (by rintro ⟨-, ⟨⟩⟩), if_neg (by rintro ⟨-, ⟨⟩⟩), refStoreKpgd]
    split_ifs
    · rfl
    · rfl
  rw [refFindKpgd, hfirst]

/-- Where the pointer leads to the process, both modes take it. -/
theorem laxDirectory_of_pointer {sysproc value : U32}
    (hfound : pointerProcess h p = some (sysproc, value)) : laxDirectory h p = value := by
  obtain ⟨ptr, hptr, hdir⟩ := Option.bind_eq_some_iff.mp hfound
  obtain ⟨value', hread, hpair⟩ := Option.map_eq_some_iff.mp hdir
  obtain ⟨-, rfl⟩ := Prod.mk.inj hpair
  obtain ⟨hread, -⟩ := Option.filter_eq_some_iff.mp hread
  rw [laxDirectory, laxProcess, hptr, Option.getD_some, hread, Option.getD_some]

/-- The System process and its page directory as the search takes them. In lax mode they are
what the first method ends up with, even where there is no process. -/
def takenProcess (h : Host) (p : XaParams) (fuel : Nat) :
    ErrorMode → Except Fault (Option (U32 × U32))
  | .failhard => systemProcess h p fuel
  | .failsoft => .ok (some (laxProcess h p, laxDirectory h p))

theorem refFindKpgd_of_taken {m : ErrorMode} {fuel : Nat} {sysproc value : U32}
    (htaken : takenProcess h p fuel m = .ok (some (sysproc, value))) :
    refFindKpgd h p m fuel = .ok { ret := .success, sysproc, kpgd := value + p.pageOffset } := by
  cases m with
  | failhard =>
    have hstrict := refFindKpgd_hard (h := h) (p := p) fuel
    rw [show systemProcess h p fuel = _ from htaken] at hstrict
    exact hstrict
  | failsoft =>
    obtain ⟨rfl, rfl⟩ := Prod.mk.inj (Option.some.inj (Except.ok.inj htaken))
    exact refFindKpgd_soft fuel

theorem taken_of_refFindKpgd {m : ErrorMode} {fuel : Nat} {found : KpgdResult}
    (hfound : refFindKpgd h p m fuel = .ok found) (hret : found.ret = .success) :
    takenProcess h p fuel m = .ok (some (found.sysproc, found.kpgd - p.pageOffset)) := by
  cases m with
  | failhard =>
    have hstrict := refFindKpgd_hard (h := h) (p := p) fuel
    show systemProcess h p fuel = _
    cases hsys : systemProcess h p fuel with
    | error e =>
      rw [hsys] at hstrict
      cases hfound.symm.trans hstrict
    | ok process =>
      rw [hsys] at hstrict
      cases process with
      | none =>
        obtain ⟨r, hr, hfail⟩ := hstrict
        cases hfound.symm.trans hr
        cases hret.symm.trans hfail
      | some process =>
        cases hfound.symm.trans hstrict
        rw [BitVec.add_sub_cancel]
  | failsoft =>
    cases hfound.symm.trans (refFindKpgd_soft fuel)
    show Except.ok (some (laxProcess h p, laxDirectory h p)) = _
    rw [BitVec.add_sub_cancel]

end XenAccess
