import XenAccess.Cache.Transparency

/-!
# The cache and kernel symbols

Entries for symbols share the address cache with entries for pages. They have the virtual
address `0`, and an update for an address of page `0` takes the first entry with that page
base, so it can overwrite the machine address of a symbol.

`Named` says that every entry for a symbol that a lookup can take holds the translation of
the symbol's address in the System.map. All steps keep it except one: a kernel address in
page `0`, other than `0`, that is mapped to a frame other than `0` (`HitsPageZero`), while
the first entry with virtual address `0` belongs to a symbol. `Clean` excludes this for the
kernel addresses that a call translates itself or on its walk of the task list.
-/

namespace XenAccess

open Prog

variable {h : Host} {p : XaParams} {fuel : Nat} {sm : Option CStr}

/-! ## System.map -/

/-- The name of the System.map does not change once it has been predicted. -/
theorem sysmapName_idem (h : Host) (p : XaParams) (sysmap : Option CStr) :
    sysmapName h p (sysmapName h p sysmap) = sysmapName h p sysmap := by
  have hpred : sysmapName h p (linuxPredictSysmapName h p.xenDomainId) =
      linuxPredictSysmapName h p.xenDomainId := by
    cases hname : linuxPredictSysmapName h p.xenDomainId with
    | none => exact hname
    | some name =>
      cases name with
      | nil => exact hname
      | cons c cs => rfl
  cases sysmap with
  | none => exact hpred
  | some name =>
    cases name with
    | nil => exact hpred
    | cons c cs => rfl

/-- The translation of a symbol's address in the System.map by the kernel page tables. -/
def SymbolAt (h : Host) (p : XaParams) (sm : Option CStr) (sym : CStr) (address : U32) : Prop :=
  ∃ v, sysmapAddress h sm sym = some v ∧ xaTranslateKv2p h p v = address

/-- The access is to the frame and offset of the symbol. -/
def Located (h : Host) (p : XaParams) (sm : Option CStr) (sym : CStr) (a : Access) : Prop :=
  ∃ address, SymbolAt h p sm sym address ∧ address ≠ 0 ∧
    a.frame = address >>> p.pageShift ∧ a.offset = (p.pageSize - 1) &&& address

theorem located_of_access {sym : CStr} {address prot : U32} {a : Access}
    (hat : SymbolAt h p sm sym address) (hne : address ≠ 0)
    (ha : xaAccessMa h p address prot = some a) : Located h p sm sym a := by
  obtain ⟨memory, -, rfl⟩ := Option.map_eq_some_iff.mp ha
  exact ⟨address, hat, hne, rfl, rfl⟩

/-! ## The invariant -/

/-- An entry for a symbol has virtual address `0`, and a lookup that takes it gives the
location of the symbol. -/
def EntryNamed (h : Host) (p : XaParams) (sm : Option CStr) (e : CacheEntry) : Prop :=
  e.symbolName ≠ [] → e.virtAddress = 0 ∧ e.symbolName.length ≤ maxSymLen ∧
    (e.pid = 0 → e.machAddress ≠ 0 → SymbolAt h p sm e.symbolName e.machAddress)

/-- The entries for symbols agree with the System.map. -/
structure Named (h : Host) (p : XaParams) (sm : Option CStr) (s : XaState) : Prop where
  params : s.toXaParams = p
  sysmap : sysmapName h p s.sysmap = sm
  entries : ∀ e ∈ s.cache.entries, EntryNamed h p sm e

/-- No entry belongs to a symbol. -/
def NoSymbols (s : XaState) : Prop := ∀ e ∈ s.cache.entries, e.symbolName = []

/-- The entry that an update for page `0` takes does not belong to a symbol. -/
def Shielded (s : XaState) : Prop :=
  ∀ e ∈ s.cache.entries.find? (fun e => e.virtAddress == 0), e.symbolName = []

theorem NoSymbols.shielded {s : XaState} (hs : NoSymbols s) : Shielded s :=
  fun e he => hs e (List.mem_of_find?_eq_some he)

/-- A kernel address in page `0` that a translation maps to a frame other than `0`. -/
def HitsPageZero (h : Host) (p : XaParams) (v : U32) : Prop :=
  v ≠ 0 ∧ pageBase p v = 0 ∧ pageBase p (xaTranslateKv2p h p v) ≠ 0

instance (s : XaState) : Decidable (NoSymbols s) :=
  inferInstanceAs (Decidable (∀ e ∈ s.cache.entries, _))

instance (s : XaState) : Decidable (Shielded s) :=
  Option.decidableForallMem (s.cache.entries.find? _)

instance (v : U32) : Decidable (HitsPageZero h p v) :=
  inferInstanceAs (Decidable (_ ∧ _ ∧ _))

theorem named_clear (s : XaState) :
    Named h s.toXaParams (sysmapName h s.toXaParams s.sysmap) s.clear where
  params := rfl
  sysmap := rfl
  entries := by simp [XaState.clear, Lru.empty]

theorem Named.setCache {s : XaState} (hs : Named h p sm s) {c : Lru CacheEntry xaCacheSize}
    (hc : ∀ e ∈ c.entries, EntryNamed h p sm e) : Named h p sm (s.setCache c) :=
  ⟨hs.params, hs.sysmap, hc⟩

/-! ## Lookups -/

theorem xaCheckCacheVirt_named {s s' : XaState} (hs : Named h p sm s) {v pid : U32}
    {r : Option U32} (hrun : xaCheckCacheVirt h v pid s = .ok (r, s')) : Named h p sm s' := by
  simp only [xaCheckCacheVirt] at hrun
  split at hrun
  · rename_i e c hupd
    cases hrun
    refine hs.setCache (Lru.forall_update hupd hs.entries ?_)
    intro x hx _
    exact hs.entries x hx
  · cases hrun
    exact hs

/-- A lookup that finds nothing leaves the state as it is. -/
theorem xaCheckCacheVirt_none {s s' : XaState} {v pid : U32}
    (hrun : xaCheckCacheVirt h v pid s = .ok (none, s')) : s' = s := by
  simp only [xaCheckCacheVirt] at hrun
  split at hrun
  · cases hrun
  · cases hrun
    rfl

theorem xaCheckCacheVirt_noSymbols {s s' : XaState} (hs : NoSymbols s) {v pid : U32}
    {r : Option U32} (hrun : xaCheckCacheVirt h v pid s = .ok (r, s')) : NoSymbols s' := by
  simp only [xaCheckCacheVirt] at hrun
  split at hrun
  · rename_i e c hupd
    cases hrun
    refine Lru.forall_update (P := fun e : CacheEntry => e.symbolName = []) hupd hs ?_
    intro x hx _
    exact hs x hx
  · cases hrun
    exact hs

/-- The name of an entry and a symbol that compares equal to it are equal. -/
theorem eq_of_strncmpEq {name sym : CStr} (hname : name.length ≤ maxSymLen)
    (hsym : sym.length < maxSymLen) (heq : strncmpEq name sym maxSymLen = true) : name = sym := by
  rw [strncmpEq, beq_iff_eq, List.take_of_length_le hname, List.take_of_length_le hsym.le] at heq
  exact heq

theorem ne_nil_of_strncmpEq {name sym : CStr} (hne : sym ≠ [])
    (heq : strncmpEq name sym maxSymLen = true) : name ≠ [] := by
  rintro rfl
  rw [strncmpEq, beq_iff_eq, List.take_nil] at heq
  rcases List.take_eq_nil_iff.mp heq.symm with hzero | hnil
  · cases hzero
  · exact hne hnil

/-- A hit gives the location of the symbol. -/
theorem xaCheckCacheSym_named {s s' : XaState} (hs : Named h p sm s) {sym : CStr}
    (hne : sym ≠ []) (hlen : sym.length < maxSymLen) {r : Option U32}
    (hrun : xaCheckCacheSym h sym 0 s = .ok (r, s')) :
    Named h p sm s' ∧ ∀ a, r = some a → a ≠ 0 ∧ SymbolAt h p sm sym a := by
  simp only [xaCheckCacheSym] at hrun
  split at hrun
  · rename_i e c hupd
    cases hrun
    constructor
    · refine hs.setCache (Lru.forall_update hupd hs.entries ?_)
      intro x hx _
      exact hs.entries x hx
    · intro a ha
      cases ha
      obtain ⟨x, hx, hhit, rfl⟩ := Lru.update_found hupd
      obtain ⟨heq, hpid, hmach⟩ := hitsSym_iff.mp hhit
      obtain ⟨-, hlen', hat⟩ := hs.entries x hx (ne_nil_of_strncmpEq hne heq)
      refine ⟨hmach, ?_⟩
      rw [← eq_of_strncmpEq hlen' hlen heq]
      exact hat hpid hmach
  · cases hrun
    exact ⟨hs, by simp⟩

/-! ## Updates -/

theorem entryNamed_of_nil {e : CacheEntry} (he : e.symbolName = []) : EntryNamed h p sm e :=
  fun hne => absurd he hne

/-- Writing a page leaves the entries for symbols right when the entry written is none of
them, or is given to another pid or no frame. -/
theorem updateVirt_named {s s' : XaState} (hs : Named h p sm s) {v pid m : U32}
    (hsafe : pid = 0 → pageBase p v = 0 → pageBase p m = 0 ∨ Shielded s)
    (hupd : updateVirt h v pid m s = some s') : Named h p sm s' := by
  obtain ⟨r, hr, rfl⟩ := Option.map_eq_some_iff.mp hupd
  refine hs.setCache (Lru.forall_update_first hr hs.entries ?_)
  intro x hx hfirst hname
  obtain ⟨hzero, hlen, -⟩ := hs.entries x hx hname
  refine ⟨hzero, hlen, fun hpid hmach => ?_⟩
  have hx0 := List.find?_some hfirst
  rw [hs.params, beq_iff_eq, hzero] at hx0
  rcases hsafe hpid hx0.symm with hm | hshield
  · refine absurd ?_ hmach
    show pageBase s.toXaParams m = 0
    rw [hs.params, hm]
  · rw [hs.params, ← hx0] at hfirst
    exact absurd (hshield x hfirst) hname

theorem xaUpdateCache_addr_named {s s' : XaState} (hs : Named h p sm s) {v pid m : U32}
    (hsafe : pid = 0 → v ≠ 0 → pageBase p v = 0 → pageBase p m = 0 ∨ Shielded s)
    (hrun : xaUpdateCache h none v pid m s = .ok ((), s')) : Named h p sm s' := by
  simp only [xaUpdateCache, Option.bind_none] at hrun
  split at hrun
  · rename_i t hupd
    cases hrun
    split at hupd
    · rename_i hv
      exact updateVirt_named hs (fun hpid => hsafe hpid (by simpa using hv)) hupd
    · cases hupd
  · split at hrun
    · cases hrun
      exact hs
    · cases hrun
      exact hs.setCache (Lru.forall_insert hs.entries (entryNamed_of_nil rfl))

theorem xaUpdateCache_addr_noSymbols {s s' : XaState} (hs : NoSymbols s) {v pid m : U32}
    (hrun : xaUpdateCache h none v pid m s = .ok ((), s')) : NoSymbols s' := by
  simp only [xaUpdateCache, Option.bind_none] at hrun
  split at hrun
  · rename_i t hupd
    cases hrun
    split at hupd
    · obtain ⟨r, hr, rfl⟩ := Option.map_eq_some_iff.mp hupd
      refine Lru.forall_update (P := fun e : CacheEntry => e.symbolName = []) hr hs ?_
      intro x hx _
      exact hs x hx
    · cases hupd
  · split at hrun
    · cases hrun
      exact hs
    · cases hrun
      show ∀ e ∈ (s.cache.insert CacheEntry.lastUsed (by decide) _).entries, e.symbolName = []
      exact Lru.forall_insert hs rfl

/-- An update for a symbol stores its location. -/
theorem xaUpdateCache_sym_named {s s' : XaState} (hs : Named h p sm s) {sym : CStr}
    (hlen : sym.length < maxSymLen) {v : U32}
    (hv : sysmapAddress h sm sym = some v)
    (hrun : xaUpdateCache h (some sym) v 0 0 s = .ok ((), s')) : Named h p sm s' := by
  have hat : SymbolAt h p sm sym (symMachAddress h s.toXaParams v 0) := by
    refine ⟨v, hv, ?_⟩
    rw [hs.params]
    rfl
  simp only [xaUpdateCache, Option.bind_some] at hrun
  split at hrun
  · rename_i t hupd
    cases hrun
    obtain ⟨r, hr, rfl⟩ := Option.map_eq_some_iff.mp hupd
    refine hs.setCache (Lru.forall_update hr hs.entries ?_)
    intro x hx heq hname
    obtain ⟨-, hlen', -⟩ := hs.entries x hx hname
    refine ⟨rfl, hlen', fun _ _ => ?_⟩
    show SymbolAt h p sm x.symbolName _
    rw [eq_of_strncmpEq hlen' hlen heq]
    exact hat
  · split at hrun
    · rename_i t hupd
      cases hrun
      split at hupd
      · -- an entry for the page of the symbol loses its frame
        refine updateVirt_named hs (fun _ _ => Or.inl ?_) hupd
        simp [pageBase]
      · cases hupd
    · split at hrun
      · cases hrun
        exact hs
      · cases hrun
        refine hs.setCache (Lru.forall_insert hs.entries ?_)
        intro _
        have htake : sym.take maxSymLen = sym := List.take_of_length_le hlen.le
        refine ⟨rfl, ?_, fun _ _ => ?_⟩
        · show (sym.take maxSymLen).length ≤ maxSymLen
          rw [htake]
          exact hlen.le
        · show SymbolAt h p sm (sym.take maxSymLen) _
          rw [htake]
          exact hat

/-! ## Kernel addresses -/

/-- The end of an access that was not answered from the cache. -/
theorem finishAccess_named {s s' : XaState} (hs : Named h p sm s) {v pid m prot : U32}
    (hsafe : pid = 0 → v ≠ 0 → pageBase p v = 0 → pageBase p m = 0 ∨ Shielded s)
    {r : Option Access}
    (hrun : (if m = 0 then pure none
      else do
        xaUpdateCache h none v pid m
        let s ← get
        pure (xaAccessMa h s.toXaParams m prot) : XaM (Option Access)) s = .ok (r, s')) :
    Named h p sm s' := by
  split at hrun
  · cases hrun
    exact hs
  · obtain ⟨_, t, hupd, hlast⟩ := bind_ok_iff.mp hrun
    cases hlast
    exact xaUpdateCache_addr_named hs hsafe hupd

theorem xaAccessKernelVa_named {s s' : XaState} (hs : Named h p sm s) {v prot : U32}
    (hsafe : HitsPageZero h p v → Shielded s) {r : Option Access}
    (hrun : xaAccessKernelVa h v prot s = .ok (r, s')) : Named h p sm s' := by
  obtain ⟨hit, t, hcheck, hrest⟩ := bind_ok_iff.mp hrun
  have ht := xaCheckCacheVirt_named hs hcheck
  cases hit with
  | some a =>
    cases hrest
    exact ht
  | none =>
    obtain rfl := xaCheckCacheVirt_none hcheck
    simp only [if_true, pure_bind, get_bind, hs.params] at hrest
    refine finishAccess_named hs ?_ hrest
    intro _ hv hpage
    by_contra hcon
    rw [not_or] at hcon
    exact hcon.2 (hsafe ⟨hv, hpage, hcon.1⟩)

theorem xaAccessKernelVa_noSymbols {s s' : XaState} (hs : NoSymbols s) {v prot : U32}
    {r : Option Access} (hrun : xaAccessKernelVa h v prot s = .ok (r, s')) : NoSymbols s' := by
  obtain ⟨hit, t, hcheck, hrest⟩ := bind_ok_iff.mp hrun
  have ht := xaCheckCacheVirt_noSymbols hs hcheck
  cases hit with
  | some a =>
    cases hrest
    exact ht
  | none =>
    simp only [if_true, pure_bind, get_bind] at hrest
    split at hrest
    · cases hrest
      exact ht
    · obtain ⟨_, t', hupd, hlast⟩ := bind_ok_iff.mp hrest
      cases hlast
      exact xaUpdateCache_addr_noSymbols ht hupd

/-! ## Addresses of processes -/

/-- The kernel addresses that the walk of a task list reads. -/
def taskAddresses (h : Host) (p : XaParams) (pidOffset tasksOffset pid listHead : U32) :
    Nat → U32 → List U32
  | 0, _ => []
  | fuel + 1, nextProcess =>
    nextProcess ::
      match refKernelVa h p nextProcess protRead with
      | none => []
      | some a =>
        let nextProcess := a.memory.u32 a.offset
        if listHead = nextProcess then []
        else if a.memory.u32 (a.offset + pidOffset - tasksOffset) = pid then []
        else taskAddresses h p pidOffset tasksOffset pid listHead fuel nextProcess

/-- The kernel addresses that the lookup of a page directory reads. -/
def linuxPidAddresses (h : Host) (p : XaParams) (fuel : Nat) (pid : U32) : List U32 :=
  taskAddresses h p p.os.linuxPid p.os.linuxTasks pid p.initTask fuel p.initTask ++
    match refTaskLoop h p p.os.linuxPid p.os.linuxTasks pid p.initTask fuel p.initTask with
    | .ok (some a) => [a.memory.u32 (a.offset + p.os.linuxMm - p.os.linuxTasks) + p.os.linuxPgd]
    | _ => []

/-- What holds throughout the lookup of a page directory, which reads no mapped address of
page `0` (`quiet`) or starts without entries for symbols. -/
structure Calm (h : Host) (p : XaParams) (fuel : Nat) (sm : Option CStr) (quiet : Prop)
    (s : XaState) : Prop where
  sound : Sound h p fuel s
  named : Named h p sm s
  calm : quiet ∨ NoSymbols s

theorem xaAccessKernelVa_calm (hps : p.pageSize = 4096) {quiet : Prop} {s s' : XaState}
    (hs : Calm h p fuel sm quiet s) {v prot : U32} (hv : quiet → ¬ HitsPageZero h p v)
    {r : Option Access} (hrun : xaAccessKernelVa h v prot s = .ok (r, s')) :
    Calm h p fuel sm quiet s' ∧ r = refKernelVa h p v prot := by
  obtain ⟨href, hsound⟩ := follows_ok (xaAccessKernelVa_follows hps hs.sound v prot) hrun
  cases href
  refine ⟨⟨hsound, xaAccessKernelVa_named hs.named ?_ hrun, ?_⟩, rfl⟩
  · intro hhit
    rcases hs.calm with hq | hns
    · exact absurd hhit (hv hq)
    · exact hns.shielded
  · rcases hs.calm with hq | hns
    · exact Or.inl hq
    · exact Or.inr (xaAccessKernelVa_noSymbols hns hrun)

theorem taskLoop_calm (hps : p.pageSize = 4096) {quiet : Prop}
    (pidOffset tasksOffset pid listHead : U32) (n : Nat) {s s' : XaState} {nextProcess : U32}
    (hs : Calm h p fuel sm quiet s)
    (hv : quiet → ∀ a ∈ taskAddresses h p pidOffset tasksOffset pid listHead n nextProcess,
      ¬ HitsPageZero h p a) {r : Option Access}
    (hrun : taskLoop h pidOffset tasksOffset pid listHead n nextProcess s = .ok (r, s')) :
    Calm h p fuel sm quiet s' := by
  induction n generalizing s nextProcess with
  | zero => cases hrun
  | succ n ih =>
    rw [taskLoop] at hrun
    rw [taskAddresses] at hv
    obtain ⟨x, t, hacc, hrest⟩ := bind_ok_iff.mp hrun
    obtain ⟨ht, hx⟩ := xaAccessKernelVa_calm hps hs
      (fun hq => hv hq _ (List.mem_cons_self ..)) hacc
    rw [← hx] at hv
    cases x with
    | none =>
      cases hrest
      exact ht
    | some a =>
      by_cases hhead : listHead = a.memory.u32 a.offset
      · simp only [if_pos hhead] at hrest
        cases hrest
        exact ht
      · by_cases hpid : a.memory.u32 (a.offset + pidOffset - tasksOffset) = pid
        · simp only [if_neg hhead, if_pos hpid] at hrest
          cases hrest
          exact ht
        · simp only [if_neg hhead, if_neg hpid] at hrest hv
          exact ih ht (fun hq b hb => hv hq b (List.mem_cons_of_mem _ hb)) hrest

theorem Calm.setPidCache {quiet : Prop} {s s' : XaState} (hs : Calm h p fuel sm quiet s)
    (hsound : Sound h p fuel s') {c : Lru PidCacheEntry xaPidCacheSize}
    (heq : s' = s.setPidCache c) : Calm h p fuel sm quiet s' := by
  subst heq
  exact ⟨hsound, ⟨hs.named.params, hs.named.sysmap, hs.named.entries⟩, hs.calm⟩

theorem xaCheckPidCache_calm {quiet : Prop} {s s' : XaState} (hs : Calm h p fuel sm quiet s)
    {pid : U32} {r : Option U32} (hrun : xaCheckPidCache h pid s = .ok (r, s')) :
    Calm h p fuel sm quiet s' := by
  obtain ⟨r', t, hcheck, ht, -⟩ := xaCheckPidCache_sound hs.sound pid
  cases hrun.symm.trans hcheck
  simp only [xaCheckPidCache] at hrun
  split at hrun
  · cases hrun
    exact hs.setPidCache ht rfl
  · cases hrun
    exact hs

theorem xaUpdatePidCache_calm {quiet : Prop} {s s' : XaState} (hs : Calm h p fuel sm quiet s)
    {pid pgd : U32} (hpgd : refPidToPgd h p fuel pid = .ok pgd)
    (hrun : xaUpdatePidCache h pid pgd s = .ok ((), s')) : Calm h p fuel sm quiet s' := by
  obtain ⟨_, t, hupd, ht⟩ := xaUpdatePidCache_sound hs.sound hpgd
  cases hrun.symm.trans hupd
  simp only [xaUpdatePidCache] at hrun
  split at hrun
  · cases hrun
    exact hs
  · split at hrun
    · cases hrun
      exact hs.setPidCache ht rfl
    · cases hrun
      exact hs.setPidCache ht rfl

theorem linuxPidToPgd_calm (hps : p.pageSize = 4096) (hos : p.osType = .linux) {quiet : Prop}
    {s s' : XaState} (hs : Calm h p fuel sm quiet s) {pid pgd : U32}
    (hv : quiet → ∀ a ∈ linuxPidAddresses h p fuel pid, ¬ HitsPageZero h p a)
    (hrun : linuxPidToPgd h fuel pid s = .ok (pgd, s')) : Calm h p fuel sm quiet s' := by
  have hpgd := (follows_ok (linuxPidToPgd_follows hps hos hs.sound pid) hrun).1
  obtain ⟨task, t, hwalk, hrest⟩ := bind_ok_iff.mp hrun
  simp only [linuxGetTaskstruct, get_bind, hs.sound.params] at hwalk
  have ht : Calm h p fuel sm quiet t := taskLoop_calm hps _ _ _ _ _ hs
    (fun hq a ha => hv hq a (List.mem_append_left _ ha)) hwalk
  have href := (follows_ok (taskLoop_follows hps _ _ _ _ _ _ _ hs.sound) hwalk).1
  cases task with
  | none =>
    cases hrest
    exact ht
  | some a =>
    simp only [get_bind, ht.sound.params] at hrest
    obtain ⟨x, t', hacc, hrest⟩ := bind_ok_iff.mp hrest
    have ht' := (xaAccessKernelVa_calm hps ht (fun hq => hv hq _ (by
      rw [linuxPidAddresses, href]
      exact List.mem_append_right _ (List.mem_singleton_self _))) hacc).1
    simp only [get_bind] at hrest
    obtain ⟨_, t'', hupd, hlast⟩ := bind_ok_iff.mp hrest
    cases hlast
    exact xaUpdatePidCache_calm ht' hpgd hupd

theorem xaPidToPgd_calm (hps : p.pageSize = 4096) (hos : p.osType = .linux) {quiet : Prop}
    {s s' : XaState} (hs : Calm h p fuel sm quiet s) {pid pgd : U32}
    (hv : quiet → ∀ a ∈ linuxPidAddresses h p fuel pid, ¬ HitsPageZero h p a)
    (hrun : xaPidToPgd h fuel pid s = .ok (pgd, s')) : Calm h p fuel sm quiet s' := by
  obtain ⟨hit, t, hcheck, hrest⟩ := bind_ok_iff.mp hrun
  have ht := xaCheckPidCache_calm hs hcheck
  cases hit with
  | some pgd' =>
    cases hrest
    exact ht
  | none =>
    simp only [get_bind, ht.sound.params, hos] at hrest
    exact linuxPidToPgd_calm hps hos ht hv hrest

/-- An access for a process writes no entry of pid `0`, apart from the lookup of its page
directory. -/
theorem xaAccessUserVa_named (hps : p.pageSize = 4096) (hos : p.osType = .linux)
    {quiet : Prop} {s s' : XaState} (hs : Calm h p fuel sm quiet s) {v pid prot : U32}
    (hpid : pid ≠ 0) (hv : quiet → ∀ a ∈ linuxPidAddresses h p fuel pid, ¬ HitsPageZero h p a)
    {r : Option Access} (hrun : xaAccessUserVa h fuel v pid prot s = .ok (r, s')) :
    Named h p sm s' := by
  obtain ⟨hit, t, hcheck, hrest⟩ := bind_ok_iff.mp hrun
  cases hit with
  | some a =>
    cases hrest
    exact xaCheckCacheVirt_named hs.named hcheck
  | none =>
    obtain rfl := xaCheckCacheVirt_none hcheck
    simp only [if_neg hpid] at hrest
    obtain ⟨pgd, t', hwalk, hrest⟩ := bind_ok_iff.mp hrest
    have ht' := (xaPidToPgd_calm hps hos hs hv hwalk).named
    simp only [pure_bind, get_bind] at hrest
    exact finishAccess_named ht' (fun hzero => absurd hzero hpid) hrest

/-! ## Access by symbol -/

theorem linuxSystemMapSymbolToAddress_named {s s' : XaState} (hs : Named h p sm s) {sym : CStr}
    {r : Option U32} (hrun : linuxSystemMapSymbolToAddress h sym s = .ok (r, s')) :
    Named h p sm s' ∧ r = sysmapAddress h sm sym := by
  rw [linuxSystemMapSymbolToAddress] at hrun
  cases hrun
  refine ⟨⟨hs.params, ?_, hs.entries⟩, ?_⟩
  · show sysmapName h p (sysmapName h s.toXaParams s.sysmap) = sm
    rw [hs.params, sysmapName_idem, hs.sysmap]
  · rw [hs.params, hs.sysmap]

/-- The result of an access by symbol, from the cache or not. -/
theorem linuxAccessKernelSymbol_located (hps : p.pageSize = 4096) {s s' : XaState}
    (hs : Sound h p fuel s) (hn : Named h p sm s) {sym : CStr} (hne : sym ≠ [])
    (hlen : sym.length < maxSymLen) {prot : U32} {a : Access}
    (hrun : linuxAccessKernelSymbol h sym prot s = .ok (some a, s')) :
    Located h p sm sym a := by
  obtain ⟨hit, t, hcheck, hrest⟩ := bind_ok_iff.mp hrun
  obtain ⟨_, _, hcheck', ht⟩ := xaCheckCacheSym_sound hs sym 0
  cases hcheck.symm.trans hcheck'
  obtain ⟨hnt, hhit⟩ := xaCheckCacheSym_named hn hne hlen hcheck
  cases hit with
  | some address =>
    obtain ⟨hzero, hat⟩ := hhit address rfl
    simp only [get_bind, pure_apply, hnt.params, Except.ok.injEq, Prod.mk.injEq] at hrest
    exact located_of_access hat hzero hrest.1
  | none =>
    obtain ⟨look, t1, hlook, hrest⟩ := bind_ok_iff.mp hrest
    obtain ⟨_, _, hlook', ht1⟩ := linuxSystemMapSymbolToAddress_sound ht sym
    cases hlook.symm.trans hlook'
    obtain ⟨-, hv⟩ := linuxSystemMapSymbolToAddress_named hnt hlook
    cases look with
    | none => cases hrest
    | some v =>
      obtain ⟨_, t2, hupd, hacc⟩ := bind_ok_iff.mp hrest
      obtain ⟨_, _, hupd', ht2⟩ := xaUpdateCache_sym_sound hps ht1 sym v 0
      cases hupd.symm.trans hupd'
      have href := (follows_ok (xaAccessKernelVa_follows hps ht2 v prot) hacc).1
      simp only [Except.ok.injEq, refKernelVa, accessTranslated] at href
      split at href
      · cases href
      · rename_i hzero
        exact located_of_access ⟨v, hv.symm, rfl⟩ hzero href

theorem linuxAccessKernelSymbol_named {s s' : XaState} (hn : Named h p sm s)
    {sym : CStr} (hne : sym ≠ []) (hlen : sym.length < maxSymLen) {prot : U32}
    (hv : ∀ v, sysmapAddress h sm sym = some v → ¬ HitsPageZero h p v) {r : Option Access}
    (hrun : linuxAccessKernelSymbol h sym prot s = .ok (r, s')) : Named h p sm s' := by
  obtain ⟨hit, t, hcheck, hrest⟩ := bind_ok_iff.mp hrun
  have hnt := (xaCheckCacheSym_named hn hne hlen hcheck).1
  cases hit with
  | some address =>
    cases hrest
    exact hnt
  | none =>
    obtain ⟨look, t1, hlook, hrest⟩ := bind_ok_iff.mp hrest
    obtain ⟨hn1, hlook⟩ := linuxSystemMapSymbolToAddress_named hnt hlook
    cases look with
    | none =>
      cases hrest
      exact hn1
    | some v =>
      obtain ⟨_, t2, hupd, hacc⟩ := bind_ok_iff.mp hrest
      have hn2 := xaUpdateCache_sym_named hn1 hlen hlook.symm hupd
      exact xaAccessKernelVa_named hn2 (fun hhit => absurd hhit (hv v hlook.symm)) hacc

/-! ## Sequences of calls -/

/-- Symbols are not empty and fit into the entry of the cache. -/
def Call.WellNamed : Call → Prop
  | .kernelSym sym _ => sym ≠ [] ∧ sym.length < maxSymLen
  | _ => True

instance : (c : Call) → Decidable c.WellNamed
  | .kernelSym _ _ => inferInstanceAs (Decidable (_ ∧ _))
  | .kernelVa _ _ => .isTrue trivial
  | .userVa _ _ _ => .isTrue trivial

/-- A call that does not overwrite an entry for a symbol with another machine address. A
mapped kernel address of page `0` is translated only when the entry with virtual address
`0` that the update finds first is not a symbol's. -/
def Clean (h : Host) (fuel : Nat) (s : XaState) : Call → Prop
  | .kernelVa v _ => HitsPageZero h s.toXaParams v → Shielded s
  | .userVa v pid _ =>
    if pid = 0 then HitsPageZero h s.toXaParams v → Shielded s
    else (∀ a ∈ linuxPidAddresses h s.toXaParams fuel pid, ¬ HitsPageZero h s.toXaParams a) ∨
      NoSymbols s
  | .kernelSym sym _ =>
    ∀ v ∈ sysmapAddress h (sysmapName h s.toXaParams s.sysmap) sym,
      ¬ HitsPageZero h s.toXaParams v

instance (h : Host) (fuel : Nat) (s : XaState) : (c : Call) → Decidable (Clean h fuel s c)
  | .kernelVa _ _ => inferInstanceAs (Decidable (_ → _))
  | .userVa _ _ _ => inferInstanceAs (Decidable (ite _ _ _))
  | .kernelSym _ _ => Option.decidableForallMem (sysmapAddress _ _ _)

/-- Every call of the sequence is clean in the state in which it is made. -/
def CleanSteps (h : Host) (fuel : Nat) : List Call → XaState → Prop
  | [], _ => True
  | c :: cs, s => Clean h fuel s c ∧ After (c.exec h fuel) s fun _ t => CleanSteps h fuel cs t

instance decidableCleanSteps (h : Host) (fuel : Nat) :
    (calls : List Call) → (s : XaState) → Decidable (CleanSteps h fuel calls s)
  | [], _ => .isTrue trivial
  | c :: cs, s =>
    have (t : XaState) : Decidable (CleanSteps h fuel cs t) := decidableCleanSteps h fuel cs t
    inferInstanceAs (Decidable (Clean h fuel s c ∧ After (c.exec h fuel) s _))

/-- One call: with the caches sound, a clean call keeps the entries for symbols right. -/
theorem call_named (hps : p.pageSize = 4096) (hos : p.osType = .linux) {s s' : XaState}
    (hs : Sound h p fuel s) (hn : Named h p sm s) {c : Call} (hc : c.WellNamed)
    (hclean : Clean h fuel s c) {r : Option Access} (hrun : c.exec h fuel s = .ok (r, s')) :
    Named h p sm s' := by
  have hpar := hn.params
  cases c with
  | kernelVa v prot =>
    rw [Clean, hpar] at hclean
    exact xaAccessKernelVa_named hn hclean hrun
  | userVa v pid prot =>
    rw [Clean, hpar] at hclean
    by_cases hpid : pid = 0
    · subst hpid
      rw [if_pos rfl] at hclean
      rw [Call.exec, ← xaAccessKernelVa_eq] at hrun
      exact xaAccessKernelVa_named hn hclean hrun
    · rw [if_neg hpid] at hclean
      exact xaAccessUserVa_named hps hos ⟨hs, hn, hclean⟩ hpid id hrun
  | kernelSym sym prot =>
    rw [Clean, hpar, hn.sysmap] at hclean
    simp only [Call.exec, xaAccessKernelSym, get_bind, hpar, hos] at hrun
    exact linuxAccessKernelSymbol_named hn hc.1 hc.2 hclean hrun

theorem runCalls_named (hps : p.pageSize = 4096) (hos : p.osType = .linux) (calls : List Call)
    {s s' : XaState} (hs : Sound h p fuel s) (hn : Named h p sm s)
    (hnames : ∀ c ∈ calls, c.WellNamed) (hclean : CleanSteps h fuel calls s)
    (hrun : runCalls h fuel calls s = .ok ((), s')) : Named h p sm s' := by
  induction calls generalizing s with
  | nil =>
    cases hrun
    exact hn
  | cons c cs ih =>
    obtain ⟨r, t, hcall, hrest⟩ := bind_ok_iff.mp hrun
    have ht := call_keeps hps c s r t hs hcall
    have hnt := call_named hps hos hs hn (hnames c (by simp)) hclean.1 hcall
    exact ih ht hnt (fun d hd => hnames d (by simp [hd])) (hclean.2 r t hcall) hrest

/-- **Symbols from the cache.** After every sequence of clean calls from empty caches, an
access by symbol that succeeds is to the location of the symbol. -/
theorem xaAccessKernelSym_located (h : Host) (fuel : Nat) (s₀ : XaState)
    (hps : s₀.pageSize = 4096) (hos : s₀.osType = .linux) (calls : List Call)
    (hnames : ∀ c ∈ calls, c.WellNamed) (hclean : CleanSteps h fuel calls s₀.clear)
    (s : XaState) (hrun : runCalls h fuel calls s₀.clear = .ok ((), s)) (sym : CStr)
    (hne : sym ≠ []) (hlen : sym.length < maxSymLen) (prot : U32) :
    ∃ r s', xaAccessKernelSym h sym prot s = .ok (r, s') ∧
      ∀ a, r = some a →
        Located h s₀.toXaParams (sysmapName h s₀.toXaParams s₀.sysmap) sym a := by
  have hs := runCalls_keeps hps calls _ _ _ (sound_clear s₀) hrun
  have hn := runCalls_named hps hos calls (sound_clear s₀) (named_clear s₀) hnames hclean hrun
  obtain ⟨r, s', hsym, -⟩ := xaAccessKernelSym_sound hps hs sym prot
  refine ⟨r, s', hsym, ?_⟩
  rintro a rfl
  simp only [xaAccessKernelSym, get_bind, hn.params, hos] at hsym
  exact linuxAccessKernelSymbol_located hps hs hn hne hlen hsym

/-- A Linux guest with one symbol at `0xC0005000`, mapped to frame `5`, and with page `0`
mapped to frame `0x400`. -/
def pageZeroHost : Host :=
  { imageHost [(0x1000, 0x00400083), (0x1C00, 0x83)] with
    fopen := fun _ => some (cstr "c0005000 D a\n") }

def pageZeroState : XaState :=
  imageState .linux 0xC0000000 0xC0001000 0 ⟨0, 0, 0, 0, 0, 0, 0⟩

/-- Page `0` is cached before the symbol. -/
def shieldedCalls : List Call := [.kernelVa 0x10 1, .kernelSym (cstr "a") 1, .kernelVa 0x20 1]

theorem shieldedCalls_located :
    ∃ s, runCalls pageZeroHost 1 shieldedCalls pageZeroState.clear = .ok ((), s) ∧
      ∃ r s', xaAccessKernelSym pageZeroHost (cstr "a") 1 s = .ok (r, s') ∧
        ∀ a, r = some a → Located pageZeroHost pageZeroState.toXaParams
          (some (cstr "System.map")) (cstr "a") a := by
  have hret : Returns (runCalls pageZeroHost 1 shieldedCalls) pageZeroState.clear
      fun _ _ => True := by decide
  have hnames : ∀ c ∈ shieldedCalls, c.WellNamed := by decide
  have hclean : CleanSteps pageZeroHost 1 shieldedCalls pageZeroState.clear := by decide
  have hne : cstr "a" ≠ [] := by decide
  have hlen : (cstr "a").length < maxSymLen := by decide
  obtain ⟨_, s, hrun, -⟩ := hret
  exact ⟨s, hrun, xaAccessKernelSym_located pageZeroHost 1 pageZeroState rfl rfl shieldedCalls
    hnames hclean s hrun (cstr "a") hne hlen 1⟩

/-- After the access to an address of page `0`, the symbol is found in frame `0x400`. -/
theorem xaAccessKernelSym_not_located :
    ∃ s, runCalls pageZeroHost 1 [.kernelSym (cstr "a") 1, .kernelVa 0x10 1]
        pageZeroState.clear = .ok ((), s) ∧
      ∃ a s', xaAccessKernelSym pageZeroHost (cstr "a") 1 s = .ok (some a, s') ∧
        ¬ Located pageZeroHost pageZeroState.toXaParams
          (some (cstr "System.map")) (cstr "a") a := by
  have hret : Returns (runCalls pageZeroHost 1 [.kernelSym (cstr "a") 1, .kernelVa 0x10 1])
      pageZeroState.clear fun _ s => Returns (xaAccessKernelSym pageZeroHost (cstr "a") 1) s
        fun r _ => r.map Access.frame = some 0x400 := by
    decide
  obtain ⟨_, s, hrun, r, s', hsym, hframe⟩ := hret
  obtain ⟨a, rfl, ha⟩ := Option.map_eq_some_iff.mp hframe
  refine ⟨s, hrun, a, s', hsym, ?_⟩
  rintro ⟨address, ⟨v, hv, rfl⟩, -, hat, -⟩
  have haddr : sysmapAddress pageZeroHost (some (cstr "System.map")) (cstr "a") =
      some 0xC0005000 := by decide
  cases hv.symm.trans haddr
  rw [ha] at hat
  exact absurd hat (by decide)

end XenAccess
