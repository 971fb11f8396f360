import XenAccess.Config.Numbers
import XenAccess.Init.Helper
import XenAccess.Model.DomainInfo
import XenAccess.Model.Image

/-!
# Initialisation by name

`xa_get_domain_id` has no value for a name that it does not find: it returns `0`, which is
the id of Domain-0. The functions that take a name go on with it and attach to Domain-0 when
that can be initialised (`attachesByName_iff`).
-/

namespace XenAccess

open Prog

variable {m : Machine} {domains : List (U32 × CStr)} {name : CStr}

/-! ## The lookup -/

/-- Xenstore lists these domains, with these names. -/
structure Machine.Lists (m : Machine) (domains : List (U32 × CStr)) : Prop where
  directory : m.xsDirectory = domains.map fun d => sprintfD d.1
  names : ∀ d ∈ domains, m.xsRead (domainNamePath (sprintfD d.1)) = some d.2

theorem Machine.host_xsRead (m : Machine) (id : U32) : (m.host id).xsRead = m.xsRead := rfl

theorem findDomainId_eq (hlen : name.length < 100)
    (hnames : ∀ d ∈ domains, m.xsRead (domainNamePath (sprintfD d.1)) = some d.2) :
    findDomainId m name (domains.map fun d => sprintfD d.1) =
      .ok (((domains.find? fun d => d.2 = name).map Prod.fst).getD 0) := by
  induction domains with
  | nil => rfl
  | cons d domains ih =>
    have hrest := ih fun d' hd' => hnames d' (List.mem_cons_of_mem _ hd')
    rw [List.map_cons, findDomainId, hnames d List.mem_cons_self, List.find?_cons]
    by_cases hname : d.2 = name
    · simp only [if_pos ((strncmpEq_iff hlen d.2).mpr hname), decide_eq_true hname]
      exact congrArg Except.ok (strtol10_sprintfD d.1)
    · have hdiff : ¬strncmpEq name d.2 100 = true := fun heq =>
        hname ((strncmpEq_iff hlen d.2).mp heq)
      simp only [if_neg hdiff, decide_eq_false hname]
      exact hrest

/-- The id of the first domain with the name, and `0` when there is none. -/
theorem xaGetDomainId_eq (hm : m.Lists domains) (hlen : name.length < 100) :
    xaGetDomainId m name = .ok (((domains.find? fun d => d.2 = name).map Prod.fst).getD 0) := by
  unfold xaGetDomainId
  rw [hm.directory]
  exact findDomainId_eq hlen hm.names

theorem xaGetDomainId_mem (hm : m.Lists domains) (hlen : name.length < 100)
    (hnamed : ∃ id, (id, name) ∈ domains) :
    ∃ id, xaGetDomainId m name = .ok id ∧ (id, name) ∈ domains := by
  obtain ⟨id, hid⟩ := hnamed
  rw [xaGetDomainId_eq hm hlen]
  cases hfind : domains.find? fun d => d.2 = name with
  | none => exact absurd (by simp) (List.find?_eq_none.mp hfind _ hid)
  | some d =>
    obtain ⟨id', name'⟩ := d
    obtain rfl : name' = name := by simpa using List.find?_some hfind
    exact ⟨id', rfl, List.mem_of_find?_eq_some hfind⟩

theorem xaGetDomainId_zero (hm : m.Lists domains) (hlen : name.length < 100)
    (hnone : ¬∃ id, (id, name) ∈ domains) : xaGetDomainId m name = .ok 0 := by
  have hfind : (domains.find? fun d => d.2 = name) = none := by
    rw [List.find?_eq_none]
    rintro ⟨id, name'⟩ hd hname
    obtain rfl : name' = name := by simpa using hname
    exact hnone ⟨id, hd⟩
  rw [xaGetDomainId_eq hm hlen, hfind]
  rfl

/-! ## The domain of an instance -/

variable {h : Host} {fuel : Nat} {mode : ErrorMode} {s t u : XaState} {id : U32}

theorem xaInitVmPrivate_open (hopen : h.xcInterfaceOpen = true) :
    xaInitVmPrivate h fuel id mode s =
      helperInit h fuel (startState mode { zeroState s.ticks with domainId := id }) := by
  unfold xaInitVmPrivate
  rw [modify_bind, if_pos hopen, modify_bind]
  rfl

theorem osInit_domainId (hpre : initPrelude h (startState mode s) = .ok (.success, u))
    (hrun : osInit h fuel u = .ok (.success, t)) : t.domainId = u.domainId := by
  cases hos : u.osType with
  | linux =>
    rw [osInit_linux hos, linuxInit_eq] at hrun
    have hready := linuxReady_of_prelude hpre hos
    obtain ⟨⟨⟩, -⟩ | ⟨s₁, hfind, -⟩ := orExit_ok_iff.mp hrun
    rw [← linuxInit_eq] at hrun
    obtain ⟨t', haft, hend⟩ := linuxInit_ends hready hfind
    obtain ⟨kpgd, rfl⟩ := linuxFindKpgd_state hfind
    obtain ⟨initTask, rfl⟩ := hend.state hrun
    obtain ⟨pae, hp⟩ := haft.params
    show t'.toXaParams.domainId = u.domainId
    rw [hp]
    rfl
  | windows =>
    rw [osInit_windows hos, windowsInit] at hrun
    have hready := windowsReady_of_prelude hpre hos
    obtain ⟨⟨⟩, -⟩ | ⟨b, hbase, -⟩ := orExit_ok_iff.mp hrun
    have hb := hready.findBase hbase
    obtain ⟨c, n, heq, -⟩ := windowsInit_eq fuel hbase hb.os hb.empty.cache
    rw [windowsInit, hrun] at heq
    obtain ⟨ntoskrnl, rfl⟩ := windowsFindBase_state hbase
    split at heq
    · cases heq
    · obtain ⟨-, rfl⟩ := Prod.mk.inj (Except.ok.inj heq)
      rfl
  | unknown =>
    rw [osInit_unknown hos] at hrun
    cases hrun
    rfl

/-- An instance that was initialised belongs to the domain that was asked for. -/
theorem xaInitVmPrivate_domainId (hrun : xaInitVmPrivate h fuel id mode s = .ok (.success, t)) :
    t.domainId = id := by
  cases hopen : h.xcInterfaceOpen with
  | false =>
    unfold xaInitVmPrivate at hrun
    rw [modify_bind, if_neg (by rw [hopen]; exact Bool.false_ne_true)] at hrun
    cases hrun
  | true =>
    rw [xaInitVmPrivate_open hopen] at hrun
    obtain ⟨u, hpre, hrest, -⟩ := helperInit_success hrun
    rw [osInit_domainId hpre hrest]
    exact (initPrelude_untouched hpre).domainId

/-- A name that some domain has leads to a domain with that name. -/
theorem xaInitVmName_mem (hm : m.Lists domains) (hlen : name.length < 100)
    (hnamed : ∃ id, (id, name) ∈ domains)
    (hrun : xaInitVmName m mode fuel name s = .ok (.success, t)) : (t.domainId, name) ∈ domains := by
  obtain ⟨id, hid, hmem⟩ := xaGetDomainId_mem hm hlen hnamed
  unfold xaInitVmName at hrun
  rw [hid] at hrun
  rw [xaInitVmPrivate_domainId hrun]
  exact hmem

/-! ## Linux domains that can be initialised -/

/-- The parameters and the name of the System.map, which is all that `linux_init` reads. -/
structure HasSettings (p : XaParams) (sysmap : Option CStr) (s : XaState) : Prop where
  params : s.toXaParams = p
  sysmap : s.sysmap = sysmap

theorem initPrelude_of_steps {s₁ s₂ s₃ : XaState} (hinfo : getDomainInfo h s = .ok (.success, s₁))
    (hconfig : readConfigFile h s₁ = .ok (.success, s₂))
    (hlayout : getMemoryLayout h s₂ = .ok (.success, s₃))
    (hsize : getMemorySize h (afterPageOffset h s₃) = .ok (.success, u)) :
    initPrelude h s = .ok (.success, u) := by
  unfold initPrelude
  rw [orExit_success hinfo, orExit_success (orReport_ok_iff.mpr (.inl ⟨rfl, hconfig⟩)),
    orExit_success hlayout, orExit_success (setPageOffset_eq s₃)]
  exact orReport_ok_iff.mpr (.inl ⟨rfl, hsize⟩)

variable {p : XaParams} {sysmap : Option CStr}

theorem getDomainInfo_settings (hs : HasSettings p sysmap s) (hmode : p.mode = .xen) {frame : U32}
    (hinfo : h.xcDomainGetinfo = some frame) :
    ∃ t version, getDomainInfo h s = .ok (.success, t) ∧
      HasSettings { p with sharedInfoFrame := frame, xenVersion := version } sysmap t := by
  obtain ⟨rfl, rfl⟩ := hs
  have hrun := getDomainInfo_xen (h := h) hmode
  rw [hinfo] at hrun
  exact ⟨_, _, hrun, rfl, rfl⟩

theorem readConfigFile_settings (hs : HasSettings p sysmap s) (hmode : p.mode = .xen)
    (hconf : h.configFile = true)
    (hname : h.xsRead (domainNamePath (sprintfD p.domainId)) = some name) {entry : XaConfigEntry}
    (hparse : h.xaParseConfig name = some entry)
    (hos : strncmpEq entry.ostype (cstr "Linux") configStrLength = true) :
    ∃ t, readConfigFile h s = .ok (.success, t) ∧
      HasSettings { p with osType := .linux, os := copyLinuxOffsets p.os entry.offsets }
        (some entry.sysmap) t := by
  obtain ⟨rfl, rfl⟩ := hs
  have hconfig : configName h s = .ok (some name, { s with imageType := some name }) := by
    unfold configName
    rw [hmode]
    show Except.ok (h.xsRead (domainNamePath (sprintfD s.domainId)), { s with
      imageType := h.xsRead (domainNamePath (sprintfD s.domainId)) }) = _
    rw [hname]
  unfold readConfigFile
  rw [if_pos hconf, bind_of_ok hconfig]
  simp only [hparse]
  unfold applyConfig
  rw [if_pos hos]
  exact ⟨_, rfl, rfl, rfl⟩

theorem getMemoryLayout_settings (hs : HasSettings p sysmap s) (hmode : p.mode = .xen)
    {ctxt : VcpuContext} (hctxt : h.xcVcpuGetcontext = some ctxt)
    (hpaging : xaGetBit ctxt.ctrlreg0 31 = true) :
    ∃ t, getMemoryLayout h s = .ok (.success, t) ∧
      HasSettings { p with pae := xaGetBit ctxt.ctrlreg4 5 } sysmap t := by
  obtain ⟨rfl, rfl⟩ := hs
  refine ⟨{ s with
    pae := xaGetBit ctxt.ctrlreg4 5
    pse := xaGetBit ctxt.ctrlreg4 4
    cr3 := ctxt.ctrlreg3 &&& 0xFFFFF000 }, ?_, rfl, rfl⟩
  rw [getMemoryLayout_xen hmode]
  refine orReport_ok_iff.mpr (.inl ⟨rfl, ?_⟩)
  unfold getPageInfoXen
  simp only [hctxt, hpaging, Bool.not_true, Bool.false_eq_true, if_false]

theorem afterPageOffset_settings (hs : HasSettings p sysmap s) (hmode : p.mode = .xen)
    (hos : p.osType = .linux) :
    ∃ hvm, HasSettings { p with
      pageOffset := 0xC0000000, pageShift := 12, pageSize := 4096, hvm } sysmap
        (afterPageOffset h s) := by
  obtain ⟨rfl, rfl⟩ := hs
  refine ⟨xaIshvm h s.domainId, ?_⟩
  have hafter : afterPageOffset h s = { initPageOffset s with hvm := xaIshvm h s.domainId } := by
    unfold afterPageOffset
    rw [hmode]
  rw [hafter]
  unfold initPageOffset
  rw [hos]
  exact ⟨rfl, rfl⟩

theorem getMemorySize_settings (hs : HasSettings p sysmap s) (hmode : p.mode = .xen)
    {target : CStr} (htarget : h.xsRead (memoryTargetPath p.domainId) = some target)
    (hsize : strtol10 target * 1024 ≠ 0) :
    ∃ t, getMemorySize h s = .ok (.success, t) ∧
      HasSettings { p with size := strtol10 target * 1024 } sysmap t := by
  obtain ⟨rfl, rfl⟩ := hs
  refine ⟨{ s with size := strtol10 target * 1024 }, ?_, rfl, rfl⟩
  rw [getMemorySize_xen hmode, htarget]
  simp only [if_neg hsize]

/-- The parameters of a Linux domain when `linux_init` starts. -/
def linuxParams (p : XaParams) (frame size : U32) (version : XenVersion) (pae hvm : Bool)
    (os : OsUnion) : XaParams :=
  { p with
    osType := .linux, pageOffset := 0xC0000000, pageShift := 12, pageSize := 4096, hvm, pae, os
    sharedInfoFrame := frame, xenVersion := version, size }

/-- The steps before `linux_init` for a domain that is configured as a Linux domain. -/
theorem initPrelude_linux (hmode : s.mode = .xen) {frame : U32}
    (hinfo : h.xcDomainGetinfo = some frame) (hconf : h.configFile = true)
    (hname : h.xsRead (domainNamePath (sprintfD s.domainId)) = some name) {entry : XaConfigEntry}
    (hparse : h.xaParseConfig name = some entry)
    (hos : strncmpEq entry.ostype (cstr "Linux") configStrLength = true) {ctxt : VcpuContext}
    (hctxt : h.xcVcpuGetcontext = some ctxt) (hpaging : xaGetBit ctxt.ctrlreg0 31 = true)
    {target : CStr} (htarget : h.xsRead (memoryTargetPath s.domainId) = some target)
    (hsize : strtol10 target * 1024 ≠ 0) :
    ∃ u version hvm, initPrelude h s = .ok (.success, u) ∧
      HasSettings (linuxParams s.toXaParams frame (strtol10 target * 1024) version
        (xaGetBit ctxt.ctrlreg4 5) hvm (copyLinuxOffsets s.os entry.offsets))
          (some entry.sysmap) u := by
  obtain ⟨s₁, version, hrun₁, hs₁⟩ := getDomainInfo_settings ⟨rfl, rfl⟩ hmode hinfo
  obtain ⟨s₂, hrun₂, hs₂⟩ := readConfigFile_settings hs₁ hmode hconf hname hparse hos
  obtain ⟨s₃, hrun₃, hs₃⟩ := getMemoryLayout_settings hs₂ hmode hctxt hpaging
  obtain ⟨hvm, hs₄⟩ := afterPageOffset_settings (h := h) hs₃ hmode rfl
  obtain ⟨u, hrun₅, hu⟩ := getMemorySize_settings hs₄ hmode htarget hsize
  exact ⟨u, version, hvm, initPrelude_of_steps hrun₁ hrun₂ hrun₃ hrun₅, hu⟩

/-- A Linux domain is initialised in both modes when `linux_init` finds the page directory
and can map `init_task`. -/
theorem helperInit_linux (hpre : initPrelude h (startState mode s) = .ok (.success, u))
    (hos : u.osType = .linux) {kpgd v : U32} {a : Access} (hkpgd : linuxKpgd h u = some kpgd)
    (hv : symbolVirt h u initTaskSymbol = some v)
    (ha : mapInitTask h { u.toXaParams with kpgd } v = some a) :
    ∃ t, helperInit h fuel (startState mode s) = .ok (.success, t) := by
  have hready := linuxReady_of_prelude hpre hos
  obtain ⟨t, -, hend⟩ := linuxInit_ends hready (linuxFindKpgd_some hkpgd)
  have hmapped : (symbolVirt h u initTaskSymbol).bind
      (mapInitTask h ({ u.withSysmap h with kpgd } : XaState).toXaParams) = some a := by
    rw [hv]
    exact ha
  rw [hmapped] at hend
  rw [helperInit_of_prelude hpre, osInit_linux hos]
  exact ⟨_, hend⟩

/-! ## A machine on which Domain-0 can be initialised -/

variable {xsRead : CStr → Option CStr}

theorem mapInitTask_xsRead (h : Host) (p : XaParams) (v : U32) :
    mapInitTask { h with xsRead } p v = mapInitTask h p v := rfl

/-- Tables and pages are mapped by their machine frames, whatever the version of Xen. -/
theorem mapInitTask_version (h : Host) (p : XaParams) (kpgd : U32) (version : XenVersion)
    (hvm : Bool) (v : U32) :
    mapInitTask h { p with xenVersion := version, hvm, kpgd } v = mapInitTask h { p with kpgd } v :=
  rfl

theorem linuxKpgd_xsRead {c : U8} {file : CStr} (hs : s.sysmap = some (c :: file)) :
    linuxKpgd { h with xsRead } s = linuxKpgd h s := by
  unfold linuxKpgd
  rw [hs]
  rfl

theorem symbolVirt_xsRead {c : U8} {file : CStr} (hs : s.sysmap = some (c :: file))
    (hos : s.osType = .linux) (sym : CStr) :
    symbolVirt { h with xsRead } s sym = symbolVirt h s sym := by
  rw [symbolVirt_linux hos, symbolVirt_linux hos, hs]
  rfl

/-- A paravirtualised Linux domain whose pseudo-physical frames are its machine frames. -/
def dom0Host : Host :=
  { linuxHost [(0x1C00, 0x83), (0x1000, 0xC0001000)]
      (some (cstr "c0001000 A swapper_pg_dir\nc0003000 D init_task\n")) with
    xcVcpuGetcontext := some ⟨0x80000001, 0x1000, 0x10⟩
    xcMapForeignBatch := fun _ _ => some (imagePage [(4, 1), (12, 3)] 0) }

/-- A machine with these domains, all of them like that, and in xenstore their names and the
memory size of Domain-0. -/
def linuxMachine (domains : List (U32 × CStr)) : Machine where
  xsDirectory := domains.map fun d => sprintfD d.1
  xsRead path :=
    if path = memoryTargetPath 0 then some (cstr "16384")
    else (domains.find? fun d => domainNamePath (sprintfD d.1) = path).map Prod.snd
  domain _ := dom0Host

/-- The parameters of Domain-0 when `linux_init` starts. -/
def dom0Params (version : XenVersion) (hvm : Bool) : XaParams :=
  linuxParams (startState .failhard (zeroState 0)).toXaParams 0 0x1000000 version false hvm
    (copyLinuxOffsets (zeroState 0).os linuxEntry.offsets)

theorem domainNamePath_injective {a b : CStr} (heq : domainNamePath a = domainNamePath b) :
    a = b := by
  unfold domainNamePath at heq
  rw [List.append_left_inj, List.append_right_inj] at heq
  exact heq

theorem domainNamePath_ne_target (idStr : CStr) (id : U32) :
    domainNamePath idStr ≠ memoryTargetPath id := by
  intro heq
  have hlast := congrArg List.getLast? heq
  unfold domainNamePath memoryTargetPath at hlast
  have hname : (cstr "/name").getLast? = some 0x65 := by decide
  have htarget : (cstr "/memory/target").getLast? = some 0x74 := by decide
  simp only [List.getLast?_append, hname, htarget, Option.some_or, Option.some.injEq] at hlast
  cases hlast

theorem linuxMachine_lists (hids : (domains.map Prod.fst).Nodup) :
    (linuxMachine domains).Lists domains := by
  refine ⟨rfl, fun d hd => ?_⟩
  show (if _ then _ else _) = _
  rw [if_neg (domainNamePath_ne_target _ _)]
  have hsome : (domains.find? fun e =>
      domainNamePath (sprintfD e.1) = domainNamePath (sprintfD d.1)).isSome = true := by
    rw [List.find?_isSome]
    exact ⟨d, hd, decide_eq_true rfl⟩
  obtain ⟨e, he⟩ := Option.isSome_iff_exists.mp hsome
  have hid : e.1 = d.1 :=
    sprintfD_injective (domainNamePath_injective (by simpa using List.find?_some he))
  have heq : e = d := List.inj_on_of_nodup_map hids (List.mem_of_find?_eq_some he) hd hid
  rw [he, heq]
  rfl

/-- What Domain-0 of that machine has configured is enough for the steps before `linux_init`. -/
theorem linuxMachine_prelude {dom0 : CStr} (hids : (domains.map Prod.fst).Nodup)
    (hdom0 : (0, dom0) ∈ domains) (hstate : s.toXaParams = (startState .failhard
      (zeroState 0)).toXaParams) :
    ∃ u version hvm, initPrelude ((linuxMachine domains).host 0) s = .ok (.success, u) ∧
      HasSettings (dom0Params version hvm) (some linuxEntry.sysmap) u := by
  have hdomain : s.domainId = 0 := congrArg XaParams.domainId hstate
  have hname : ((linuxMachine domains).host 0).xsRead (domainNamePath (sprintfD s.domainId)) =
      some dom0 := by
    rw [hdomain, Machine.host_xsRead]
    exact (linuxMachine_lists hids).names (0, dom0) hdom0
  have htarget : ((linuxMachine domains).host 0).xsRead (memoryTargetPath s.domainId) =
      some (cstr "16384") := by
    rw [hdomain, Machine.host_xsRead, linuxMachine]
    simp only [if_true]
  have hparse : ((linuxMachine domains).host 0).xaParseConfig dom0 = some linuxEntry := rfl
  have hos : strncmpEq linuxEntry.ostype (cstr "Linux") configStrLength = true := by
    decide
  have hcontext : ((linuxMachine domains).host 0).xcVcpuGetcontext =
      some ⟨0x80000001, 0x1000, 0x10⟩ := rfl
  have hsize : strtol10 (cstr "16384") * 1024 = 0x1000000 := by decide
  obtain ⟨u, version, hvm, hpre, hsettings⟩ := initPrelude_linux
    (congrArg XaParams.mode hstate) (h := (linuxMachine domains).host 0) rfl rfl hname hparse hos
    hcontext (by decide) htarget (by rw [hsize]; decide)
  rw [hsize, hstate] at hsettings
  exact ⟨u, version, hvm, hpre, hsettings⟩

/-- The frames of this domain are found in the same way with every version of Xen. -/
theorem dom0_readLongPhys (version : XenVersion) (paddr : U32) :
    xaReadLongPhys dom0Host (dom0Params version false) paddr =
      xaReadLongPhys dom0Host (dom0Params .unknown false) paddr := rfl

theorem dom0_linuxKpgd {version : XenVersion} {hvm : Bool}
    (hs : HasSettings (dom0Params version hvm) (some linuxEntry.sysmap) s) :
    linuxKpgd dom0Host s = some 0xC0001000 := by
  have hsymbol : sysmapAddress dom0Host (some linuxEntry.sysmap) (cstr "swapper_pg_dir") =
      some 0xC0001000 := by decide
  have hname : sysmapName dom0Host (dom0Params version hvm) (some linuxEntry.sysmap) =
      some linuxEntry.sysmap := rfl
  unfold linuxKpgd
  rw [hs.params, hs.sysmap, hname, hsymbol]
  cases hvm with
  | false =>
    have hword : xaReadLongPhys dom0Host (dom0Params .unknown false) 0x1000 = some 0xC0001000 := by
      decide
    have hoffset : (0xC0001000 : U32) - 0xC0000000 = 0x1000 := by decide
    show xaReadLongPhys dom0Host (dom0Params version false) (0xC0001000 - 0xC0000000) = _
    rw [hoffset, dom0_readLongPhys, hword]
  | true => rfl

theorem dom0_initTask {version : XenVersion} {hvm : Bool}
    (hs : HasSettings (dom0Params version hvm) (some linuxEntry.sysmap) s) :
    symbolVirt dom0Host s initTaskSymbol = some 0xC0003000 := by
  rw [symbolVirt_linux (by rw [hs.params]; rfl), hs.sysmap]
  show sysmapAddress dom0Host (some linuxEntry.sysmap) initTaskSymbol = some 0xC0003000
  decide

theorem dom0_mapInitTask (version : XenVersion) (hvm : Bool) :
    ∃ a, mapInitTask dom0Host { dom0Params version hvm with kpgd := 0xC0001000 } 0xC0003000 =
      some a := by
  have hsame := mapInitTask_version dom0Host (dom0Params .unknown false) 0xC0001000 version hvm
    0xC0003000
  have hmapped : (mapInitTask dom0Host { dom0Params .unknown false with kpgd := 0xC0001000 }
      0xC0003000).isSome := by decide
  obtain ⟨a, ha⟩ := Option.isSome_iff_exists.mp hmapped
  exact ⟨a, hsame.trans ha⟩

/-- Domain-0 of that machine is initialised in both modes. -/
theorem linuxMachine_init {dom0 : CStr} (hids : (domains.map Prod.fst).Nodup)
    (hdom0 : (0, dom0) ∈ domains) (mode : ErrorMode) (fuel : Nat) (s : XaState) :
    ∃ t, xaInitVmPrivate ((linuxMachine domains).host 0) fuel 0 mode s = .ok (.success, t) := by
  rw [xaInitVmPrivate_open rfl]
  obtain ⟨u, version, hvm, hpre, hu⟩ := linuxMachine_prelude hids hdom0
    (s := startState mode { zeroState s.ticks with domainId := 0 }) rfl
  have hos : u.osType = .linux := by
    rw [hu.params]
    rfl
  obtain ⟨a, ha⟩ := dom0_mapInitTask version hvm
  apply helperInit_linux hpre hos
  · exact (linuxKpgd_xsRead hu.sysmap).trans (dom0_linuxKpgd hu)
  · exact (symbolVirt_xsRead hu.sysmap hos initTaskSymbol).trans (dom0_initTask hu)
  · rw [hu.params]
    exact (mapInitTask_xsRead _ _ _).trans ha

/-! ## Whom a name leads to -/

/-- On every machine with these domains the function attaches to a domain that has the name
when it returns `XA_SUCCESS`. -/
def AttachesByName (init : Machine → Nat → CStr → XaM Ret) (domains : List (U32 × CStr))
    (name : CStr) : Prop :=
  ∀ m fuel s t, Machine.Lists m domains → init m fuel name s = .ok (.success, t) →
    (t.domainId, name) ∈ domains

theorem xaInitVmName_attaches_iff {dom0 : CStr} (hids : (domains.map Prod.fst).Nodup)
    (hdom0 : (0, dom0) ∈ domains) (hlen : name.length < 100) (mode : ErrorMode) :
    AttachesByName (xaInitVmName · mode) domains name ↔ ∃ id, (id, name) ∈ domains := by
  constructor
  · intro hattaches
    by_contra hnone
    have hlists := linuxMachine_lists hids
    obtain ⟨t, hrun⟩ := linuxMachine_init hids hdom0 mode 0 (zeroState 0)
    have hname : xaInitVmName (linuxMachine domains) mode 0 name (zeroState 0) =
        .ok (.success, t) := by
      unfold xaInitVmName
      rw [xaGetDomainId_zero hlists hlen hnone]
      exact hrun
    exact hnone ⟨t.domainId, hattaches _ 0 _ t hlists hname⟩
  · intro hnamed m fuel s t hlists hrun
    exact xaInitVmName_mem hlists hlen hnamed hrun

/-- Both functions attach to a domain with the requested name exactly when some domain has
it: a name that is not found leads to Domain-0. -/
theorem attachesByName_iff {dom0 : CStr} (hids : (domains.map Prod.fst).Nodup)
    (hdom0 : (0, dom0) ∈ domains) (hlen : name.length < 100) :
    (AttachesByName xaInitVmNameStrict domains name ↔ ∃ id, (id, name) ∈ domains) ∧
      (AttachesByName xaInitVmNameLax domains name ↔ ∃ id, (id, name) ∈ domains) :=
  ⟨xaInitVmName_attaches_iff hids hdom0 hlen .failhard,
    xaInitVmName_attaches_iff hids hdom0 hlen .failsoft⟩

/-- Domain-0 and one guest. -/
def twoDomains : List (U32 × CStr) := [(0, cstr "Domain-0"), (3, cstr "guest")]

theorem twoDomains_attaches :
    AttachesByName xaInitVmNameStrict twoDomains (cstr "guest") ∧
      AttachesByName xaInitVmNameLax twoDomains (cstr "guest") := by
  have hids : (twoDomains.map Prod.fst).Nodup := by decide
  have hlen : (cstr "guest").length < 100 := by decide
  have hnamed : ∃ id, (id, cstr "guest") ∈ twoDomains := ⟨3, by simp [twoDomains]⟩
  obtain ⟨hstrict, hlax⟩ := attachesByName_iff hids List.mem_cons_self hlen
  exact ⟨hstrict.mpr hnamed, hlax.mpr hnamed⟩

/-- No domain has the name, and both functions attach to Domain-0. -/
theorem twoDomains_not_attaches :
    ¬AttachesByName xaInitVmNameStrict twoDomains (cstr "typo") ∧
      ¬AttachesByName xaInitVmNameLax twoDomains (cstr "typo") := by
  have hnone : ¬∃ id, (id, cstr "typo") ∈ twoDomains := by
    rintro ⟨id, hid⟩
    have hname : cstr "typo" ∈ twoDomains.map Prod.snd := List.mem_map_of_mem hid
    revert hname
    decide
  have hids : (twoDomains.map Prod.fst).Nodup := by decide
  have hlen : (cstr "typo").length < 100 := by decide
  have hboth (mode : ErrorMode) := xaInitVmName_attaches_iff hids List.mem_cons_self hlen mode
  exact ⟨fun h => hnone ((hboth .failhard).mp h), fun h => hnone ((hboth .failsoft).mp h)⟩

end XenAccess
