import XenAccess.Maps.DumpImage
import XenAccess.Process.ModuleListing
import XenAccess.Process.ProcessListing

/-!
# What can be found out from a dump

Kernel addresses are read from the dump of a guest as from the guest (`dump_kernelMemory`). A list
of the kernel that can be followed in the guest can so be followed in its dump, and the programs
print the same lines for it (`dump_listings`), whatever the caches of the two instances hold.
-/

namespace XenAccess

open Prog

variable {h h' : Host} {p p' : XaParams} {fuel : Nat} {node listHead : U32}

/-! ## Values -/

/-- A value of the kernel that lies in one page is read in every state of an instance. -/
theorem xaReadLongVirt_kernel (hps : p.pageSize = 4096) (hshift : p.pageShift = 12) {s : XaState}
    (hs : Sound h p fuel s) {v value : U32} (hpage : InPageOf v v 4) (hv : KernelU32 h p v value) :
    ∃ t, xaReadLongVirt h fuel v 0 s = .ok (some value, t) := by
  have hfirst := hv 0 (by decide)
  rw [BitVec.add_zero] at hfirst
  obtain ⟨a, ha⟩ := mapped_of_kernelByte hshift hfirst
  obtain ⟨t, hrun, -⟩ := follows_exists (xaAccessUserVa_follows hps hs v 0 protRead)
    (refUserVa_kernel h p fuel v protRead)
  have hshown := u32_shown hps hshift ha hpage hv
  rw [BitVec.sub_self] at hshown
  refine ⟨t, ?_⟩
  rw [xaReadLongVirt, bind_of_ok hrun, ha]
  show Except.ok (some (a.memory.u32 a.offset), t) = _
  rw [← hshown]
  exact congrArg (fun d => Except.ok (some (a.memory.u32 d), t)) (BitVec.add_zero _).symm

/-- **The kernel memory of a dump.** Whatever has been read before, of the guest and of its dump,
`xa_read_long_virt` returns the same value for a kernel address of both, when the value lies in
one page. -/
theorem dump_kernelMemory (h h' : Host) (fuel : Nat) (s₀ s s₀' s' : XaState)
    (D : OfDump h s₀.toXaParams h' s₀'.toXaParams) (calls calls' : List Call)
    (hrun : runCalls h fuel calls s₀.clear = .ok ((), s))
    (hrun' : runCalls h' fuel calls' s₀'.clear = .ok ((), s')) (v value : U32)
    (hpage : InPageOf v v 4) (hv : KernelU32 h s₀.toXaParams v value) :
    ∃ t t', xaReadLongVirt h fuel v 0 s = .ok (some value, t) ∧
      xaReadLongVirt h' fuel v 0 s' = .ok (some value, t') := by
  have hs := sound_of_runCalls D.pageSize hrun
  have hs' := sound_of_runCalls D.layout.pageSize hrun'
  obtain ⟨t, ht⟩ := xaReadLongVirt_kernel D.pageSize D.pageShift hs hpage hv
  obtain ⟨t', ht'⟩ := xaReadLongVirt_kernel D.layout.pageSize D.layout.pageShift hs' hpage
    (D.kernelU32 hv)
  exact ⟨t, t', ht, ht'⟩

/-! ## Lists -/

/-- The bytes that the mapping of a node shows are those of the kernel. -/
theorem kernelByte_of_access (hps : p.pageSize = 4096) (hshift : p.pageShift = 12) {a : Access}
    (ha : refKernelVa h p node protRead = some a) {i : Nat} (hi : node.toNat % 4096 + i < 4096) :
    kernelByte h p (node + BitVec.ofNat 32 i) = some (a.memory (a.offset + BitVec.ofNat 32 i)) := by
  rw [refKernelVa, accessTranslated] at ha
  split at ha
  · cases ha
  · rename_i hne
    have hv : refTranslate h p 0 0 node = .ok (xaTranslateKv2p h p node) := rfl
    have hoff := (Traced.refTranslate_add hv hne).1
    obtain ⟨memory, hmemory, rfl⟩ := Option.map_eq_some_iff.mp ha
    rw [hshift] at hmemory
    rw [kernelByte, Traced.virtByte_add hv hne hi, Traced.machByte,
      Traced.frameByte_add (by omega), hmemory, hps]
    rfl

/-- The link of a node, which lies in its page. -/
theorem link_iff (hps : p.pageSize = 4096) (hshift : p.pageShift = 12)
    (hpage : InPageOf node node 4) {next : U32} :
    link h p node = some next ↔ KernelU32 h p node next := by
  constructor
  · intro hlink i hi
    obtain ⟨a, ha, rfl⟩ := link_eq_some hlink
    have hroom := hpage.2
    rw [kernelByte_of_access hps hshift ha (by omega), Traced.u32_byte a.memory a.offset hi]
  · intro hnext
    have hfirst := hnext 0 (by decide)
    rw [BitVec.add_zero] at hfirst
    obtain ⟨a, ha⟩ := mapped_of_kernelByte hshift hfirst
    have hshown := u32_shown hps hshift ha hpage hnext
    have hzero : a.offset + (node - node) = a.offset := by bv_omega
    rw [hzero] at hshown
    rw [link, ha, Option.map_some, hshown]

namespace OfDump

variable (D : OfDump h p h' p')
include D

theorem link {next : U32} (hpage : InPageOf node node 4) (hlink : XenAccess.link h p node = some next) :
    XenAccess.link h' p' node = some next := by
  rw [link_iff D.layout.pageSize D.layout.pageShift hpage]
  exact D.kernelU32 ((link_iff D.pageSize D.pageShift hpage).mp hlink)

/-- A ring of the guest is one of its dump. -/
def ring (R : LinkRing h p listHead) (hpages : ∀ node ∈ R.nodes, InPageOf node node 4) :
    LinkRing h' p' listHead where
  nodes := R.nodes
  head := R.head
  nodup := R.nodup
  chain := by
    obtain ⟨rest, hnodes⟩ := R.nodes_eq
    apply R.chain.imp_of_mem_imp
    intro x y hx _ hlink
    have hmem : x ∈ R.nodes := by
      rcases List.mem_append.mp hx with hx | hx
      · exact hx
      · rw [List.mem_singleton.mp hx, hnodes]
        exact List.mem_cons_self
    exact D.link (hpages x hmem) hlink

theorem task {o : ListOffsets} {pid : U32} {name : CStr} (htask : TaskAt h p o node pid name) :
    TaskAt h' p' o node pid name :=
  ⟨htask.pidPage, D.kernelU32 htask.pid, htask.namePage, D.kernelString htask.name⟩

theorem kernelBytes {v : U32} {bytes : List U8} (hbytes : KernelBytes h p v bytes) :
    KernelBytes h' p' v bytes :=
  fun i hi => D.kernelByte_eq (hbytes i hi)

theorem linuxModule {name : CStr} (hmodule : LinuxModuleAt h p node name) :
    LinuxModuleAt h' p' node name :=
  ⟨hmodule.page, D.kernelString hmodule.name⟩

theorem windowsModule {name : CStr} (hmodule : WindowsModuleAt h p node name) :
    WindowsModuleAt h' p' node name := by
  obtain ⟨addr, haddr, hu⟩ := hmodule.buffer
  exact ⟨hmodule.lengthPage, D.kernelBytes hmodule.length, hmodule.bufferPage,
    ⟨addr, D.kernelU32 haddr, hu.page, D.kernelBytes hu.bytes, hu.ne_nil, hu.nul⟩, hmodule.nul⟩

end OfDump

/-! ## Listings -/

/-- **The listings of a dump.** On a ring of the kernel whose links lie in their pages, the loops of
`process-list` and `module-list` print the same lines in the guest and in its dump, in all
states reached by calls from empty caches. -/
theorem dump_listings (h h' : Host) (fuel : Nat) (s₀ s s₀' s' : XaState)
    (D : OfDump h s₀.toXaParams h' s₀'.toXaParams) (calls calls' : List Call)
    (hrun : runCalls h fuel calls s₀.clear = .ok ((), s))
    (hrun' : runCalls h' fuel calls' s₀'.clear = .ok ((), s')) (listHead : U32)
    (R : LinkRing h s₀.toXaParams listHead) (hpages : ∀ node ∈ R.nodes, InPageOf node node 4) :
    (∀ (o : ListOffsets) (pidOf : U32 → U32) (nameOf : U32 → CStr),
      (∀ node ∈ R.nodes.dropLast, TaskAt h s₀.toXaParams o node (pidOf node) (nameOf node)) →
      ∃ lines t t', lines = processesLines pidOf nameOf R.nodes.dropLast ∧
        listLoop h (fun a => return processLines o a) listHead R.nodes.length listHead s =
          .ok ((lines, true), t) ∧
        listLoop h' (fun a => return processLines o a) listHead R.nodes.length listHead s' =
          .ok ((lines, true), t')) ∧
    (∀ nameOf : U32 → CStr,
      (∀ node ∈ R.nodes.dropLast, LinuxModuleAt h s₀.toXaParams node (nameOf node)) →
      ∃ lines t t', lines = (R.nodes.dropLast.map fun node => nameOf node ++ [10]) ∧
        listLoop h (fun a => return linuxModuleLines a) listHead R.nodes.length listHead s =
          .ok ((lines, true), t) ∧
        listLoop h' (fun a => return linuxModuleLines a) listHead R.nodes.length listHead s' =
          .ok ((lines, true), t')) ∧
    (∀ nameOf : U32 → CStr,
      (∀ node ∈ R.nodes.dropLast, WindowsModuleAt h s₀.toXaParams node (nameOf node)) →
      ∃ lines t t', lines = (R.nodes.dropLast.map fun node => nameOf node ++ [10]) ∧
        listLoop h (windowsModuleLines h) listHead R.nodes.length listHead s =
          .ok ((lines, true), t) ∧
        listLoop h' (windowsModuleLines h') listHead R.nodes.length listHead s' =
          .ok ((lines, true), t')) := by
  have hps := D.pageSize
  have hshift := D.pageShift
  have hps' := D.layout.pageSize
  have hshift' := D.layout.pageShift
  have hs := sound_of_runCalls hps hrun
  have hs' := sound_of_runCalls hps' hrun'
  let R' := D.ring R hpages
  refine ⟨fun o pidOf nameOf htasks => ?_, fun nameOf hmodules => ?_, fun nameOf hmodules => ?_⟩
  · obtain ⟨t, hlist, -⟩ := R.listLoop_eq hps (rowFollows_pure (processLines o)) hs
    obtain ⟨t', hlist', -⟩ := R'.listLoop_eq hps' (rowFollows_pure (processLines o)) hs'
    rw [R.taskLines_eq hps hshift htasks] at hlist
    rw [R'.taskLines_eq hps' hshift' fun node hnode => D.task (htasks node hnode)] at hlist'
    exact ⟨_, t, t', rfl, hlist, hlist'⟩
  · obtain ⟨t, hlist, -⟩ := R.listLoop_eq hps (rowFollows_pure linuxModuleLines) hs
    obtain ⟨t', hlist', -⟩ := R'.listLoop_eq hps' (rowFollows_pure linuxModuleLines) hs'
    rw [R.nameLines_eq fun node hnode a ha => (hmodules node hnode).lines hps hshift ha] at hlist
    rw [R'.nameLines_eq fun node hnode a ha =>
      (D.linuxModule (hmodules node hnode)).lines hps' hshift' ha] at hlist'
    exact ⟨_, t, t', rfl, hlist, hlist'⟩
  · obtain ⟨t, hlist, -⟩ := R.listLoop_eq hps (windowsModuleLines_follows hps) hs
    obtain ⟨t', hlist', -⟩ := R'.listLoop_eq hps' (windowsModuleLines_follows hps') hs'
    rw [R.nameLines_eq fun node hnode a ha => (hmodules node hnode).lines hps hshift ha] at hlist
    rw [R'.nameLines_eq fun node hnode a ha =>
      (D.windowsModule (hmodules node hnode)).lines hps' hshift' ha] at hlist'
    exact ⟨_, t, t', rfl, hlist, hlist'⟩

/-! ### A guest of four pages -/

/-- A fully virtualised guest with four pages and the process `bash`; its page directory maps
`0xC0000000` to the start of its memory. -/
def dumpedWords : Words :=
  [(0x1C00, 0x83), (0x2060, 0xC0003060), (0x209C, 4), (0x2194, 0x68736162), (0x3060, 0xC0002060)]

def dumpedHost : Host :=
  { imageHost dumpedWords with
    xcMapForeignRange := fun _ mfn =>
      if mfn.toNat < 4 then some (imagePage dumpedWords (mfn <<< 12)) else none
    xcVcpuGetcontext := some ⟨0, 0x1000, 0⟩ }

def dumpedState : XaState :=
  { zeroState 0 with mode := .xen, hvm := true, pageShift := 12, pageSize := 4096, size := 0x4000 }

/-- The instance for its dump. -/
def dumpState : XaState :=
  { imageState .linux 0xC0000000 0xC0001000 0xC0002060 ⟨0x60, 0x78, 0x9C, 0x24, 0x80, 0, 0⟩ with
    size := 0x4000 }

/-- A walk whose page directory can be mapped and leads to no page tables. -/
theorem nopaeWalk_isSome {mem : Nat → Option U32} {cr3 v : Nat} (hv : v < 2 ^ 32)
    (hentries : ∀ i < 1024, ∃ w, mem (4096 * (cr3 / 4096) + 4 * i) = some w ∧
      (w.getLsbD 0 = true → w.getLsbD 7 = true)) : (nopaeWalk mem cr3 v).isSome := by
  obtain ⟨w, hw, hlarge⟩ := hentries (v / 2 ^ 22) (by omega)
  rw [nopaeWalk, hw]
  show (if w.getLsbD 0 = true then _ else _ : Option Nat).isSome
  split_ifs with hpresent hbit
  · rfl
  · exact absurd (hlarge hpresent) hbit
  · rfl

theorem dumpedHost_entry {i : Nat} (hi : i < 1024) :
    ∃ w, machWord dumpedHost dumpedState.toXaParams (4096 * ((0x1000 : U32).toNat / 4096) + 4 * i) =
      some w ∧ (w.getLsbD 0 = true → w.getLsbD 7 = true) := by
  have hsum : 4096 * ((0x1000 : U32).toNat / 4096) + 4 * i = 4096 + 4 * i := rfl
  have hframe : (4096 + 4 * i) / 4096 = 1 := by omega
  have hoffset : (4096 + 4 * i) % 4096 = 4 * i := by omega
  have hpage : machWord dumpedHost dumpedState.toXaParams (4096 + 4 * i) =
      some ((imagePage dumpedWords 0x1000).u32 (BitVec.ofNat 32 (4 * i))) := by
    rw [machWord, hframe, hoffset]
    rfl
  rw [hsum, hpage, imagePage_u32]
  · refine ⟨_, rfl, ?_⟩
    cases hlookup : dumpedWords.lookup (0x1000 + BitVec.ofNat 32 (4 * i)) with
    | none => exact fun hbit => by simp at hbit
    | some w =>
      have hall : ∀ e ∈ dumpedWords, e.2.getLsbD 0 = true → e.2.getLsbD 7 = true := by
        simp [dumpedWords]
      obtain ⟨k, hk⟩ : ∃ k, (k, w) ∈ dumpedWords := by
        obtain ⟨l, r, hsplit, -⟩ := List.lookup_eq_some_iff.mp hlookup
        exact ⟨_, hsplit ▸ List.mem_append_right l List.mem_cons_self⟩
      exact hall _ hk
  · rw [BitVec.toNat_add, BitVec.toNat_ofNat]
    show (4096 + 4 * i % 2 ^ 32) % 2 ^ 32 % 4 = 0
    omega

theorem dumpedHost_inside {a : Nat} (ha : (physByte dumpedHost dumpedState.toXaParams a).isSome) :
    a < 4096 * pageCount dumpedState.size := by
  have hcount : 4096 * pageCount dumpedState.size = 0x4000 := rfl
  rw [hcount]
  obtain ⟨b, hb⟩ := Option.isSome_iff_exists.mp ha
  rw [physByte] at hb
  split at hb
  · rename_i hlt
    obtain ⟨acc, hacc, -⟩ := Option.map_eq_some_iff.mp hb
    obtain ⟨m, hm, -⟩ := Option.map_eq_some_iff.mp hacc
    have hframe : (BitVec.ofNat 32 a >>> dumpedState.pageShift).toNat = a / 4096 := by
      rw [frame_eq_ofNat rfl, BitVec.toNat_ofNat, BitVec.toNat_ofNat]
      omega
    by_contra hge
    have hnone : xaMapPage dumpedHost dumpedState.toXaParams protRead
        (BitVec.ofNat 32 a >>> dumpedState.pageShift) = none := by
      refine if_neg ?_
      rw [hframe]
      omega
    rw [xaMmapPfn] at hm
    split_ifs at hm
    obtain ⟨memory, hmemory, -⟩ := Option.map_eq_some_iff.mp hm
    cases hnone.symm.trans hmemory
  · cases hb

theorem dumpedHost_ofDump : OfDump dumpedHost dumpedState.toXaParams
    (fileHost (dumpFile dumpedHost dumpedState.toXaParams)) dumpState.toXaParams where
  pageSize := rfl
  pageShift := rfl
  hvm := rfl
  small := by decide
  file := fileHost_holds _
  layout := ⟨rfl, by rw [length_dumpFile]; rfl, rfl, rfl⟩
  pae := rfl
  root := rfl
  inside _ ha := dumpedHost_inside ha
  walks v _ := by
    have hroot : xaCurrentCr3 dumpedHost dumpedState.toXaParams 0 = 0x1000 := rfl
    rw [hroot]
    exact nopaeWalk_isSome v.isLt fun i hi => dumpedHost_entry hi

def dumpedRing : LinkRing dumpedHost dumpedState.toXaParams 0xC0002060 where
  nodes := [0xC0002060, 0xC0003060]
  head := rfl
  nodup := by decide
  chain := by decide

theorem dumpedRing_pages : ∀ node ∈ dumpedRing.nodes, InPageOf node node 4 := by
  intro node hnode
  rcases List.mem_cons.mp hnode with rfl | hnode
  · decide
  · obtain rfl : node = 0xC0003060 := List.mem_singleton.mp hnode
    decide

theorem bash_at : TaskAt dumpedHost dumpedState.toXaParams ⟨0x60, 0x9C, 0x194⟩ 0xC0002060 4
    (cstr "bash") where
  pidPage := by decide
  pid := by decide
  namePage := by decide
  name := by decide

theorem bash_pid_dumped : ∃ t t',
    xaReadLongVirt dumpedHost 0 0xC000209C 0 dumpedState.clear = .ok (some 4, t) ∧
      xaReadLongVirt (fileHost (dumpFile dumpedHost dumpedState.toXaParams)) 0 0xC000209C 0
        dumpState.clear = .ok (some 4, t') := by
  have hpid : KernelU32 dumpedHost dumpedState.toXaParams 0xC000209C 4 := by decide
  exact dump_kernelMemory dumpedHost _ 0 dumpedState dumpedState.clear dumpState dumpState.clear
    dumpedHost_ofDump [] [] rfl rfl 0xC000209C 4 (by decide) hpid

theorem bash_dumped : ∃ lines t t', lines = [printProcess 4 (cstr "bash")] ∧
    listLoop dumpedHost (fun a => return processLines ⟨0x60, 0x9C, 0x194⟩ a) 0xC0002060 2
      0xC0002060 dumpedState.clear = .ok ((lines, true), t) ∧
    listLoop (fileHost (dumpFile dumpedHost dumpedState.toXaParams))
      (fun a => return processLines ⟨0x60, 0x9C, 0x194⟩ a) 0xC0002060 2 0xC0002060
      dumpState.clear = .ok ((lines, true), t') := by
  refine (dump_listings dumpedHost _ 0 dumpedState dumpedState.clear dumpState dumpState.clear
    dumpedHost_ofDump [] [] rfl rfl 0xC0002060 dumpedRing dumpedRing_pages).1 ⟨0x60, 0x9C, 0x194⟩
    (fun _ => 4) (fun _ => cstr "bash") ?_
  intro node hnode
  obtain rfl : node = 0xC0002060 := List.mem_singleton.mp hnode
  exact bash_at

end XenAccess
