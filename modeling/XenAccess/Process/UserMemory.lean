import Mathlib.Data.List.Find
import XenAccess.Process.ProcessListing

/-!
# The memory of a process

An access to an address of a process looks the process up on the list of the guest, takes its page
directory from its structure and walks that. `processMemory_read` says what is read in the end,
for a list whose structures do not cross pages: the value under the page directory of the first
process with the pid, and nothing for a pid that no process has. The functions that return
structures of a process are right on such lists (`processStructures_right`).
-/

namespace XenAccess

open Prog

variable {h : Host} {p : XaParams} {fuel : Nat} {node pgd pid v : U32} {a : Access}

/-! ## Values in the memory of a process -/

/-- The byte at a virtual address under a page directory. -/
def pgdByte (h : Host) (p : XaParams) (pgd v : U32) : Option U8 :=
  let m := lookupBelow h p pgd v
  if m = 0 then none else Traced.machByte h p m

/-- The 32-bit value at a virtual address under a page directory. -/
def PgdU32 (h : Host) (p : XaParams) (pgd v value : U32) : Prop :=
  ∀ i < 4, pgdByte h p pgd (v + BitVec.ofNat 32 i) = some (value.extractLsb' (8 * i) 8)

instance (value : U32) : Decidable (PgdU32 h p pgd v value) :=
  inferInstanceAs (Decidable (∀ i < 4, _ = _))

theorem virtByte_eq_pgdByte (hpid : pid ≠ 0) (hpgd : refPidToPgd h p fuel pid = .ok pgd) :
    Traced.virtByte h p fuel pid v = pgdByte h p pgd v := by
  rw [Traced.virtByte, refTranslate, if_neg hpid, hpgd]
  rfl

/-- A 32-bit read returns the value of the bytes, and nothing if one of them is missing. -/
theorem xaReadLongVirt_iff (hps : p.pageSize = 4096) (hshift : p.pageShift = 12) {s : XaState}
    (hs : Sound h p fuel s) {m : U32} (hm : refTranslate h p fuel pid v = .ok m)
    (hpage : InPageOf v v 4) :
    ∃ r t, xaReadLongVirt h fuel v pid s = .ok (r, t) ∧ Sound h p fuel t ∧
      ∀ value : U32, r = some value ↔ ∀ i < 4,
        Traced.virtByte h p fuel pid (v + BitVec.ofNat 32 i) =
          some (value.extractLsb' (8 * i) 8) := by
  have href : refUserVa h p fuel v pid protRead = .ok (accessTranslated h p m protRead) := by
    rw [refUserVa, hm]
    rfl
  obtain ⟨t, hrun, ht⟩ := follows_exists (xaAccessUserVa_follows hps hs v pid protRead) href
  refine ⟨(accessTranslated h p m protRead).map Access.long, t, ?_, ht, fun value => ?_⟩
  · rw [xaReadLongVirt, bind_of_ok hrun]
    rfl
  have hfirst : Traced.virtByte h p fuel pid (v + BitVec.ofNat 32 0) =
      if m = 0 then none else Traced.machByte h p m := by
    rw [BitVec.add_zero, Traced.virtByte, hm]
  rw [accessTranslated]
  by_cases hzero : m = 0
  · rw [if_pos hzero, Option.map_none]
    rw [if_pos hzero] at hfirst
    constructor
    · intro hnone
      cases hnone
    · intro hall
      cases hfirst.symm.trans (hall 0 (by decide))
  · rw [if_neg hzero] at hfirst ⊢
    obtain ⟨hoff, -⟩ := Traced.refTranslate_add hm hzero
    have hroom := hpage.2
    cases hacc : xaAccessMa h p m protRead with
    | none =>
      have hnone : Traced.machByte h p m = none := by
        rw [xaAccessMa, hshift, Option.map_eq_none_iff] at hacc
        have hframe : xaMmapMfn h p protRead (m >>> (12 : U32)) = none := hacc
        rw [Traced.machByte, Traced.frameByte_eq, hframe, Option.map_none]
      rw [hnone] at hfirst
      constructor
      · intro hsome
        cases hsome
      · intro hall
        cases hfirst.symm.trans (hall 0 (by decide))
    | some acc =>
      have hbytes : ∀ i < 4, Traced.virtByte h p fuel pid (v + BitVec.ofNat 32 i) =
          some (acc.long.extractLsb' (8 * i) 8) := by
        intro i hi
        rw [Traced.virtByte_add hm hzero (by omega)]
        exact readMach_bytes hps hshift Traced.long_littleEndian (by omega) hacc hi
      rw [Option.map_some, Option.some.injEq]
      constructor
      · rintro rfl
        exact hbytes
      · intro hall
        apply eq_of_bytes (n := 4)
        intro i hi
        exact Option.some.inj ((hbytes i hi).symm.trans (hall i hi))

/-- A read below the page directory of the process. -/
theorem xaReadLongVirt_pgd (hps : p.pageSize = 4096) (hshift : p.pageShift = 12) {s : XaState}
    (hs : Sound h p fuel s) (hpid : pid ≠ 0) (hpgd : refPidToPgd h p fuel pid = .ok pgd)
    (hpage : InPageOf v v 4) :
    ∃ r t, xaReadLongVirt h fuel v pid s = .ok (r, t) ∧ Sound h p fuel t ∧
      ∀ value : U32, r = some value ↔ PgdU32 h p pgd v value := by
  have hm : refTranslate h p fuel pid v = .ok (lookupBelow h p pgd v) := by
    rw [refTranslate, if_neg hpid, hpgd]
    rfl
  obtain ⟨r, t, hrun, ht, hr⟩ := xaReadLongVirt_iff hps hshift hs hm hpage
  refine ⟨r, t, hrun, ht, fun value => (hr value).trans ?_⟩
  simp only [virtByte_eq_pgdByte hpid hpgd]
  rfl

/-! ## Processes on the list -/

/-- A field of the structure of a process, in the page of its link. -/
structure FieldAt (h : Host) (p : XaParams) (fieldOffset tasksOffset node value : U32) :
    Prop where
  page : InPageOf node (node + fieldOffset - tasksOffset) 4
  value : KernelU32 h p (node + fieldOffset - tasksOffset) value

theorem FieldAt.shown (hps : p.pageSize = 4096) (hshift : p.pageShift = 12)
    {fieldOffset tasksOffset value : U32} (hfield : FieldAt h p fieldOffset tasksOffset node value)
    (ha : refKernelVa h p node protRead = some a) :
    a.memory.u32 (a.offset + fieldOffset - tasksOffset) = value := by
  have hshown := u32_shown hps hshift ha hfield.page hfield.value
  have hdisplacement : a.offset + (node + fieldOffset - tasksOffset - node) =
      a.offset + fieldOffset - tasksOffset := by bv_omega
  rwa [hdisplacement] at hshown

/-- More rounds do not change the outcome. -/
theorem refTaskLoop_of_le {pidOffset tasksOffset listHead : U32} {m n : Nat} {r : Option Access}
    (hr : refTaskLoop h p pidOffset tasksOffset pid listHead m node = .ok r) (hmn : m ≤ n) :
    refTaskLoop h p pidOffset tasksOffset pid listHead n node = .ok r := by
  induction m generalizing n node with
  | zero => cases hr
  | succ m ih =>
    cases n with
    | zero => omega
    | succ n =>
      rw [refTaskLoop] at hr ⊢
      cases hacc : refKernelVa h p node protRead with
      | none =>
        rw [hacc] at hr
        exact hr
      | some a =>
        simp only [hacc] at hr ⊢
        split_ifs at hr ⊢
        · exact hr
        · exact hr
        · exact ih hr (by omega)

section

variable (hps : p.pageSize = 4096) (hshift : p.pageShift = 12) (R : LinkRing h p p.initTask)
  {pidOffset tasksOffset : U32} {pidOf : U32 → U32}
  (hpids : ∀ node ∈ R.nodes.dropLast, FieldAt h p pidOffset tasksOffset node (pidOf node))
include hps hshift hpids

/-- The loop finds the first process with the pid. -/
theorem LinkRing.refTaskLoop_first (hfuel : R.nodes.length ≤ fuel) (pid : U32) :
    refTaskLoop h p pidOffset tasksOffset pid p.initTask fuel p.initTask =
      .ok ((R.nodes.dropLast.find? fun node => pidOf node = pid).bind
        fun node => refKernelVa h p node protRead) := by
  let L := R.toProcessList rfl pidOffset tasksOffset
  have hfirst : L.firstWith pid = R.nodes.dropLast.find? fun node => pidOf node = pid := by
    apply List.find?_congr
    intro node hnode
    obtain ⟨a, ha⟩ := R.mapped (List.dropLast_subset _ hnode)
    have hfield : pidField h p pidOffset tasksOffset node = some (pidOf node) := by
      rw [pidField, ha, Option.map_some, (hpids node hnode).shown hps hshift ha]
    simp only [hfield, Option.some.injEq]
  have hloop := refTaskLoop_of_le (L.refTaskLoop_eq pid) hfuel
  rwa [hfirst] at hloop

end

/-! ## Page directories -/

/-- The page directory of a Linux task: `pgd` of its `mm_struct` is a virtual address. -/
structure LinuxTask (h : Host) (p : XaParams) (node ptr pgd : U32) : Prop where
  mm : FieldAt h p p.os.linuxMm p.os.linuxTasks node ptr
  pgdPage : InPageOf (ptr + p.os.linuxPgd) (ptr + p.os.linuxPgd) 4
  pgd : ∃ va, KernelU32 h p (ptr + p.os.linuxPgd) va ∧ xaTranslateKv2p h p va = pgd

section

variable (hps : p.pageSize = 4096) (hshift : p.pageShift = 12)
include hps hshift

theorem LinuxTask.pgd_eq {ptr : U32} (htask : LinuxTask h p node ptr pgd)
    (ha : refKernelVa h p node protRead = some a) : linuxTaskPgd h p a = pgd := by
  obtain ⟨va, hva, hpgd⟩ := htask.pgd
  have hfirst := hva 0 (by decide)
  rw [BitVec.add_zero] at hfirst
  obtain ⟨b, hb⟩ := mapped_of_kernelByte hshift hfirst
  have hshown := u32_shown hps hshift hb htask.pgdPage hva
  have hzero (x : U32) : b.offset + (x - x) = b.offset := by bv_omega
  rw [hzero] at hshown
  rw [linuxTaskPgd, htask.mm.shown hps hshift ha, hb, Option.map_some, Option.getD_some,
    Access.long, hshown, hpgd]

variable (R : LinkRing h p p.initTask) {pidOf : U32 → U32} (hfuel : R.nodes.length ≤ fuel)
  (hnone : (R.nodes.dropLast.find? fun node => pidOf node = pid) = none → pgd = 0)
include hfuel hnone

theorem LinkRing.linuxPgd (hos : p.osType = .linux)
    (hpids : ∀ node ∈ R.nodes.dropLast, FieldAt h p p.os.linuxPid p.os.linuxTasks node (pidOf node))
    (htask : ∀ node, (R.nodes.dropLast.find? fun node => pidOf node = pid) = some node →
      ∃ ptr, LinuxTask h p node ptr pgd) : refPidToPgd h p fuel pid = .ok pgd := by
  have hloop := R.refTaskLoop_first hps hshift hpids hfuel pid
  rw [refPidToPgd, hos]
  cases hfirst : R.nodes.dropLast.find? fun node => pidOf node = pid with
  | none =>
    rw [hfirst] at hloop
    simp only [hloop]
    rw [hnone hfirst]
    rfl
  | some node =>
    obtain ⟨a, ha⟩ := R.mapped (List.dropLast_subset _ (List.mem_of_find?_eq_some hfirst))
    obtain ⟨ptr, htask⟩ := htask node hfirst
    rw [hfirst, Option.bind_some, ha] at hloop
    simp only [hloop]
    exact congrArg Except.ok (htask.pgd_eq hps hshift ha)

theorem LinkRing.windowsPgd (hos : p.osType = .windows)
    (hpids : ∀ node ∈ R.nodes.dropLast, FieldAt h p p.os.winPid p.os.winTasks node (pidOf node))
    (htask : ∀ node, (R.nodes.dropLast.find? fun node => pidOf node = pid) = some node →
      FieldAt h p p.os.winPdbase p.os.winTasks node pgd) : refPidToPgd h p fuel pid = .ok pgd := by
  have hloop := R.refTaskLoop_first hps hshift hpids hfuel pid
  rw [refPidToPgd, hos]
  cases hfirst : R.nodes.dropLast.find? fun node => pidOf node = pid with
  | none =>
    rw [hfirst] at hloop
    simp only [hloop]
    rw [hnone hfirst]
    rfl
  | some node =>
    obtain ⟨a, ha⟩ := R.mapped (List.dropLast_subset _ (List.mem_of_find?_eq_some hfirst))
    rw [hfirst, Option.bind_some, ha] at hloop
    simp only [hloop]
    exact congrArg Except.ok ((htask node hfirst).shown hps hshift ha)

end

/-- **What is read from the memory of a process.** In every state reached by calls from empty caches
and for a well-formed list, `xa_read_long_virt` returns for a pid exactly the value whose bytes
stand at the address under the page directory of the first process with the pid, the last node of
the list excepted. Where one of them is not mapped it returns nothing, and so it does for a pid
that no process has. -/
theorem processMemory_read (h : Host) (fuel : Nat) (s₀ s : XaState) (hps : s₀.pageSize = 4096)
    (hshift : s₀.pageShift = 12) (calls : List Call)
    (hrun : runCalls h fuel calls s₀.clear = .ok ((), s))
    (R : LinkRing h s₀.toXaParams s₀.initTask) (hfuel : R.nodes.length ≤ fuel)
    (pidOf : U32 → U32) (pid pgd : U32) (hpid : pid ≠ 0)
    (hnone : (R.nodes.dropLast.find? fun node => pidOf node = pid) = none → pgd = 0) (v : U32)
    (hpage : InPageOf v v 4) :
    (s₀.osType = .linux →
      (∀ node ∈ R.nodes.dropLast,
        FieldAt h s₀.toXaParams s₀.os.linuxPid s₀.os.linuxTasks node (pidOf node)) →
      (∀ node, (R.nodes.dropLast.find? fun node => pidOf node = pid) = some node →
        ∃ ptr, LinuxTask h s₀.toXaParams node ptr pgd) →
      ∃ r t, xaReadLongVirt h fuel v pid s = .ok (r, t) ∧
        ∀ value : U32, r = some value ↔ PgdU32 h s₀.toXaParams pgd v value) ∧
    (s₀.osType = .windows →
      (∀ node ∈ R.nodes.dropLast,
        FieldAt h s₀.toXaParams s₀.os.winPid s₀.os.winTasks node (pidOf node)) →
      (∀ node, (R.nodes.dropLast.find? fun node => pidOf node = pid) = some node →
        FieldAt h s₀.toXaParams s₀.os.winPdbase s₀.os.winTasks node pgd) →
      ∃ r t, xaReadLongVirt h fuel v pid s = .ok (r, t) ∧
        ∀ value : U32, r = some value ↔ PgdU32 h s₀.toXaParams pgd v value) := by
  have hs := sound_of_runCalls hps hrun
  constructor
  · intro hos hpids htask
    have hpgd := R.linuxPgd hps hshift hfuel hnone hos hpids htask
    obtain ⟨r, t, hread, -, hr⟩ := xaReadLongVirt_pgd hps hshift hs hpid hpgd hpage
    exact ⟨r, t, hread, hr⟩
  · intro hos hpids htask
    have hpgd := R.windowsPgd hps hshift hfuel hnone hos hpids htask
    obtain ⟨r, t, hread, -, hr⟩ := xaReadLongVirt_pgd hps hshift hs hpid hpgd hpage
    exact ⟨r, t, hread, hr⟩

/-! ### A Linux guest -/

/-- A Linux guest with the process `init`, which has a program header in its memory. -/
def initHost : Host :=
  linuxHost [(0x1C00, 0x83), (0x7060, 0xC0006060), (0x6060, 0xC0007060), (0x609C, 1),
    (0x6078, 0xC0004000), (0x4024, 0xC0003000), (0x3080, 0x83), (0x48000, 0x464C457F)] none

def initState : XaState :=
  imageState .linux 0xC0000000 0xC0001000 0xC0006060 ⟨0x60, 0x78, 0x9C, 0x24, 0x80, 0, 0⟩

def initRing : LinkRing initHost initState.toXaParams 0xC0006060 where
  nodes := [0xC0006060, 0xC0007060]
  head := rfl
  nodup := by decide
  chain := by decide

theorem initHost_pids : ∀ node ∈ initRing.nodes.dropLast,
    FieldAt initHost initState.toXaParams 0x9C 0x60 node 1 := by
  intro node hnode
  obtain rfl : node = 0xC0006060 := List.mem_singleton.mp hnode
  exact ⟨by decide, by decide⟩

theorem initHost_task : LinuxTask initHost initState.toXaParams 0xC0006060 0xC0004000 0x3000 where
  mm := ⟨by decide, by decide⟩
  pgdPage := by decide
  pgd := ⟨0xC0003000, by decide, by decide⟩

theorem initHost_read : ∃ r t, xaReadLongVirt initHost 2 0x08048000 1 initState.clear =
    .ok (r, t) ∧ ∀ value : U32, r = some value ↔
      PgdU32 initHost initState.toXaParams 0x3000 0x08048000 value := by
  refine (processMemory_read initHost 2 initState initState.clear rfl rfl [] rfl initRing le_rfl
    (fun _ => 1) 1 0x3000 (by decide) (fun hnone => ?_) 0x08048000 (by decide)).1 rfl
    initHost_pids fun node hnode => ?_
  · cases hnone
  · obtain rfl : node = 0xC0006060 :=
      List.mem_singleton.mp (List.mem_of_find?_eq_some hnode)
    exact ⟨_, initHost_task⟩

example : PgdU32 initHost initState.toXaParams 0x3000 0x08048000 0x464C457F := by decide

/-! ## Structures of a process -/

/-- The fields of `xa_linux_taskaddr_t` in their order. -/
def XaLinuxTaskaddr.words (addr : XaLinuxTaskaddr) : List U32 :=
  [addr.startCode, addr.endCode, addr.startData, addr.endData, addr.startBrk, addr.brk,
    addr.startStack, addr.argStack, addr.argEnd, addr.envStart, addr.envEnd]

theorem XaLinuxTaskaddr.words_inj {x y : XaLinuxTaskaddr} (heq : x.words = y.words) : x = y := by
  obtain ⟨⟩ := x
  obtain ⟨⟩ := y
  simpa [words] using heq

theorem words_taskaddr (memory : Page) (d : U32) : (memory.taskaddr d).words =
    (List.range 11).map fun i => memory.u32 (d + BitVec.ofNat 32 (4 * i)) := by
  have hfirst : memory.u32 (d + BitVec.ofNat 32 (4 * 0)) = memory.u32 d :=
    congrArg memory.u32 (BitVec.add_zero d)
  rw [List.range_succ_eq_map, List.map_cons, hfirst, List.map_map]
  rfl

/-- The addresses of a Linux task in the page of its `mm_struct`. An `mm_struct` at the machine
address 0 counts as one that is not mapped. -/
structure TaskaddrAt (h : Host) (p : XaParams) (ptr : U32) (addr : XaLinuxTaskaddr) : Prop where
  mapped : (refKernelVa h p ptr protRead).isSome
  page : InPageOf ptr (ptr + p.os.linuxAddr) 44
  words : ∀ i (hi : i < addr.words.length),
    KernelU32 h p (ptr + p.os.linuxAddr + BitVec.ofNat 32 (4 * i)) addr.words[i]

/-- The two fields of the `PEB` in the memory of its process; nothing is known of a field that
cannot be read. -/
structure PebAt (h : Host) (p : XaParams) (pgd ptr : U32) (before after : XaWindowsPeb) :
    Prop where
  imageBaseAddress : ∀ value, PgdU32 h p pgd (ptr + p.os.winIba) value →
    after.imageBaseAddress = value
  processHeap : ∀ value, PgdU32 h p pgd (ptr + p.os.winPh) value → after.processHeap = value
  imageBaseAddress_kept : (∀ value, ¬PgdU32 h p pgd (ptr + p.os.winIba) value) →
    after.imageBaseAddress = before.imageBaseAddress
  processHeap_kept : (∀ value, ¬PgdU32 h p pgd (ptr + p.os.winPh) value) →
    after.processHeap = before.processHeap

/-- What a read leaves in the field of the caller. -/
theorem getD_eq_of_iff {r : Option U32} {P : U32 → Prop} (hr : ∀ value, r = some value ↔ P value)
    (before : U32) : (∀ value, P value → r.getD before = value) ∧
      ((∀ value, ¬P value) → r.getD before = before) := by
  constructor
  · intro value hvalue
    rw [(hr value).mpr hvalue, Option.getD_some]
  · intro hnone
    cases hread : r with
    | none => rfl
    | some value => exact absurd ((hr value).mp hread) (hnone value)

section

variable (hps : p.pageSize = 4096) (hshift : p.pageShift = 12)
include hps hshift

theorem TaskaddrAt.word_shown {ptr : U32} {addr : XaLinuxTaskaddr}
    (haddr : TaskaddrAt h p ptr addr) (ha : refKernelVa h p ptr protRead = some a) {i : Nat}
    (hi : i < addr.words.length) (hlt : i < 11) :
    a.memory.u32 (a.offset + p.os.linuxAddr + BitVec.ofNat 32 (4 * i)) = addr.words[i] := by
  have hvalue := haddr.words i hi
  generalize addr.words[i] = value at hvalue ⊢
  have hin : InPageOf ptr (ptr + p.os.linuxAddr + BitVec.ofNat 32 (4 * i)) (44 - 4 * i) :=
    haddr.page.add (by omega)
  have hpage : InPageOf ptr (ptr + p.os.linuxAddr + BitVec.ofNat 32 (4 * i)) 4 := by
    have hroom := hin.2
    exact ⟨hin.1, by omega⟩
  have hshown := u32_shown hps hshift ha hpage hvalue
  have hdisplacement (d : U32) : a.offset + (ptr + p.os.linuxAddr + d - ptr) =
      a.offset + p.os.linuxAddr + d := by bv_omega
  rwa [hdisplacement] at hshown

theorem TaskaddrAt.shown {ptr : U32} {addr : XaLinuxTaskaddr} (haddr : TaskaddrAt h p ptr addr)
    (ha : refKernelVa h p ptr protRead = some a) :
    a.memory.taskaddr (a.offset + p.os.linuxAddr) = addr := by
  apply XaLinuxTaskaddr.words_inj
  rw [words_taskaddr]
  apply List.ext_getElem
  · rw [List.length_map, List.length_range]
    rfl
  · intro i hrange hi
    rw [List.length_map, List.length_range] at hrange
    rw [List.getElem_map, List.getElem_range]
    exact haddr.word_shown hps hshift ha hi hrange

variable (R : LinkRing h p p.initTask) {pidOf : U32 → U32} (hfuel : R.nodes.length ≤ fuel)
  {s : XaState} (hs : Sound h p fuel s)
include hfuel hs

/-- The lookups return the structure of the first process with the pid. -/
theorem LinkRing.taskLoop_first {pidOffset tasksOffset : U32}
    (hpids : ∀ node ∈ R.nodes.dropLast, FieldAt h p pidOffset tasksOffset node (pidOf node))
    (pid : U32) :
    ∃ t, taskLoop h pidOffset tasksOffset pid p.initTask fuel p.initTask s =
      .ok ((R.nodes.dropLast.find? fun node => pidOf node = pid).bind
        fun node => refKernelVa h p node protRead, t) ∧ Sound h p fuel t :=
  follows_exists (taskLoop_follows hps pidOffset tasksOffset pid p.initTask fuel s p.initTask hs)
    (R.refTaskLoop_first hps hshift hpids hfuel pid)

/-- A lookup of a pid that no process has. -/
theorem LinkRing.taskLoop_none {pidOffset tasksOffset : U32}
    (hpids : ∀ node ∈ R.nodes.dropLast, FieldAt h p pidOffset tasksOffset node (pidOf node))
    (hno : ∀ node ∈ R.nodes.dropLast, pidOf node ≠ pid) :
    ∃ t, taskLoop h pidOffset tasksOffset pid p.initTask fuel p.initTask s = .ok (none, t) := by
  obtain ⟨t, hloop, -⟩ := R.taskLoop_first hps hshift hfuel hs hpids pid
  have hnone : (R.nodes.dropLast.find? fun node => pidOf node = pid) = none := by
    apply List.find?_eq_none.mpr
    intro node hnode
    rw [decide_eq_true_eq]
    exact hno node hnode
  rw [hnone] at hloop
  exact ⟨t, hloop⟩

theorem LinkRing.linuxTaskaddr
    (hpids : ∀ node ∈ R.nodes.dropLast, FieldAt h p p.os.linuxPid p.os.linuxTasks node (pidOf node))
    (hfirst : (R.nodes.dropLast.find? fun node => pidOf node = pid) = some node) {ptr : U32}
    (hmm : FieldAt h p p.os.linuxMm p.os.linuxTasks node ptr) {addr : XaLinuxTaskaddr}
    (haddr : TaskaddrAt h p ptr addr) :
    ∃ t, xaLinuxGetTaskaddr h fuel pid s = .ok (some addr, t) := by
  obtain ⟨t, hloop, ht⟩ := R.taskLoop_first hps hshift hfuel hs hpids pid
  obtain ⟨a, ha⟩ := R.mapped (List.dropLast_subset _ (List.mem_of_find?_eq_some hfirst))
  rw [hfirst, Option.bind_some, ha] at hloop
  have hstart : linuxGetTaskstruct h fuel pid s = .ok (some a, t) := by
    rw [linuxGetTaskstruct, get_bind, ← hloop, ← hs.params]
  obtain ⟨b, hb⟩ := Option.isSome_iff_exists.mp haddr.mapped
  obtain ⟨u, hmap, hu⟩ := follows_exists (xaAccessKernelVa_follows hps ht ptr protRead) rfl
  rw [hb] at hmap
  refine ⟨u, ?_⟩
  rw [xaLinuxGetTaskaddr, bind_of_ok hstart]
  simp only [get_bind, ht.params, hmm.shown hps hshift ha]
  rw [bind_of_ok hmap]
  simp only [get_bind, hu.params]
  rw [haddr.shown hps hshift hb]
  rfl

theorem LinkRing.windowsPeb (hos : p.osType = .windows) (hpid : pid ≠ 0)
    (hpids : ∀ node ∈ R.nodes.dropLast, FieldAt h p p.os.winPid p.os.winTasks node (pidOf node))
    (hfirst : (R.nodes.dropLast.find? fun node => pidOf node = pid) = some node) {ptr pgd : U32}
    (hpdbase : FieldAt h p p.os.winPdbase p.os.winTasks node pgd)
    (hpeb : FieldAt h p p.os.winPeb p.os.winTasks node ptr)
    (hiba : InPageOf (ptr + p.os.winIba) (ptr + p.os.winIba) 4)
    (hph : InPageOf (ptr + p.os.winPh) (ptr + p.os.winPh) 4) (peb : XaWindowsPeb) :
    ∃ r t, xaWindowsGetPeb h fuel pid peb s = .ok (some r, t) ∧ PebAt h p pgd ptr peb r := by
  obtain ⟨t, hloop, ht⟩ := R.taskLoop_first hps hshift hfuel hs hpids pid
  obtain ⟨a, ha⟩ := R.mapped (List.dropLast_subset _ (List.mem_of_find?_eq_some hfirst))
  rw [hfirst, Option.bind_some, ha] at hloop
  have hstart : windowsGetEPROCESS h fuel pid s = .ok (some a, t) := by
    rw [windowsGetEPROCESS, get_bind, ← hloop, ← hs.params]
  have hpgd : refPidToPgd h p fuel pid = .ok pgd := by
    refine R.windowsPgd hps hshift hfuel ?_ hos hpids ?_
    · intro hnone
      cases hfirst.symm.trans hnone
    · intro found hfound
      cases hfirst.symm.trans hfound
      exact hpdbase
  obtain ⟨r, u, hread, hu, hr⟩ := xaReadLongVirt_pgd hps hshift ht hpid hpgd hiba
  obtain ⟨r', u', hread', -, hr'⟩ := xaReadLongVirt_pgd hps hshift hu hpid hpgd hph
  refine ⟨⟨r.getD peb.imageBaseAddress, r'.getD peb.processHeap⟩, u', ?_, ?_⟩
  · rw [xaWindowsGetPeb, bind_of_ok hstart]
    simp only [get_bind, ht.params, hpeb.shown hps hshift ha]
    rw [bind_of_ok hread, bind_of_ok hread']
    rfl
  · have hbase := getD_eq_of_iff hr peb.imageBaseAddress
    have hheap := getD_eq_of_iff hr' peb.processHeap
    exact ⟨hbase.1, hheap.1, hbase.2, hheap.2⟩

end

/-- **The structures of a process.** In every state reached by calls from empty caches and for a
well-formed list, `xa_linux_get_taskaddr` returns the addresses in the `mm_struct` of the first
process with the pid, and `xa_windows_get_peb` the fields of its `PEB` in its own memory; a field
that cannot be read is left as the caller had it. For a pid that no process has both fail. -/
theorem processStructures_right (h : Host) (fuel : Nat) (s₀ s : XaState)
    (hps : s₀.pageSize = 4096) (hshift : s₀.pageShift = 12) (calls : List Call)
    (hrun : runCalls h fuel calls s₀.clear = .ok ((), s))
    (R : LinkRing h s₀.toXaParams s₀.initTask) (hfuel : R.nodes.length ≤ fuel)
    (pidOf : U32 → U32) (pid : U32) :
    ((∀ node ∈ R.nodes.dropLast,
        FieldAt h s₀.toXaParams s₀.os.linuxPid s₀.os.linuxTasks node (pidOf node)) →
      (∀ node, (R.nodes.dropLast.find? fun node => pidOf node = pid) = some node →
        ∀ ptr, FieldAt h s₀.toXaParams s₀.os.linuxMm s₀.os.linuxTasks node ptr →
        ∀ addr, TaskaddrAt h s₀.toXaParams ptr addr →
          ∃ t, xaLinuxGetTaskaddr h fuel pid s = .ok (some addr, t)) ∧
      ((∀ node ∈ R.nodes.dropLast, pidOf node ≠ pid) →
        ∃ t, xaLinuxGetTaskaddr h fuel pid s = .ok (none, t))) ∧
    (s₀.osType = .windows →
      (∀ node ∈ R.nodes.dropLast,
        FieldAt h s₀.toXaParams s₀.os.winPid s₀.os.winTasks node (pidOf node)) →
      (∀ node, (R.nodes.dropLast.find? fun node => pidOf node = pid) = some node → pid ≠ 0 →
        ∀ pgd, FieldAt h s₀.toXaParams s₀.os.winPdbase s₀.os.winTasks node pgd →
        ∀ ptr, FieldAt h s₀.toXaParams s₀.os.winPeb s₀.os.winTasks node ptr →
        InPageOf (ptr + s₀.os.winIba) (ptr + s₀.os.winIba) 4 →
        InPageOf (ptr + s₀.os.winPh) (ptr + s₀.os.winPh) 4 →
        ∀ peb, ∃ r t, xaWindowsGetPeb h fuel pid peb s = .ok (some r, t) ∧
          PebAt h s₀.toXaParams pgd ptr peb r) ∧
      ((∀ node ∈ R.nodes.dropLast, pidOf node ≠ pid) →
        ∀ peb, ∃ t, xaWindowsGetPeb h fuel pid peb s = .ok (none, t))) := by
  have hs := sound_of_runCalls hps hrun
  constructor
  · intro hpids
    constructor
    · intro node hfirst ptr hmm addr haddr
      exact R.linuxTaskaddr hps hshift hfuel hs hpids hfirst hmm haddr
    · intro hno
      obtain ⟨t, hloop⟩ := R.taskLoop_none hps hshift hfuel hs hpids hno
      refine ⟨t, ?_⟩
      have hstart : linuxGetTaskstruct h fuel pid s = .ok (none, t) := by
        rw [linuxGetTaskstruct, get_bind, ← hloop, hs.params]
      rw [xaLinuxGetTaskaddr, bind_of_ok hstart]
      rfl
  · intro hos hpids
    constructor
    · intro node hfirst hpid pgd hpdbase ptr hpeb hiba hph peb
      exact R.windowsPeb hps hshift hfuel hs hos hpid hpids hfirst hpdbase hpeb hiba hph peb
    · intro hno peb
      obtain ⟨t, hloop⟩ := R.taskLoop_none hps hshift hfuel hs hpids hno
      refine ⟨t, ?_⟩
      have hstart : windowsGetEPROCESS h fuel pid s = .ok (none, t) := by
        rw [windowsGetEPROCESS, get_bind, ← hloop, hs.params]
      rw [xaWindowsGetPeb, bind_of_ok hstart]
      rfl

/-! ### A Windows guest -/

/-- A Windows guest with a process of the pid 616. -/
def csrssHost : Host :=
  windowsHost [(0x1800, 0x83), (0x5088, 0x80006088), (0x6088, 0x80005088), (0x6084, 616),
    (0x6018, 0x3000), (0x61B0, 0x7FFDF000), (0x37FC, 0x83), (0x3DF008, 0x400000),
    (0x3DF018, 0x140000)]

def csrssState : XaState :=
  imageState .windows 0x80000000 0x80001000 0x80006088
    ⟨0x400000, 0x88, 0x18, 0x84, 0x1B0, 0x8, 0x18⟩

def csrssRing : LinkRing csrssHost csrssState.toXaParams 0x80006088 where
  nodes := [0x80006088, 0x80005088]
  head := rfl
  nodup := by decide
  chain := by decide

theorem csrss_pids : ∀ node ∈ csrssRing.nodes.dropLast,
    FieldAt csrssHost csrssState.toXaParams 0x84 0x88 node 616 := by
  intro node hnode
  obtain rfl : node = 0x80006088 := List.mem_singleton.mp hnode
  exact ⟨by decide, by decide⟩

theorem csrss_peb : ∃ r t, xaWindowsGetPeb csrssHost 2 616 ⟨0, 0⟩ csrssState.clear =
    .ok (some r, t) ∧ PebAt csrssHost csrssState.toXaParams 0x3000 0x7FFDF000 ⟨0, 0⟩ r :=
  ((processStructures_right csrssHost 2 csrssState csrssState.clear rfl rfl [] rfl csrssRing le_rfl
    (fun _ => 616) 616).2 rfl csrss_pids).1 0x80006088 rfl (by decide) 0x3000
    ⟨by decide, by decide⟩ 0x7FFDF000 ⟨by decide, by decide⟩ (by decide) (by decide) ⟨0, 0⟩

end XenAccess
