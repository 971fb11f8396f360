import XenAccess.Process.Listing

/-!
# The listing of processes

`process-list` prints a line for every process on the list but the last one, which is `init_task`
on Linux and System on Windows. System has been printed before the loop starts, and the head of
the list of Windows is printed as if it were a process. The lookups of the library go along the
same nodes, so a pid is found exactly if the loop prints a line for it
(`processLookup_iff_listed`).
-/

namespace XenAccess

open Prog

variable {h : Host} {p : XaParams} {fuel : Nat} {o : ListOffsets}

/-! ## Lines -/

theorem printPid_eq {pid : U32} (hpos : pid.msb = false) :
    printPid pid = List.replicate (5 - (digits 10 pid.toNat).length) 32 ++ digits 10 pid.toNat := by
  rw [printPid, hpos]
  rfl

/-- What is printed of a pid has no bracket in it. -/
theorem takeWhile_printPid {pid : U32} (hpos : pid.msb = false) (rest : CStr) :
    (printPid pid ++ 93 :: rest).takeWhile (· != 93) = printPid pid := by
  rw [List.takeWhile_append_of_pos, List.takeWhile_cons_of_neg (by simp), List.append_nil]
  intro c hc
  rw [printPid_eq hpos] at hc
  rw [bne_iff_ne]
  rcases List.mem_append.mp hc with hc | hc
  · rw [List.eq_of_mem_replicate hc]
    decide
  · obtain ⟨d, -, hdigit⟩ := digits_isDigit (by decide) (by decide) pid.toNat c hc
    rintro rfl
    cases hdigit

/-- The digits are what follows the blanks. -/
theorem dropWhile_printPid {pid : U32} (hpos : pid.msb = false) :
    (printPid pid).dropWhile isspace = digits 10 pid.toNat := by
  rw [printPid_eq hpos, List.dropWhile_append_of_pos]
  · cases hd : digits 10 pid.toNat with
    | nil => exact absurd hd digits_ne_nil
    | cons c cs =>
      have hmem : c ∈ digits 10 pid.toNat := hd ▸ List.mem_cons_self
      obtain ⟨d, -, hdigit⟩ := digits_isDigit (by decide) (by decide) pid.toNat c hmem
      exact List.dropWhile_cons_of_neg (by simp [isspace_digit hdigit])
  · intro c hc
    rw [List.eq_of_mem_replicate hc]
    rfl

/-- A line tells the pid, when it is not negative. -/
theorem printProcess_inj {pid pid' : U32} (hpos : pid.msb = false) (hpos' : pid'.msb = false)
    {name name' : CStr} (heq : printProcess pid name = printProcess pid' name') : pid = pid' := by
  have hline (pid : U32) (name : CStr) :
      printProcess pid name = 91 :: (printPid pid ++ 93 :: 32 :: (name ++ [10])) := by
    rw [printProcess]
    simp [cstr]
  rw [hline, hline] at heq
  have htext := congrArg (List.takeWhile (· != 93)) (List.cons.inj heq).2
  rw [takeWhile_printPid hpos, takeWhile_printPid hpos'] at htext
  have hdigits := congrArg (List.dropWhile isspace) htext
  rw [dropWhile_printPid hpos, dropWhile_printPid hpos'] at hdigits
  have hvalue := congrArg (fun text => digitsValue 10 text 0) hdigits
  simp only [digitsValue_digits (show 1 < 10 by decide) (show 10 ≤ 16 by decide)] at hvalue
  exact BitVec.eq_of_toNat_eq hvalue

/-! ## The program -/

/-- The lines for some processes. -/
def processesLines (pidOf : U32 → U32) (nameOf : U32 → CStr) (nodes : List U32) : List CStr :=
  nodes.flatMap fun node => taskLines (pidOf node) (nameOf node)

/-- A pid has a line exactly if one of the processes has it. -/
theorem listed_iff {pidOf : U32 → U32} {nameOf : U32 → CStr} {nodes : List U32} {pid : U32}
    (hpos : pid.msb = false) :
    (∃ name, printProcess pid name ∈ processesLines pidOf nameOf nodes) ↔
      ∃ node ∈ nodes, pidOf node = pid := by
  constructor
  · rintro ⟨name, hline⟩
    obtain ⟨node, hnode, hmem⟩ := List.mem_flatMap.mp hline
    refine ⟨node, hnode, ?_⟩
    rw [taskLines] at hmem
    split at hmem
    · cases hmem
    · rename_i hnode'
      exact (printProcess_inj hpos (Bool.eq_false_iff.mpr hnode') (List.mem_singleton.mp hmem)).symm
  · rintro ⟨node, hnode, rfl⟩
    refine ⟨nameOf node, List.mem_flatMap.mpr ⟨node, hnode, ?_⟩⟩
    rw [taskLines, hpos]
    exact List.mem_singleton_self _

/-- What is on the list behind the structure that a listing starts with. -/
structure Listed (h : Host) (p : XaParams) (o : ListOffsets) (a : Access) (pidOf : U32 → U32)
    (nameOf : U32 → CStr) where
  first : U32
  start : a.memory.u32 (a.offset + o.tasks) = first
  ring : LinkRing h p first
  tasks : ∀ node ∈ ring.nodes.dropLast, TaskAt h p o node (pidOf node) (nameOf node)

section

variable {a : Access} {pidOf : U32 → U32} {nameOf : U32 → CStr} (L : Listed h p o a pidOf nameOf)
include L

theorem Listed.processListFrom_eq (hps : p.pageSize = 4096) (hshift : p.pageShift = 12)
    (first : Access → List CStr) {s : XaState} (hs : Sound h p fuel s) :
    ∃ t, processListFrom h o first L.ring.nodes.length (some a) s =
      .ok ((first a ++ processesLines pidOf nameOf L.ring.nodes.dropLast, true), t) := by
  obtain ⟨t, hlist, -⟩ := L.ring.listLoop_eq hps (rowFollows_pure (processLines o)) hs
  refine ⟨t, ?_⟩
  rw [processListFrom, L.start]
  simp only [bind_of_ok hlist]
  rw [L.ring.taskLines_eq hps hshift L.tasks]
  rfl

theorem Listed.linux_eq (hps : p.pageSize = 4096) (hshift : p.pageShift = 12)
    (ho : o = listOffsets h p) (hos : p.osType = .linux) {s t : XaState} (hs : Sound h p fuel s)
    (hstart : xaAccessKernelSym h (cstr "init_task") protRead s = .ok (some a, t)) :
    ∃ u, processList h L.ring.nodes.length s =
      .ok ((processesLines pidOf nameOf L.ring.nodes.dropLast, true), u) := by
  subst ho
  have ht := xaAccessKernelSym_keeps hps _ _ s _ t hs hstart
  obtain ⟨u, hlist⟩ := L.processListFrom_eq hps hshift (fun _ => []) ht
  refine ⟨u, ?_⟩
  rw [processList, get_bind, hs.params, hos]
  simp only [bind_of_ok hstart]
  exact hlist

theorem Listed.windows_eq (hps : p.pageSize = 4096) (hshift : p.pageShift = 12)
    (ho : o = listOffsets h p) (hos : p.osType = .windows) {s t : XaState} (hs : Sound h p fuel s)
    {start : U32}
    (hstart : xaReadLongSym h (cstr "PsInitialSystemProcess") s = .ok (some start, t))
    (ha : refKernelVa h p start protRead = some a) :
    ∃ u, processList h L.ring.nodes.length s =
      .ok ((firstProcessLine o a :: processesLines pidOf nameOf L.ring.nodes.dropLast, true),
        u) := by
  subst ho
  have ht := xaReadLongSym_keeps hps _ s _ t hs hstart
  obtain ⟨t', hacc, ht'⟩ := follows_exists (xaAccessKernelVa_follows hps ht start protRead) rfl
  rw [ha] at hacc
  obtain ⟨u, hlist⟩ := L.processListFrom_eq hps hshift
    (fun a => [firstProcessLine (listOffsets h p) a]) ht'
  refine ⟨u, ?_⟩
  rw [processList, get_bind, hs.params, hos]
  simp only [bind_of_ok hstart, Option.getD_some, bind_of_ok hacc]
  exact hlist

end

/-- **What `process-list` prints.** In every state reached by calls from empty caches, on a ring
of processes it ends and prints a line for each process, that is for each node but the last one,
in the order of the list, negative pids excepted. On Windows the line for System comes first. -/
theorem processList_prints (h : Host) (fuel : Nat) (s₀ s : XaState) (hps : s₀.pageSize = 4096)
    (hshift : s₀.pageShift = 12) (calls : List Call)
    (hrun : runCalls h fuel calls s₀.clear = .ok ((), s)) (pidOf : U32 → U32)
    (nameOf : U32 → CStr) :
    (s₀.osType = .linux → ∀ a t,
      xaAccessKernelSym h (cstr "init_task") protRead s = .ok (some a, t) →
      ∀ L : Listed h s₀.toXaParams (listOffsets h s₀.toXaParams) a pidOf nameOf, ∃ n u,
        processList h n s =
          .ok ((processesLines pidOf nameOf L.ring.nodes.dropLast, true), u)) ∧
    (s₀.osType = .windows → ∀ first t,
      xaReadLongSym h (cstr "PsInitialSystemProcess") s = .ok (some first, t) →
      ∀ a, refKernelVa h s₀.toXaParams first protRead = some a →
      ∀ pid name, TaskAt h s₀.toXaParams { listOffsets h s₀.toXaParams with tasks := 0 } first
        pid name →
      ∀ L : Listed h s₀.toXaParams (listOffsets h s₀.toXaParams) a pidOf nameOf, ∃ n u,
        processList h n s =
          .ok ((printProcess pid name :: processesLines pidOf nameOf L.ring.nodes.dropLast, true),
            u)) := by
  have hs := sound_of_runCalls hps hrun
  constructor
  · intro hos a t hstart L
    exact ⟨_, L.linux_eq hps hshift rfl hos hs hstart⟩
  · intro hos first t hstart a ha pid name hfirst L
    obtain ⟨u, hlist⟩ := L.windows_eq hps hshift rfl hos hs hstart ha
    rw [hfirst.firstLine hps hshift ha] at hlist
    exact ⟨_, u, hlist⟩

/-! ## Lookups -/

section

variable {first : U32}

/-- The ring of a listing as the list that the lookups of the library go along. -/
def LinkRing.toProcessList (R : LinkRing h p first) (hfirst : p.initTask = first)
    (pidOffset tasksOffset : U32) : ProcessList h p pidOffset tasksOffset where
  nodes := R.nodes
  pidOf _ := none
  head := hfirst ▸ R.head
  nodup := R.nodup
  chain := hfirst ▸ R.chain
  pids _ _ _ hpid := (Option.some_ne_none _ hpid.symm).elim

/-- A lookup returns a structure exactly if it belongs to the pid of a process on the ring. -/
theorem LinkRing.taskLoop_found_iff (R : LinkRing h p first) (hfirst : p.initTask = first)
    (hps : p.pageSize = 4096) (hshift : p.pageShift = 12) {pidOf : U32 → U32}
    {nameOf : U32 → CStr}
    (htasks : ∀ node ∈ R.nodes.dropLast, TaskAt h p o node (pidOf node) (nameOf node))
    {s : XaState} (hs : Sound h p fuel s) (pid : U32) :
    (∃ n a t, taskLoop h o.pid o.tasks pid p.initTask n p.initTask s = .ok (some a, t)) ↔
      ∃ node ∈ R.nodes.dropLast, pidOf node = pid := by
  have hfield : ∀ node ∈ R.nodes.dropLast, pidField h p o.pid o.tasks node = some (pidOf node) := by
    intro node hnode
    obtain ⟨a, ha⟩ := R.mapped (List.dropLast_subset _ hnode)
    rw [pidField, ha, Option.map_some, ((htasks node hnode).shown hps hshift ha).1]
  let L := R.toProcessList hfirst o.pid o.tasks
  constructor
  · rintro ⟨n, a, t, hrun⟩
    have hfound := L.taskLoop_outcome hps hs hrun
    obtain ⟨node, hnode, -⟩ := Option.bind_eq_some_iff.mp hfound.symm
    have hmem : node ∈ R.nodes.dropLast := List.mem_of_find?_eq_some hnode
    have hpid := List.find?_some hnode
    rw [decide_eq_true_eq, hfield node hmem] at hpid
    exact ⟨node, hmem, Option.some.inj hpid⟩
  · rintro ⟨node, hnode, rfl⟩
    have hsome : (L.firstWith (pidOf node)).isSome :=
      List.find?_isSome.mpr ⟨node, hnode, decide_eq_true (hfield node hnode)⟩
    obtain ⟨found, hfound⟩ := Option.isSome_iff_exists.mp hsome
    obtain ⟨a, ha⟩ := L.mapped (L.firstWith_mem hfound)
    obtain ⟨t, hrun⟩ := L.taskLoop_eq hps hs (pidOf node)
    rw [hfound, Option.bind_some, ha] at hrun
    exact ⟨_, a, t, hrun⟩

end

/-- **The lookups find the processes that are listed.** In every state reached by calls from empty
caches, when the instance starts its lookups at the node where the listing starts, a pid that is
not negative is found exactly if `process-list` prints a line for it; on Windows the first line,
which is for System, does not count. -/
theorem processLookup_iff_listed (h : Host) (fuel : Nat) (s₀ s : XaState)
    (hps : s₀.pageSize = 4096) (hshift : s₀.pageShift = 12) (calls : List Call)
    (hrun : runCalls h fuel calls s₀.clear = .ok ((), s)) (pidOf : U32 → U32)
    (nameOf : U32 → CStr) :
    (s₀.osType = .linux → ∀ a t,
      xaAccessKernelSym h (cstr "init_task") protRead s = .ok (some a, t) →
      s₀.initTask = a.memory.u32 (a.offset + s₀.os.linuxTasks) →
      Listed h s₀.toXaParams (listOffsets h s₀.toXaParams) a pidOf nameOf →
      ∃ lines n u, processList h n s = .ok ((lines, true), u) ∧ ∀ pid : U32, pid.msb = false →
        ((∃ n b t, linuxGetTaskstruct h n pid s = .ok (some b, t)) ↔
          ∃ name, printProcess pid name ∈ lines)) ∧
    (s₀.osType = .windows → ∀ start t,
      xaReadLongSym h (cstr "PsInitialSystemProcess") s = .ok (some start, t) →
      ∀ a, refKernelVa h s₀.toXaParams start protRead = some a →
      s₀.initTask = a.memory.u32 (a.offset + s₀.os.winTasks) →
      Listed h s₀.toXaParams (listOffsets h s₀.toXaParams) a pidOf nameOf →
      ∃ lines n u, processList h n s = .ok ((lines, true), u) ∧ ∀ pid : U32, pid.msb = false →
        ((∃ n b t, windowsGetEPROCESS h n pid s = .ok (some b, t)) ↔
          ∃ name, printProcess pid name ∈ lines.tail)) := by
  have hs := sound_of_runCalls hps hrun
  constructor
  · intro hos a t hstart hinit L
    obtain ⟨u, hlist⟩ := L.linux_eq hps hshift rfl hos hs hstart
    refine ⟨_, _, u, hlist, fun pid hpos => ?_⟩
    have ho : listOffsets h s₀.toXaParams = ⟨s₀.os.linuxTasks, s₀.os.linuxPid, 0x194⟩ := by
      rw [listOffsets, hos]
    have hfirst : s₀.initTask = L.first := by
      rw [← L.start, ho]
      exact hinit
    have hfound := L.ring.taskLoop_found_iff hfirst hps hshift L.tasks hs pid
    rw [listed_iff hpos, ← hfound]
    unfold linuxGetTaskstruct
    simp only [get_bind, hs.params, ho]
  · intro hos start t hstart a ha hinit L
    obtain ⟨u, hlist⟩ := L.windows_eq hps hshift rfl hos hs hstart ha
    refine ⟨_, _, u, hlist, fun pid hpos => ?_⟩
    have ho : listOffsets h s₀.toXaParams = ⟨s₀.os.winTasks, s₀.os.winPid, 0x174⟩ := by
      rw [listOffsets, hos]
    have hfirst : s₀.initTask = L.first := by
      rw [← L.start, ho]
      exact hinit
    have hfound := L.ring.taskLoop_found_iff hfirst hps hshift L.tasks hs pid
    rw [List.tail_cons, listed_iff hpos, ← hfound]
    unfold windowsGetEPROCESS
    simp only [get_bind, hs.params, ho]

/-! ### A Linux guest -/

/-- A Linux guest with the process `init` behind `init_task`. -/
def listedHost : Host :=
  linuxHost [(0x1C00, 0x83), (0x5060, 0xC0006060), (0x6060, 0xC0005060), (0x609C, 1),
    (0x6194, 0x74696E69)] (some (cstr "c0005000 D init_task\n"))

def listedState : XaState :=
  imageState .linux 0xC0000000 0xC0001000 0xC0006060 ⟨0x60, 0x78, 0x9C, 0x24, 0x80, 0, 0⟩

def listedRing : LinkRing listedHost listedState.toXaParams 0xC0006060 where
  nodes := [0xC0006060, 0xC0005060]
  head := rfl
  nodup := by decide
  chain := by decide

theorem init_at : TaskAt listedHost listedState.toXaParams ⟨0x60, 0x9C, 0x194⟩ 0xC0006060 1
    (cstr "init") where
  pidPage := by decide
  pid := by decide
  namePage := by decide
  name := by decide

/-- What the listing of the guest starts with. -/
theorem listedHost_start : ∃ a t,
    xaAccessKernelSym listedHost (cstr "init_task") protRead listedState.clear =
      .ok (some a, t) ∧ a.memory.u32 (a.offset + 0x60) = 0xC0006060 := by
  have hruns : Returns (xaAccessKernelSym listedHost (cstr "init_task") protRead)
      listedState.clear fun r _ =>
        r.map (fun a => a.memory.u32 (a.offset + 0x60)) = some 0xC0006060 := by decide
  obtain ⟨r, t, hrun, hr⟩ := hruns
  obtain ⟨a, rfl, ha⟩ := Option.map_eq_some_iff.mp hr
  exact ⟨a, t, hrun, ha⟩

theorem listedRing_tasks : ∀ node ∈ listedRing.nodes.dropLast,
    TaskAt listedHost listedState.toXaParams ⟨0x60, 0x9C, 0x194⟩ node 1 (cstr "init") := by
  intro node hnode
  obtain rfl : node = 0xC0006060 := List.mem_singleton.mp hnode
  exact init_at

theorem listedHost_prints : ∃ n u, processList listedHost n listedState.clear =
    .ok (([printProcess 1 (cstr "init")], true), u) := by
  obtain ⟨a, t, hstart, ha⟩ := listedHost_start
  exact (processList_prints listedHost 0 listedState listedState.clear rfl rfl [] rfl
    (fun _ => 1) fun _ => cstr "init").1 rfl a t hstart ⟨_, ha, listedRing, listedRing_tasks⟩

theorem listedHost_finds : ∃ lines n u,
    processList listedHost n listedState.clear = .ok ((lines, true), u) ∧
      ∀ pid : U32, pid.msb = false →
        ((∃ n b t, linuxGetTaskstruct listedHost n pid listedState.clear = .ok (some b, t)) ↔
          ∃ name, printProcess pid name ∈ lines) := by
  obtain ⟨a, t, hstart, ha⟩ := listedHost_start
  exact (processLookup_iff_listed listedHost 0 listedState listedState.clear rfl rfl [] rfl
    (fun _ => 1) fun _ => cstr "init").1 rfl a t hstart ha.symm
      ⟨_, ha, listedRing, listedRing_tasks⟩

end XenAccess
