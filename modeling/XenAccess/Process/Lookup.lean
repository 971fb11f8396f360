import XenAccess.Maps.KernelPage
import XenAccess.Process.Termination

/-!
# Lookup in a circular process list

A process list is a ring of links that starts at `instance->init_task`. On Linux every link
belongs to a task; on Windows one of them is the list head `PsActiveProcessHead`, which
belongs to no process. The loops read the link of a node first and stop when it leads back
to the start, so the pid of the last node is never looked at, a list head on the way is
taken for a process, and a pid is read through the page of the link. `processLookup_right_iff`
says for which lists and pids the outcome is right all the same.
-/

namespace XenAccess

open Prog Traced

variable {h : Host} {p : XaParams} {fuel : Nat} {pidOffset tasksOffset : U32}

/-! ## Lists -/

/-- The link at a node. -/
def link (h : Host) (p : XaParams) (node : U32) : Option U32 :=
  (refKernelVa h p node protRead).map fun a => a.memory.u32 a.offset

/-- What the loops read as the pid of a node, in the page that holds its link. -/
def pidField (h : Host) (p : XaParams) (pidOffset tasksOffset node : U32) : Option U32 :=
  (refKernelVa h p node protRead).map fun a => a.memory.u32 (a.offset + pidOffset - tasksOffset)

/-- A well-formed process list of a guest: the addresses of its links in the order of the
list, and the pid of the process that a link belongs to. -/
structure ProcessList (h : Host) (p : XaParams) (pidOffset tasksOffset : U32) where
  nodes : List U32
  /-- `none` for a bare list head -/
  pidOf : U32 → Option U32
  head : nodes.head? = some p.initTask
  nodup : nodes.Nodup
  /-- every link leads to the next node, the last one to the first -/
  chain : (nodes ++ [p.initTask]).IsChain fun x y => link h p x = some y
  /-- the pid stands in the memory of the guest -/
  pids : ∀ node ∈ nodes, ∀ pid, pidOf node = some pid → ∀ i < 4,
    virtByte h p 0 0 (node + pidOffset - tasksOffset + BitVec.ofNat 32 i) =
      some (pid.extractLsb' (8 * i) 8)

namespace ProcessList

variable (L : ProcessList h p pidOffset tasksOffset)

/-- The first node, the last one excepted, in whose page the pid is found. -/
def firstWith (pid : U32) : Option U32 :=
  L.nodes.dropLast.find? fun node => pidField h p pidOffset tasksOffset node = some pid

/-- What a lookup has to return: the mapped structure of a process with the pid, or `NULL`
when there is none. -/
structure Right (pid : U32) (r : Option Access) : Prop where
  sound : ∀ a, r = some a → ∃ node ∈ L.nodes, L.pidOf node = some pid ∧
    refKernelVa h p node protRead = some a
  complete : r = none → ∀ node ∈ L.nodes, L.pidOf node ≠ some pid

/-- The pid is read for the node, and it is the pid of its process. -/
def Found (pid node : U32) : Prop :=
  pidField h p pidOffset tasksOffset node = some pid ∧ L.pidOf node = some pid

/-- The node belongs to a process whose pid stands in the page of the link. -/
def PidInPage (node : U32) : Prop :=
  (L.pidOf node).isSome ∧ InPageOf node (node + pidOffset - tasksOffset) 4

/-- Where the words with the pid stand. -/
structure Placed (pid : U32) : Prop where
  /-- a word that reads as the pid and is not in the page of the link of a process, as the one
  at a list head, comes behind a process with the pid or is its pid all the same -/
  stray : ∀ pre node post, L.nodes.dropLast = pre ++ node :: post → ¬L.PidInPage node →
    pidField h p pidOffset tasksOffset node = some pid →
      L.pidOf node = some pid ∨ ∃ m ∈ pre, L.Found pid m
  /-- a process with the pid that is the last one, or whose pid is not in the page of its link,
  is not the only one -/
  missed : ∀ node ∈ L.nodes, L.pidOf node = some pid →
    L.nodes.getLast? = some node ∨ ¬L.PidInPage node → ∃ m ∈ L.nodes.dropLast, L.Found pid m

/-- The first node with the pid belongs to a process that has it; without such a node, no
process has it. -/
structure FirstRight (pid : U32) : Prop where
  sound : ∀ node, L.firstWith pid = some node → L.pidOf node = some pid
  complete : L.firstWith pid = none → ∀ node ∈ L.nodes, L.pidOf node ≠ some pid

end ProcessList

/-! ## The loop along a list -/

theorem link_eq_some {node next : U32} (hlink : link h p node = some next) :
    ∃ a, refKernelVa h p node protRead = some a ∧ a.memory.u32 a.offset = next :=
  Option.map_eq_some_iff.mp hlink

/-- The loop from a node of the list on, with as many rounds as there are nodes. -/
theorem refTaskLoop_nodes (pid listHead : U32) (rest : List U32) (node : U32)
    (hchain : (node :: rest ++ [listHead]).IsChain fun x y => link h p x = some y)
    (hhead : listHead ∉ rest) :
    refTaskLoop h p pidOffset tasksOffset pid listHead (rest.length + 1) node =
      .ok (((node :: rest).dropLast.find? fun m =>
        pidField h p pidOffset tasksOffset m = some pid).bind
          fun m => refKernelVa h p m protRead) := by
  induction rest generalizing node with
  | nil =>
    obtain ⟨a, ha, hnext⟩ := link_eq_some hchain.rel
    rw [refTaskLoop, ha]
    exact if_pos hnext.symm
  | cons next rest ih =>
    obtain ⟨a, ha, hnext⟩ := link_eq_some hchain.rel
    have hne : listHead ≠ a.memory.u32 a.offset := by
      rw [hnext]
      exact fun heq => hhead (heq ▸ List.mem_cons_self)
    have hfield : pidField h p pidOffset tasksOffset node =
        some (a.memory.u32 (a.offset + pidOffset - tasksOffset)) := by
      rw [pidField, ha]
      rfl
    rw [List.length_cons, refTaskLoop, ha, List.dropLast_cons_cons, List.find?_cons, hfield]
    simp only [if_neg hne]
    by_cases hpid : a.memory.u32 (a.offset + pidOffset - tasksOffset) = pid
    · simp only [hpid, if_true, decide_true, Option.bind_some, ha]
    · simp only [hpid, if_false, Option.some.injEq, decide_false, hnext]
      exact ih next hchain.of_cons fun hmem => hhead (List.mem_cons_of_mem _ hmem)

/-- The outcome does not depend on the number of rounds that the loop is given. -/
theorem refTaskLoop_unique {pid listHead node : U32} {m n : Nat} {r r' : Option Access}
    (hr : refTaskLoop h p pidOffset tasksOffset pid listHead m node = .ok r)
    (hr' : refTaskLoop h p pidOffset tasksOffset pid listHead n node = .ok r') : r = r' := by
  induction m generalizing n node with
  | zero => cases hr
  | succ m ih =>
    cases n with
    | zero => cases hr'
    | succ n =>
      rw [refTaskLoop] at hr hr'
      cases hacc : refKernelVa h p node protRead with
      | none =>
        rw [hacc] at hr hr'
        cases hr
        cases hr'
        rfl
      | some a =>
        simp only [hacc] at hr hr'
        split_ifs at hr hr'
        · cases hr
          cases hr'
          rfl
        · cases hr
          cases hr'
          rfl
        · exact ih hr hr'

namespace ProcessList

variable (L : ProcessList h p pidOffset tasksOffset)

theorem nodes_eq : ∃ rest, L.nodes = p.initTask :: rest := List.head?_eq_some_iff.mp L.head

theorem refTaskLoop_eq (pid : U32) :
    refTaskLoop h p pidOffset tasksOffset pid p.initTask L.nodes.length p.initTask =
      .ok ((L.firstWith pid).bind fun node => refKernelVa h p node protRead) := by
  obtain ⟨rest, hnodes⟩ := L.nodes_eq
  have hchain := L.chain
  have hnodup := L.nodup
  rw [hnodes] at hchain hnodup
  unfold firstWith
  rw [hnodes]
  exact refTaskLoop_nodes pid p.initTask rest p.initTask hchain (List.nodup_cons.mp hnodup).1

/-- The nodes are mapped. -/
theorem mapped {node : U32} (hnode : node ∈ L.nodes) :
    ∃ a, refKernelVa h p node protRead = some a := by
  obtain ⟨i, hi, rfl⟩ := List.getElem_of_mem hnode
  have hrel := L.chain.getElem i (by simpa using hi)
  rw [List.getElem_append_left hi] at hrel
  obtain ⟨a, ha, -⟩ := link_eq_some hrel
  exact ⟨a, ha⟩

/-- Two nodes with the same structure are one. -/
theorem node_unique {x y : U32} (hx : x ∈ L.nodes) (hy : y ∈ L.nodes) {a : Access}
    (hax : refKernelVa h p x protRead = some a) (hay : refKernelVa h p y protRead = some a) :
    x = y := by
  obtain ⟨rest, hnodes⟩ := L.nodes_eq
  have hnodup : (rest ++ [p.initTask]).Nodup := by
    have hperm : (rest ++ [p.initTask]).Perm L.nodes := hnodes ▸ List.perm_append_singleton _ _
    exact hperm.nodup_iff.mpr L.nodup
  -- the successor of the node with number `i` has number `i` in the rest of the ring
  have hnext : ∀ i (hi : i < L.nodes.length), refKernelVa h p L.nodes[i] protRead = some a →
      (rest ++ [p.initTask])[i]? = some (a.memory.u32 a.offset) := by
    intro i hi hacc
    have hrel := L.chain.getElem i (by simpa using hi)
    rw [List.getElem_append_left hi, link, hacc, Option.map_some] at hrel
    have hget : (L.nodes ++ [p.initTask])[i + 1]? = some (a.memory.u32 a.offset) := by
      rw [List.getElem?_eq_getElem (by simpa using hi), hrel]
    rw [hnodes] at hget
    simpa using hget
  obtain ⟨i, hi, rfl⟩ := List.getElem_of_mem hx
  obtain ⟨j, hj, rfl⟩ := List.getElem_of_mem hy
  have hi' := hnext i hi hax
  have hj' := hnext j hj hay
  have hlen : i < (rest ++ [p.initTask]).length := by
    rw [hnodes] at hi
    simpa using hi
  have hij : i = j := (List.getElem?_inj hlen hnodup).mp (hi'.trans hj'.symm)
  simp only [hij]

theorem firstWith_mem {pid node : U32} (hfirst : L.firstWith pid = some node) :
    node ∈ L.nodes :=
  List.dropLast_subset _ (List.mem_of_find?_eq_some hfirst)

theorem firstWith_eq_none_iff {pid : U32} : L.firstWith pid = none ↔
    ∀ node ∈ L.nodes.dropLast, pidField h p pidOffset tasksOffset node ≠ some pid := by
  unfold firstWith
  simp only [List.find?_eq_none, decide_eq_true_eq, ne_eq]

theorem firstWith_eq_some_iff {pid node : U32} : L.firstWith pid = some node ↔
    pidField h p pidOffset tasksOffset node = some pid ∧
      ∃ pre post, L.nodes.dropLast = pre ++ node :: post ∧
        ∀ m ∈ pre, pidField h p pidOffset tasksOffset m ≠ some pid := by
  unfold firstWith
  simp only [List.find?_eq_some_iff_append, decide_eq_true_eq, Bool.not_eq_true',
    decide_eq_false_iff_not, ne_eq]

/-- A pid in the page of the link is read. -/
theorem pidField_eq (hps : p.pageSize = 4096) (hshift : p.pageShift = 12) {node : U32}
    (hnode : node ∈ L.nodes) (hpage : L.PidInPage node) :
    pidField h p pidOffset tasksOffset node = L.pidOf node := by
  obtain ⟨hsome, hin⟩ := hpage
  obtain ⟨pid, hpid⟩ := Option.isSome_iff_exists.mp hsome
  obtain ⟨a, ha⟩ := L.mapped hnode
  have hshown := u32_shown hps hshift ha hin (L.pids node hnode pid hpid)
  have hdisplacement : a.offset + (node + pidOffset - tasksOffset - node) =
      a.offset + pidOffset - tasksOffset := by bv_omega
  rw [hdisplacement] at hshown
  rw [pidField, ha, Option.map_some, hshown, hpid]

/-- If the pid is read in front of a node, the first node with it is in front. -/
theorem firstWith_mem_prefix {pid m : U32} {pre post : List U32}
    (hsplit : L.nodes.dropLast = pre ++ post) (hm : m ∈ pre)
    (hfield : pidField h p pidOffset tasksOffset m = some pid) :
    ∃ first ∈ pre, L.firstWith pid = some first := by
  have hsome : (pre.find? fun m => pidField h p pidOffset tasksOffset m = some pid).isSome :=
    List.find?_isSome.mpr ⟨m, hm, decide_eq_true hfield⟩
  obtain ⟨first, hfirst⟩ := Option.isSome_iff_exists.mp hsome
  refine ⟨first, List.mem_of_find?_eq_some hfirst, ?_⟩
  rw [firstWith, hsplit, List.find?_append, hfirst]
  rfl

/-- The first node with the pid, when it is right, belongs to a process with the pid. -/
theorem FirstRight.found {L : ProcessList h p pidOffset tasksOffset} {pid node : U32}
    (hright : L.FirstRight pid) (hfirst : L.firstWith pid = some node) : L.Found pid node :=
  ⟨(L.firstWith_eq_some_iff.mp hfirst).1, hright.sound node hfirst⟩

theorem placed_of_firstRight {pid : U32} (hright : L.FirstRight pid) : L.Placed pid := by
  constructor
  · intro pre node post hsplit _ hfield
    by_cases hbefore : ∃ m ∈ pre, pidField h p pidOffset tasksOffset m = some pid
    · obtain ⟨m, hm, hmfield⟩ := hbefore
      obtain ⟨first, hmem, hfirst⟩ := L.firstWith_mem_prefix hsplit hm hmfield
      exact .inr ⟨first, hmem, hright.found hfirst⟩
    · have hnone : ∀ m ∈ pre, pidField h p pidOffset tasksOffset m ≠ some pid :=
        fun m hm hmfield => hbefore ⟨m, hm, hmfield⟩
      exact .inl (hright.sound node
        (L.firstWith_eq_some_iff.mpr ⟨hfield, pre, post, hsplit, hnone⟩))
  · intro node hnode hpid _
    cases hfirst : L.firstWith pid with
    | none => exact absurd hpid (hright.complete hfirst node hnode)
    | some first => exact ⟨first, List.mem_of_find?_eq_some hfirst, hright.found hfirst⟩

theorem firstRight_of_placed (hps : p.pageSize = 4096) (hshift : p.pageShift = 12) {pid : U32}
    (hplaced : L.Placed pid) : L.FirstRight pid := by
  constructor
  · intro node hfirst
    obtain ⟨hfield, pre, post, hsplit, hnone⟩ := L.firstWith_eq_some_iff.mp hfirst
    by_cases hpage : L.PidInPage node
    · rw [← L.pidField_eq hps hshift (L.firstWith_mem hfirst) hpage]
      exact hfield
    · rcases hplaced.stray pre node post hsplit hpage hfield with hpid | ⟨m, hm, hfound⟩
      · exact hpid
      · exact absurd hfound.1 (hnone m hm)
  · intro hnone node hnode hpid
    rw [L.firstWith_eq_none_iff] at hnone
    by_cases hlast : L.nodes.getLast? = some node ∨ ¬L.PidInPage node
    · obtain ⟨m, hm, hfound⟩ := hplaced.missed node hnode hpid hlast
      exact hnone m hm hfound.1
    · obtain ⟨hne, hpage⟩ := not_or.mp hlast
      have hmem : node ∈ L.nodes.dropLast :=
        List.mem_dropLast_of_mem_of_ne_getLast? hnode (Ne.symm hne)
      apply hnone node hmem
      rw [L.pidField_eq hps hshift hnode (not_not.mp hpage)]
      exact hpid

/-- When the first node with the pid is right, by the places of the words. -/
theorem firstRight_iff_placed (hps : p.pageSize = 4096) (hshift : p.pageShift = 12) (pid : U32) :
    L.FirstRight pid ↔ L.Placed pid :=
  ⟨L.placed_of_firstRight, L.firstRight_of_placed hps hshift⟩

/-- The loop returns what a lookup has to return exactly if the first node with the pid is
right. -/
theorem right_iff (pid : U32) :
    L.Right pid ((L.firstWith pid).bind fun node => refKernelVa h p node protRead) ↔
      L.FirstRight pid := by
  cases hfirst : L.firstWith pid with
  | none =>
    constructor
    · intro hright
      refine ⟨fun node hnode => ?_, fun _ => hright.complete rfl⟩
      rw [hfirst] at hnode
      cases hnode
    · intro hright
      exact ⟨fun a ha => (Option.some_ne_none a ha.symm).elim, fun _ => hright.complete hfirst⟩
  | some first =>
    have hmem := L.firstWith_mem hfirst
    obtain ⟨a, ha⟩ := L.mapped hmem
    rw [Option.bind_some, ha]
    constructor
    · intro hright
      obtain ⟨node, hnode, hpid, hacc⟩ := hright.sound a rfl
      refine ⟨fun m hm => ?_, fun hnone => ?_⟩
      · rw [hfirst] at hm
        cases hm
        rw [L.node_unique hmem hnode ha hacc]
        exact hpid
      · rw [hfirst] at hnone
        cases hnone
    · intro hright
      refine ⟨fun b hb => ?_, fun hnone => (Option.some_ne_none a hnone).elim⟩
      cases hb
      exact ⟨first, hmem, hright.sound first hfirst, ha⟩

/-- The loop on a list: it ends, and its outcome is the first node with the pid. -/
theorem taskLoop_eq (hps : p.pageSize = 4096) {s : XaState} (hs : Sound h p fuel s) (pid : U32) :
    ∃ t, taskLoop h pidOffset tasksOffset pid p.initTask L.nodes.length p.initTask s =
      .ok ((L.firstWith pid).bind fun node => refKernelVa h p node protRead, t) := by
  obtain ⟨t, hrun, -⟩ := follows_exists
    (taskLoop_follows hps pidOffset tasksOffset pid p.initTask L.nodes.length s p.initTask hs)
    (L.refTaskLoop_eq pid)
  exact ⟨t, hrun⟩

theorem taskLoop_outcome (hps : p.pageSize = 4096) {s t : XaState} (hs : Sound h p fuel s)
    {pid : U32} {n : Nat} {r : Option Access}
    (hrun : taskLoop h pidOffset tasksOffset pid p.initTask n p.initTask s = .ok (r, t)) :
    r = (L.firstWith pid).bind fun node => refKernelVa h p node protRead := by
  have href := (follows_ok
    (taskLoop_follows hps pidOffset tasksOffset pid p.initTask n s p.initTask hs) hrun).1
  exact refTaskLoop_unique href (L.refTaskLoop_eq pid)

theorem taskLoop_right_iff (hps : p.pageSize = 4096) {s : XaState} (hs : Sound h p fuel s)
    (pid : U32) :
    (∃ n r t, taskLoop h pidOffset tasksOffset pid p.initTask n p.initTask s = .ok (r, t) ∧
      L.Right pid r) ↔ L.FirstRight pid := by
  rw [← L.right_iff]
  constructor
  · rintro ⟨n, r, t, hrun, hright⟩
    rw [← L.taskLoop_outcome hps hs hrun]
    exact hright
  · intro hright
    obtain ⟨t, hrun⟩ := L.taskLoop_eq hps hs pid
    exact ⟨_, _, t, hrun, hright⟩

end ProcessList

/-- **When a process lookup is right.** In every state reached by calls from empty caches, on
a well-formed list, the loop ends and returns a process with the pid, or `NULL` when there is
none, exactly if the first node with the pid, the last node of the list excepted, belongs to
a process that has it, and no process has it when there is no such node. With pages of 4096 bytes
this is a matter of where the words with the pid stand. -/
theorem processLookup_right_iff (h : Host) (fuel : Nat) (s₀ s : XaState)
    (hps : s₀.pageSize = 4096) (calls : List Call)
    (hrun : runCalls h fuel calls s₀.clear = .ok ((), s)) (pid : U32) :
    (∀ L : ProcessList h s₀.toXaParams s₀.os.linuxPid s₀.os.linuxTasks,
      ((∃ n r t, linuxGetTaskstruct h n pid s = .ok (r, t) ∧ L.Right pid r) ↔
        L.FirstRight pid) ∧
      (s₀.pageShift = 12 → (L.FirstRight pid ↔ L.Placed pid))) ∧
    (∀ L : ProcessList h s₀.toXaParams s₀.os.winPid s₀.os.winTasks,
      ((∃ n r t, windowsGetEPROCESS h n pid s = .ok (r, t) ∧ L.Right pid r) ↔
        L.FirstRight pid) ∧
      (s₀.pageShift = 12 → (L.FirstRight pid ↔ L.Placed pid))) := by
  have hs := sound_of_runCalls hps hrun
  unfold linuxGetTaskstruct windowsGetEPROCESS
  simp only [get_bind, hs.params]
  constructor
  · intro L
    exact ⟨L.taskLoop_right_iff hps hs pid, fun hshift => L.firstRight_iff_placed hps hshift pid⟩
  · intro L
    exact ⟨L.taskLoop_right_iff hps hs pid, fun hshift => L.firstRight_iff_placed hps hshift pid⟩

/-! ### A Windows list -/

/-- A Windows guest with two processes: `smss.exe` with pid `0x178` at `0x3000` and System
with pid `4` at `0x4000`. `PsActiveProcessHead` is at `0x2010`; the word before it, where the
pid would be, is `0x999`. -/
def ringWords : Words :=
  [(0x1800, 0x83), (0x200C, 0x999), (0x2010, 0x80004088), (0x3084, 0x178),
    (0x3088, 0x80002010), (0x4084, 4), (0x4088, 0x80003088)]

/-- The instance as `windows_init` leaves it: the list starts behind System. -/
def ringState : XaState :=
  imageState .windows 0x80000000 0x80001000 0x80003088 ⟨0x400000, 0x88, 0x18, 0x84, 0, 0, 0⟩

def ringList : ProcessList (imageHost ringWords) ringState.toXaParams 0x84 0x88 where
  nodes := [0x80003088, 0x80002010, 0x80004088]
  pidOf node := [((0x80003088 : U32), (0x178 : U32)), (0x80004088, 4)].lookup node
  head := rfl
  nodup := by decide
  chain := by decide
  pids := by
    intro node hnode pid hpid i hi
    revert i
    rcases List.mem_cons.mp hnode with rfl | hnode
    · cases hpid
      decide
    · rcases List.mem_cons.mp hnode with rfl | hnode
      · cases hpid
      · rcases List.mem_singleton.mp hnode with rfl
        cases hpid
        decide

theorem ringList_right : ∃ n r t,
    windowsGetEPROCESS (imageHost ringWords) n 0x178 ringState.clear = .ok (r, t) ∧
      ringList.Right 0x178 r := by
  refine ((processLookup_right_iff (imageHost ringWords) 0 ringState ringState.clear rfl [] rfl
    0x178).2 ringList).1.mpr ?_
  have hfirst : ringList.firstWith 0x178 = some 0x80003088 := by decide
  constructor
  · intro node hnode
    cases hfirst.symm.trans hnode
    rfl
  · intro hnone
    cases hfirst.symm.trans hnone

/-- System is on the list and is not found; the list head is returned as the process with
pid `0x999`. -/
theorem ringList_not_right :
    (ringList.pidOf 0x80004088 = some 4 ∧
      ¬∃ n r t, windowsGetEPROCESS (imageHost ringWords) n 4 ringState.clear = .ok (r, t) ∧
        ringList.Right 4 r) ∧
    (ringList.pidOf 0x80002010 = none ∧
      ∃ n a t, windowsGetEPROCESS (imageHost ringWords) n 0x999 ringState.clear =
          .ok (some a, t) ∧
        refKernelVa (imageHost ringWords) ringState.toXaParams 0x80002010 protRead = some a) := by
  have hsound : Sound (imageHost ringWords) ringState.toXaParams 0 ringState.clear :=
    sound_clear ringState
  refine ⟨⟨rfl, ?_⟩, rfl, ?_⟩
  · intro hright
    have hfirst := (ringList.taskLoop_right_iff rfl hsound 4).mp hright
    exact hfirst.complete (by decide) 0x80004088 (by decide) rfl
  · obtain ⟨t, hrun⟩ := ringList.taskLoop_eq rfl hsound 0x999
    have hfirst : ringList.firstWith 0x999 = some 0x80002010 := by decide
    obtain ⟨a, ha⟩ := ringList.mapped (List.mem_cons_of_mem _ List.mem_cons_self)
    rw [hfirst, Option.bind_some, ha] at hrun
    refine ⟨ringList.nodes.length, a, t, ?_, ha⟩
    rw [windowsGetEPROCESS, get_bind]
    exact hrun

end XenAccess
