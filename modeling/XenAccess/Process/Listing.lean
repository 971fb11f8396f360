import XenAccess.Model.Programs
import XenAccess.Maps.KernelPage
import XenAccess.Process.Lookup

/-!
# Listings of the lists of a guest

`process-list` and `module-list` follow a list from its first node on and stop at the node whose
link leads back there, without printing it. So on a ring they print each node but the last one,
once and in the order of the ring (`LinkRing.listLoop_eq`); the last node is `init_task` on Linux,
System among the processes of Windows, and the list head among modules.
-/

namespace XenAccess

open Prog

variable {h : Host} {p : XaParams} {fuel : Nat} {row : Access → XaM (List CStr)}
  {refRow : Access → List CStr} {listHead : U32}

/-! ## The loop without caches -/

/-- The loop of the listings without caches. -/
def refListLoop (h : Host) (p : XaParams) (refRow : Access → List CStr) (listHead : U32) :
    Nat → U32 → Except Fault (List CStr × Bool)
  | 0, _ => .error .outOfFuel
  | fuel + 1, next =>
    match refKernelVa h p next protRead with
    | none => .ok ([], false)
    | some a =>
      let next := a.memory.u32 a.offset
      if listHead = next then .ok ([], true)
      else do
        let (rest, done) ← refListLoop h p refRow listHead fuel next
        return (refRow a ++ rest, done)

/-- Printing a node makes the accesses that `refRow` makes without caches. -/
def RowFollows (h : Host) (p : XaParams) (fuel : Nat) (row : Access → XaM (List CStr))
    (refRow : Access → List CStr) : Prop :=
  ∀ s a, Sound h p fuel s → Follows (Sound h p fuel) s (row a) (.ok (refRow a))

theorem rowFollows_pure (refRow : Access → List CStr) :
    RowFollows h p fuel (fun a => pure (refRow a)) refRow := by
  intro s a hs
  exact follows_pure (refRow a) hs

theorem listLoop_follows (hps : p.pageSize = 4096) (hrow : RowFollows h p fuel row refRow)
    (listHead : U32) (n : Nat) {s : XaState} (hs : Sound h p fuel s) (next : U32) :
    Follows (Sound h p fuel) s (listLoop h row listHead n next)
      (refListLoop h p refRow listHead n next) := by
  induction n generalizing s next with
  | zero => exact rfl
  | succ n ih =>
    obtain ⟨t, hacc, ht⟩ := follows_exists (xaAccessKernelVa_follows hps hs next protRead) rfl
    rw [Follows, listLoop, bind_of_ok hacc, refListLoop]
    cases refKernelVa h p next protRead with
    | none => exact ⟨rfl, ht⟩
    | some a =>
      by_cases hhead : listHead = a.memory.u32 a.offset
      · simp only [if_pos hhead]
        exact ⟨rfl, ht⟩
      · obtain ⟨u, hlines, hu⟩ := follows_exists (hrow t a ht) rfl
        have hrest := ih hu (a.memory.u32 a.offset)
        simp only [if_neg hhead, bind_of_ok hlines]
        cases hrun : listLoop h row listHead n (a.memory.u32 a.offset) u with
        | error e =>
          rw [Follows, hrun] at hrest
          rw [bind_of_error hrun, hrest]
          rfl
        | ok r =>
          obtain ⟨⟨rest, done⟩, v⟩ := r
          obtain ⟨href, hv⟩ := follows_ok hrest hrun
          rw [bind_of_ok hrun, href]
          exact ⟨rfl, hv⟩

theorem xaAccessKernelSym_keeps (hps : p.pageSize = 4096) (sym : CStr) (prot : U32) :
    Keeps (Sound h p fuel) (xaAccessKernelSym h sym prot) :=
  call_keeps hps (.kernelSym sym prot)

theorem xaReadLongSym_keeps (hps : p.pageSize = 4096) (sym : CStr) :
    Keeps (Sound h p fuel) (xaReadLongSym h sym) :=
  keeps_bind (xaAccessKernelSym_keeps hps sym protRead) fun _ => keeps_pure _

/-! ## Rings -/

/-- A circular list of a guest: the addresses of its links from the head on, each of which leads
to the next one, the last one to the head. -/
structure LinkRing (h : Host) (p : XaParams) (listHead : U32) where
  nodes : List U32
  head : nodes.head? = some listHead
  nodup : nodes.Nodup
  chain : (nodes ++ [listHead]).IsChain fun x y => link h p x = some y

/-- What is printed of a node. -/
def nodeLines (h : Host) (p : XaParams) (refRow : Access → List CStr) (node : U32) : List CStr :=
  ((refKernelVa h p node protRead).map refRow).getD []

/-- The loop from a node of a ring on, with as many rounds as there are nodes. -/
theorem refListLoop_nodes (rest : List U32) (node : U32)
    (hchain : (node :: rest ++ [listHead]).IsChain fun x y => link h p x = some y)
    (hhead : listHead ∉ rest) :
    refListLoop h p refRow listHead (rest.length + 1) node =
      .ok ((node :: rest).dropLast.flatMap (nodeLines h p refRow), true) := by
  induction rest generalizing node with
  | nil =>
    obtain ⟨a, ha, hnext⟩ := link_eq_some hchain.rel
    rw [refListLoop, ha]
    exact if_pos hnext.symm
  | cons next rest ih =>
    obtain ⟨a, ha, hnext⟩ := link_eq_some hchain.rel
    have hne : listHead ≠ next := fun heq => hhead (heq ▸ List.mem_cons_self)
    have hlines : nodeLines h p refRow node = refRow a := by
      rw [nodeLines, ha]
      rfl
    have hrest := ih next hchain.of_cons fun hmem => hhead (List.mem_cons_of_mem _ hmem)
    rw [List.length_cons, refListLoop, ha, List.dropLast_cons_cons, List.flatMap_cons, hlines]
    simp only [hnext, if_neg hne, hrest]
    rfl

namespace LinkRing

variable (R : LinkRing h p listHead)

theorem nodes_eq : ∃ rest, R.nodes = listHead :: rest := List.head?_eq_some_iff.mp R.head

/-- Every node can be mapped. -/
theorem mapped {node : U32} (hnode : node ∈ R.nodes) :
    ∃ a, refKernelVa h p node protRead = some a := by
  obtain ⟨i, hi, rfl⟩ := List.getElem_of_mem hnode
  have hrel := R.chain.getElem i (by simpa using hi)
  rw [List.getElem_append_left hi] at hrel
  obtain ⟨a, ha, -⟩ := link_eq_some hrel
  exact ⟨a, ha⟩

theorem refListLoop_eq (refRow : Access → List CStr) :
    refListLoop h p refRow listHead R.nodes.length listHead =
      .ok (R.nodes.dropLast.flatMap (nodeLines h p refRow), true) := by
  obtain ⟨rest, hnodes⟩ := R.nodes_eq
  have hchain := R.chain
  have hnodup := R.nodup
  rw [hnodes] at hchain hnodup ⊢
  apply refListLoop_nodes rest listHead hchain
  exact (List.nodup_cons.mp hnodup).1

/-- **A listing of a ring** ends, comes back to the head, and prints the lines of each node but
the last one. -/
theorem listLoop_eq (hps : p.pageSize = 4096) (hrow : RowFollows h p fuel row refRow)
    {s : XaState} (hs : Sound h p fuel s) :
    ∃ t, listLoop h row listHead R.nodes.length listHead s =
      .ok ((R.nodes.dropLast.flatMap (nodeLines h p refRow), true), t) ∧ Sound h p fuel t :=
  follows_exists (listLoop_follows hps hrow listHead R.nodes.length hs listHead) (R.refListLoop_eq refRow)

end LinkRing

/-! ## Processes -/

/-- A process of the guest with the fields that a listing reads, all in the page of its link. -/
structure TaskAt (h : Host) (p : XaParams) (o : ListOffsets) (node pid : U32) (name : CStr) :
    Prop where
  pidPage : InPageOf node (node + o.pid - o.tasks) 4
  pid : KernelU32 h p (node + o.pid - o.tasks) pid
  namePage : InPageOf node (node + o.name - o.tasks) (name.length + 1)
  name : KernelString h p (node + o.name - o.tasks) name

/-- The line for a process; a negative pid has none. -/
def taskLines (pid : U32) (name : CStr) : List CStr :=
  if pid.msb then [] else [printProcess pid name]

section

variable (hps : p.pageSize = 4096) (hshift : p.pageShift = 12) {o : ListOffsets}
  {node pid : U32} {name : CStr} {a : Access}
include hps hshift

theorem TaskAt.shown (htask : TaskAt h p o node pid name)
    (ha : refKernelVa h p node protRead = some a) :
    a.memory.u32 (a.offset + o.pid - o.tasks) = pid ∧
      a.memory.str (a.offset + o.name - o.tasks) = name := by
  have hdisplacement (d : U32) : a.offset + (node + d - o.tasks - node) = a.offset + d - o.tasks := by
    bv_omega
  have hpid := u32_shown hps hshift ha htask.pidPage htask.pid
  have hname := string_shown hps hshift ha htask.namePage htask.name
  rw [hdisplacement] at hpid hname
  refine ⟨hpid, (cstr_eq_iff ?_).mpr hname⟩
  have := htask.namePage.2
  omega

theorem TaskAt.lines (htask : TaskAt h p o node pid name)
    (ha : refKernelVa h p node protRead = some a) : processLines o a = taskLines pid name := by
  obtain ⟨hpid, hname⟩ := htask.shown hps hshift ha
  rw [processLines, hpid, hname, taskLines]

/-- The line for the structure that a listing starts with, mapped at its start. -/
theorem TaskAt.firstLine (htask : TaskAt h p { o with tasks := 0 } node pid name)
    (ha : refKernelVa h p node protRead = some a) :
    firstProcessLine o a = printProcess pid name := by
  obtain ⟨hpid, hname⟩ := htask.shown hps hshift ha
  have hzero (d : U32) : d - 0 = d := BitVec.sub_zero d
  simp only [hzero] at hpid hname
  rw [firstProcessLine, hpid, hname]

/-- The lines for the nodes of a ring of processes. -/
theorem LinkRing.taskLines_eq (R : LinkRing h p listHead) {pidOf : U32 → U32}
    {nameOf : U32 → CStr}
    (htasks : ∀ node ∈ R.nodes.dropLast, TaskAt h p o node (pidOf node) (nameOf node)) :
    R.nodes.dropLast.flatMap (nodeLines h p (processLines o)) =
      R.nodes.dropLast.flatMap fun node => taskLines (pidOf node) (nameOf node) := by
  apply List.flatMap_congr
  intro node hnode
  obtain ⟨a, ha⟩ := R.mapped (List.dropLast_subset _ hnode)
  rw [nodeLines, ha]
  exact (htasks node hnode).lines hps hshift ha

end

end XenAccess
