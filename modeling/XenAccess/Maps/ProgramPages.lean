import XenAccess.Lib.Balance
import XenAccess.Maps.Readers
import XenAccess.Model.ProgramLedger
import XenAccess.Process.ModuleListing
import XenAccess.Process.ProcessListing

/-!
# The pages of the example programs

What the listings under `examples/` leave mapped. `process-list` goes on without unmapping at a
negative pid, so one page stays for each process that is not listed (`processList_pages`).
`module-list` unmaps all that it maps, whatever the list of the guest looks like
(`moduleList_pages`).
-/

namespace XenAccess.Traced

open Audit Prog

variable {h : Host} {p : XaParams} {s : XaState} {fuel : Nat}
  {R : Rules XaState (Option SavedTable)} {C : Option SavedTable → Prop}

/-! ## Rows -/

/-- A row that counts `leaks` pages, for whichever node it is printed. -/
def RowCounts (h : Host) (p : XaParams) (fuel : Nat) (C : Option SavedTable → Prop)
    (leaks : Access → Nat) (row : Mapped → TraceM (List CStr))
    (row' : Access → XaM (List CStr)) : Prop :=
  ∀ s, Sound h p fuel s → ∀ m : Mapped,
    Counts ((rules h p).withClean C) s (pieces m.id 1) (fun _ => 0) id (leaks m.access) 0 (row m)
      (row' m.access)

/-- Whether the loop of `process-list` goes on without unmapping. -/
def skips (o : ListOffsets) (a : Access) : Nat :=
  if (a.memory.u32 (a.offset + o.pid - o.tasks)).msb then 1 else 0

theorem field_counts {held : Multiset Piece} {m : Mapped} {d : U32} :
    Counts R s held (fun _ => held) id 0 0 (m.field d) (pure (m.access.memory.u32 d)) := by
  have hfield : Tracks R s held (fun _ => held) id ⟨True, InMapping d 4, False⟩ (m.field d)
      (pure (m.access.memory.u32 d)) :=
    (loadPage_tracks held d 4).bind_skip fun _ _ => tracks_pure rfl rfl
  exact hfield.counts trivial

theorem load_counts {held : Multiset Piece} (d : U32) (n : Nat) :
    Counts R s held (fun _ => held) (fun _ => ()) 0 0 (loadBytes 1 d n) (pure ()) :=
  (loadBytes_tracks held 1 d n).counts trivial

theorem munmap_counts (id : Nat) :
    Counts R s (pieces id 1) (fun _ => 0) (fun _ => ()) 0 0 (munmap id) (pure ()) :=
  (munmap_page_tracks id).counts trivial

theorem return_counts {α : Type} (a : α) :
    Counts R s 0 (fun _ => 0) id 0 0 (pure a : TraceM α) (pure a) :=
  counts_pure rfl rfl

/-- The page is unmapped at the end of a row. -/
theorem unmapped_counts {α : Type} (page : Nat) (a : α) :
    Counts R s (pieces page 1) (fun _ => 0) id 0 0 (do munmap page; return a) (pure a) :=
  (munmap_counts page).skip_bind fun _ _ => return_counts a

theorem access_counts (hps : p.pageSize = 4096) (v : U32) :
    Counts ((rules h p).withClean C) s 0 accessPieces (Option.map Mapped.access) 0 0
      (xaAccessKernelVa h v protRead) (XenAccess.xaAccessKernelVa h v protRead) :=
  (xaAccessKernelVa_tracks hps v protRead).counts_unused trivial id C

theorem processRow_counts (o : ListOffsets) :
    RowCounts h p fuel C (skips o) (processRow o) fun a => return processLines o a := by
  intro s _ m
  refine field_counts.skip_bind fun pid hpid => ?_
  obtain rfl : pid = m.access.memory.u32 (m.access.offset + o.pid - o.tasks) := hpid
  by_cases hneg : (m.access.memory.u32 (m.access.offset + o.pid - o.tasks)).msb = true
  · have hlines : processLines o m.access = [] := if_pos hneg
    rw [if_pos hneg, skips, if_pos hneg]
    show Counts _ _ _ _ _ _ _ _ (pure (processLines o m.access))
    rw [hlines]
    exact counts_forget rfl
  · have hlines : processLines o m.access = [printProcess
        (m.access.memory.u32 (m.access.offset + o.pid - o.tasks))
        (m.access.memory.str (m.access.offset + o.name - o.tasks))] := if_neg hneg
    rw [if_neg hneg, skips, if_neg hneg]
    show Counts _ _ _ _ _ _ _ _ (pure (processLines o m.access))
    rw [hlines]
    refine (load_counts _ _).skip_bind fun _ _ => ?_
    exact unmapped_counts m.id _

theorem linuxModuleRow_counts :
    RowCounts h p fuel C (fun _ => 0) linuxModuleRow fun a => return linuxModuleLines a := by
  intro s _ m
  refine (load_counts _ _).skip_bind fun _ _ => ?_
  exact unmapped_counts m.id _

theorem printUnicodeString_counts (hps : p.pageSize = 4096) (hs : Sound h p fuel s)
    (len : BitVec 16) (addr : U32) :
    Counts ((rules h p).withClean C) s 0 (fun _ => 0) id 0 0 (printUnicodeString h len addr)
      (XenAccess.printUnicodeString h len addr) := by
  obtain ⟨t, hacc, -⟩ := follows_exists (xaAccessKernelVa_follows hps hs addr protRead) rfl
  refine (access_counts hps addr).clean_bind hacc fun m hm => ?_
  rw [← hm]
  cases m with
  | none => exact return_counts _
  | some m =>
    refine (load_counts _ _).skip_bind fun _ _ => ?_
    exact unmapped_counts m.id _

/-- While the name of a module is printed its own page stays mapped. -/
theorem windowsModuleRow_counts (hps : p.pageSize = 4096) :
    RowCounts h p fuel C (fun _ => 0) (windowsModuleRow h) (XenAccess.windowsModuleLines h) := by
  intro s hs m
  refine (load_counts _ _).skip_bind fun _ _ => ?_
  refine field_counts.skip_bind fun addr haddr => ?_
  obtain rfl : addr = m.access.memory.u32 (m.access.offset + 0x30) := haddr
  obtain ⟨t, hlines, -⟩ := follows_exists (windowsModuleLines_follows hps s m.access hs) rfl
  have hname := printUnicodeString_counts (C := C) hps hs
    (m.access.memory (m.access.offset + 0x2d) ++ m.access.memory (m.access.offset + 0x2c))
    (m.access.memory.u32 (m.access.offset + 0x30))
  have hprint := hname.frame ⟨_, hlines⟩ (pieces m.id 1)
  rw [zero_add] at hprint
  rw [← bind_pure (XenAccess.windowsModuleLines h m.access)]
  refine hprint.clean_bind hlines fun lines hl => ?_
  rw [← hl]
  exact unmapped_counts m.id lines

/-! ## The loop of a listing -/

/-- What the rounds of a listing count, without caches. -/
def refLeaks (h : Host) (p : XaParams) (leaks : Access → Nat) (listHead : U32) : Nat → U32 → Nat
  | 0, _ => 0
  | fuel + 1, next =>
    match refKernelVa h p next protRead with
    | none => 0
    | some a =>
      if listHead = a.memory.u32 a.offset then 0
      else leaks a + refLeaks h p leaks listHead fuel (a.memory.u32 a.offset)

/-- **The balance of a listing** is the sum over its rows. -/
theorem listLoop_counts (hps : p.pageSize = 4096) {leaks : Access → Nat}
    {row : Mapped → TraceM (List CStr)} {row' : Access → XaM (List CStr)}
    {refRow : Access → List CStr} (hrow : RowCounts h p fuel C leaks row row')
    (hfollows : RowFollows h p fuel row' refRow) (listHead : U32) (n : Nat) :
    ∀ (next : U32) (s : XaState), Sound h p fuel s →
      Counts ((rules h p).withClean C) s 0 (fun _ => 0) id (refLeaks h p leaks listHead n next) 0
        (listLoop h row listHead n next) (XenAccess.listLoop h row' listHead n next) := by
  induction n with
  | zero =>
    intro next s _
    exact (tracks_throw .outOfFuel).counts trivial
  | succ n ih =>
    intro next s hs
    obtain ⟨t, hacc, ht⟩ := follows_exists (xaAccessKernelVa_follows hps hs next protRead) rfl
    refine (access_counts hps next).clean_bind hacc fun m hm => ?_
    rw [refLeaks, ← hm]
    cases m with
    | none => exact return_counts _
    | some m =>
      refine field_counts.skip_bind fun link hlink => ?_
      obtain rfl : link = m.access.memory.u32 m.access.offset := hlink
      by_cases hhead : listHead = m.access.memory.u32 m.access.offset
      · simp only [Option.map_some, if_pos hhead]
        exact unmapped_counts m.id _
      · simp only [Option.map_some, if_neg hhead]
        obtain ⟨u, hlines, hu⟩ := follows_exists (hfollows t m.access ht) rfl
        refine ((hrow t ht m).bind_of_ok hlines fun lines hl => ?_).of_eq rfl (Nat.zero_add 0)
        obtain rfl : lines = refRow m.access := hl
        exact (ih _ u hu).then_pure (fun _ => rfl) fun _ => rfl

/-- Rows that count nothing. -/
theorem refLeaks_zero (listHead : U32) (n : Nat) (next : U32) :
    refLeaks h p (fun _ => 0) listHead n next = 0 := by
  induction n generalizing next with
  | zero => rfl
  | succ n ih =>
    rw [refLeaks]
    cases refKernelVa h p next protRead with
    | none => rfl
    | some a =>
      simp only [ih, Nat.add_zero, ite_self]

/-- On a ring each node but the last one has a row. -/
theorem refLeaks_nodes {listHead : U32} (leaks : Access → Nat) (rest : List U32) (node : U32)
    (hchain : (node :: rest ++ [listHead]).IsChain fun x y => link h p x = some y)
    (hhead : listHead ∉ rest) :
    refLeaks h p leaks listHead (rest.length + 1) node =
      ((node :: rest).dropLast.map fun node =>
        ((refKernelVa h p node protRead).map leaks).getD 0).sum := by
  induction rest generalizing node with
  | nil =>
    obtain ⟨a, ha, hnext⟩ := link_eq_some hchain.rel
    rw [refLeaks, ha]
    exact if_pos hnext.symm
  | cons next rest ih =>
    obtain ⟨a, ha, hnext⟩ := link_eq_some hchain.rel
    have hne : listHead ≠ next := fun heq => hhead (heq ▸ List.mem_cons_self)
    have hrest := ih next hchain.of_cons fun hmem => hhead (List.mem_cons_of_mem _ hmem)
    rw [List.length_cons, refLeaks, ha, List.dropLast_cons_cons, List.map_cons, List.sum_cons, ha]
    simp only [hnext, if_neg hne, hrest]
    rfl

/-- The processes that are not listed. -/
def skipped (pidOf : U32 → U32) (nodes : List U32) : Nat :=
  nodes.countP fun node => (pidOf node).msb

theorem sum_map_ite {α : Type} (P : α → Bool) (l : List α) :
    (l.map fun a => if P a then 1 else 0).sum = l.countP P := by
  induction l with
  | nil => rfl
  | cons a l ih =>
    rw [List.map_cons, List.sum_cons, ih, List.countP_cons, Nat.add_comm]

theorem refLeaks_ring {listHead : U32} (hps : p.pageSize = 4096) (hshift : p.pageShift = 12)
    {o : ListOffsets} {pidOf : U32 → U32} {nameOf : U32 → CStr} (R : LinkRing h p listHead)
    (htasks : ∀ node ∈ R.nodes.dropLast, TaskAt h p o node (pidOf node) (nameOf node)) :
    refLeaks h p (skips o) listHead R.nodes.length listHead = skipped pidOf R.nodes.dropLast := by
  obtain ⟨rest, hnodes⟩ := R.nodes_eq
  have hchain := R.chain
  have hnodup := R.nodup
  rw [hnodes] at hchain hnodup
  have hsum := refLeaks_nodes (skips o) rest listHead hchain (List.nodup_cons.mp hnodup).1
  rw [← hnodes, ← List.length_cons, ← hnodes] at hsum
  have hskips : ∀ node ∈ R.nodes.dropLast,
      ((refKernelVa h p node protRead).map (skips o)).getD 0 =
        if (pidOf node).msb then 1 else 0 := by
    intro node hnode
    obtain ⟨a, ha⟩ := R.mapped (List.dropLast_subset _ hnode)
    rw [ha, Option.map_some, Option.getD_some, skips,
      ((htasks node hnode).shown hps hshift ha).1]
  rw [hsum, List.map_congr_left hskips]
  exact sum_map_ite (fun node => (pidOf node).msb) R.nodes.dropLast

/-! ## Listings -/

/-- On Linux a symbol is looked up in a file. -/
theorem symVerdict_linux (hos : p.osType = .linux) (sym : CStr) : symVerdict h p sym s = .skip :=
  Verdict.guard_of_not (by simp [hos]) _

theorem firstRow_counts (o : ListOffsets) (m : Mapped) :
    Counts R s (pieces m.id 1) (fun _ => pieces m.id 1) id 0 0 (firstRow o m)
      (pure [firstProcessLine o m.access]) := by
  refine field_counts.skip_bind fun pid hpid => ?_
  obtain rfl : pid = m.access.memory.u32 (m.access.offset + o.pid) := hpid
  refine (load_counts _ _).skip_bind fun _ _ => ?_
  exact counts_pure rfl rfl

section

variable {o : ListOffsets} {a : Access} {pidOf : U32 → U32} {nameOf : U32 → CStr}
  (L : Listed h p o a pidOf nameOf)
include L

theorem processListFrom_counts (hps : p.pageSize = 4096) (hshift : p.pageShift = 12)
    {first : Mapped → TraceM (List CStr)} {first' : Access → List CStr}
    (hs : Sound h p fuel s) {m : Mapped} (hm : m.access = a)
    (hfirst : Counts ((rules h p).withClean C) s (pieces m.id 1) (fun _ => pieces m.id 1) id 0 0
      (first m) (pure (first' m.access))) :
    Counts ((rules h p).withClean C) s (pieces m.id 1) (fun _ => 0) id
      (skipped pidOf L.ring.nodes.dropLast) 0
      (processListFrom h o first L.ring.nodes.length (some m))
      (XenAccess.processListFrom h o first' L.ring.nodes.length (some a)) := by
  subst hm
  refine field_counts.skip_bind fun next hnext => ?_
  obtain rfl : next = m.access.memory.u32 (m.access.offset + o.tasks) := hnext
  refine hfirst.skip_bind fun line hline => ?_
  obtain rfl : line = first' m.access := hline
  refine (munmap_counts m.id).skip_bind fun _ _ => ?_
  rw [← refLeaks_ring hps hshift L.ring L.tasks, XenAccess.processListFrom, L.start]
  have hloop := listLoop_counts (C := C) hps (processRow_counts o)
    (rowFollows_pure (processLines o)) L.first L.ring.nodes.length L.first s hs
  exact hloop.then_pure (fun _ => rfl) fun _ => rfl

theorem processList_linux_counts (hps : p.pageSize = 4096) (hshift : p.pageShift = 12)
    (ho : o = listOffsets h p) (hos : p.osType = .linux) {t : XaState} (hs : Sound h p fuel s)
    (hstart : XenAccess.xaAccessKernelSym h (cstr "init_task") protRead s = .ok (some a, t)) :
    Counts ((rules h p).withClean fun _ => True) s 0 (fun _ => 0) id
      (skipped pidOf L.ring.nodes.dropLast) 0 (processList h L.ring.nodes.length)
      (XenAccess.processList h L.ring.nodes.length) := by
  subst ho
  have ht := xaAccessKernelSym_keeps hps _ _ s _ t hs hstart
  have hverdict := symVerdict_linux (h := h) (s := s) hos (cstr "init_task")
  have hsym := (xaAccessKernelSym_tracks (s := s) (h := h) hps (cstr "init_task") protRead).congr
    fun _ => hverdict
  refine counts_get_bind fun _ => ?_
  rw [hs.params, hos]
  refine (hsym.counts_unused trivial id _).clean_bind hstart fun r hr => ?_
  obtain ⟨m, rfl, hm⟩ := Option.map_eq_some_iff.mp hr
  exact processListFrom_counts L hps hshift ht hm (counts_pure (a := []) rfl rfl)

theorem processList_windows_counts (hps : p.pageSize = 4096) (hshift : p.pageShift = 12)
    (ho : o = listOffsets h p) (hos : p.osType = .windows) {t : XaState} (hs : Sound h p fuel s)
    {start : U32}
    (hstart : XenAccess.xaReadLongSym h (cstr "PsInitialSystemProcess") s = .ok (some start, t))
    (ha : refKernelVa h p start protRead = some a) :
    Counts (rules h p) s 0 (fun _ => 0) id (skipped pidOf L.ring.nodes.dropLast) 0
      (processList h L.ring.nodes.length) (XenAccess.processList h L.ring.nodes.length) := by
  subst ho
  have ht := xaReadLongSym_keeps hps _ s _ t hs hstart
  obtain ⟨u, hacc, hu⟩ := follows_exists (xaAccessKernelVa_follows hps ht start protRead) rfl
  rw [ha] at hacc
  have hsym := (xaReadLongSym_tracks (s := s) (h := h) hps (cstr "PsInitialSystemProcess")).counts
    fun _ _ => trivial
  have hmap : Counts (rules h p) t 0 accessPieces (Option.map Mapped.access) 0 0
      (xaAccessKernelVa h start protRead) (XenAccess.xaAccessKernelVa h start protRead) :=
    access_counts hps start
  refine counts_get_bind fun _ => ?_
  rw [hs.params, hos]
  refine hsym.clean_bind hstart fun r hr => ?_
  obtain rfl : r = some start := hr
  refine hmap.clean_bind hacc fun r hr => ?_
  obtain ⟨m, rfl, hm⟩ := Option.map_eq_some_iff.mp hr
  exact processListFrom_counts L hps hshift hu hm (firstRow_counts _ m)

end

/-- **What `process-list` leaves mapped.** In every state reached by calls from empty caches, and
with whatever pages mapped, its run over a ring of processes unmaps no page twice and leaves the
pages of the processes that it does not list, one for each: those whose pid is negative. On Windows
the lookup of the symbol may build the table of frames, which must release what it reads. -/
theorem processList_pages (h : Host) (fuel : Nat) (s₀ s : XaState) (hps : s₀.pageSize = 4096)
    (hshift : s₀.pageShift = 12) (calls : List Call)
    (hrun : runCalls h fuel calls s₀.clear = .ok ((), s)) (pidOf : U32 → U32)
    (nameOf : U32 → CStr) (B : Ledger (Option SavedTable)) (hB : B.WF)
    (hfits : ∀ table, B.store = some table → pfnTable h s₀.toXaParams = some table) :
    (s₀.osType = .linux → ∀ a t,
      XenAccess.xaAccessKernelSym h (cstr "init_task") protRead s = .ok (some a, t) →
      ∀ L : Listed h s₀.toXaParams (listOffsets h s₀.toXaParams) a pidOf nameOf, ∃ n u B',
        processList h n s B =
          (.ok ((processesLines pidOf nameOf L.ring.nodes.dropLast, true), u), B') ∧
        B.Grows B' (skipped pidOf L.ring.nodes.dropLast) 0) ∧
    (s₀.osType = .windows → ListReleased h s₀.toXaParams B.store → ∀ first t,
      XenAccess.xaReadLongSym h (cstr "PsInitialSystemProcess") s = .ok (some first, t) →
      ∀ a, refKernelVa h s₀.toXaParams first protRead = some a →
      ∀ L : Listed h s₀.toXaParams (listOffsets h s₀.toXaParams) a pidOf nameOf, ∃ n u B',
        processList h n s B =
          (.ok ((firstProcessLine (listOffsets h s₀.toXaParams) a ::
            processesLines pidOf nameOf L.ring.nodes.dropLast, true), u), B') ∧
        B.Grows B' (skipped pidOf L.ring.nodes.dropLast) 0) := by
  have hs := sound_of_runCalls hps hrun
  constructor
  · intro hos a t hstart L
    obtain ⟨u, hlist⟩ := L.linux_eq hps hshift rfl hos hs hstart
    obtain ⟨hout, hgrows⟩ := (processList_linux_counts L hps hshift rfl hos hs hstart B).balance hB
      hs.params hfits trivial
    exact ⟨_, u, _, Prod.ext (hout.trans hlist) rfl, hgrows⟩
  · intro hos hreleased first t hstart a ha L
    obtain ⟨u, hlist⟩ := L.windows_eq hps hshift rfl hos hs hstart ha
    obtain ⟨hout, hgrows⟩ := (processList_windows_counts L hps hshift rfl hos hs hstart ha
      B).balance hB hs.params hfits hreleased
    exact ⟨_, u, _, Prod.ext (hout.trans hlist) rfl, hgrows⟩

/-! ### A process with a negative pid -/

/-- A Linux guest whose only process behind `init_task` has the pid `-1`. -/
def skippedHost : Host :=
  linuxHost [(0x1C00, 0x83), (0x8060, 0xC0009060), (0x9060, 0xC0008060), (0x909C, 0xFFFFFFFF),
    (0x9194, 0x656C6469)] (some (cstr "c0008000 D init_task\n"))

def skippedRing : LinkRing skippedHost listedState.toXaParams 0xC0009060 where
  nodes := [0xC0009060, 0xC0008060]
  head := rfl
  nodup := by decide
  chain := by decide

theorem idle_at : TaskAt skippedHost listedState.toXaParams ⟨0x60, 0x9C, 0x194⟩ 0xC0009060
    0xFFFFFFFF (cstr "idle") where
  pidPage := by decide
  pid := by decide
  namePage := by decide
  name := by decide

theorem skippedRing_tasks : ∀ node ∈ skippedRing.nodes.dropLast,
    TaskAt skippedHost listedState.toXaParams ⟨0x60, 0x9C, 0x194⟩ node 0xFFFFFFFF
      (cstr "idle") := by
  intro node hnode
  obtain rfl : node = 0xC0009060 := List.mem_singleton.mp hnode
  exact idle_at

/-- Its page stays mapped. -/
theorem skippedHost_leaves : ∃ n u B',
    processList skippedHost n listedState.clear (Ledger.empty none) = (.ok (([], true), u), B') ∧
      (Ledger.empty none).Grows B' 1 0 := by
  have hruns : Returns (XenAccess.xaAccessKernelSym skippedHost (cstr "init_task") protRead)
      listedState.clear fun r _ =>
        r.map (fun a => a.memory.u32 (a.offset + 0x60)) = some 0xC0009060 := by decide
  obtain ⟨r, t, hrun, hr⟩ := hruns
  obtain ⟨a, rfl, ha⟩ := Option.map_eq_some_iff.mp hr
  exact (processList_pages skippedHost 0 listedState listedState.clear rfl rfl [] rfl
    (fun _ => 0xFFFFFFFF) (fun _ => cstr "idle") (Ledger.empty none) (.empty none)
    fun table htable => by cases htable).1 rfl a t hrun ⟨_, ha, skippedRing, skippedRing_tasks⟩

/-! ## Modules -/

theorem noRow_counts :
    RowCounts h p fuel C (fun _ => 0) (fun m => do munmap m.id; return []) fun _ => return [] :=
  fun _ _ m => unmapped_counts m.id []

/-- A listing whose rows leave nothing mapped. -/
theorem listLoop_released (hps : p.pageSize = 4096) {row : Mapped → TraceM (List CStr)}
    {row' : Access → XaM (List CStr)} {refRow : Access → List CStr}
    (hrow : RowCounts h p fuel C (fun _ => 0) row row')
    (hfollows : RowFollows h p fuel row' refRow) (hs : Sound h p fuel s) (listHead next : U32)
    (n : Nat) :
    Counts ((rules h p).withClean C) s 0 (fun _ => 0) id 0 0 (listLoop h row listHead n next)
      (XenAccess.listLoop h row' listHead n next) :=
  (listLoop_counts hps hrow hfollows listHead n next s hs).of_eq (refLeaks_zero listHead n next) rfl

theorem moduleList_counts (hps : p.pageSize = 4096) (hs : Sound h p fuel s) (n : Nat) :
    Counts ((rules h p).withClean C) s 0 (fun _ => 0) id 0 0 (moduleList h n)
      (XenAccess.moduleList h n) := by
  refine counts_get_bind fun _ => ?_
  rw [hs.params]
  cases hos : p.osType with
  | linux =>
    have hverdict := symVerdict_linux (h := h) (s := s) hos (cstr "modules")
    have hread := (xaReadLongSym_tracks (s := s) (h := h) hps (cstr "modules")).counts_unused
      (hverdict ▸ trivial) (hverdict ▸ id) C
    rcases hsym : XenAccess.xaReadLongSym h (cstr "modules") s with e | ⟨r, t⟩
    · exact hread.bind_of_error hsym
    · have ht := xaReadLongSym_keeps hps _ s _ t hs hsym
      refine hread.clean_bind hsym fun r' hr => ?_
      obtain rfl : r' = r := hr
      exact listLoop_released hps linuxModuleRow_counts (rowFollows_pure linuxModuleLines) ht _ _ n
  | windows =>
    obtain ⟨t, hacc, ht⟩ := follows_exists (xaAccessKernelVa_follows hps hs
      (if p.pae then 0x805533a0 else 0x8055a620) protRead) rfl
    refine (access_counts hps _).clean_bind hacc fun m hm => ?_
    rw [← hm]
    cases m with
    | none => exact return_counts _
    | some m =>
      refine field_counts.skip_bind fun next hnext => ?_
      obtain rfl : next = m.access.memory.u32 m.access.offset := hnext
      refine (munmap_counts m.id).skip_bind fun _ _ => ?_
      exact listLoop_released hps (windowsModuleRow_counts hps) (windowsModuleLines_follows hps)
        ht _ _ n
  | unknown => exact listLoop_released hps noRow_counts (rowFollows_pure fun _ => []) hs _ _ n

/-- **`module-list` unmaps what it maps.** In every state reached by calls from empty caches, with
whatever pages mapped, and also when the list of the guest is broken or does not come back to its
head: after any number of rounds it has printed what it prints without the books, no page is mapped
that was not mapped before, and none has been unmapped that was not mapped. -/
theorem moduleList_pages (h : Host) (fuel : Nat) (s₀ s : XaState) (hps : s₀.pageSize = 4096)
    (calls : List Call) (hrun : runCalls h fuel calls s₀.clear = .ok ((), s))
    (B : Ledger (Option SavedTable)) (hB : B.WF)
    (hfits : ∀ table, B.store = some table → pfnTable h s₀.toXaParams = some table) (n : Nat) :
    (moduleList h n s B).1 = XenAccess.moduleList h n s ∧ B.Grows (moduleList h n s B).2 0 0 := by
  have hs := sound_of_runCalls hps hrun
  exact (moduleList_counts (C := fun _ => True) hps hs n B).balance hB hs.params hfits trivial

/-- The listing of a Windows guest. -/
theorem moduleState_released :
    (moduleList (imageHost moduleWords) 5 moduleState.clear (Ledger.empty none)).1 =
        XenAccess.moduleList (imageHost moduleWords) 5 moduleState.clear ∧
      (Ledger.empty none).Grows
        (moduleList (imageHost moduleWords) 5 moduleState.clear (Ledger.empty none)).2 0 0 :=
  moduleList_pages (imageHost moduleWords) 0 moduleState moduleState.clear rfl [] rfl
    (Ledger.empty none) (.empty none) (fun table htable => by cases htable) 5

end XenAccess.Traced
