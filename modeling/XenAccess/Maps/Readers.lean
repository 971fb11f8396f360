import XenAccess.Maps.Walks

/-!
# Mappings of the readers and of the kernel image

The readers of `xa_util.c`, the structures of a process, the exports of a Windows kernel and
the search for a process by its name. Only the last one leaves a page mapped:
`windows_get_eprocess_name` returns without unmapping the page of the name.
-/

namespace XenAccess.Traced

open Audit Prog

variable {h : Host} {p : XaParams} {s : XaState}

/-! ## Physical and virtual addresses -/

/-- `n` bytes at a physical address lie in the page that is mapped for it. -/
def PhysIn (h : Host) (p : XaParams) (n : Nat) (paddr : U32) : Prop :=
  FrameIn h p (paddr >>> p.pageShift) ∧ ValueIn n (XenAccess.xaAccessPa h p paddr protRead)

/-- A value read through an access by physical address. -/
theorem readPhys_tracks {α : Type} (n : Nat) (value : Access → α) (paddr : U32) :
    Tracks (rules h p) s 0 (fun _ => 0) id ⟨True, PhysIn h p n paddr, True⟩
      (readPhys h p n value paddr) (pure ((XenAccess.xaAccessPa h p paddr protRead).map value)) := by
  refine (xaAccessPa_tracks paddr protRead).use_bind
    (w := ⟨True, ValueIn n (XenAccess.xaAccessPa h p paddr protRead), False⟩) fun m hm => ?_
  rw [← hm]
  exact readValue_tracks n value m

theorem xaReadLongPhys_tracks (paddr : U32) :
    Tracks (rules h p) s 0 (fun _ => 0) id ⟨True, PhysIn h p 4 paddr, True⟩
      (xaReadLongPhys h p paddr) (pure (XenAccess.xaReadLongPhys h p paddr)) :=
  readPhys_tracks 4 Access.long paddr

theorem xaReadLongLongPhys_tracks (paddr : U32) :
    Tracks (rules h p) s 0 (fun _ => 0) id ⟨True, PhysIn h p 8 paddr, True⟩
      (xaReadLongLongPhys h p paddr) (pure (XenAccess.xaReadLongLongPhys h p paddr)) :=
  readPhys_tracks 8 Access.longLong paddr

/-- What a reader of `n` bytes does after an access. -/
def readVerdict (v : Verdict) (access : XaM (Option Access)) (n : Nat) (s : XaState) : Verdict :=
  ⟨v.clean, v.inRange ∧ After access s fun r _ => ValueIn n r, v.uses⟩

/-- A reader is an access, a load and an unmapping. -/
theorem reader_tracks {R : Rules XaState (Option SavedTable)} {α : Type} {v : Verdict}
    {x : TraceM (Option Mapped)} {y : XaM (Option Access)}
    (hx : Tracks R s 0 accessPieces (Option.map Mapped.access) v x y) (n : Nat)
    (value : Access → α) :
    Tracks R s 0 (fun _ => 0) id (readVerdict v y n s) (do readValue n value (← x))
      (do return (← y).map value) :=
  (hx.bind (W := fun r _ => ⟨True, ValueIn n r, False⟩) fun r _ _ =>
    readValue_tracks n value r).congr fun _ => Verdict.bind_range

/-- `n` bytes at an address of a process lie in the page that is mapped for it, and so does
what is read on the way to it. -/
def VirtIn (h : Host) (fuel n : Nat) (vaddr pid : U32) (s : XaState) : Prop :=
  UserIn h fuel vaddr pid s ∧
    After (XenAccess.xaAccessUserVa h fuel vaddr pid protRead) s fun r _ => ValueIn n r

theorem xaReadLongVirt_tracks (hps : p.pageSize = 4096) (fuel : Nat) (vaddr pid : U32) :
    Tracks (rules h p) s 0 (fun _ => 0) id
      ⟨UserClean h fuel vaddr pid s, VirtIn h fuel 4 vaddr pid s, False⟩
      (xaReadLongVirt h fuel vaddr pid) (XenAccess.xaReadLongVirt h fuel vaddr pid) :=
  reader_tracks (xaAccessUserVa_tracks hps fuel vaddr pid protRead) 4 Access.long

theorem xaReadLongLongVirt_tracks (hps : p.pageSize = 4096) (fuel : Nat) (vaddr pid : U32) :
    Tracks (rules h p) s 0 (fun _ => 0) id
      ⟨UserClean h fuel vaddr pid s, VirtIn h fuel 8 vaddr pid s, False⟩
      (xaReadLongLongVirt h fuel vaddr pid) (XenAccess.xaReadLongLongVirt h fuel vaddr pid) :=
  reader_tracks (xaAccessUserVa_tracks hps fuel vaddr pid protRead) 8 Access.longLong

/-! ## Structures of a process -/

/-- The part of a memory descriptor that `xa_linux_get_taskaddr` copies is in its page. -/
def CopyIn (r : Option Access) (t : XaState) : Prop :=
  ∀ b, r = some b → InMapping (b.offset + t.os.linuxAddr) 44

/-- The pointer of a task to its memory descriptor is in the page of the task, and the part
that is copied in the page of the descriptor. -/
def DescriptorIn (h : Host) (r : Option Access) (t : XaState) : Prop :=
  ∀ a, r = some a → InMapping (a.offset + t.os.linuxMm - t.os.linuxTasks) 4 ∧
    After (XenAccess.xaAccessKernelVa h
      (a.memory.u32 (a.offset + t.os.linuxMm - t.os.linuxTasks)) protRead) t CopyIn

/-- The pages of `xa_linux_get_taskaddr` hold what it reads. -/
def TaskaddrIn (h : Host) (fuel : Nat) (pid : U32) (s : XaState) : Prop :=
  LinuxTasksIn h fuel pid s ∧ After (XenAccess.linuxGetTaskstruct h fuel pid) s (DescriptorIn h)

/-- The copy of the structure and its unmapping. -/
theorem copyTaskaddr_tracks {t : XaState} (m : Mapped) :
    Tracks (rules h p) t (pieces m.id 1) (fun _ => 0) id
      ⟨True, InMapping (m.access.offset + t.os.linuxAddr) 44, False⟩
      (do
        loadBytes 1 (m.access.offset + t.os.linuxAddr) 44
        munmap m.id
        return some (m.access.memory.taskaddr (m.access.offset + t.os.linuxAddr)))
      (pure (some (m.access.memory.taskaddr (m.access.offset + t.os.linuxAddr)))) :=
  (loadPage_tracks _ _ 44).bind_skip fun _ _ =>
    (munmap_page_tracks m.id).skip_bind fun _ _ => return_tracks _

theorem xaLinuxGetTaskaddr_tracks (hps : p.pageSize = 4096) (fuel : Nat) (pid : U32) :
    Tracks (rules h p) s 0 (fun _ => 0) id ⟨True, TaskaddrIn h fuel pid s, False⟩
      (xaLinuxGetTaskaddr h fuel pid) (XenAccess.xaLinuxGetTaskaddr h fuel pid) := by
  refine ((linuxGetTaskstruct_tracks hps fuel pid).bind
    (W := fun r t => ⟨True, DescriptorIn h r t, False⟩) fun r t _ => ?_).congr
      fun _ => Verdict.bind_range
  cases r with
  | none =>
    refine (return_tracks none).congr fun _ => Verdict.eq_of_iff .rfl ?_ .rfl
    exact iff_of_true trivial fun a ha => by cases ha
  | some m =>
    refine tracks_get_bind fun _ => ?_
    refine (field_bind (w := ⟨True, After (XenAccess.xaAccessKernelVa h
      (m.access.memory.u32 (m.access.offset + t.os.linuxMm - t.os.linuxTasks)) protRead) t CopyIn,
        False⟩) ?_).congr fun _ => Verdict.eq_of_iff .rfl (by simp [Verdict.load, DescriptorIn]) .rfl
    refine (munmap_page_tracks m.id).skip_bind fun _ _ => ?_
    refine ((xaAccessKernelVa_tracks hps _ protRead).bind
      (W := fun r t => ⟨True, CopyIn r t, False⟩) fun r' u _ => ?_).congr fun _ =>
        Verdict.bind_range.trans (Verdict.eq_of_iff .rfl (by simp [Verdict.skip]) .rfl)
    cases r' with
    | none =>
      refine (return_tracks none).congr fun _ => Verdict.eq_of_iff .rfl ?_ .rfl
      exact iff_of_true trivial fun a ha => by cases ha
    | some m' =>
      refine tracks_get_bind fun _ => ?_
      refine (copyTaskaddr_tracks m').congr fun _ => Verdict.eq_of_iff .rfl ?_ .rfl
      simp [CopyIn]

/-- The two reads of `xa_windows_get_peb` unmap what they map. -/
def PebReadsClean (h : Host) (fuel : Nat) (pid ptr : U32) (t : XaState) : Prop :=
  UserClean h fuel (ptr + t.os.winIba) pid t ∧
    After (XenAccess.xaReadLongVirt h fuel (ptr + t.os.winIba) pid) t fun _ u =>
      UserClean h fuel (ptr + t.os.winPh) pid u

/-- The pages of the two reads hold what they read. -/
def PebReadsIn (h : Host) (fuel : Nat) (pid ptr : U32) (t : XaState) : Prop :=
  VirtIn h fuel 4 (ptr + t.os.winIba) pid t ∧
    After (XenAccess.xaReadLongVirt h fuel (ptr + t.os.winIba) pid) t fun _ u =>
      VirtIn h fuel 4 (ptr + t.os.winPh) pid u

theorem pebReads_tracks {α : Type} (hps : p.pageSize = 4096) (fuel : Nat) (pid ptr : U32)
    (f : Option U32 → Option U32 → α) :
    Tracks (rules h p) s 0 (fun _ => 0) id
      ⟨PebReadsClean h fuel pid ptr s, PebReadsIn h fuel pid ptr s, False⟩
      (do
        let imageBaseAddress ← xaReadLongVirt h fuel (ptr + s.os.winIba) pid
        let processHeap ← xaReadLongVirt h fuel (ptr + s.os.winPh) pid
        return f imageBaseAddress processHeap)
      (do
        let imageBaseAddress ← XenAccess.xaReadLongVirt h fuel (ptr + s.os.winIba) pid
        let processHeap ← XenAccess.xaReadLongVirt h fuel (ptr + s.os.winPh) pid
        return f imageBaseAddress processHeap) := by
  refine ((xaReadLongVirt_tracks hps fuel _ pid).bind (W := fun _ u =>
    ⟨UserClean h fuel (ptr + s.os.winPh) pid u, VirtIn h fuel 4 (ptr + s.os.winPh) pid u, False⟩)
      fun iba u _ => ?_).congr fun _ => Verdict.bind_unused
  exact (xaReadLongVirt_tracks hps fuel _ pid).then_skip fun ph _ _ => return_tracks _

/-- `xa_windows_get_peb` unmaps what it maps. -/
def PebClean (h : Host) (fuel : Nat) (pid : U32) (s : XaState) : Prop :=
  After (XenAccess.windowsGetEPROCESS h fuel pid) s fun r t => ∀ a, r = some a →
    PebReadsClean h fuel pid (a.memory.u32 (a.offset + t.os.winPeb - t.os.winTasks)) t

/-- The page of the process holds the pointer to its environment block, and the pages of the
reads there what they read. -/
def BlockIn (h : Host) (fuel : Nat) (pid : U32) (r : Option Access) (t : XaState) : Prop :=
  ∀ a, r = some a → InMapping (a.offset + t.os.winPeb - t.os.winTasks) 4 ∧
    PebReadsIn h fuel pid (a.memory.u32 (a.offset + t.os.winPeb - t.os.winTasks)) t

/-- The pages of `xa_windows_get_peb` hold what it reads. -/
def PebIn (h : Host) (fuel : Nat) (pid : U32) (s : XaState) : Prop :=
  WindowsTasksIn h fuel pid s ∧ After (XenAccess.windowsGetEPROCESS h fuel pid) s (BlockIn h fuel pid)

theorem xaWindowsGetPeb_tracks (hps : p.pageSize = 4096) (fuel : Nat) (pid : U32)
    (peb : XaWindowsPeb) :
    Tracks (rules h p) s 0 (fun _ => 0) id
      ⟨PebClean h fuel pid s, PebIn h fuel pid s, False⟩
      (xaWindowsGetPeb h fuel pid peb) (XenAccess.xaWindowsGetPeb h fuel pid peb) := by
  refine ((windowsGetEPROCESS_tracks hps fuel pid).bind (W := fun r t => ⟨∀ a, r = some a →
    PebReadsClean h fuel pid (a.memory.u32 (a.offset + t.os.winPeb - t.os.winTasks)) t,
      BlockIn h fuel pid r t, False⟩) fun r t _ => ?_).congr fun _ =>
        Verdict.bind_unused.trans (Verdict.eq_of_iff (by simp [PebClean]) .rfl .rfl)
  cases r with
  | none =>
    exact (return_tracks none).congr fun _ => Verdict.eq_of_iff (by simp [Verdict.skip])
      (by simp [Verdict.skip, BlockIn]) .rfl
  | some m =>
    refine tracks_get_bind fun _ => ?_
    refine (field_bind ((munmap_page_tracks m.id).skip_bind fun _ _ =>
      pebReads_tracks hps fuel pid _ _)).congr fun _ => ?_
    exact Verdict.eq_of_iff (by simp [Verdict.load]) (by simp [Verdict.load, BlockIn]) .rfl

/-! ## Exports of the kernel -/

/-- The string that `rva_to_string` looks at ends before the page does. -/
theorem strnlenBytes_in (hps : p.pageSize = 4096) (memory : Page) {offset : U32}
    (hoff : offset.toNat < 4096) :
    InMapping offset (strnlenBytes memory offset (p.pageSize - offset - 1).toNat) := by
  have hmax : (p.pageSize - offset - 1).toNat = 4095 - offset.toNat := by
    rw [hps, BitVec.toNat_sub, BitVec.toNat_sub]
    simp
    omega
  rw [InMapping, strnlenBytes, hmax, xcPageSize]
  omega

theorem xaAccessPa_offset (hps : p.pageSize = 4096) {paddr prot : U32} {a : Access}
    (ha : XenAccess.xaAccessPa h p paddr prot = some a) : a.offset.toNat = paddr.toNat % 4096 := by
  obtain ⟨m, -, rfl⟩ := Option.map_eq_some_iff.mp ha
  rw [BitVec.and_comm]
  exact pageOff_toNat hps paddr

theorem rvaToString_tracks (hps : p.pageSize = 4096) (rva : U32) :
    Tracks (rules h p) s 0 (fun _ => 0) id
      ⟨True, FrameIn h p ((p.os.ntoskrnl + rva) >>> p.pageShift), True⟩ (rvaToString h p rva)
      (pure (XenAccess.rvaToString h p rva)) := by
  refine (xaAccessPa_tracks (p.os.ntoskrnl + rva) protRead).bind_skip fun m hm => ?_
  rw [XenAccess.rvaToString, ← hm]
  cases m with
  | none => exact return_tracks none
  | some m =>
    have hoff : m.access.offset.toNat < 4096 := by
      rw [xaAccessPa_offset hps hm.symm]
      exact Nat.mod_lt _ (by decide)
    refine ((loadPage_tracks _ m.access.offset (strnlenBytes m.access.memory m.access.offset
      (p.pageSize - m.access.offset - 1).toNat)).bind_skip fun _ _ => ?_).congr fun _ =>
        Verdict.eq_of_iff .rfl (iff_of_true (strnlenBytes_in hps _ hoff) trivial) .rfl
    refine (munmap_page_tracks m.id).skip_bind fun _ _ => ?_
    simp only [Option.map_some]
    generalize m.access.memory.cstr m.access.offset _ = str
    cases str with
    | nil => exact return_tracks none
    | cons c cs => exact return_tracks _

theorem getExportRva_tracks (aofIndex : U32) (et : ExportTable) :
    Tracks (rules h p) s 0 (fun _ => 0) id
      ⟨True, PhysIn h p 4 (p.os.ntoskrnl + et.addressOfFunctions + aofIndex * 4), True⟩
      (getExportRva h p aofIndex et) (pure (XenAccess.getExportRva h p aofIndex et)) :=
  xaReadLongPhys_tracks _

theorem getAofIndex_tracks (aonIndex : U32) (et : ExportTable) :
    Tracks (rules h p) s 0 (fun _ => 0) id
      ⟨True, PhysIn h p 4 (p.os.ntoskrnl + et.addressOfNameOrdinals + aonIndex * 2), True⟩
      (getAofIndex h p aonIndex et) (pure (XenAccess.getAofIndex h p aonIndex et)) := by
  refine (xaReadLongPhys_tracks _).bind_skip fun r hr => ?_
  rw [XenAccess.getAofIndex, ← hr]
  exact return_tracks _

/-- The relative address of a name, `0` when it cannot be read. -/
def nameRva (h : Host) (p : XaParams) (et : ExportTable) (i : U32) : U32 :=
  (XenAccess.xaReadLongPhys h p (p.os.ntoskrnl + et.addressOfNames + i * 4)).getD 0

/-- Whether the search for a symbol stops at a name. -/
def nameMatches (h : Host) (p : XaParams) (symbol : CStr) (rva : U32) : Bool :=
  rva != 0 && (XenAccess.rvaToString h p rva).any fun name => strncmpEq name symbol name.length

/-- The pages of the search for a symbol hold what it reads of the list of names. -/
def NamesIn (h : Host) (p : XaParams) (symbol : CStr) (et : ExportTable) : Nat → U32 → Prop
  | 0, _ => True
  | n + 1, i => PhysIn h p 4 (p.os.ntoskrnl + et.addressOfNames + i * 4) ∧
      (nameRva h p et i ≠ 0 → FrameIn h p ((p.os.ntoskrnl + nameRva h p et i) >>> p.pageShift)) ∧
      (nameMatches h p symbol (nameRva h p et i) = false → NamesIn h p symbol et n (i + 1))

theorem aonLoop_tracks (hps : p.pageSize = 4096) (symbol : CStr) (et : ExportTable) (n : Nat) :
    ∀ i, Tracks (rules h p) s 0 (fun _ => 0) id ⟨True, NamesIn h p symbol et n i, 0 < n⟩
      (aonLoop h p symbol et n i) (pure (XenAccess.aonLoop h p symbol et n i)) := by
  induction n with
  | zero =>
    intro i
    exact (return_tracks none).congr fun _ => Verdict.eq_of_iff .rfl .rfl (by simp [Verdict.skip])
  | succ n ih =>
    intro i
    let rest : Verdict := .guard (nameMatches h p symbol (nameRva h p et i) = false)
      ⟨True, NamesIn h p symbol et n (i + 1), 0 < n⟩
    let checked : Verdict := ⟨True, (nameRva h p et i ≠ 0 →
      FrameIn h p ((p.os.ntoskrnl + nameRva h p et i) >>> p.pageShift)) ∧ rest.inRange,
        nameRva h p et i ≠ 0 ∨ rest.uses⟩
    refine ((xaReadLongPhys_tracks _).use_bind (w := checked) fun r hr => ?_).congr fun _ =>
      Verdict.eq_of_iff .rfl .rfl (by simp)
    have hrva : r.getD 0 = nameRva h p et i := by
      rw [nameRva, ← hr]
      rfl
    rw [XenAccess.aonLoop]
    simp only [hrva]
    rw [← nameRva]
    by_cases hzero : nameRva h p et i = 0
    · have hgoes : nameMatches h p symbol (nameRva h p et i) = false := by simp [nameMatches, hzero]
      simp only [hzero, bne_self_eq_false, Bool.false_eq_true, if_false]
      have hrest : rest = ⟨True, NamesIn h p symbol et n (i + 1), 0 < n⟩ := Verdict.guard_of hgoes _
      refine (ih (i + 1)).congr fun _ => Verdict.eq_of_iff .rfl ?_ ?_
      · simp only [checked, hrest, hzero, ne_eq, not_true_eq_false, false_implies, true_and]
      · simp only [checked, hrest, hzero, ne_eq, not_true_eq_false, false_or]
    · have hbne : (nameRva h p et i != 0) = true := by simpa using hzero
      simp only [hbne, if_true]
      refine ((rvaToString_tracks hps (nameRva h p et i)).use_bind (w := rest)
        fun name hname => ?_).congr fun _ => Verdict.eq_of_iff ?_ ?_ ?_
      · rw [← hname]
        cases name with
        | none =>
          have hgoes : nameMatches h p symbol (nameRva h p et i) = false := by
            rw [nameMatches, ← hname]
            simp
          have hrest : rest = ⟨True, NamesIn h p symbol et n (i + 1), 0 < n⟩ :=
            Verdict.guard_of hgoes _
          rw [hrest]
          exact ih (i + 1)
        | some name =>
          have hmatch : nameMatches h p symbol (nameRva h p et i) =
              strncmpEq name symbol name.length := by
            rw [nameMatches, ← hname, hbne]
            simp
          simp only [id]
          split
          · rename_i heq
            have hrest : rest = .skip := Verdict.guard_of_not (by simp [hmatch, heq]) _
            rw [hrest]
            exact return_tracks _
          · rename_i hne
            have hrest : rest = ⟨True, NamesIn h p symbol et n (i + 1), 0 < n⟩ :=
              Verdict.guard_of (by simpa [hmatch] using hne) _
            rw [hrest]
            exact ih (i + 1)
      · exact iff_of_true (fun _ => trivial) trivial
      · exact and_congr_left' ⟨fun hframe _ => hframe, fun hframe => hframe hzero⟩
      · exact iff_of_true trivial (.inl hzero)

/-- The pages of `get_export_table` hold the optional header and the export table. -/
def ExportTableIn (h : Host) (p : XaParams) (baseAddr : U32) : Prop :=
  let value := (XenAccess.xaReadLongPhys h p (baseAddr + 60)).getD 0
  let optionalHeaderLocation := baseAddr + value + 4 + 20
  PhysIn h p 4 (baseAddr + 60) ∧ PhysIn h p 224 optionalHeaderLocation ∧
    ∀ oh, XenAccess.xaAccessPa h p optionalHeaderLocation protRead = some oh →
      PhysIn h p 40 (baseAddr + oh.memory.u32 (oh.offset + 96))

theorem getExportTable_eq (baseAddr : U32) :
    XenAccess.getExportTable h p baseAddr =
      ((XenAccess.xaAccessPa h p (baseAddr + (XenAccess.xaReadLongPhys h p (baseAddr + 60)).getD 0 +
        4 + 20) protRead).map fun oh => oh.memory.u32 (oh.offset + 96)).bind fun rva =>
          (XenAccess.xaAccessPa h p (baseAddr + rva) protRead).map exportTableAt := by
  rw [XenAccess.getExportTable]
  generalize XenAccess.xaAccessPa h p (_ + 4 + 20) protRead = oh
  cases oh with
  | none => rfl
  | some oh =>
    simp only [Option.bind_eq_bind, Option.bind_some, Option.map_some]
    cases XenAccess.xaAccessPa h p (baseAddr + oh.memory.u32 (oh.offset + 96)) protRead with
    | none => rfl
    | some et => rfl

theorem getExportTable_tracks (baseAddr : U32) :
    Tracks (rules h p) s 0 (fun _ => 0) id ⟨True, ExportTableIn h p baseAddr, True⟩
      (getExportTable h p baseAddr) (pure (XenAccess.getExportTable h p baseAddr)) := by
  let location := baseAddr + (XenAccess.xaReadLongPhys h p (baseAddr + 60)).getD 0 + 4 + 20
  let last : Verdict := ⟨True, ∀ oh, XenAccess.xaAccessPa h p location protRead = some oh →
    PhysIn h p 40 (baseAddr + oh.memory.u32 (oh.offset + 96)),
      (XenAccess.xaAccessPa h p location protRead).isSome⟩
  refine (xaReadLongPhys_tracks (baseAddr + 60)).use_bind
    (w := ⟨True, PhysIn h p 224 location ∧ last.inRange, True⟩) fun r hr => ?_
  have hvalue : r.getD 0 = (XenAccess.xaReadLongPhys h p (baseAddr + 60)).getD 0 := by
    rw [← hr]
    rfl
  simp only [hvalue]
  refine (readPhys_tracks 224 _ location).use_bind (w := last) fun rva hrva => ?_
  have hrva' : rva = (XenAccess.xaAccessPa h p location protRead).map
      fun oh => oh.memory.u32 (oh.offset + 96) := hrva
  rw [getExportTable_eq, ← hrva']
  cases hoh : XenAccess.xaAccessPa h p location protRead with
  | none =>
    rw [hoh] at hrva'
    subst hrva'
    refine (return_tracks none).congr fun _ => Verdict.eq_of_iff .rfl ?_ ?_
    · simp [Verdict.skip, last, hoh]
    · simp [Verdict.skip, last, hoh]
  | some oh =>
    rw [hoh] at hrva'
    subst hrva'
    refine (readPhys_tracks 40 exportTableAt _).congr fun _ => Verdict.eq_of_iff .rfl ?_ ?_
    · simp [last, hoh]
    · simp [last, hoh]

/-- The pages of `windows_export_to_rva` hold what it reads. -/
def ExportIn (h : Host) (p : XaParams) (symbol : CStr) : Prop :=
  ExportTableIn h p p.os.ntoskrnl ∧
    ∀ et, XenAccess.getExportTable h p p.os.ntoskrnl = some et →
      NamesIn h p symbol et et.numberOfNames.toNat 0 ∧
      ∀ i, XenAccess.getAonIndex h p symbol et = some i →
        PhysIn h p 4 (p.os.ntoskrnl + et.addressOfNameOrdinals + i * 2) ∧
        ∀ j, XenAccess.getAofIndex h p i et = some j →
          PhysIn h p 4 (p.os.ntoskrnl + et.addressOfFunctions + j * 4)

theorem getAonIndex_tracks (hps : p.pageSize = 4096) (symbol : CStr) (et : ExportTable) :
    Tracks (rules h p) s 0 (fun _ => 0) id
      ⟨True, NamesIn h p symbol et et.numberOfNames.toNat 0, 0 < et.numberOfNames.toNat⟩
      (getAonIndex h p symbol et) (pure (XenAccess.getAonIndex h p symbol et)) :=
  aonLoop_tracks hps symbol et _ 0

/-- Composition with a search, where nothing is done without an outcome. -/
theorem search_bind {α β : Type} {R : Rules XaState (Option SavedTable)} {o : Option α}
    {v : Verdict} {x : TraceM (Option α)} {k : Option α → TraceM (Option β)} {g : α → Option β}
    {W : α → Verdict} (hx : Tracks R s 0 (fun _ => 0) id v x (pure o)) (hnone : k none = pure none)
    (hk : ∀ a, o = some a → Tracks R s 0 (fun _ => 0) id (W a) (k (some a)) (pure (g a))) :
    Tracks R s 0 (fun _ => 0) id
      ⟨v.clean ∧ ∀ a, o = some a → (W a).clean, v.inRange ∧ ∀ a, o = some a → (W a).inRange,
        v.uses ∨ ∃ a, o = some a ∧ (W a).uses⟩ (x >>= k) (pure (o.bind g)) := by
  refine hx.pure_bind (w := ⟨∀ a, o = some a → (W a).clean, ∀ a, o = some a → (W a).inRange,
    ∃ a, o = some a ∧ (W a).uses⟩) fun r hr => ?_
  obtain rfl : r = o := hr
  cases r with
  | none =>
    rw [hnone]
    exact (return_tracks none).congr fun _ => Verdict.eq_of_iff (by simp [Verdict.skip])
      (by simp [Verdict.skip]) (by simp [Verdict.skip])
  | some a =>
    exact (hk a rfl).congr fun _ => Verdict.eq_of_iff (by simp) (by simp) (by simp)

theorem windowsExportToRva_tracks (hps : p.pageSize = 4096) (symbol : CStr) :
    Tracks (rules h p) s 0 (fun _ => 0) id ⟨True, ExportIn h p symbol, True⟩
      (windowsExportToRva h p symbol) (pure (XenAccess.windowsExportToRva h p symbol)) := by
  refine Tracks.congr (search_bind (getExportTable_tracks p.os.ntoskrnl) ?_ fun et _ =>
    search_bind (getAonIndex_tracks hps symbol et) ?_ fun i _ =>
      search_bind (getAofIndex_tracks i et) ?_ fun j _ => getExportRva_tracks j et) fun _ => ?_
  · rfl
  · rfl
  · rfl
  · exact Verdict.eq_of_iff (by simp) .rfl (by simp)

/-! ## Processes by name -/

/-- The value that marks the beginning of a process for `windows_find_eprocess`. -/
abbrev isEprocess (value : U32) : Prop := value = 0x001b0003 ∨ value = 0x00200003

/-- What `windows_find_eprocess` finds at an address. -/
def eprocessHas (h : Host) (p : XaParams) (name : CStr) (offset value : U32) : Bool :=
  if isEprocess value then
    match XenAccess.windowsGetEprocessName h p offset with
    | some procname => strncmpEq procname name 50
    | none => false
  else false

/-- The page of the name of a process cannot be mapped. -/
def NoName (h : Host) (p : XaParams) (paddr : U32) : Prop :=
  XenAccess.xaAccessPa h p (paddr + 0x174) protRead = none

/-- The name of a process lies in the page that is mapped for it. -/
def NameIn (h : Host) (p : XaParams) (paddr : U32) : Prop :=
  FrameIn h p ((paddr + 0x174) >>> p.pageShift) ∧
    ∀ a, XenAccess.xaAccessPa h p (paddr + 0x174) protRead = some a →
      InMapping a.offset (strnlenBytes a.memory a.offset 50)

theorem windowsGetEprocessName_tracks (paddr : U32) :
    Tracks (rules h p) s 0 (fun _ => 0) id ⟨NoName h p paddr, NameIn h p paddr, True⟩
      (windowsGetEprocessName h p paddr) (pure (XenAccess.windowsGetEprocessName h p paddr)) := by
  refine (xaAccessPa_tracks (paddr + 0x174) protRead).use_bind (w := ⟨NoName h p paddr,
    ∀ a, XenAccess.xaAccessPa h p (paddr + 0x174) protRead = some a →
      InMapping a.offset (strnlenBytes a.memory a.offset 50), False⟩) fun m hm => ?_
  rw [NoName, XenAccess.windowsGetEprocessName, ← hm]
  cases m with
  | none =>
    exact (return_tracks none).congr fun _ => Verdict.eq_of_iff (by simp [Verdict.skip])
      (by simp [Verdict.skip]) .rfl
  | some m =>
    let name := m.access.memory.cstr m.access.offset 50
    have hheld : Tracks (rules h p) s (pieces m.id 1) (fun _ => pieces m.id 1) id .skip
        (pure (some name) : TraceM (Option CStr)) (pure (some name)) := tracks_pure rfl rfl
    have hleak := hheld.leak ⟨_, rfl⟩ fun _ _ _ => by simp [pieces_one]
    refine ((loadPage_tracks _ _ _).load_bind fun _ _ => hleak).congr fun _ => ?_
    exact Verdict.eq_of_iff (by simp [Verdict.load]) (by simp [Verdict.load, Verdict.skip]) .rfl

theorem eprocessFound_tracks (name : CStr) (offset value : U32) :
    Tracks (rules h p) s 0 (fun _ => 0) id
      (.guard (isEprocess value) ⟨NoName h p offset, NameIn h p offset, True⟩)
      (eprocessFound h p name offset value) (pure (eprocessHas h p name offset value)) := by
  by_cases hvalue : isEprocess value
  · rw [Verdict.guard_of hvalue, eprocessFound, if_pos hvalue, eprocessHas, if_pos hvalue]
    refine (windowsGetEprocessName_tracks offset).bind_skip fun r hr => ?_
    rw [← hr]
    cases r with
    | none => exact return_tracks false
    | some procname => exact return_tracks _
  · rw [Verdict.guard_of_not hvalue, eprocessFound, if_neg hvalue, eprocessHas, if_neg hvalue]
    exact return_tracks false

/-- The value that `windows_find_eprocess` has read when it tests an address. -/
def eprocessValue (h : Host) (p : XaParams) (offset value : U32) : U32 :=
  (XenAccess.xaReadLongPhys h p offset).getD value

/-- No address that the search comes to is marked as a process with a name that can be
mapped. -/
def NoNames (h : Host) (p : XaParams) : Nat → (offset value : U32) → Prop
  | 0, _, _ => True
  | n + 1, offset, value => offset < p.size →
      (isEprocess (eprocessValue h p offset value) → NoName h p offset) ∧
        NoNames h p n (offset + 8) (eprocessValue h p offset value)

/-- The pages of the search hold what it reads. -/
def EprocessIn (h : Host) (p : XaParams) (name : CStr) : Nat → (offset value : U32) → Prop
  | 0, _, _ => True
  | n + 1, offset, value => offset < p.size → PhysIn h p 4 offset ∧
      (isEprocess (eprocessValue h p offset value) → NameIn h p offset) ∧
        (eprocessHas h p name offset (eprocessValue h p offset value) = false →
          EprocessIn h p name n (offset + 8) (eprocessValue h p offset value))

theorem eprocessHas_of_noName {name : CStr} {offset value : U32}
    (hname : isEprocess value → NoName h p offset) : eprocessHas h p name offset value = false := by
  rw [eprocessHas]
  split
  · rename_i hvalue
    rw [XenAccess.windowsGetEprocessName, hname hvalue]
    rfl
  · rfl

theorem eprocessLoop_succ {name : CStr} {offset value : U32} (hlt : offset < p.size) (n : Nat) :
    XenAccess.eprocessLoop h p name (n + 1) offset value =
      if eprocessHas h p name offset (eprocessValue h p offset value) then .ok offset
      else XenAccess.eprocessLoop h p name n (offset + 8) (eprocessValue h p offset value) := by
  rw [XenAccess.eprocessLoop, if_pos hlt]
  rfl

theorem eprocessLoop_tracks (name : CStr) (n : Nat) :
    ∀ offset value, Tracks (rules h p) s 0 (fun _ => 0) id
      ⟨NoNames h p n offset value, EprocessIn h p name n offset value, 0 < n ∧ offset < p.size⟩
      (eprocessLoop h p name n offset value)
      (StateT.lift (XenAccess.eprocessLoop h p name n offset value)) := by
  induction n with
  | zero =>
    intro offset value
    exact ((tracks_throw .outOfFuel).of_eq fun _ => rfl).congr fun _ =>
      Verdict.eq_of_iff .rfl .rfl (by simp [Verdict.skip])
  | succ n ih =>
    intro offset value
    rw [eprocessLoop]
    by_cases hlt : offset < p.size
    · let value' := eprocessValue h p offset value
      let rest : Verdict := .guard (eprocessHas h p name offset value' = false)
        ⟨NoNames h p n (offset + 8) value', EprocessIn h p name n (offset + 8) value',
          0 < n ∧ offset + 8 < p.size⟩
      rw [if_pos hlt, eprocessLoop_succ hlt]
      refine ((xaReadLongPhys_tracks offset).use_bind (w := (Verdict.guard (isEprocess value')
        ⟨NoName h p offset, NameIn h p offset, True⟩).seq rest) fun r hr => ?_).congr fun _ =>
          Verdict.eq_of_iff ?_ ?_ ?_
      · have hvalue : r.getD value = value' := by
          show r.getD value = (XenAccess.xaReadLongPhys h p offset).getD value
          rw [← hr]
          rfl
        simp only [hvalue]
        refine (eprocessFound_tracks name offset value').pure_bind fun found hfound => ?_
        obtain rfl : found = eprocessHas h p name offset value' := hfound
        split
        · rename_i hfound
          have hrest : rest = .skip := Verdict.guard_of_not (by simp [hfound]) _
          rw [hrest]
          exact (return_tracks offset).of_eq fun _ => rfl
        · rename_i hfound
          have hgoes : eprocessHas h p name offset value' = false := by simpa using hfound
          simp only [rest, Verdict.guard_of hgoes]
          exact ih (offset + 8) value'
      · constructor
        · intro hc _
          exact ⟨hc.1, hc.2 (eprocessHas_of_noName hc.1)⟩
        · intro hc
          exact ⟨(hc hlt).1, fun _ => (hc hlt).2⟩
      · exact ⟨fun hr _ => hr, fun hr => hr hlt⟩
      · simp [hlt]
    · rw [if_neg hlt, XenAccess.eprocessLoop, if_neg hlt]
      refine ((return_tracks 0).of_eq fun _ => rfl).congr fun _ =>
        Verdict.eq_of_iff ?_ ?_ (by simp [Verdict.skip, hlt])
      · exact iff_of_true trivial fun hlt' => absurd hlt' hlt
      · exact iff_of_true trivial fun hlt' => absurd hlt' hlt

/-- `windows_find_eprocess` maps a page at all only in a memory that is not empty. -/
theorem windowsFindEprocess_tracks (fuel : Nat) (name : CStr) :
    Tracks (rules h p) s 0 (fun _ => 0) id
      ⟨NoNames h p fuel 0 0, EprocessIn h p name fuel 0 0, 0 < fuel ∧ 0 < p.size⟩
      (windowsFindEprocess h p fuel name)
      (StateT.lift (XenAccess.windowsFindEprocess h p fuel name)) :=
  eprocessLoop_tracks name fuel 0 0

/-! ## Symbols -/

theorem linuxSystemMapSymbolToAddress_params (symbol : CStr) :
    Keeps (HasParams p) (linuxSystemMapSymbolToAddress h symbol) := by
  intro s a s' hs hrun
  cases hrun
  exact hs

theorem linuxAccessKernelSymbol_tracks (hps : p.pageSize = 4096) (symbol : CStr) (prot : U32) :
    Tracks (rules h p) s 0 accessPieces (Option.map Mapped.access) .skip
      (linuxAccessKernelSymbol h symbol prot) (XenAccess.linuxAccessKernelSymbol h symbol prot) := by
  have hcheck : Tracks (rules h p) s 0 (fun _ => 0) id .skip (lift (xaCheckCacheSym h symbol 0))
      (xaCheckCacheSym h symbol 0) := tracks_lift (xaCheckCacheSym_params symbol 0)
  refine hcheck.then_skip fun r t _ => ?_
  cases r with
  | some m => exact tracks_get_bind fun _ => xaAccessMa_tracks m protRead
  | none =>
    have hfind : Tracks (rules h p) t 0 (fun _ => 0) id .skip
        (lift (linuxSystemMapSymbolToAddress h symbol)) (linuxSystemMapSymbolToAddress h symbol) :=
      tracks_lift (linuxSystemMapSymbolToAddress_params symbol)
    refine hfind.then_skip fun r u _ => ?_
    cases r with
    | none => exact tracks_pure rfl rfl
    | some v =>
      refine (xaUpdateCache_tracks hps (some symbol) v 0 0).then_skip fun _ _ _ => ?_
      exact xaAccessKernelVa_tracks hps v prot

/-- The pages of `windows_access_kernel_symbol` hold what it reads of the kernel image. -/
def SymbolIn (h : Host) (p : XaParams) (symbol : CStr) : Prop :=
  ExportIn h p symbol ∧ ∀ rva, XenAccess.windowsExportToRva h p symbol = some rva →
    FrameIn h p ((p.os.ntoskrnl + rva) >>> p.pageShift)

theorem windowsAccessKernelSymbol_tracks (hps : p.pageSize = 4096) (symbol : CStr) (prot : U32) :
    Tracks (rules h p) s 0 accessPieces (Option.map Mapped.access)
      (.guard (cachedSymbol s symbol = none) ⟨True, SymbolIn h p symbol, True⟩)
      (windowsAccessKernelSymbol h symbol prot)
      (XenAccess.windowsAccessKernelSymbol h symbol prot) := by
  have hlift : Tracks (rules h p) s 0 (fun _ => 0) id .skip (lift (xaCheckCacheSym h symbol 0))
      (xaCheckCacheSym h symbol 0) := tracks_lift (xaCheckCacheSym_params symbol 0)
  obtain ⟨t, hcheck, -, -⟩ := xaCheckCacheSym_cached h s symbol
  cases hcached : cachedSymbol s symbol with
  | some m =>
    rw [hcached] at hcheck
    rw [Verdict.guard_of_not (by simp), ← Verdict.skip_seq .skip]
    refine hlift.bind_at hcheck fun r hr => ?_
    obtain rfl : r = some m := hr
    exact tracks_get_bind fun _ => xaAccessMa_tracks m protRead
  | none =>
    rw [hcached] at hcheck
    rw [Verdict.guard_of rfl, ← Verdict.skip_seq ⟨True, SymbolIn h p symbol, True⟩]
    refine hlift.bind_at hcheck fun r hr => ?_
    obtain rfl : r = none := hr
    refine tracks_get_bind fun ht => ?_
    have ht' : t.toXaParams = p := ht
    rw [ht']
    refine (windowsExportToRva_tracks hps symbol).use_bind (w := ⟨True,
      ∀ rva, XenAccess.windowsExportToRva h p symbol = some rva →
        FrameIn h p ((p.os.ntoskrnl + rva) >>> p.pageShift),
      (XenAccess.windowsExportToRva h p symbol).isSome⟩) fun rva hrva => ?_
    rw [XenAccess.windowsSymbolToAddress, ← hrva]
    cases rva with
    | none =>
      exact Tracks.congr (v := .skip) (tracks_pure rfl rfl) fun _ =>
        Verdict.eq_of_iff .rfl (by simp [Verdict.skip]) (by simp [Verdict.skip])
    | some rva =>
      obtain ⟨u, hu⟩ := xaUpdateCache_ok h (some symbol) (p.os.ntoskrnl + rva + p.pageOffset) 0 0 t
      refine Tracks.congr ((xaUpdateCache_tracks hps (some symbol) _ 0 0).bind_at hu fun _ _ =>
        tracks_get_bind (v := ⟨True, FrameIn h p ((p.os.ntoskrnl + rva) >>> p.pageShift), True⟩)
          fun hinv => ?_) fun _ => ?_
      · have hinv' : u.toXaParams = p := hinv
        rw [hinv']
        exact xaAccessPa_tracks (p.os.ntoskrnl + rva) prot
      · rw [Verdict.skip_seq]
        exact Verdict.eq_of_iff .rfl (by simp) (by simp)

/-- What `xa_access_kernel_sym` does. -/
def symVerdict (h : Host) (p : XaParams) (symbol : CStr) (s : XaState) : Verdict :=
  .guard (p.osType = .windows)
    (.guard (cachedSymbol s symbol = none) ⟨True, SymbolIn h p symbol, True⟩)

theorem xaAccessKernelSym_tracks (hps : p.pageSize = 4096) (symbol : CStr) (prot : U32) :
    Tracks (rules h p) s 0 accessPieces (Option.map Mapped.access) (symVerdict h p symbol s)
      (xaAccessKernelSym h symbol prot) (XenAccess.xaAccessKernelSym h symbol prot) := by
  refine tracks_get_bind fun hs => ?_
  have hos : s.osType = p.osType := congrArg XaParams.osType hs
  rw [hos, symVerdict]
  cases p.osType with
  | linux =>
    rw [Verdict.guard_of_not (by simp)]
    exact linuxAccessKernelSymbol_tracks hps symbol prot
  | windows =>
    rw [Verdict.guard_of rfl]
    exact windowsAccessKernelSymbol_tracks hps symbol prot
  | unknown =>
    rw [Verdict.guard_of_not (by simp)]
    exact tracks_pure rfl rfl

theorem xaReadLongSym_tracks (hps : p.pageSize = 4096) (sym : CStr) :
    Tracks (rules h p) s 0 (fun _ => 0) id
      (readVerdict (symVerdict h p sym s) (XenAccess.xaAccessKernelSym h sym protRead) 4 s)
      (xaReadLongSym h sym) (XenAccess.xaReadLongSym h sym) :=
  reader_tracks (xaAccessKernelSym_tracks hps sym protRead) 4 Access.long

theorem xaReadLongLongSym_tracks (hps : p.pageSize = 4096) (sym : CStr) :
    Tracks (rules h p) s 0 (fun _ => 0) id
      (readVerdict (symVerdict h p sym s) (XenAccess.xaAccessKernelSym h sym protRead) 8 s)
      (xaReadLongLongSym h sym) (XenAccess.xaReadLongLongSym h sym) :=
  reader_tracks (xaAccessKernelSym_tracks hps sym protRead) 8 Access.longLong

end XenAccess.Traced
