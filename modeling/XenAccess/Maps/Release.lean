import XenAccess.Maps.Readers
import XenAccess.Model.Image

/-!
# Every mapping is released once

For each call the conditions under which its run has no defect (`Op.Clean`, `Op.InBounds`),
and from them what the run does to the live mappings.

Two functions break the rule that a page is unmapped once. `windows_pid_to_pgd` unmaps the
page of the process it has found, and then again at its exit, so every access by the address
of a Windows process that has to look up its page directory unmaps a page that is not
mapped. `windows_get_eprocess_name` never unmaps the page of the name. And
`helper_pfn_to_mfn` unmaps one page of its list of frames, however long the list is.
-/

namespace XenAccess.Traced

open Audit Prog

variable {h : Host} {p : XaParams} {s : XaState}

/-! ## Verdicts of the calls -/

/-- The call unmaps what it maps, and nothing else, building the table apart. -/
def Op.Clean (h : Host) (fuel : Nat) (s : XaState) : Op → Prop
  | .readLongVirt vaddr pid | .readLongLongVirt vaddr pid => UserClean h fuel vaddr pid s
  | .windowsPidToPgd pid => NoProcess h fuel pid s
  | .windowsGetPeb pid _ => PebClean h fuel pid s
  | .windowsFindEprocess _ => NoNames h s.toXaParams fuel 0 0
  | _ => True

/-- `n` bytes at a symbol lie in the page that is mapped for it, and so does what is read on
the way to it. -/
def SymIn (h : Host) (n : Nat) (sym : CStr) (s : XaState) : Prop :=
  (s.osType = .windows → cachedSymbol s sym = none → SymbolIn h s.toXaParams sym) ∧
    After (XenAccess.xaAccessKernelSym h sym protRead) s fun r _ => ValueIn n r

/-- What the call reads lies in the pages that it reads it from, building the table apart. -/
def Op.InBounds (h : Host) (fuel : Nat) (s : XaState) : Op → Prop
  | .readLongMach maddr => ValueIn 4 (XenAccess.xaAccessMa h s.toXaParams maddr protRead)
  | .readLongLongMach maddr => ValueIn 8 (XenAccess.xaAccessMa h s.toXaParams maddr protRead)
  | .readLongPhys paddr => PhysIn h s.toXaParams 4 paddr
  | .readLongLongPhys paddr => PhysIn h s.toXaParams 8 paddr
  | .readLongVirt vaddr pid => VirtIn h fuel 4 vaddr pid s
  | .readLongLongVirt vaddr pid => VirtIn h fuel 8 vaddr pid s
  | .readLongSym sym => SymIn h 4 sym s
  | .readLongLongSym sym => SymIn h 8 sym s
  | .linuxPidToPgd pid => LinuxPgdIn h fuel pid s
  | .windowsPidToPgd pid => WindowsPgdIn h fuel pid s
  | .linuxGetTaskaddr pid => TaskaddrIn h fuel pid s
  | .windowsGetPeb pid _ => PebIn h fuel pid s
  | .getExportTable baseAddr => ExportTableIn h s.toXaParams baseAddr
  | .getAofIndex aonIndex et =>
    PhysIn h s.toXaParams 4 (s.os.ntoskrnl + et.addressOfNameOrdinals + aonIndex * 2)
  | .windowsExportToRva symbol => ExportIn h s.toXaParams symbol
  | .windowsFindEprocess name => EprocessIn h s.toXaParams name fuel 0 0

/-- The call maps a pseudo-physical frame. -/
def Op.MapsPfn (fuel : Nat) (s : XaState) : Op → Prop
  | .readLongPhys _ | .readLongLongPhys _ => True
  | .readLongSym sym | .readLongLongSym sym => s.osType = .windows ∧ cachedSymbol s sym = none
  | .getExportTable _ | .getAofIndex _ _ | .windowsExportToRva _ => True
  | .windowsFindEprocess _ => 0 < fuel ∧ 0 < s.size
  | _ => False

def Op.verdict (h : Host) (fuel : Nat) (s : XaState) (op : Op) : Verdict :=
  ⟨op.Clean h fuel s, op.InBounds h fuel s, op.MapsPfn fuel s⟩

/-- A reader of a symbol. -/
theorem readSym_verdict (n : Nat) (sym : CStr) (s : XaState) :
    readVerdict (symVerdict h s.toXaParams sym s) (XenAccess.xaAccessKernelSym h sym protRead) n s =
      ⟨True, SymIn h n sym s, s.osType = .windows ∧ cachedSymbol s sym = none⟩ :=
  Verdict.eq_of_iff (by simp [readVerdict, symVerdict, Verdict.guard]) .rfl
    (by simp [readVerdict, symVerdict, Verdict.guard])

/-- **Each call keeps the books as its verdict says.** -/
theorem op_tracks (hps : s.pageSize = 4096) (fuel : Nat) (op : Op) :
    Tracks (rules h s.toXaParams) s 0 (fun _ => 0) id (op.verdict h fuel s) (op.run h fuel)
      (op.exec h fuel) := by
  cases op with
  | readLongMach maddr => exact tracks_get_bind fun _ => xaReadLongMach_tracks maddr
  | readLongLongMach maddr => exact tracks_get_bind fun _ => xaReadLongLongMach_tracks maddr
  | readLongPhys paddr => exact tracks_get_bind fun _ => xaReadLongPhys_tracks paddr
  | readLongLongPhys paddr => exact tracks_get_bind fun _ => xaReadLongLongPhys_tracks paddr
  | readLongVirt vaddr pid => exact xaReadLongVirt_tracks hps fuel vaddr pid
  | readLongLongVirt vaddr pid => exact xaReadLongLongVirt_tracks hps fuel vaddr pid
  | readLongSym sym => exact (xaReadLongSym_tracks hps sym).congr fun _ => readSym_verdict 4 sym s
  | readLongLongSym sym =>
    exact (xaReadLongLongSym_tracks hps sym).congr fun _ => readSym_verdict 8 sym s
  | linuxPidToPgd pid => exact linuxPidToPgd_tracks hps fuel pid
  | windowsPidToPgd pid => exact windowsPidToPgd_tracks hps fuel pid
  | linuxGetTaskaddr pid => exact xaLinuxGetTaskaddr_tracks hps fuel pid
  | windowsGetPeb pid peb => exact xaWindowsGetPeb_tracks hps fuel pid peb
  | getExportTable baseAddr => exact tracks_get_bind fun _ => getExportTable_tracks baseAddr
  | getAofIndex aonIndex et => exact tracks_get_bind fun _ => getAofIndex_tracks aonIndex et
  | windowsExportToRva symbol =>
    exact tracks_get_bind fun _ => windowsExportToRva_tracks hps symbol
  | windowsFindEprocess name =>
    exact tracks_get_bind fun _ => windowsFindEprocess_tracks fuel name

/-! ## Releases -/

/-- **When a call releases what it maps.** Its run unmaps only pages that are mapped at that
moment, and ends with the pages mapped that were mapped at its start, exactly if the call is
clean and does not build the table from a list of frames of more than one page. -/
theorem op_released_iff (h : Host) (fuel : Nat) (s : XaState) (hps : s.pageSize = 4096)
    (L : Ledger (Option SavedTable)) (hL : L.WF)
    (hfits : ∀ table, L.store = some table → pfnTable h s.toXaParams = some table) (op : Op) :
    Released L (op.run h fuel s L).2 ↔
      op.Clean h fuel s ∧ (op.MapsPfn fuel s → ListReleased h s.toXaParams L.store) :=
  (op_tracks hps fuel op).released_iff hL rfl hfits

/-- The page directory of a task of a Linux guest. -/
theorem taskState_released :
    Released (Ledger.empty none)
      ((Op.linuxPidToPgd 42).run (imageHost taskWords) 3 taskState (Ledger.empty none)).2 :=
  (op_released_iff (imageHost taskWords) 3 taskState rfl (Ledger.empty none) (.empty none)
    (fun table htable => by cases htable) (.linuxPidToPgd 42)).mpr ⟨trivial, fun hmaps => hmaps.elim⟩

/-! ### A process that is found -/

/-- A list of three processes of a Windows guest, below a page directory at `0x1000` that
maps the first four megabytes. -/
def processWords : Words :=
  [(0x1C00, 0x83),
    (0x3010, 0xC0004010), (0x3018, 0),
    (0x4010, 0xC0005010), (0x4018, 42), (0x4020, 0x2000),
    (0x5010, 0xC0003010), (0x5018, 43)]

def processState : XaState :=
  imageState .windows 0xC0000000 0xC0001000 0xC0003010 ⟨0x400000, 0x10, 0x20, 0x18, 0, 0, 0⟩

/-- The lookup of process `42` unmaps its page twice. -/
theorem windowsPidToPgd_unmaps_twice :
    ¬Released (Ledger.empty none)
      ((Op.windowsPidToPgd 42).run (imageHost processWords) 3 processState (Ledger.empty none)).2 := by
  have hfound : Returns (XenAccess.windowsGetEPROCESS (imageHost processWords) 3 42) processState
      fun r _ => r.isSome = true := by decide
  have htracks := op_tracks (h := imageHost processWords) (s := processState) rfl 3
    (.windowsPidToPgd 42)
  intro hreleased
  have hclean := (htracks.released_iff (.empty none) rfl fun table htable => by cases htable).mp
    hreleased
  obtain ⟨r, t, hrun, hsome⟩ := hfound
  have hnone : r = none := hclean.1 r t hrun
  rw [hnone] at hsome
  cases hsome

end XenAccess.Traced
