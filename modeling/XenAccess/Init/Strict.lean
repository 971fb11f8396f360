import XenAccess.Init.Helper
import XenAccess.Model.Image

/-!
# Strict initialisation

A success of strict initialisation should mean that `kpgd` and `init_task` have been read. For
a Linux guest it does. For a Windows guest `windows_init` does not look at the result of its
last read, so `init_task` may still have its old value.

`linux_init` loads the link of `init_task` through the mapping of the page that `init_task` starts
in. When the word at `tasks_offset` lies behind that page, the load gives what the process has
mapped there, which here is the contents of the page behind its end. Nothing in the code tells
the two cases apart, and the value counts as written by the mapping in both.
-/

namespace XenAccess

open Prog

variable {h : Host} {fuel : Nat} {s t u : XaState}

/-- The values of a Linux guest come from lookups and reads that succeeded: `kpgd` from the
System.map, and behind it for a paravirtualised guest, and `init_task` from the mapping of its
symbol under the final parameters. -/
structure LinuxWritten (h : Host) (u t : XaState) : Prop where
  kpgd : linuxKpgd h u = some t.kpgd
  initTask : ∃ v a, symbolVirt h u initTaskSymbol = some v ∧
    refKernelVa h t.toXaParams v protRead = some a ∧
    t.initTask = a.memory.u32 (a.offset + t.os.linuxTasks)

/-- The values of a Windows guest come from reads that succeeded: `kpgd` from the System
process, found by one of the two methods, and `init_task` from the same process. -/
def WindowsWritten (h : Host) (fuel : Nat) (b t : XaState) : Prop :=
  ∃ sysproc value, systemProcess h b.toXaParams fuel = .ok (some (sysproc, value)) ∧
    t.kpgd = value + b.pageOffset ∧
    xaReadLongPhys h b.toXaParams (sysproc + b.os.winTasks) = some t.initTask

/-- Both values of `t` were written in the initialisation that started in `s`, by lookups and
reads that succeeded. -/
def WrittenByReads (h : Host) (fuel : Nat) (s t : XaState) : Prop :=
  (∃ u, initPrelude h s = .ok (.success, u) ∧ u.osType = .linux ∧ LinuxWritten h u t) ∨
    ∃ b, SearchStarts h s b ∧ WindowsWritten h fuel b t

/-- If the guest is a Windows one, the head of the task list can be read in the System process
that the search finds. -/
def TaskListReadable (h : Host) (fuel : Nat) (s : XaState) : Prop :=
  ∀ b sysproc value, SearchStarts h s b →
    systemProcess h b.toXaParams fuel = .ok (some (sysproc, value)) →
    xaReadLongPhys h b.toXaParams (sysproc + b.os.winTasks) ≠ none

/-! ## Linux -/

theorem linuxInit_written (hs : LinuxReady s) (hmode : s.errorMode = .failhard)
    (hrun : linuxInit h s = .ok (.success, t)) : LinuxWritten h s t := by
  cases hk : linuxKpgd h s with
  | none =>
    obtain ⟨kpgd, hfind, -⟩ := linuxFindKpgd_none hk
    rw [hmode] at hfind
    rw [linuxInit_eq, orExit_failure hfind] at hrun
    cases hrun
  | some kpgd =>
    obtain ⟨t', haft, hend⟩ := linuxInit_ends hs (linuxFindKpgd_some hk)
    rw [hrun] at hend
    cases hmap : (symbolVirt h s initTaskSymbol).bind
        (mapInitTask h ({ s.withSysmap h with kpgd } : XaState).toXaParams) with
    | none =>
      have hmode' : t'.errorMode = .failhard := haft.settings.errorMode.trans hmode
      rw [hmap, EndsWith, hmode'] at hend
      cases hend
    | some a =>
      rw [hmap] at hend
      obtain ⟨-, rfl⟩ := Prod.mk.inj (Except.ok.inj hend)
      obtain ⟨v, hv, ha⟩ := Option.bind_eq_some_iff.mp hmap
      obtain ⟨-, -, hkpgd, -⟩ := haft.kept
      refine ⟨?_, v, a, hv, ?_, rfl⟩
      · exact hk.trans (congrArg some hkpgd.symm)
      · have hsym := hs.symbolVirt_findKpgd (linuxFindKpgd_some hk)
        exact haft.mapped v a (hsym.trans hv) ha

/-! ## Both systems -/

theorem SearchStarts.not_linux {b : XaState} (hb : SearchStarts h s b)
    (hpre : initPrelude h s = .ok (.success, u)) : u.osType ≠ .linux := by
  obtain ⟨u', hpre', hos, -⟩ := hb
  obtain ⟨-, rfl⟩ := Prod.mk.inj (Except.ok.inj (hpre.symm.trans hpre'))
  rw [hos]
  rintro ⟨⟩

theorem SearchStarts.unique {b b' : XaState} (hb : SearchStarts h s b)
    (hb' : SearchStarts h s b') : b = b' := by
  obtain ⟨u, hpre, -, hbase⟩ := hb
  obtain ⟨u', hpre', -, hbase'⟩ := hb'
  obtain ⟨-, rfl⟩ := Prod.mk.inj (Except.ok.inj (hpre.symm.trans hpre'))
  exact (Prod.mk.inj (Except.ok.inj (hbase.symm.trans hbase'))).2

theorem windows_written_iff {b : XaState} (hb : SearchStarts h (startState .failhard s) b)
    (hrun : helperInit h fuel (startState .failhard s) = .ok (.success, t)) :
    WindowsWritten h fuel b t ↔ TaskListReadable h fuel (startState .failhard s) := by
  obtain ⟨sysproc, value, hfound, hkpgd, hinit⟩ := systemProcess_of_success hb hrun
  constructor
  · rintro ⟨sysproc', value', hfound', -, hread⟩ b' sysproc'' value'' hb' hfound''
    cases hb.unique hb'
    cases hfound'.symm.trans hfound''
    rw [hread]
    exact Option.some_ne_none _
  · intro hreadable
    refine ⟨sysproc, value, hfound, hkpgd, ?_⟩
    obtain ⟨word, hword⟩ := Option.ne_none_iff_exists'.mp (hreadable b sysproc value hb hfound)
    rw [hinit, hword, Option.getD_some]

/-- **When a strict success means full initialisation.** -/
theorem strict_written_iff (hrun : helperInit h fuel (startState .failhard s) = .ok (.success, t))
    (hos : t.osType = .linux ∨ t.osType = .windows) :
    WrittenByReads h fuel (startState .failhard s) t ↔
      TaskListReadable h fuel (startState .failhard s) := by
  rcases hos with hos | hos
  · obtain ⟨u, hpre, hrest, hsame⟩ := helperInit_success hrun
    have hosu := hsame.trans hos
    rw [osInit_linux hosu] at hrest
    have hwritten := linuxInit_written (linuxReady_of_prelude hpre hosu)
      (initPrelude_untouched hpre).errorMode hrest
    constructor
    · intro _ b _ _ hb
      exact absurd hosu (hb.not_linux hpre)
    · exact fun _ => Or.inl ⟨u, hpre, hosu, hwritten⟩
  · obtain ⟨b, hb⟩ := searchStarts_of_success hrun hos
    rw [← windows_written_iff hb hrun, WrittenByReads]
    constructor
    · rintro (⟨u, hpre, hosu, -⟩ | ⟨b', hb', hw⟩)
      · exact absurd hosu (hb.not_linux hpre)
      · cases hb.unique hb'
        exact hw
    · exact fun hw => Or.inr ⟨b, hb, hw⟩

/-- A live Windows domain of which one frame cannot be mapped. Its kernel exports the pointer
to the System process, whose object is at the physical address `0x5F90` and has the link of
the task list on the next frame. -/
def pointerHost (missing : U32) : Host :=
  let words : Words :=
    [(0x400078, 0x200), (0x400218, 1), (0x40021C, 0x3C0), (0x400220, 0x300), (0x400224, 0x380),
      (0x400300, 0x340), (0x400340, 0x6E497350), (0x400344, 0x61697469), (0x400348, 0x7379536C),
      (0x40034C, 0x506D6574), (0x400350, 0x65636F72), (0x400354, 0x7373), (0x4003C0, 0x1000),
      (0x401000, 0x80005F90), (0x3800, 0x83), (0x5FA8, 0x39000), (0x6018, 0x823C8088)]
  { windowsHost words with
    xcMapForeignRange := fun _ mfn =>
      if mfn = missing then none else some (imagePage words (mfn <<< 12))
    xcVcpuGetcontext := some ⟨0x80000001, 0x3000, 0x10⟩
    xsRead := fun path =>
      if cstr "/memory/target" <:+ path then some (cstr "16384")
      else if cstr "/image/kernel" <:+ path then some (cstr "/usr/lib/xen/boot/hvmloader")
      else some (cstr "guest") }

def domainState : XaState := { zeroState 0 with domainId := 1 }

/-- All of the process object can be mapped. -/
theorem pointerHost_written :
    ∃ t, helperInit (pointerHost 0x100) 0 (startState .failhard domainState) = .ok (.success, t) ∧
      WrittenByReads (pointerHost 0x100) 0 (startState .failhard domainState) t := by
  have hrun : Returns (helperInit (pointerHost 0x100) 0) (startState .failhard domainState)
      fun r t => r = .success ∧ t.osType = .windows ∧ t.initTask = 0x823C8088 := by
    decide
  obtain ⟨_, t, hrun, rfl, hos, hinit⟩ := hrun
  refine ⟨t, hrun, (strict_written_iff hrun (Or.inr hos)).mpr ?_⟩
  intro b sysproc value hb hfound hnone
  obtain ⟨sysproc', value', hfound', -, hinit'⟩ := systemProcess_of_success hb hrun
  cases hfound.symm.trans hfound'
  have hold : b.initTask = 0 := hb.untouched.initTask
  rw [hnone, Option.getD_none, hold, hinit] at hinit'
  cases hinit'

/-- The frame with the link of the task list cannot be mapped: strict initialisation succeeds
and `init_task` is still zero. -/
theorem pointerHost_not_written :
    ∃ t, helperInit (pointerHost 6) 0 (startState .failhard domainState) = .ok (.success, t) ∧
      t.osType = .windows ∧ t.initTask = 0 ∧
      ¬ WrittenByReads (pointerHost 6) 0 (startState .failhard domainState) t := by
  have hrun : Returns (helperInit (pointerHost 6) 0) (startState .failhard domainState)
      fun r t => r = .success ∧ t.osType = .windows ∧ t.initTask = 0 := by
    decide
  obtain ⟨_, t, hrun, rfl, hos, hinit⟩ := hrun
  refine ⟨t, hrun, hos, hinit, ?_⟩
  have hmissing : After (initPrelude (pointerHost 6)) (startState .failhard domainState)
      fun _ u => After (windowsFindBase (pointerHost 6)) u fun _ b =>
        (systemProcess (pointerHost 6) b.toXaParams 0).toOption = some (some (0x5F90, 0x39000)) ∧
          xaReadLongPhys (pointerHost 6) b.toXaParams (0x5F90 + b.os.winTasks) = none := by
    decide
  obtain ⟨b₀, hb₀⟩ := searchStarts_of_success hrun hos
  rintro (⟨u, hpre, hosu, -⟩ | ⟨b, ⟨u, hpre, -, hbase⟩, sysproc, value, hfound, -, hread⟩)
  · exact hb₀.not_linux hpre hosu
  · obtain ⟨hfound', hnone⟩ := hmissing _ u hpre _ b hbase
    rw [hfound] at hfound'
    cases hfound'
    cases hnone.symm.trans hread

end XenAccess
