import XenAccess.Process.Listing
import XenAccess.Process.UnicodeNames

/-!
# The listing of modules

`module-list` prints the names of the kernel modules in the order of their list, the head of
which carries no name and is the last node of the ring. On Linux a name follows the links; on
Windows it is a `_UNICODE_STRING`, whose units `print_unicode_string` cuts to bytes.
-/

namespace XenAccess

open Prog

variable {h : Host} {p : XaParams} {fuel : Nat} {listHead node : U32} {a : Access}

/-! ## Strings of 16-bit units -/

/-- Bytes that stand at a virtual address of the kernel. -/
def KernelBytes (h : Host) (p : XaParams) (v : U32) (bytes : List U8) : Prop :=
  ∀ i (hi : i < bytes.length), kernelByte h p (v + BitVec.ofNat 32 i) = some bytes[i]

instance (v : U32) (bytes : List U8) : Decidable (KernelBytes h p v bytes) :=
  inferInstanceAs (Decidable (∀ i (hi : i < bytes.length), _ = some bytes[i]))

/-- What `print_unicode_string` prints without caches. -/
def refUnicodeLines (h : Host) (p : XaParams) (len : BitVec 16) (addr : U32) : List CStr :=
  match refKernelVa h p addr protRead with
  | none => []
  | some a =>
    [unicodeText h ((List.range len.toNat).map fun i => a.memory (a.offset + BitVec.ofNat 32 i)) ++
      [10]]

theorem printUnicodeString_follows (hps : p.pageSize = 4096) {s : XaState}
    (hs : Sound h p fuel s) (len : BitVec 16) (addr : U32) :
    Follows (Sound h p fuel) s (printUnicodeString h len addr)
      (.ok (refUnicodeLines h p len addr)) := by
  obtain ⟨t, hacc, ht⟩ := follows_exists (xaAccessKernelVa_follows hps hs addr protRead) rfl
  rw [Follows, printUnicodeString, bind_of_ok hacc, refUnicodeLines]
  cases refKernelVa h p addr protRead with
  | none => exact ⟨rfl, ht⟩
  | some a => exact ⟨rfl, ht⟩

/-- The string stands at an address, in its page. -/
structure UnicodeAt (h : Host) (p : XaParams) (addr : U32) (units : List (BitVec 16)) : Prop where
  page : InPageOf addr addr (2 * units.length)
  bytes : KernelBytes h p addr (utf16Bytes units)
  ne_nil : units ≠ []
  nul : 0 ∉ units

section

variable (hps : p.pageSize = 4096) (hshift : p.pageShift = 12) {addr : U32}
  {units : List (BitVec 16)}
include hps hshift

omit hps in
/-- The page of the string can be mapped. -/
theorem UnicodeAt.mapped (hu : UnicodeAt h p addr units) :
    ∃ a, refKernelVa h p addr protRead = some a := by
  have hpos : 0 < (utf16Bytes units).length := by
    have := mt List.length_eq_zero_iff.mp hu.ne_nil
    rw [length_utf16Bytes]
    omega
  have hfirst := hu.bytes 0 hpos
  rw [BitVec.add_zero] at hfirst
  exact mapped_of_kernelByte hshift hfirst

/-- The bytes of a page that a mapping of an address in it shows. -/
theorem bytes_shown {v : U32} {bytes : List U8} (ha : refKernelVa h p node protRead = some a)
    (hpage : InPageOf node v bytes.length) (hbytes : KernelBytes h p v bytes) :
    ((List.range bytes.length).map fun i => a.memory (a.offset + (v - node) + BitVec.ofNat 32 i)) =
      bytes := by
  apply List.ext_getElem
  · simp
  · intro i _ hi
    have hin := hpage.add hi
    have hpage' : InPageOf node (v + BitVec.ofNat 32 i) 1 := by
      refine ⟨hin.1, ?_⟩
      have := hin.2
      omega
    have hshown := refKernelVa_shows hps hshift ha hpage' (hbytes i hi)
    have hstep : v + BitVec.ofNat 32 i - node = v - node + BitVec.ofNat 32 i := by bv_omega
    rw [hstep, ← BitVec.add_assoc] at hshown
    rw [List.getElem_map, List.getElem_range, hshown]

theorem UnicodeAt.lines (hu : UnicodeAt h p addr units)
    (ha : refKernelVa h p addr protRead = some a) :
    refUnicodeLines h p (BitVec.ofNat 16 (2 * units.length)) addr =
      [cstrOf (units.map (BitVec.setWidth 8)) ++ [10]] := by
  have hroom := hu.page.2
  have hlen := length_utf16Bytes units
  have hcount : (BitVec.ofNat 16 (2 * units.length)).toNat = (utf16Bytes units).length := by
    rw [hlen, BitVec.toNat_ofNat]
    omega
  have hpage : InPageOf addr addr (utf16Bytes units).length := by
    rw [hlen]
    exact hu.page
  have hshown := bytes_shown hps hshift ha hpage hu.bytes
  have hzero : a.offset + (addr - addr) = a.offset := by bv_omega
  have hpos : units.length ≠ 0 := mt List.length_eq_zero_iff.mp hu.ne_nil
  rw [hzero] at hshown
  rw [refUnicodeLines, ha]
  simp only [hcount, hshown]
  rw [unicodeText_eq (by omega), evenBytes_utf16]

end

/-- **When `print_unicode_string` is right.** In every state reached by calls from empty caches,
of a string that stands in the page of its address it prints one line, and the text on it has
the units of the string exactly if these are below 256. -/
theorem printUnicodeString_right_iff (h : Host) (fuel : Nat) (s₀ s : XaState)
    (hps : s₀.pageSize = 4096) (hshift : s₀.pageShift = 12) (calls : List Call)
    (hrun : runCalls h fuel calls s₀.clear = .ok ((), s)) (addr : U32) (units : List (BitVec 16))
    (hu : UnicodeAt h s₀.toXaParams addr units) :
    ∃ text t, printUnicodeString h (BitVec.ofNat 16 (2 * units.length)) addr s =
      .ok ([text ++ [10]], t) ∧ (TextOf units text ↔ ∀ u ∈ units, u < 256) := by
  have hs := sound_of_runCalls hps hrun
  obtain ⟨a, ha⟩ := hu.mapped hshift
  obtain ⟨t, hprint, -⟩ :=
    follows_exists (printUnicodeString_follows hps hs (BitVec.ofNat 16 (2 * units.length)) addr) rfl
  rw [hu.lines hps hshift ha] at hprint
  exact ⟨_, t, hprint, textOf_cstrOf_iff hu.nul⟩

/-! ## Modules -/

/-- A module of a Linux guest, with its name in the page of its links. -/
structure LinuxModuleAt (h : Host) (p : XaParams) (node : U32) (name : CStr) : Prop where
  page : InPageOf node (node + 8) (name.length + 1)
  name : KernelString h p (node + 8) name

/-- A module of a Windows guest: in the page of its links the length and the address of its name,
and the name there. -/
structure WindowsModuleAt (h : Host) (p : XaParams) (node : U32) (name : CStr) : Prop where
  lengthPage : InPageOf node (node + 0x2c) 2
  length : KernelBytes h p (node + 0x2c) (utf16Bytes [BitVec.ofNat 16 (2 * name.length)])
  bufferPage : InPageOf node (node + 0x30) 4
  buffer : ∃ addr, KernelU32 h p (node + 0x30) addr ∧
    UnicodeAt h p addr (name.map (BitVec.setWidth 16))
  nul : 0 ∉ name

/-- What `module-list` prints of a module of a Windows guest without caches. -/
def refWindowsModuleLines (h : Host) (p : XaParams) (a : Access) : List CStr :=
  refUnicodeLines h p (a.memory (a.offset + 0x2d) ++ a.memory (a.offset + 0x2c))
    (a.memory.u32 (a.offset + 0x30))

theorem windowsModuleLines_follows (hps : p.pageSize = 4096) :
    RowFollows h p fuel (windowsModuleLines h) (refWindowsModuleLines h p) := by
  intro s a hs
  exact printUnicodeString_follows hps hs _ _

section

variable (hps : p.pageSize = 4096) (hshift : p.pageShift = 12) {name : CStr}
include hps hshift

theorem LinuxModuleAt.lines (hm : LinuxModuleAt h p node name)
    (ha : refKernelVa h p node protRead = some a) : linuxModuleLines a = [name ++ [10]] := by
  have hname := string_shown hps hshift ha hm.page hm.name
  have hstep : node + 8 - node = 8 := by bv_omega
  rw [hstep] at hname
  have hstr : a.memory.str (a.offset + 8) = name := by
    refine (cstr_eq_iff ?_).mpr hname
    have := hm.page.2
    omega
  rw [linuxModuleLines, hstr]

theorem WindowsModuleAt.lines (hm : WindowsModuleAt h p node name)
    (ha : refKernelVa h p node protRead = some a) :
    refWindowsModuleLines h p a = [name ++ [10]] := by
  obtain ⟨addr, haddr, hu⟩ := hm.buffer
  obtain ⟨b, hb⟩ := hu.mapped hshift
  have hlen := bytes_shown hps hshift ha hm.lengthPage hm.length
  have hbuffer := u32_shown hps hshift ha hm.bufferPage haddr
  have hstep : node + 0x2c - node = 0x2c := by bv_omega
  have hstep' : node + 0x30 - node = 0x30 := by bv_omega
  rw [hstep] at hlen
  rw [hstep'] at hbuffer
  have hlines := hu.lines hps hshift hb
  rw [List.length_map, cstrOf_units hm.nul] at hlines
  -- the two bytes of the length
  have hlow : a.memory (a.offset + 0x2c) =
      (BitVec.ofNat 16 (2 * name.length) >>> 0).setWidth 8 := by
    have hbyte : a.memory (a.offset + 0x2c + 0) = _ := (List.cons.inj hlen).1
    rwa [show a.offset + 0x2c + 0 = a.offset + 0x2c from BitVec.add_zero _] at hbyte
  have hhigh : a.memory (a.offset + 0x2d) =
      (BitVec.ofNat 16 (2 * name.length) >>> 8).setWidth 8 := by
    have hbyte : a.memory (a.offset + 0x2c + 1) = _ := (List.cons.inj (List.cons.inj hlen).2).1
    rwa [show a.offset + 0x2c + 1 = a.offset + 0x2d from BitVec.add_assoc _ _ _] at hbyte
  rw [refWindowsModuleLines, hbuffer, hlow, hhigh, Bits.word16_of_bytes]
  exact hlines

end

/-- The lines of a ring whose nodes, the last one excepted, have one name each. -/
theorem LinkRing.nameLines_eq (R : LinkRing h p listHead) {refRow : Access → List CStr}
    {nameOf : U32 → CStr}
    (hlines : ∀ node ∈ R.nodes.dropLast, ∀ a, refKernelVa h p node protRead = some a →
      refRow a = [nameOf node ++ [10]]) :
    R.nodes.dropLast.flatMap (nodeLines h p refRow) =
      R.nodes.dropLast.map fun node => nameOf node ++ [10] := by
  rw [List.map_eq_flatMap]
  apply List.flatMap_congr
  intro node hnode
  obtain ⟨a, ha⟩ := R.mapped (List.dropLast_subset _ hnode)
  rw [nodeLines, ha]
  exact hlines node hnode a ha

/-- **What `module-list` prints.** In every state reached by calls from empty caches, on a ring of
modules it ends and prints the name of each module, that is of each node but the last one, in the
order of the list. -/
theorem moduleList_prints (h : Host) (fuel : Nat) (s₀ s : XaState) (hps : s₀.pageSize = 4096)
    (hshift : s₀.pageShift = 12) (calls : List Call)
    (hrun : runCalls h fuel calls s₀.clear = .ok ((), s)) (nameOf : U32 → CStr) :
    (s₀.osType = .linux → ∀ listHead t,
      xaReadLongSym h (cstr "modules") s = .ok (some listHead, t) →
      ∀ R : LinkRing h s₀.toXaParams listHead,
      (∀ node ∈ R.nodes.dropLast, LinuxModuleAt h s₀.toXaParams node (nameOf node)) →
      ∃ n u, moduleList h n s =
        .ok ((R.nodes.dropLast.map fun node => nameOf node ++ [10], true), u)) ∧
    (s₀.osType = .windows → ∀ a,
      refKernelVa h s₀.toXaParams (if s₀.pae then 0x805533a0 else 0x8055a620) protRead = some a →
      ∀ R : LinkRing h s₀.toXaParams (a.memory.u32 a.offset),
      (∀ node ∈ R.nodes.dropLast, WindowsModuleAt h s₀.toXaParams node (nameOf node)) →
      ∃ n u, moduleList h n s =
        .ok ((R.nodes.dropLast.map fun node => nameOf node ++ [10], true), u)) := by
  have hs := sound_of_runCalls hps hrun
  constructor
  · intro hos listHead t hstart R hnames
    have ht := xaReadLongSym_keeps hps _ s _ t hs hstart
    obtain ⟨u, hlist, -⟩ := R.listLoop_eq hps (rowFollows_pure linuxModuleLines) ht
    refine ⟨R.nodes.length, u, ?_⟩
    rw [moduleList, get_bind, hs.params, hos]
    simp only [bind_of_ok hstart]
    rw [Option.getD_some, hlist, R.nameLines_eq]
    exact fun node hnode a ha => (hnames node hnode).lines hps hshift ha
  · intro hos a ha R hnames
    obtain ⟨t, hacc, ht⟩ := follows_exists (xaAccessKernelVa_follows hps hs
      (if s₀.pae then 0x805533a0 else 0x8055a620) protRead) rfl
    rw [ha] at hacc
    obtain ⟨u, hlist, -⟩ := R.listLoop_eq hps (windowsModuleLines_follows hps) ht
    refine ⟨R.nodes.length, u, ?_⟩
    rw [moduleList, get_bind, hs.params, hos]
    simp only [bind_of_ok hacc]
    rw [hlist, R.nameLines_eq]
    exact fun node hnode a ha => (hnames node hnode).lines hps hshift ha

/-! ### A Windows guest -/

/-- A Windows guest with one module in its list, which is named "hi". -/
def moduleWords : Words :=
  [(0x1800, 0x83), (0x1804, 0x400083), (0x55a620, 0x80003000), (0x3000, 0x8055a620), (0x302c, 4),
    (0x3030, 0x80004000), (0x4000, 0x00690068)]

def moduleState : XaState :=
  imageState .windows 0x80000000 0x80001000 0x80003000 ⟨0x400000, 0x88, 0x18, 0x84, 0, 0, 0⟩

def moduleRing : LinkRing (imageHost moduleWords) moduleState.toXaParams 0x80003000 where
  nodes := [0x80003000, 0x8055a620]
  head := rfl
  nodup := by decide
  chain := by decide

theorem hi_at : UnicodeAt (imageHost moduleWords) moduleState.toXaParams 0x80004000 [0x68, 0x69] where
  page := by decide
  bytes := by decide
  ne_nil := by decide
  nul := by decide

theorem hi_printed : ∃ text t, printUnicodeString (imageHost moduleWords) (BitVec.ofNat 16 (2 * 2))
    0x80004000 moduleState.clear = .ok ([text ++ [10]], t) ∧
      (TextOf [0x68, 0x69] text ↔ ∀ u ∈ [0x68, (0x69 : BitVec 16)], u < 256) :=
  printUnicodeString_right_iff (imageHost moduleWords) 0 moduleState moduleState.clear rfl rfl []
    rfl 0x80004000 [0x68, 0x69] hi_at

theorem moduleRing_printed : ∃ n u, moduleList (imageHost moduleWords) n moduleState.clear =
    .ok (([0x80003000].map fun _ => cstr "hi" ++ [10], true), u) := by
  obtain ⟨a, ha, hnext⟩ : ∃ a, refKernelVa (imageHost moduleWords) moduleState.toXaParams
      0x8055a620 protRead = some a ∧ a.memory.u32 a.offset = 0x80003000 := link_eq_some (by decide)
  have hprints := (moduleList_prints (imageHost moduleWords) 0 moduleState moduleState.clear rfl rfl
    [] rfl fun _ => cstr "hi").2 rfl a ha
  rw [hnext] at hprints
  refine hprints moduleRing ?_
  intro node hnode
  obtain rfl : node = 0x80003000 := List.mem_singleton.mp hnode
  exact ⟨by decide, by decide, by decide, ⟨0x80004000, by decide, hi_at⟩, by decide⟩

end XenAccess
