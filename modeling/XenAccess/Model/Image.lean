import XenAccess.Lib.Bits
import XenAccess.Model.Init

/-!
# Guests given word by word

A guest whose memory is a table of 32-bit words, all other words being zero. Every frame of
it can be mapped, as a frame of a Xen domain or as a page of an image file. The statements
about one particular guest in this development are about guests of this form.
-/

namespace XenAccess

/-- Aligned addresses and the words stored there. -/
abbrev Words := List (U32 × U32)

/-- The byte at an address. -/
def imageByte (words : Words) (address : U32) : U8 :=
  let word := (words.lookup (address &&& 0xFFFFFFFC)).getD 0
  (word >>> (8 * (address &&& 3))).setWidth 8

/-- The mapping of the page at a base address. -/
def imagePage (words : Words) (base : U32) : Page := fun d => imageByte words (base + d)

/-- The guest with the given memory. It has no System.map and no configuration, and its
virtual CPU cannot be read. -/
def imageHost (words : Words) : Host where
  xcInterfaceOpen := true
  xcMapForeignRange _ mfn := some (imagePage words (mfn <<< 12))
  xcMapForeignBatch _ _ := none
  xcVcpuGetcontext := none
  xcDomainGetinfo := some 0
  xcMemoryOp := 0
  xcVersion := cstr "3.1.0"
  sharedMaxPfn _ := 0
  sharedFrameListList _ := 0
  xsRead _ := none
  fopenImage _ := true
  fstat := some 0x1000000
  mmap _ address := some (imagePage words address)
  fopen _ := none
  configFile := true
  xaParseConfig _ := none
  time n := n
  uninitLong := 0
  uninitLongLong := 0
  mallocRow := []
  heapTail := []

/-- An initialised instance for an image file of 16 megabytes. -/
def imageState (osType : OsType) (pageOffset kpgd initTask : U32) (os : OsUnion) : XaState :=
  { zeroState 0 with
    mode := .file, osType, pageOffset, pageShift := 12, pageSize := 4096, kpgd, initTask
    hvm := true, os, size := 0x1000000, sysmap := some (cstr "System.map") }

/-- The configuration of a Windows XP guest, with the base of its kernel. -/
def windowsEntry : XaConfigEntry where
  sysmap := []
  ostype := cstr "Windows"
  offsets := ⟨0x400000, 0x88, 0x18, 0x84, 0x1B0, 0x8, 0x18⟩

/-- A Windows guest with the given memory. -/
def windowsHost (words : Words) : Host :=
  { imageHost words with xaParseConfig := fun _ => some windowsEntry }

/-- The configuration of a Linux guest. -/
def linuxEntry : XaConfigEntry where
  sysmap := cstr "System.map"
  ostype := cstr "Linux"
  offsets := ⟨0x60, 0x78, 0x9C, 0x24, 0x80, 0, 0⟩

/-- A Linux guest with the given memory and System.map. -/
def linuxHost (words : Words) (systemMap : Option (List U8)) : Host :=
  { imageHost words with
    fopen := fun _ => systemMap
    xaParseConfig := fun _ => some linuxEntry }

/-- The process object of the System process at a physical address: its type, the page
directory, the link of the task list and the name. -/
def systemEprocess (paddr : U32) : Words :=
  [(paddr, 0x001B0003), (paddr + 0x18, 0x39000), (paddr + 0x88, 0x823C8088),
    (paddr + 0x174, 0x74737953), (paddr + 0x178, 0x6D65)]

/-- A zeroed instance for an image file. -/
def fileState : XaState :=
  { zeroState 0 with mode := .file, imageType := some (cstr "guest") }

/-! ## Reading a word -/

theorem imageByte_add (words : Words) (address i : U32) (haligned : address.toNat % 4 = 0)
    (hi : i.toNat < 4) :
    imageByte words (address + i) =
      (((words.lookup address).getD 0) >>> (8 * i)).setWidth 8 := by
  have hword : (address + i) &&& 0xFFFFFFFC = address := by
    apply BitVec.eq_of_toNat_eq
    have hmask : ((address + i) &&& 0xFFFFFFFC).toNat = (address + i).toNat / 4 * 4 := by
      simpa using Bits.toNat_and_high (address + i) (k := 2) (by omega)
    rw [hmask, BitVec.toNat_add]
    omega
  have hbyte : (address + i) &&& 3 = i := by
    apply BitVec.eq_of_toNat_eq
    have hmask : (address + i &&& 3).toNat = (address + i).toNat % 4 :=
      Bits.toNat_and_low (address + i) (k := 2) (by omega)
    rw [hmask, BitVec.toNat_add]
    omega
  rw [imageByte, hword, hbyte]

/-- The word at an aligned address. -/
theorem imagePage_u32 (words : Words) (base d : U32) (haligned : (base + d).toNat % 4 = 0) :
    (imagePage words base).u32 d = (words.lookup (base + d)).getD 0 := by
  have h0 := imageByte_add words (base + d) 0 haligned (by decide)
  have h1 := imageByte_add words (base + d) 1 haligned (by decide)
  have h2 := imageByte_add words (base + d) 2 haligned (by decide)
  have h3 := imageByte_add words (base + d) 3 haligned (by decide)
  have hzero : base + d + 0 = base + d := BitVec.add_zero _
  rw [hzero] at h0
  simp only [Page.u32, imagePage, ← BitVec.add_assoc, h0, h1, h2, h3]
  exact Bits.word32_of_bytes _

end XenAccess
