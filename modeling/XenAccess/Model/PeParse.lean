import XenAccess.Model.Memory

/-!
# The kernel image of a Windows guest

`windows_peparse.c`, `windows_process.c` and `get_ntoskrnl_base`. Everything here reads
physical memory only. Of `struct export_table` the fields that the code uses are kept; of
the optional header it uses the address of the export directory, at offset 96.
-/

namespace XenAccess

variable (h : Host) (p : XaParams)

/-! ## Export table -/

/-- `struct export_table`. -/
structure ExportTable where
  name : U32
  numberOfNames : U32
  addressOfFunctions : U32
  addressOfNames : U32
  addressOfNameOrdinals : U32

/-- `rva_to_string`; an empty string is `NULL`. -/
def rvaToString (rva : U32) : Option CStr :=
  match xaAccessPa h p (p.os.ntoskrnl + rva) protRead with
  | none => none
  | some a =>
    let maxLength := p.pageSize - a.offset - 1
    match a.memory.cstr a.offset maxLength.toNat with
    | [] => none
    | str => some str

/-- `get_export_rva`. -/
def getExportRva (aofIndex : U32) (et : ExportTable) : Option U32 :=
  xaReadLongPhys h p (p.os.ntoskrnl + et.addressOfFunctions + aofIndex * 4)

/-- `get_aof_index`. -/
def getAofIndex (aonIndex : U32) (et : ExportTable) : Option U32 :=
  (xaReadLongPhys h p (p.os.ntoskrnl + et.addressOfNameOrdinals + aonIndex * 2)).map
    (· &&& 0xffff)

/-- The loop of `get_aon_index` with `n` names to go from index `i`. A name matches when it
is a prefix of the symbol. -/
def aonLoop (symbol : CStr) (et : ExportTable) : Nat → U32 → Option U32
  | 0, _ => none
  | n + 1, i =>
    let strRva := (xaReadLongPhys h p (p.os.ntoskrnl + et.addressOfNames + i * 4)).getD 0
    if strRva != 0 then
      match rvaToString h p strRva with
      | some name => if strncmpEq name symbol name.length then some i else aonLoop symbol et n (i + 1)
      | none => aonLoop symbol et n (i + 1)
    else aonLoop symbol et n (i + 1)

/-- `get_aon_index`. -/
def getAonIndex (symbol : CStr) (et : ExportTable) : Option U32 :=
  aonLoop h p symbol et et.numberOfNames.toNat 0

/-- `get_export_table`. -/
def getExportTable (baseAddr : U32) : Option ExportTable := do
  let value := (xaReadLongPhys h p (baseAddr + 60)).getD 0
  let signatureLocation := baseAddr + value
  -- signature and `struct file_header`
  let optionalHeaderLocation := signatureLocation + 4 + 20
  let oh ← xaAccessPa h p optionalHeaderLocation protRead
  let exportHeaderRva := oh.memory.u32 (oh.offset + 96)
  let et ← xaAccessPa h p (baseAddr + exportHeaderRva) protRead
  return {
    name := et.memory.u32 (et.offset + 12)
    numberOfNames := et.memory.u32 (et.offset + 24)
    addressOfFunctions := et.memory.u32 (et.offset + 28)
    addressOfNames := et.memory.u32 (et.offset + 32)
    addressOfNameOrdinals := et.memory.u32 (et.offset + 36) }

/-- `windows_export_to_rva`. -/
def windowsExportToRva (symbol : CStr) : Option U32 := do
  let et ← getExportTable h p p.os.ntoskrnl
  let aonIndex ← getAonIndex h p symbol et
  let aofIndex ← getAofIndex h p aonIndex et
  getExportRva h p aofIndex et

/-- `windows_symbol_to_address`. -/
def windowsSymbolToAddress (symbol : CStr) : Option U32 := windowsExportToRva h p symbol

/-! ## Kernel base -/

def imageDosHeader : U32 := 0x5A4D
def imageNtSignature : U32 := 0x00004550

/-- `valid_ntoskrnl_start`. A read that fails leaves `value` as it was. -/
def validNtoskrnlStart (addr : U32) : Bool :=
  let value := (xaReadLongPhys h p addr).getD 0
  if value &&& 0xffff != imageDosHeader then false
  else
    let value := (xaReadLongPhys h p (addr + 60)).getD value
    let value := (xaReadLongPhys h p (addr + value)).getD value
    if value != imageNtSignature then false
    else
      match getExportTable h p addr with
      | none => false
      | some et => rvaToString h p (et.name + addr) == some (cstr "ntoskrnl.exe")

/-- Base addresses known from different versions of Windows. -/
def baseAddresses : List U32 :=
  [0x00100000, 0x00400000, 0x004d4000, 0x004d0000, 0x004d5000, 0x00a02000, 0x00496000,
    0x004d7000, 0x004de000, 0x00800000, 0x01800000]

/-- The search of `get_ntoskrnl_base` through memory, page by page up to `0x40000000`. The
first argument bounds the rounds. -/
def ntoskrnlSearch : Nat → U32 → U32
  | 0, _ => 0
  | n + 1, paddr =>
    if validNtoskrnlStart h p paddr then paddr
    else
      let paddr := paddr + p.pageSize
      if paddr = 0 ∨ 0x40000000 ≤ paddr then 0 else ntoskrnlSearch n paddr

/-- `get_ntoskrnl_base`; `0` when there is none. -/
def getNtoskrnlBase : U32 :=
  match baseAddresses.find? (validNtoskrnlStart h p) with
  | some paddr => paddr
  | none => ntoskrnlSearch h p 0x40000 p.pageSize

/-! ## Processes -/

/-- `windows_get_eprocess_name`. -/
def windowsGetEprocessName (paddr : U32) : Option CStr :=
  (xaAccessPa h p (paddr + 0x174) protRead).map fun a => a.memory.cstr a.offset 50

/-- The loop of `windows_find_eprocess`. The value read last stays when a read fails. -/
def eprocessLoop (name : CStr) : Nat → (offset value : U32) → Except Fault U32
  | 0, _, _ => .error .outOfFuel
  | n + 1, offset, value =>
    if offset < p.size then
      let value := (xaReadLongPhys h p offset).getD value
      let found :=
        if value = 0x001b0003 ∨ value = 0x00200003 then
          match windowsGetEprocessName h p offset with
          | some procname => strncmpEq procname name 50
          | none => false
        else false
      if found then .ok offset else eprocessLoop name n (offset + 8) value
    else .ok 0

/-- `windows_find_eprocess`. -/
def windowsFindEprocess (fuel : Nat) (name : CStr) : Except Fault U32 :=
  eprocessLoop h p name fuel 0 0

end XenAccess
