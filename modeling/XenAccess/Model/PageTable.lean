import XenAccess.Model.Memory

/-!
# Page table walks

The lookup functions of `xa_memory.c`, with the widths of their C types: what is declared
`uint32_t` is truncated to 32 bits here too. A read of a table frame that cannot be mapped
leaves the local it was to fill uninitialised (`Host.uninitLong`, `Host.uninitLongLong`).
`buffalo_nopae` only prints and is left out.
-/

namespace XenAccess

variable (h : Host) (p : XaParams)

/-- `xa_get_bit`. -/
def xaGetBit (reg : U32) (bit : Nat) : Bool := reg &&& ((1 : U32) <<< bit) != 0

def entryPresent (entry : U32) : Bool := xaGetBit entry 0

def pageSizeFlag (entry : U32) : Bool := xaGetBit entry 7

/-! ## Page directory pointer table -/

def getPdptb (pdpr : U32) : U32 := pdpr &&& 0xFFFFFFE0

def pdpiIndex (pdpi : U32) : U32 := (pdpi >>> 30) * 8

def getPdpi (vaddr cr3 : U32) : U64 :=
  let pdpiEntry := getPdptb cr3 + pdpiIndex vaddr
  (xaReadLongLongMach h p pdpiEntry).getD h.uninitLongLong

/-! ## Page directory -/

def pgdIndex (address : U32) : U32 :=
  if !p.pae then ((address >>> 22) &&& 0x3FF) * 4 else ((address >>> 21) &&& 0x1FF) * 8

def pdbaBaseNopae (pdpe : U32) : U32 := pdpe &&& 0xFFFFF000

def pdbaBasePae (pdpe : U64) : U64 := pdpe &&& 0xFFFFFF000

def getPgdNopae (vaddr pdpe : U32) : U32 :=
  let pgdEntry := pdbaBaseNopae pdpe + pgdIndex p vaddr
  (xaReadLongMach h p pgdEntry).getD h.uninitLong

def getPgdPae (vaddr : U32) (pdpe : U64) : U64 :=
  let pgdEntry : U32 := (pdbaBasePae pdpe + (pgdIndex p vaddr).setWidth 64).setWidth 32
  (xaReadLongLongMach h p pgdEntry).getD h.uninitLongLong

/-! ## Page table -/

def pteIndex (address : U32) : U32 :=
  if !p.pae then ((address >>> 12) &&& 0x3FF) * 4 else ((address >>> 12) &&& 0x1FF) * 8

def ptbaBaseNopae (pde : U32) : U32 := pde &&& 0xFFFFF000

def ptbaBasePae (pde : U64) : U64 := pde &&& 0xFFFFFF000

def getPteNopae (vaddr pgd : U32) : U32 :=
  let pteEntry := ptbaBaseNopae pgd + pteIndex p vaddr
  (xaReadLongMach h p pteEntry).getD h.uninitLong

def getPtePae (vaddr : U32) (pgd : U64) : U64 :=
  let pteEntry : U32 := (ptbaBasePae pgd + (pteIndex p vaddr).setWidth 64).setWidth 32
  (xaReadLongLongMach h p pteEntry).getD h.uninitLongLong

/-! ## Page -/

def ptePfnNopae (pte : U32) : U32 := pte &&& 0xFFFFF000

def ptePfnPae (pte : U64) : U64 := pte &&& 0xFFFFFF000

def getPaddrNopae (vaddr pte : U32) : U32 := ptePfnNopae pte ||| (vaddr &&& 0xFFF)

def getPaddrPae (vaddr : U32) (pte : U64) : U64 :=
  ptePfnPae pte ||| (vaddr &&& 0xFFF).setWidth 64

def getLargePaddr (vaddr pgdEntry : U32) : U32 :=
  if !p.pae then (pgdEntry &&& 0xFFC00000) ||| (vaddr &&& 0x3FFFFF)
  else (pgdEntry &&& 0xFFE00000) ||| (vaddr &&& 0x1FFFFF)

/-! ## Translation -/

/-- The body of `v2p_nopae`, on what the readers of the entries return. -/
def v2pNopaeBody (getPgd getPte : U32 → U32 → U32) (cr3 vaddr : U32) : U32 :=
  let pgd := getPgd vaddr cr3
  if entryPresent pgd then
    if pageSizeFlag pgd then getLargePaddr p vaddr pgd
    else
      let pte := getPte vaddr pgd
      if entryPresent pte then getPaddrNopae vaddr pte else 0
  else 0

def v2pNopae (cr3 vaddr : U32) : U32 :=
  v2pNopaeBody p (getPgdNopae h p) (getPteNopae h p) cr3 vaddr

/-- The body of `v2p_pae`, on what the readers of the entries return. -/
def v2pPaeBody (getPdpe : U32 → U32 → U64) (getPgd getPte : U32 → U64 → U64) (cr3 vaddr : U32) :
    U32 :=
  let pdpe := getPdpe vaddr cr3
  if !entryPresent (pdpe.setWidth 32) then 0
  else
    let pgd := getPgd vaddr pdpe
    if entryPresent (pgd.setWidth 32) then
      if pageSizeFlag (pgd.setWidth 32) then getLargePaddr p vaddr (pgd.setWidth 32)
      else
        let pte := getPte vaddr pgd
        if entryPresent (pte.setWidth 32) then (getPaddrPae vaddr pte).setWidth 32 else 0
    else 0

def v2pPae (cr3 vaddr : U32) : U32 :=
  v2pPaeBody p (getPdpi h p) (getPgdPae h p) (getPtePae h p) cr3 vaddr

/-- `xa_pagetable_lookup`. -/
def xaPagetableLookup (cr3 vaddr : U32) : U32 :=
  if p.pae then v2pPae h p cr3 vaddr else v2pNopae h p cr3 vaddr

/-- `xa_current_cr3`; when the context of the virtual CPU cannot be read, the caller's value
`cr3` stays. -/
def xaCurrentCr3 (cr3 : U32) : U32 :=
  match p.mode with
  | .xen =>
    match h.xcVcpuGetcontext with
    | none => cr3
    | some ctxt => ctxt.ctrlreg3 &&& 0xFFFFF000
  | .file => p.kpgd - p.pageOffset

/-- `xa_translate_kv2p`. -/
def xaTranslateKv2p (virtAddress : U32) : U32 :=
  xaPagetableLookup h p (xaCurrentCr3 h p 0) virtAddress

end XenAccess
