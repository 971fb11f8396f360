import XenAccess.Model.Types

/-!
# Mapping and reading frames

`xa_map_page` and what is built on it: machine and pseudo-physical frames (`xa_memory.c`),
file images (`xa_file.c`) and the readers of 32- and 64-bit values (`xa_util.c`).

For a paravirtualised guest the code keeps the table from pseudo-physical to machine
frames mapped after its first use. With a guest that does not change, that table is the one
each call would map, so `helperPfnToMfn` reads it from the guest every time.
-/

namespace XenAccess

variable (h : Host) (p : XaParams)

/-! ## Frames -/

/-- `xa_map_file_range`: the page of the image file at a frame number. -/
def xaMapFileRange (prot pfn : U32) : Option Page :=
  let address := pfn <<< p.pageShift
  if p.size ≤ address then none else h.mmap prot address

/-- `xa_map_page`. -/
def xaMapPage (prot frameNum : U32) : Option Page :=
  match p.mode with
  | .xen => h.xcMapForeignRange prot frameNum
  | .file => xaMapFileRange h p prot frameNum

/-- `xa_mmap_mfn`. -/
def xaMmapMfn (prot mfn : U32) : Option Page := xaMapPage h p prot mfn

/-- The first `n` frame numbers stored on a mapped page. -/
def frameNumbers (memory : Page) (n : U32) : List U32 :=
  (List.range n.toNat).map fun i => memory.u32 (BitVec.ofNat 32 (4 * i))

/-- `helper_pfn_to_mfn`; a failure is `-1`. -/
def helperPfnToMfn (pfn : U32) : U32 :=
  if p.hvm then pfn
  else
    let table : Option Page := do
      let shinfo ← xaMmapMfn h p protRead p.sharedInfoFrame
      let nrPfns :=
        if p.xenVersion = .v310 then h.xcMemoryOp + 1 else h.sharedMaxPfn shinfo
      let frameListList ← xaMmapMfn h p protRead (h.sharedFrameListList shinfo)
      let frameList ← h.xcMapForeignBatch protRead
        (frameNumbers frameListList ((nrPfns + fpp * fpp - 1) / (fpp * fpp)))
      h.xcMapForeignBatch protRead (frameNumbers frameList ((nrPfns + fpp - 1) / fpp))
    match table with
    | none => -1
    | some table => table.u32 (4 * pfn)

/-- `xa_mmap_pfn`, with the machine frame it maps. -/
def xaMmapPfn (prot pfn : U32) : Option (U32 × Page) :=
  let mfn := match p.mode with
    | .xen => helperPfnToMfn h p pfn
    | .file => pfn
  if mfn = -1 then none else (xaMapPage h p prot mfn).map fun memory => (mfn, memory)

/-! ## Addresses -/

/-- `xa_access_pa`. -/
def xaAccessPa (physAddress prot : U32) : Option Access :=
  let pfn := physAddress >>> p.pageShift
  let offset := (p.pageSize - 1) &&& physAddress
  (xaMmapPfn h p prot pfn).map fun m => ⟨m.1, prot, m.2, offset⟩

/-- `xa_access_ma`. -/
def xaAccessMa (machAddress prot : U32) : Option Access :=
  let mfn := machAddress >>> p.pageShift
  let offset := (p.pageSize - 1) &&& machAddress
  (xaMmapMfn h p prot mfn).map fun memory => ⟨mfn, prot, memory, offset⟩

/-! ## Readers -/

/-- The value a `xa_read_long_*` function finds through the access it made. -/
def Access.long (a : Access) : U32 := a.memory.u32 a.offset

/-- The value a `xa_read_long_long_*` function finds. -/
def Access.longLong (a : Access) : U64 := a.memory.u64 a.offset

/-- `xa_read_long_mach`. -/
def xaReadLongMach (maddr : U32) : Option U32 :=
  (xaAccessMa h p maddr protRead).map Access.long

/-- `xa_read_long_long_mach`. -/
def xaReadLongLongMach (maddr : U32) : Option U64 :=
  (xaAccessMa h p maddr protRead).map Access.longLong

/-- `xa_read_long_phys`. -/
def xaReadLongPhys (paddr : U32) : Option U32 :=
  (xaAccessPa h p paddr protRead).map Access.long

/-- `xa_read_long_long_phys`. -/
def xaReadLongLongPhys (paddr : U32) : Option U64 :=
  (xaAccessPa h p paddr protRead).map Access.longLong

end XenAccess
