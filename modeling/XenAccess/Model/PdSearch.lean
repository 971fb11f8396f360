import XenAccess.Lib.Sll
import XenAccess.Model.CacheList
import XenAccess.Model.KernelPd

/-!
# The list of page directory candidates

`xa_find_kernel_pd` once more, this time with its list as it stands in memory: the nodes with
their `next` pointers, each from a call of `malloc`, and a last one marked by the address `0`.
The list is filled by the loop over the pages, annotated, and filtered twice in place. What a
block holds when `malloc` returns it is a parameter.

One bound on the rounds is shared by all loops.
-/

namespace XenAccess

variable (h : Host) (p : XaParams)

/-! ## Comparing pages -/

/-- `xa_kernel_pd_checksum`; `memory` can be `NULL`. -/
def xaKernelPdChecksum (memory : Option Page) : U32 :=
  match memory with
  | none => 0
  | some memory =>
    let start : U32 :=
      if p.pageOffset = 0x80000000 then p.pageSize / 2
      else if p.pageOffset = 0xc0000000 then 3 * p.pageSize / 4
      else 0
    (List.range 8).foldl
      (fun checksum i => checksum + memory.u32 (start + BitVec.ofNat 32 (4 * i))) 0

/-- `xa_kernel_pd_selfref`. -/
def xaKernelPdSelfref (memory : Option Page) (address : U32) : Int :=
  match memory with
  | none => 0
  | some memory =>
    ((memory.words p.pageSize).countP fun value =>
      value != 0 && value &&& 0xFFFFF000 == address : Nat)

/-- The page at an address as the search maps it. -/
def pdPage (address : U32) : Option Page := (xaAccessPa h p address protRead).map Access.memory

/-! ## The list -/

/-- The nodes in memory. -/
abbrev Candidates := Sll.Heap Candidate

/-- The condition on which the loops over the list stop. -/
def Candidate.isEnd (c : Candidate) : Bool := c.address == 0

/-- The body of the first loop over the list. -/
def setChecksum (cur : Option Sll.Addr) (heap : Candidates) : Except Sll.Fault Candidates := do
  let node ← Sll.load heap cur
  let memory := pdPage h p node.data.address
  Sll.modify heap cur ({ · with checksum := xaKernelPdChecksum p memory })

/-- The body of the loop over `cur2`. -/
def countMatch (cur cur2 : Option Sll.Addr) (heap : Candidates) : Except Sll.Fault Candidates := do
  let node ← Sll.load heap cur
  let node2 ← Sll.load heap cur2
  if node.data.checksum == node2.data.checksum && node.data.checksum != 0 then
    Sll.modify heap cur fun c => { c with nmatches := c.nmatches + 1 }
  else return heap

/-- The body of the second loop over the list. -/
def countMatches (fuel : Nat) (list cur : Option Sll.Addr) (heap : Candidates) :
    Except Sll.Fault Candidates := do
  let heap ← Sll.modify heap cur ({ · with nmatches := -1 })
  Sll.walk Candidate.isEnd (countMatch cur) fuel list heap

/-- The body of the loop over the candidates of a Windows guest. -/
def setSelfref (cur : Option Sll.Addr) (heap : Candidates) : Except Sll.Fault Candidates := do
  let node ← Sll.load heap cur
  let memory := pdPage h p node.data.address
  Sll.modify heap cur ({ · with selfref := xaKernelPdSelfref p memory node.data.address })

variable (m : Malloc) (blocks : Nat → Sll.Node Candidate)

/-- The lines below "list add". The new node is the block of the given number. -/
def listAdd (block : Nat) (address : U32) (score : Int) (cur : Option Sll.Addr)
    (heap : Candidates) : Except Sll.Fault (Option Sll.Addr × Candidates) := do
  let heap ← Sll.modify heap cur ({ · with address, score })
  let new := m.alloc block heap.keys
  let heap ← Sll.append heap cur new (blocks block)
  let heap ← Sll.modify heap (some new) ({ · with address := 0 })
  return (some new, heap)

/-- The loop over the pages from an address on, with the number of blocks so far. -/
def pdLoop : Nat → U32 → Nat → Option Sll.Addr → Candidates → Except Sll.Fault Candidates
  | 0, _, _, _, _ => .error .diverges
  | n + 1, address, block, cur, heap =>
    if address < p.size then do
      let score := xaKernelPdScore (pdPage h p address) p.pageSize p.size
      if 0 < score then
        let (cur, heap) ← listAdd m blocks block address score cur heap
        pdLoop n (address + p.pageSize) (block + 1) cur heap
      else pdLoop n (address + p.pageSize) block cur heap
    else .ok heap

/-- The loops over the list that compare the checksums, and the removal of those without a
match. -/
def keepMatches (fuel : Nat) (list : Option Sll.Addr) (heap : Candidates) :
    Except Sll.Fault (Option Sll.Addr × Candidates) := do
  let heap ← Sll.walk Candidate.isEnd (setChecksum h p) fuel list heap
  let heap ← Sll.walk Candidate.isEnd (countMatches fuel list) fuel list heap
  Sll.removeIf Candidate.isEnd (fun c => decide (c.nmatches ≤ 0)) fuel list none list heap

/-- The loops over the list for a Windows guest. -/
def keepSelfrefs (fuel : Nat) (list : Option Sll.Addr) (heap : Candidates) :
    Except Sll.Fault (Option Sll.Addr × Candidates) := do
  if p.osType = .windows then
    let heap ← Sll.walk Candidate.isEnd (setSelfref h p) fuel list heap
    Sll.removeIf Candidate.isEnd (fun c => decide (c.selfref ≤ 0)) fuel list none list heap
  else return (list, heap)

/-- `xa_find_kernel_pd` behind the loop over the pages. -/
def searchList (fuel : Nat) (list : Option Sll.Addr) (heap : Candidates) :
    Except Sll.Fault U32 := do
  let (list, heap) ← keepMatches h p fuel list heap
  let (list, heap) ← keepSelfrefs h p fuel list heap
  let node ← Sll.load heap list
  return node.data.address + p.pageOffset

/-- `xa_find_kernel_pd`. -/
def xaFindKernelPd (fuel : Nat) : Except Sll.Fault U32 := do
  let list := some (m.alloc 0 [])
  let heap ← pdLoop h p m blocks fuel 0 1 list ((∅ : Candidates).insert (m.alloc 0 []) (blocks 0))
  searchList h p fuel list heap

end XenAccess
