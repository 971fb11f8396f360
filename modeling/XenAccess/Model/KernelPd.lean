import XenAccess.Model.PageTable

/-!
# The search for page directories

`xa_kernel_pd_bitcount`, `xa_kernel_pd_valid_entry`, `xa_kernel_pd_score` and the loop over the
pages of `xa_find_kernel_pd` (`xa_memory.c`). The loop collects the pages whose score is
positive in a list whose last node is marked by the address `0`; the nodes come from `malloc`,
whose contents are a parameter.
-/

namespace XenAccess

variable (h : Host) (p : XaParams)

/-! ## Score of a page -/

/-- `xa_kernel_pd_bitcount`. -/
def xaKernelPdBitcount (n : U32) : Nat :=
  let count := n - ((n >>> 1) &&& 0o33333333333) - ((n >>> 2) &&& 0o11111111111)
  (((count + (count >>> 3)) &&& 0o30707070707) % 63).toNat

/-- `xa_kernel_pd_valid_entry`. -/
def xaKernelPdValidEntry (value msize : U32) : Bool :=
  if value = 0xffffffff then false
  else if xaGetBit value 7 then !decide (msize < value &&& 0xFFE00000)
  else !decide (msize < value &&& 0xFFFFF000)

/-- The accumulators of `xa_kernel_pd_score`. -/
structure PdMatches where
  matches0 : U32
  matches1 : U32
  correction : Int

mutual

/-- The outer loop of `xa_kernel_pd_score` over the words from the offset on. -/
def scoreLoop (msize : U32) (started : Bool) (acc : PdMatches) : List U32 → PdMatches
  | [] => acc
  | value :: words =>
    let acc :=
      if xaKernelPdValidEntry value msize then acc
      else { acc with correction := acc.correction - 1 }
    if value != 0 then
      if !started then scoreSecond msize value acc words
      else
        scoreLoop msize started
          { acc with
            matches0 := acc.matches0 &&& ~~~value
            matches1 := acc.matches1 &&& value }
          words
    else scoreLoop msize started acc words

/-- Its inner loop, which looks for the second word that is not zero and moves the same
offset. -/
def scoreSecond (msize value : U32) (acc : PdMatches) : List U32 → PdMatches
  | [] => acc
  | value2 :: words =>
    if value2 != 0 then
      scoreLoop msize true
        { acc with
          matches0 := ~~~value &&& ~~~value2
          matches1 := value &&& value2 }
        words
    else scoreSecond msize value acc words

end

/-- The words of a stretch of mapped memory. -/
def Page.words (memory : Page) (length : U32) : List U32 :=
  (List.range ((length.toNat + 3) / 4)).map fun i => memory.u32 (BitVec.ofNat 32 (4 * i))

/-- `xa_kernel_pd_score`; `memory` can be `NULL`. -/
def xaKernelPdScore (memory : Option Page) (length msize : U32) : Int :=
  match memory with
  | none => 0
  | some memory =>
    let acc := scoreLoop msize false ⟨0, 0, 0⟩ (memory.words length)
    xaKernelPdBitcount acc.matches0 + xaKernelPdBitcount acc.matches1 + acc.correction

/-! ## Pages -/

/-- `struct candidates`, linked by the order in a list. -/
structure Candidate where
  address : U32
  checksum : U32
  score : Int
  nmatches : Int
  selfref : Int

/-- The loop of `xa_find_kernel_pd` over the pages from an address on. The candidates found so
far stand before the node `cur`; `malloc` gives what is in each new node. -/
def pageLoop (malloc : Nat → Candidate) :
    Nat → U32 → List Candidate → Candidate → Except Fault (List Candidate)
  | 0, _, _, _ => .error .outOfFuel
  | n + 1, address, list, cur =>
    if address < p.size then
      let memory := (xaAccessPa h p address protRead).map Access.memory
      let score := xaKernelPdScore memory p.pageSize p.size
      if 0 < score then
        let list := list ++ [{ cur with address, score }]
        pageLoop malloc n (address + p.pageSize) list { malloc list.length with address := 0 }
      else pageLoop malloc n (address + p.pageSize) list cur
    else .ok (list ++ [cur])

/-- The list of candidates that `xa_find_kernel_pd` starts with. -/
def pdCandidates (malloc : Nat → Candidate) (fuel : Nat) : Except Fault (List Candidate) :=
  pageLoop h p malloc fuel 0 [] (malloc 0)

end XenAccess
