import Mathlib.Algebra.Order.BigOperators.Group.List
import Mathlib.Algebra.Order.Group.Nat
import XenAccess.Lib.Dll
import XenAccess.Model.Cache

/-!
# The caches as linked lists

`xa_cache.c` once more, this time with the lists as they stand in memory: the nodes with
their `prev` and `next` pointers, the pointers `cache_head`, `cache_tail` and the counter
`current_cache_size`, and the same for the pid cache. `Model.Cache` has the functions on the
sequence of the entries; `Cache.Lists` compares the two.

`malloc` is an allocator that hands out any address not in use. The source does not check
for `NULL`, and here an allocation does not fail.
-/

namespace XenAccess

/-- The two lists of an instance, with the numbers of clock readings and of allocations made
so far. -/
structure CacheLists where
  cache : Dll CacheEntry
  pidCache : Dll PidCacheEntry
  ticks : Nat
  mallocs : Nat

/-- An allocator: the number of the allocation and the addresses in use. -/
structure Malloc where
  alloc : Nat → List Dll.Addr → Dll.Addr
  fresh : ∀ n used, alloc n used ∉ used

/-- An allocator that goes upwards. -/
def bumpMalloc : Malloc where
  alloc _ used := used.sum + 1
  fresh _ used hmem := absurd (List.le_sum_of_mem hmem) (Nat.not_succ_le_self used.sum)

namespace CacheLists

variable (h : Host) (p : XaParams) (m : Malloc)

/-- The lists after `xa_init_common`. -/
def init : CacheLists := { cache := .nil, pidCache := .nil, ticks := 0, mallocs := 0 }

def now (t : CacheLists) : Int := h.time t.ticks

/-- A list was searched with success. -/
def setCache (t : CacheLists) (cache : Dll CacheEntry) : CacheLists :=
  { t with cache, ticks := t.ticks + 1 }

def setPidCache (t : CacheLists) (pidCache : Dll PidCacheEntry) : CacheLists :=
  { t with pidCache, ticks := t.ticks + 1 }

/-! ## Address cache -/

/-- `xa_check_cache_sym`. -/
def checkCacheSym (symbolName : CStr) (pid : U32) (t : CacheLists) :
    Except Dll.Fault (Option U32 × CacheLists) := do
  let hit ← t.cache.touch (CacheEntry.hitsSym symbolName pid) ({ · with lastUsed := t.now h })
  match hit with
  | some (e, cache) => return (some e.machAddress, t.setCache cache)
  | none => return (none, t)

/-- `xa_check_cache_virt`. -/
def checkCacheVirt (virtAddress pid : U32) (t : CacheLists) :
    Except Dll.Fault (Option U32 × CacheLists) := do
  let lookup := pageBase p virtAddress
  let hit ← t.cache.touch (CacheEntry.hitsVirt lookup pid) ({ · with lastUsed := t.now h })
  match hit with
  | some (e, cache) =>
    return (some (e.machAddress ||| (virtAddress &&& (p.pageSize - 1))), t.setCache cache)
  | none => return (none, t)

/-- First search of `xa_update_cache`. -/
def touchSym (symbolName : Option CStr) (virtAddress pid machAddress : U32) (t : CacheLists) :
    Except Dll.Fault (Option (CacheEntry × Dll CacheEntry)) :=
  match symbolName with
  | some symbolName =>
    t.cache.touch (fun e => strncmpEq e.symbolName symbolName maxSymLen)
      (setSym h p (t.now h) virtAddress pid machAddress)
  | none => .ok none

/-- Second search of `xa_update_cache`. -/
def touchVirt (virtAddress pid machAddress : U32) (t : CacheLists) :
    Except Dll.Fault (Option (CacheEntry × Dll CacheEntry)) :=
  if virtAddress != 0 then
    t.cache.touch (fun e => e.virtAddress == pageBase p virtAddress)
      (setVirt p (t.now h) pid machAddress)
  else .ok none

/-- The removal from a full list and the insertion of `xa_update_cache`. -/
def addEntry (e : CacheEntry) (t : CacheLists) : Except Dll.Fault CacheLists := do
  let cache ← t.cache.insert xaCacheSize CacheEntry.lastUsed (m.alloc t.mallocs) e
  return { t with cache, ticks := t.ticks + 1, mallocs := t.mallocs + 1 }

/-- `xa_update_cache`; `symbolName` is `none` for `NULL`. -/
def updateCache (symbolName : Option CStr) (virtAddress pid machAddress : U32) (t : CacheLists) :
    Except Dll.Fault CacheLists := do
  match ← t.touchSym h p symbolName virtAddress pid machAddress with
  | some (_, cache) => return t.setCache cache
  | none =>
    match ← t.touchVirt h p virtAddress pid machAddress with
    | some (_, cache) => return t.setCache cache
    | none =>
      if symbolName.isNone && virtAddress == 0 then return t
      else t.addEntry m (newCacheEntry h p (t.now h) symbolName virtAddress pid machAddress)

/-- `xa_destroy_cache`. -/
def destroyCache (t : CacheLists) : Except Dll.Fault CacheLists := do
  let cache ← t.cache.destroy
  return { t with cache }

/-! ## Pid cache -/

/-- `xa_check_pid_cache`, with `xa_check_pid_cache_helper`. -/
def checkPidCache (pid : U32) (t : CacheLists) : Except Dll.Fault (Option U32 × CacheLists) := do
  match ← t.pidCache.touch (fun e => e.pid == pid) ({ · with lastUsed := t.now h }) with
  | some (e, pidCache) => return (some e.pgd, t.setPidCache pidCache)
  | none => return (none, t)

/-- The removal from a full list and the insertion of `xa_update_pid_cache`. -/
def addPidEntry (e : PidCacheEntry) (t : CacheLists) : Except Dll.Fault CacheLists := do
  let pidCache ← t.pidCache.insert xaPidCacheSize PidCacheEntry.lastUsed (m.alloc t.mallocs) e
  return { t with pidCache, ticks := t.ticks + 1, mallocs := t.mallocs + 1 }

/-- `xa_update_pid_cache`. -/
def updatePidCache (pid pgd : U32) (t : CacheLists) : Except Dll.Fault CacheLists := do
  if pid = 0 then return t
  else
    match ← t.pidCache.touch (fun e => e.pid == pid)
        ({ · with lastUsed := t.now h, pgd := pgd }) with
    | some (_, pidCache) => return t.setPidCache pidCache
    | none => t.addPidEntry m ⟨t.now h, pid, pgd⟩

/-- `xa_destroy_pid_cache`. -/
def destroyPidCache (t : CacheLists) : Except Dll.Fault CacheLists := do
  let pidCache ← t.pidCache.destroy
  return { t with pidCache }

end CacheLists

/-! ## Sequences of operations -/

/-- A call of one of the cache functions. -/
inductive CacheOp where
  | checkSym (symbolName : CStr) (pid : U32)
  | checkVirt (virtAddress pid : U32)
  | update (symbolName : Option CStr) (virtAddress pid machAddress : U32)
  | destroy
  | checkPid (pid : U32)
  | updatePid (pid pgd : U32)
  | destroyPid

variable (h : Host) (p : XaParams) (m : Malloc)

/-- The call on the lists; only the lookups have a result. -/
def CacheOp.execLists (t : CacheLists) : CacheOp → Except Dll.Fault (Option U32 × CacheLists)
  | .checkSym symbolName pid => t.checkCacheSym h symbolName pid
  | .checkVirt virtAddress pid => t.checkCacheVirt h p virtAddress pid
  | .update symbolName virtAddress pid machAddress =>
    (t.updateCache h p m symbolName virtAddress pid machAddress).map fun t => (none, t)
  | .destroy => t.destroyCache.map fun t => (none, t)
  | .checkPid pid => t.checkPidCache h pid
  | .updatePid pid pgd => (t.updatePidCache h m pid pgd).map fun t => (none, t)
  | .destroyPid => t.destroyPidCache.map fun t => (none, t)

/-- Make the calls one after the other. -/
def runLists : List CacheOp → CacheLists → Except Dll.Fault CacheLists
  | [], t => .ok t
  | op :: ops, t => do
    let (_, t) ← op.execLists h p m t
    runLists ops t

end XenAccess
