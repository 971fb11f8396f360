import XenAccess.Model.PageTable

/-!
# The address cache and the pid cache

`xa_cache.c`. Both caches are bounded lists with least-recently-used eviction (`Lru`). The
address cache holds two kinds of entries in one list: an entry for a symbol has a name and
the virtual address `0`; an entry for a page has the empty name and the page base.

A clock reading is taken only where the source calls `time(NULL)`, that is when an entry is
hit, changed or created.
-/

namespace XenAccess

variable (h : Host)

/-- The next reading of `time(NULL)` in a state. -/
def XaState.now (s : XaState) : Int := h.time s.ticks

def XaState.setCache (s : XaState) (cache : Lru CacheEntry xaCacheSize) : XaState :=
  { s with cache, ticks := s.ticks + 1 }

def XaState.setPidCache (s : XaState) (pidCache : Lru PidCacheEntry xaPidCacheSize) : XaState :=
  { s with pidCache, ticks := s.ticks + 1 }

/-- The base of the page of an address, `address & ~(page_size - 1)`. -/
def pageBase (p : XaParams) (address : U32) : U32 := address &&& ~~~(p.pageSize - 1)

/-! ## Address cache -/

/-- Whether a lookup by symbol takes the entry. -/
def CacheEntry.hitsSym (symbolName : CStr) (pid : U32) (e : CacheEntry) : Bool :=
  strncmpEq e.symbolName symbolName maxSymLen && e.pid == pid && e.machAddress != 0

/-- Whether a lookup by page takes the entry. -/
def CacheEntry.hitsVirt (lookup pid : U32) (e : CacheEntry) : Bool :=
  e.virtAddress != 0 && (e.virtAddress == lookup && e.pid == pid && e.machAddress != 0)

/-- `xa_check_cache_sym`. -/
def xaCheckCacheSym (symbolName : CStr) (pid : U32) : XaM (Option U32) := fun s =>
  match s.cache.update (CacheEntry.hitsSym symbolName pid) ({ · with lastUsed := s.now h }) with
  | some (e, cache) => .ok (some e.machAddress, s.setCache cache)
  | none => .ok (none, s)

/-- `xa_check_cache_virt`. -/
def xaCheckCacheVirt (virtAddress pid : U32) : XaM (Option U32) := fun s =>
  let lookup := pageBase s.toXaParams virtAddress
  match s.cache.update (CacheEntry.hitsVirt lookup pid) ({ · with lastUsed := s.now h }) with
  | some (e, cache) =>
    .ok (some (e.machAddress ||| (virtAddress &&& (s.pageSize - 1))), s.setCache cache)
  | none => .ok (none, s)

/-- The machine address stored for a symbol: the one given, or else the translation of the
virtual address. -/
def symMachAddress (p : XaParams) (virtAddress machAddress : U32) : U32 :=
  if machAddress != 0 then machAddress else xaTranslateKv2p h p virtAddress

/-- What `xa_update_cache` writes into the entry with the given symbol. -/
def setSym (p : XaParams) (now : Int) (virtAddress pid machAddress : U32) (e : CacheEntry) :
    CacheEntry :=
  { e with
    lastUsed := now
    virtAddress := 0
    pid := pid
    machAddress := symMachAddress h p virtAddress machAddress }

/-- What `xa_update_cache` writes into the entry with the page of the given address. -/
def setVirt (p : XaParams) (now : Int) (pid machAddress : U32) (e : CacheEntry) : CacheEntry :=
  { e with lastUsed := now, pid := pid, machAddress := pageBase p machAddress }

/-- The entry `xa_update_cache` creates. -/
def newCacheEntry (p : XaParams) (now : Int) (symbolName : Option CStr)
    (virtAddress pid machAddress : U32) : CacheEntry :=
  match symbolName with
  | some symbolName =>
    { lastUsed := now
      symbolName := symbolName.take maxSymLen
      virtAddress := 0
      machAddress := symMachAddress h p virtAddress machAddress
      pid := pid }
  | none =>
    { lastUsed := now
      symbolName := []
      virtAddress := pageBase p virtAddress
      machAddress := pageBase p machAddress
      pid := pid }

/-- First search of `xa_update_cache`: the entry with the given symbol. -/
def updateSym (symbolName : CStr) (virtAddress pid machAddress : U32) (s : XaState) :
    Option XaState :=
  (s.cache.update (fun e => strncmpEq e.symbolName symbolName maxSymLen)
    (setSym h s.toXaParams (s.now h) virtAddress pid machAddress)).map fun r => s.setCache r.2

/-- Second search of `xa_update_cache`: the entry with the page of the given address. -/
def updateVirt (virtAddress pid machAddress : U32) (s : XaState) : Option XaState :=
  let vlookup := pageBase s.toXaParams virtAddress
  (s.cache.update (fun e => e.virtAddress == vlookup)
    (setVirt s.toXaParams (s.now h) pid machAddress)).map fun r => s.setCache r.2

def insertCache (e : CacheEntry) (s : XaState) : XaState :=
  s.setCache (s.cache.insert CacheEntry.lastUsed (by decide) e)

/-- `xa_update_cache`; `symbolName` is `none` for `NULL`. -/
def xaUpdateCache (symbolName : Option CStr) (virtAddress pid machAddress : U32) :
    XaM Unit := fun s =>
  let bySym := symbolName.bind fun sym => updateSym h sym virtAddress pid machAddress s
  match bySym with
  | some s' => .ok ((), s')
  | none =>
    let byVirt := if virtAddress != 0 then updateVirt h virtAddress pid machAddress s else none
    match byVirt with
    | some s' => .ok ((), s')
    | none =>
      if symbolName.isNone && virtAddress == 0 then .ok ((), s)
      else
        let e := newCacheEntry h s.toXaParams (s.now h) symbolName virtAddress pid machAddress
        .ok ((), insertCache e s)

/-! ## Pid cache -/

/-- `xa_check_pid_cache`, with `xa_check_pid_cache_helper`. -/
def xaCheckPidCache (pid : U32) : XaM (Option U32) := fun s =>
  match s.pidCache.update (fun e => e.pid == pid) ({ · with lastUsed := s.now h }) with
  | some (e, pidCache) => .ok (some e.pgd, s.setPidCache pidCache)
  | none => .ok (none, s)

/-- `xa_update_pid_cache`. -/
def xaUpdatePidCache (pid pgd : U32) : XaM Unit := fun s =>
  if pid = 0 then .ok ((), s)
  else
    match s.pidCache.update (fun e => e.pid == pid)
        ({ · with lastUsed := s.now h, pgd := pgd }) with
    | some (_, pidCache) => .ok ((), s.setPidCache pidCache)
    | none =>
      .ok ((), s.setPidCache
        (s.pidCache.insert PidCacheEntry.lastUsed (by decide) ⟨s.now h, pid, pgd⟩))

end XenAccess
