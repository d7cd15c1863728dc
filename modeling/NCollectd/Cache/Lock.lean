import NCollectd.Base.Mutex
import NCollectd.Cache.Model

/-! The operations of `utils_cache.c` with their calls to the mutex `cache_lock`. -/

namespace NCollectd.CacheLock

open Locked

def STATE_ERROR : Int := 3

def INT_MIN : Int := -2147483648
def INT_MAX : Int := 2147483647

abbrev CacheCode (α : Type) := Locked (Option Cache) α

def cAvlGet (name : CString) : CacheCode (Option CacheEntry) := do
  match ← read with
  | none => abort
  | some cache => pure cache[name]?

def store (name : CString) (ce : CacheEntry) : CacheCode Unit := do
  match ← read with
  | none => abort
  | some cache => write (some (cache.insert name ce))

def ucSetCallbacksMask (name : CString) (mask : UInt64) : CacheCode Status := do
  lock
  match ← cAvlGet name with
  | none =>
    unlock
    pure (-1)
  | some ce =>
    store name { ce with callbacksMask := mask }
    unlock
    pure 0

def storeSubscribers (name : CString) (mask : UInt64) : CacheCode Unit := do
  if mask ≠ 0 then
    let _ ← ucSetCallbacksMask name mask
    pure ()
  else pure ()

def ucInsert (m : Metric) (key : CString) (now : CdTime) : CacheCode Status := do
  match ← read with
  | none => abort
  | some cache =>
    let (status, cache) ← ofOption (NCollectd.ucInsert cache m key now)
    write (some cache)
    pure status

def ucUpdateMetric (page : PageSize) (answers : CString → Metric → UInt64) (m : Metric) (now : CdTime) :
    CacheCode Status := do
  match ← ofOption (entryKey page m) with
  | .error status => pure status
  | .ok key =>
    lock
    match ← cAvlGet key with
    | none =>
      let status ← ucInsert m key now
      unlock
      if status = 0 then
        storeSubscribers key (answers key m)
        pure status
      else pure status
    | some ce =>
      if m.time ≤ ce.lastTime then
        unlock
        pure (-1)
      else
        let (status, ce) ← ofOption (updateValues ce m)
        if status ≠ 0 then
          store key ce
          unlock
          pure status
        else
          store key
            { ce with
              history := ce.history.record ce.valuesGauge
              lastTime := m.time
              lastUpdate := now
              interval := m.interval }
          unlock
          pure 0

def ucUpdate (page : PageSize) (answers : CString → Metric → UInt64) : List (Metric × CdTime) → CacheCode Status
  | [] => pure 0
  | (m, now) :: rest => do
    let status ← ucUpdateMetric page answers m now
    let others ← ucUpdate page answers rest
    pure (if status ≠ 0 then 1 else others)

def ucCheckTimeout (page : PageSize) (now : CdTime) (timeout : Int) : CacheCode Status := do
  lock
  let tree ← read
  let expired := (tree.map fun cache => expiredEntries cache now timeout).getD []
  unlock
  if expired = [] then pure 0
  else
    let _ ← ofOption (reportAll page expired)
    lock
    match ← read with
    | none => abort
    | some cache =>
      write (some (removeAll cache expired).1)
      unlock
      pure 0

def ucGetPercentileByName (name : CString) (percent : Double) : CacheCode (Except Status Double) := do
  if percent.less (.fin 0) || (Double.fin 100).less percent then pure (.error (-1))
  else
    lock
    match ← cAvlGet name with
    | none =>
      unlock
      pure (.error (-1))
    | some ce =>
      if ce.state = STATE_MISSING then
        unlock
        pure (.error (-1))
      else if ce.valuesRaw.type ≠ .distribution then
        unlock
        pure (.error (-1))
      else
        let value ← ofOption (distributionPercentile ce.distributionIncrease percent)
        unlock
        pure (.ok value)

/-- The distribution case unlocks, and the end of the function unlocks again. -/
def ucGetRateByName (name : CString) : CacheCode (Except Status Double) := do
  lock
  match ← cAvlGet name with
  | none =>
    unlock
    pure (.error (-1))
  | some ce =>
    if ce.state = STATE_MISSING then
      unlock
      pure (.error (-1))
    else if ce.valuesRaw.type ≠ .distribution then
      unlock
      pure (.ok ce.valuesGauge)
    else
      unlock
      let rate ← ucGetPercentileByName name (.fin 50)
      unlock
      pure rate

def ucGetRate (page : PageSize) (m : Metric) : CacheCode (Except Status Double) := do
  match ← ofOption (entryKey page m) with
  | .error status => pure (.error status)
  | .ok key =>
    if m.family.type = .distribution then ucGetPercentileByName key (.fin 50)
    else ucGetRateByName key

def ucGetHistoryByName (name : CString) (numSteps : Nat) : CacheCode (Except Status (List Double)) := do
  lock
  match ← cAvlGet name with
  | none =>
    unlock
    pure (.error (-ENOENT))
  | some ce =>
    let history := ce.history.grow numSteps
    let values ← ofOption (history.read numSteps)
    store name { ce with history }
    unlock
    pure (.ok values)

def getByName (field : CacheEntry → Int) (name : CString) : CacheCode Int := do
  lock
  match ← cAvlGet name with
  | none =>
    unlock
    pure STATE_ERROR
  | some ce =>
    unlock
    pure (field ce)

def changeByName (field : CacheEntry → Int) (change : CacheEntry → Option CacheEntry) (name : CString) :
    CacheCode Int := do
  lock
  match ← cAvlGet name with
  | none =>
    unlock
    pure (-1)
  | some ce =>
    let next ← ofOption (change ce)
    store name next
    unlock
    pure (field ce)

def ucGetStateByName : CString → CacheCode Int := getByName (·.state)

def ucSetStateByName (name : CString) (state : Int) : CacheCode Int :=
  changeByName (·.state) (fun ce => some { ce with state }) name

def ucGetHitsByName : CString → CacheCode Int := getByName (·.hits)

def ucSetHitsByName (name : CString) (hits : Int) : CacheCode Int :=
  changeByName (·.hits) (fun ce => some { ce with hits }) name

def ucIncHitsByName (name : CString) (step : Int) : CacheCode Int :=
  changeByName (·.hits) (fun ce =>
    if INT_MIN ≤ ce.hits + step ∧ ce.hits + step ≤ INT_MAX then some { ce with hits := ce.hits + step }
    else none) name

def timeByName (field : CacheEntry → CdTime) (name : CString) : CacheCode (Except Status CdTime) := do
  lock
  match ← cAvlGet name with
  | none =>
    unlock
    pure (.error (-1))
  | some ce =>
    if ce.state = STATE_MISSING then
      unlock
      pure (.error (-1))
    else
      unlock
      pure (.ok (field ce))

def ucGetLastTime : CString → CacheCode (Except Status CdTime) := timeByName (·.lastTime)

def ucGetLastUpdate : CString → CacheCode (Except Status CdTime) := timeByName (·.lastUpdate)

/-- `uc_iter_t`: what the tree's iterator has not visited, and the entry it is at. -/
structure UcIter where
  rest : List (CString × CacheEntry)
  entry : Option (CString × CacheEntry)

/-- It returns NULL with the lock held when there is no tree. -/
def ucGetIterator : CacheCode (Option UcIter) := do
  lock
  match ← read with
  | none => pure none
  | some cache => pure (some ⟨cache.toList, none⟩)

def ucIteratorNext (iter : UcIter) : Status × UcIter :=
  match iter.rest.dropWhile fun item => item.2.state = STATE_MISSING with
  | [] => (-1, ⟨[], none⟩)
  | item :: rest => (0, ⟨rest, some item⟩)

def ucIteratorDestroy : Option UcIter → CacheCode Unit
  | none => pure ()
  | some _ => unlock

def namesOf : Nat → UcIter → List CString
  | 0, _ => []
  | steps + 1, iter =>
    match ucIteratorNext iter with
    | (_, ⟨_, none⟩) => []
    | (_, ⟨rest, some item⟩) => item.1 :: namesOf steps ⟨rest, some item⟩

def iteratorSection (steps : Nat) : CacheCode (List CString) := do
  let iter ← ucGetIterator
  let names := (iter.map (namesOf steps)).getD []
  ucIteratorDestroy iter
  pure names

end NCollectd.CacheLock
