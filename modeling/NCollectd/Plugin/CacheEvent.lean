import NCollectd.Cache.Timeout

/-! Cache events of `plugin.c`, and the cache operations that cause them. -/

namespace NCollectd.CacheEvents

/-- `cache_event_func_t`; an unregistered callback leaves its place empty. -/
structure Slot where
  name : CString
  active : Bool
deriving DecidableEq

/-- The status of a callback and the field `ret` it leaves in the event. -/
structure Reply where
  status : Status
  ret : Int
deriving DecidableEq

def Reply.subscribes (reply : Reply) : Bool := reply.status = 0 && reply.ret ≠ 0

def listCacheEventSize : Nat := 32

/-- `1 << i` as an `int`, converted to `unsigned long`; the last bit is the sign. -/
def shiftOne (i : Nat) : UInt64 := if i = 31 then 18446744071562067968 else UInt64.ofNat (2 ^ i)

/-- One call of `plugin_dispatch_cache_event`, with the callbacks it calls and their answers. -/
structure Dispatch where
  event : CacheEventType
  name : CString
  calls : List (Nat × Reply)
deriving DecidableEq

def newLoop (answers : Nat → Reply) : Nat → UInt64 → List Slot → UInt64 × List (Nat × Reply)
  | _, mask, [] => (mask, [])
  | i, mask, slot :: slots =>
    if slot.active then
      let rest := newLoop answers (i + 1) (if (answers i).subscribes then mask ||| shiftOne i else mask) slots
      (rest.1, (i, answers i) :: rest.2)
    else newLoop answers (i + 1) mask slots

def laterLoop (mask : UInt64) (answers : Nat → Reply) : Nat → List Slot → List (Nat × Reply)
  | _, [] => []
  | i, slot :: slots =>
    if slot.active && !(mask != 0 && shiftOne i == 0) then (i, answers i) :: laterLoop mask answers (i + 1) slots
    else laterLoop mask answers (i + 1) slots

def pluginDispatchCacheEvent (slots : List Slot) (answers : Nat → Reply) (cache : Cache) (event : CacheEventType)
    (mask : UInt64) (name : CString) : Cache × Dispatch :=
  match event with
  | .valueNew =>
    let result := newLoop answers 0 0 slots
    (if result.1 ≠ 0 then (ucSetCallbacksMask cache name result.1).2 else cache, ⟨.valueNew, name, result.2⟩)
  | .valueUpdate => (cache, ⟨.valueUpdate, name, laterLoop mask answers 0 slots⟩)
  | .valueExpired => (cache, ⟨.valueExpired, name, laterLoop mask answers 0 slots⟩)

/-- The cache and the table of callbacks, which never grows over its size. -/
structure State where
  cache : Cache
  slots : List Slot
  bounded : slots.length ≤ listCacheEventSize

def State.initial : State := ⟨∅, [], Nat.zero_le _⟩

def pluginRegisterCacheEvent (s : State) (name : Option CString) (callback : Bool) : Status × State :=
  match name, callback with
  | some name, true =>
    if full : listCacheEventSize ≤ s.slots.length then (ENOMEM, s)
    else if s.slots.any fun slot => slot.active && strcmp name slot.name == 0 then (-1, s)
    else (0, ⟨s.cache, s.slots ++ [⟨name, true⟩], by simpa [Nat.add_one_le_iff] using full⟩)
  | _, _ => (EINVAL, s)

def pluginUnregisterCacheEvent (s : State) (name : CString) : State :=
  ⟨s.cache, s.slots.map fun slot =>
    if slot.active && strcmp name slot.name == 0 then { slot with active := false } else slot,
    by simpa using s.bounded⟩

/-- What happens to the cache and the callbacks, with the answers to the events. -/
inductive Op where
  | register (name : Option CString) (callback : Bool)
  | unregister (name : CString)
  | update (m : Metric) (now : CdTime) (answers : CString → Nat → Reply)
  | checkTimeout (now : CdTime) (timeout : Int) (answers : CString → Nat → Reply)

def dispatchAll (slots : List Slot) (answers : CString → Nat → Reply) : Cache → List Event → Cache × List Dispatch
  | cache, [] => (cache, [])
  | cache, .cacheEvent event mask name _ :: events =>
    let first := pluginDispatchCacheEvent slots (answers name) cache event mask name
    let rest := dispatchAll slots answers first.1 events
    (rest.1, first.2 :: rest.2)
  | cache, _ :: events => dispatchAll slots answers cache events

def State.step (page : PageSize) (s : State) : Op → Option (State × List Dispatch)
  | .register name callback => some ((pluginRegisterCacheEvent s name callback).2, [])
  | .unregister name => some (pluginUnregisterCacheEvent s name, [])
  | .update m now answers =>
    (ucUpdateMetric page s.cache m now).map fun outcome =>
      let result := dispatchAll s.slots answers outcome.cache outcome.events
      (⟨result.1, s.slots, s.bounded⟩, result.2)
  | .checkTimeout now timeout answers =>
    (ucCheckTimeout page s.cache now timeout).map fun outcome =>
      let result := dispatchAll s.slots answers outcome.cache outcome.events
      (⟨result.1, s.slots, s.bounded⟩, result.2)

/-- The callback at a place is registered. -/
def Registered (slots : List Slot) (i : Nat) : Prop := ∃ slot, slots[i]? = some slot ∧ slot.active = true

def lastNew (log : List Dispatch) (name : CString) : Option Dispatch :=
  log.reverse.find? fun dispatch => dispatch.event = .valueNew && dispatch.name = name

/-- The callback answered the last `CE_VALUE_NEW` for a name successfully with `ret` set. -/
def Subscribed (log : List Dispatch) (name : CString) (i : Nat) : Prop :=
  ∃ dispatch reply, lastNew log name = some dispatch ∧ (i, reply) ∈ dispatch.calls ∧ reply.subscribes = true

/-- The callback is called with an event for a name. -/
def Received (dispatches : List Dispatch) (event : CacheEventType) (name : CString) (i : Nat) : Prop :=
  ∃ dispatch ∈ dispatches, dispatch.event = event ∧ dispatch.name = name ∧ ∃ reply, (i, reply) ∈ dispatch.calls

/-- The operation updates the entry that exists under a name. -/
def Updates (page : PageSize) (cache : Cache) (op : Op) (name : CString) : Prop :=
  ∃ m now answers outcome, op = .update m now answers ∧ entryKey page m = some (.ok name) ∧ name ∈ cache ∧
    ucUpdateMetric page cache m now = some outcome ∧ outcome.status = 0

/-- The operation expires the entry under a name. -/
def Expires (cache : Cache) (op : Op) (name : CString) : Prop :=
  ∃ now timeout answers ce, op = .checkTimeout now timeout answers ∧ (name, ce) ∈ expiredEntries cache now timeout

/-- Updates and expirations reach the registered subscribers, and no other callback. -/
def ReachesSubscribers (page : PageSize) (s : State) (log : List Dispatch) (op : Op) (new : List Dispatch) : Prop :=
  ∀ name i,
    (Received new .valueUpdate name i ↔ Updates page s.cache op name ∧ Registered s.slots i ∧ Subscribed log name i) ∧
    (Received new .valueExpired name i ↔ Expires s.cache op name ∧ Registered s.slots i ∧ Subscribed log name i)

/-- So it is in every operation of a run. -/
def RunReachesSubscribers (page : PageSize) : State → List Dispatch → List Op → Prop
  | _, _, [] => True
  | s, log, op :: ops => ∀ s' new, s.step page op = some (s', new) →
    ReachesSubscribers page s log op new ∧ RunReachesSubscribers page s' (log ++ new) ops

end NCollectd.CacheEvents
