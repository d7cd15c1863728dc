import NCollectd.Base.Runs
import NCollectd.Base.Memory
import NCollectd.Utils.Heap

/-! The read functions of `plugin.c`: registration, removal and the read threads. -/

namespace NCollectd.ReadFuncs

universe u

/-- `RF_SIMPLE`, `RF_COMPLEX` and `RF_REMOVE`. -/
inductive RfType where
  | simple
  | complex
  | remove
deriving DecidableEq

/-- `read_func_t`, with a callback and its user data. -/
structure ReadFunc (Callback : Type u) where
  callback : Callback
  group : CString
  name : CString
  type : RfType
  interval : UInt64
  effectiveInterval : UInt64
  nextRead : UInt64
deriving DecidableEq

variable {Callback : Type u}

def pluginCompareReadFunc (rf₀ rf₁ : ReadFunc Callback) : Int :=
  if rf₀.nextRead < rf₁.nextRead then -1 else if rf₀.nextRead > rf₁.nextRead then 1 else 0

/-- The arguments of `plugin_register_read` and `plugin_register_complex_read`, with the interval of the
calling plugin. -/
inductive Registration (Callback : Type u) where
  | simple (name : CString) (callback : Callback) (pluginInterval : UInt64)
  | complex (group : Option CString) (name : CString) (callback : Callback) (interval pluginInterval : UInt64)

def Registration.name : Registration Callback → CString
  | .simple name _ _ => name
  | .complex _ name _ _ _ => name

def Registration.readFunc : Registration Callback → ReadFunc Callback
  | .simple name callback pluginInterval => ⟨callback, [], name, .simple, pluginInterval, 0, 0⟩
  | .complex group name callback interval pluginInterval =>
    ⟨callback, (group.map fun text => sstrncpy text dataMaxNameLen).getD [], name, .complex,
      if interval ≠ 0 then interval else pluginInterval, 0, 0⟩

def readFuncMax : Nat := 144115188075855872

/-- `read_heap`, `read_list` and `read_loop`, with the memory of the read functions. -/
structure Shared (Callback : Type u) where
  functions : Heap (ReadFunc Callback)
  readHeap : Option (CHeap Block)
  readList : Option (List Block)
  readLoop : Bool

def Shared.initial : Shared Callback := ⟨.empty, none, none, true⟩

def compareBlocks (functions : Heap (ReadFunc Callback)) (a b : Block) : Int :=
  match functions.deref a, functions.deref b with
  | some rf₀, some rf₁ => pluginCompareReadFunc rf₀ rf₁
  | _, _ => 0

def allLive (functions : Heap (ReadFunc Callback)) (pointers : List Block) : Bool :=
  pointers.all fun block => (functions.deref block).isSome

def heapInsert (functions : Heap (ReadFunc Callback)) (heap : CHeap Block) (rf : Block) :
    Option (Status × CHeap Block) :=
  if allLive functions (rf :: heap.list) then cHeapInsert (compareBlocks functions) heap rf else none

def heapGetRoot (functions : Heap (ReadFunc Callback)) :
    Option (CHeap Block) → Option (Option Block × Option (CHeap Block))
  | none => some (none, none)
  | some heap =>
    if allLive functions heap.list then
      (cHeapGetRoot (compareBlocks functions) heap).map fun (root, heap') => (root, some heap')
    else none

def llistSearch (functions : Heap (ReadFunc Callback)) (test : ReadFunc Callback → Bool) :
    List Block → Option (Option Block)
  | [] => some none
  | entry :: entries =>
    (functions.deref entry).bind fun rf => if test rf then some (some entry) else llistSearch functions test entries

def hasName (name : CString) (rf : ReadFunc Callback) : Bool := strcmp rf.name name = 0

def hasGroup (group : CString) (rf : ReadFunc Callback) : Bool := strcmp rf.group group = 0

def pluginInsertRead (shared : Shared Callback) (rf : Block) (now : UInt64) : Option (Status × Shared Callback) :=
  (shared.functions.deref rf).bind fun func =>
    (shared.functions.store rf { func with nextRead := now, effectiveInterval := func.interval }).bind fun functions =>
      let list := shared.readList.getD []
      let heap := shared.readHeap.getD cHeapCreate
      let created := { shared with functions := functions, readList := some list, readHeap := some heap }
      (llistSearch functions (hasName func.name) list).bind fun found =>
        match found with
        | some _ => some (EINVAL, created)
        | none =>
          (heapInsert functions heap rf).map fun (status, heap') =>
            if status ≠ 0 then (-1, created)
            else (0, { created with readHeap := some heap', readList := some (list ++ [rf]) })

def register (shared : Shared Callback) (request : Registration Callback) (now : UInt64) :
    Option (Status × Block × Shared Callback) :=
  let allocated := shared.functions.alloc request.readFunc
  (pluginInsertRead { shared with functions := allocated.1 } allocated.2 now).bind fun (status, shared') =>
    if status ≠ 0 then
      (shared'.functions.free allocated.2).map fun functions =>
        (status, allocated.2, { shared' with functions := functions })
    else some (status, allocated.2, shared')

def markRemoved (shared : Shared Callback) (list : List Block) (entry : Block) : Option (Shared Callback) :=
  (shared.functions.deref entry).bind fun rf =>
    (shared.functions.store entry { rf with type := .remove }).map fun functions =>
      { shared with functions := functions, readList := some (list.erase entry) }

def pluginUnregisterRead (shared : Shared Callback) :
    Option CString → Option (Status × List Block × Shared Callback)
  | none => some (-ENOENT, [], shared)
  | some name =>
    match shared.readList with
    | none => some (-ENOENT, [], shared)
    | some list =>
      (llistSearch shared.functions (hasName name) list).bind fun found =>
        match found with
        | none => some (-ENOENT, [], shared)
        | some entry => (markRemoved shared list entry).map fun shared' => (0, [entry], shared')

def unregisterGroupLoop (group : CString) :
    Nat → Shared Callback → List Block → Option (List Block × Shared Callback)
  | 0, shared, list =>
    (llistSearch shared.functions (hasGroup group) list).bind fun found =>
      match found with
      | none => some ([], shared)
      | some _ => none
  | fuel + 1, shared, list =>
    (llistSearch shared.functions (hasGroup group) list).bind fun found =>
      match found with
      | none => some ([], shared)
      | some entry =>
        (markRemoved shared list entry).bind fun shared' =>
          (unregisterGroupLoop group fuel shared' (list.erase entry)).map fun (marked, shared'') =>
            (entry :: marked, shared'')

def pluginUnregisterReadGroup (shared : Shared Callback) :
    Option CString → Option (Status × List Block × Shared Callback)
  | none => some (-ENOENT, [], shared)
  | some group =>
    match shared.readList with
    | none => some (-ENOENT, [], shared)
    | some list =>
      (unregisterGroupLoop group list.length shared list).map fun (marked, shared') =>
        (if marked = [] then -ENOENT else 0, marked, shared')

/-- Where a thread is in `plugin_read_thread`. -/
inductive Phase where
  | top
  | entering
  | popped (rf : Block)
  | waiting (rf : Block)
  | due (rf : Block) (type : RfType)
  | running (rf : Block)
  | reinserting (rf : Block) (leave : Bool)
  | exited
deriving DecidableEq

def Phase.held : Phase → Option Block
  | .top | .entering | .exited => none
  | .popped rf | .waiting rf | .due rf _ | .running rf | .reinserting rf _ => some rf

def Phase.executes : Phase → Option Block
  | .running rf => some rf
  | _ => none

/-- The shared data, and where every thread is. -/
structure System (Callback : Type u) (n : Nat) where
  shared : Shared Callback
  phase : Fin n → Phase

def System.initial : System Callback n := ⟨.initial, fun _ => .top⟩

/-- What can happen: calls from anywhere, and the parts of `plugin_read_thread` with what they read. -/
inductive Action (Callback : Type u) (n : Nat) where
  | register (request : Registration Callback) (now : UInt64)
  | unregister (name : Option CString)
  | unregisterGroup (group : Option CString)
  | stop
  | loop (thread : Fin n)
  | pop (thread : Fin n)
  | prepare (thread : Fin n) (interval now : UInt64)
  | wait (thread : Fin n) (now : UInt64) (rc : Int)
  | choose (thread : Fin n)
  | finish (thread : Fin n) (status : Int) (now maxInterval : UInt64)
  | insert (thread : Fin n)

/-- What is observed of the registration functions and the threads. -/
inductive Event (n : Nat) where
  | inserted (rf : Block)
  | refused (status : Status)
  | marked (rf : Block)
  | answered (status : Status)
  | started (thread : Fin n) (rf : Block)
  | finished (thread : Fin n) (rf : Block)
  | destroyed (rf : Block)
deriving DecidableEq

def Enabled (s : System Callback n) : Action Callback n → Prop
  | .register _ _ => s.shared.functions.liveBlocks.length < readFuncMax
  | .unregister _ | .unregisterGroup _ | .stop => True
  | .loop thread => s.phase thread = .top
  | .pop thread => s.phase thread = .entering
  | .prepare thread _ _ => ∃ rf, s.phase thread = .popped rf
  | .wait thread _ _ => ∃ rf, s.phase thread = .waiting rf
  | .choose thread => ∃ rf type, s.phase thread = .due rf type
  | .finish thread _ _ _ => ∃ rf, s.phase thread = .running rf
  | .insert thread => ∃ rf leave, s.phase thread = .reinserting rf leave

def System.at (s : System Callback n) (shared : Shared Callback) (thread : Fin n) (phase : Phase) :
    System Callback n :=
  ⟨shared, Function.update s.phase thread phase⟩

def Shared.modify (shared : Shared Callback) (rf : Block) (change : ReadFunc Callback → ReadFunc Callback) :
    Option (Shared Callback) :=
  (shared.functions.deref rf).bind fun func =>
    (shared.functions.store rf (change func)).map fun functions => { shared with functions := functions }

def defaultInterval (interval now : UInt64) (rf : ReadFunc Callback) : ReadFunc Callback :=
  if rf.interval = 0 then { rf with interval := interval, effectiveInterval := interval, nextRead := now } else rf

def reschedule (status : Int) (now maxInterval : UInt64) (rf : ReadFunc Callback) : ReadFunc Callback :=
  let doubled := rf.effectiveInterval * 2
  let effective := if status ≠ 0 then (if doubled > maxInterval then maxInterval else doubled) else rf.interval
  let next := rf.nextRead + effective
  { rf with effectiveInterval := effective, nextRead := if next < now then now else next }

def perform (s : System Callback n) : Action Callback n → Option (System Callback n × List (Event n))
  | .register request now =>
    (register s.shared request now).map fun (status, rf, shared) =>
      ({ s with shared := shared }, [if status = 0 then .inserted rf else .refused status])
  | .unregister name =>
    (pluginUnregisterRead s.shared name).map fun (status, marked, shared) =>
      ({ s with shared := shared }, marked.map .marked ++ [.answered status])
  | .unregisterGroup group =>
    (pluginUnregisterReadGroup s.shared group).map fun (status, marked, shared) =>
      ({ s with shared := shared }, marked.map .marked ++ [.answered status])
  | .stop => some ({ s with shared := { s.shared with readLoop := false } }, [])
  | .loop thread => some (s.at s.shared thread (if s.shared.readLoop then .entering else .exited), [])
  | .pop thread =>
    (heapGetRoot s.shared.functions s.shared.readHeap).map fun (root, heap) =>
      (s.at { s.shared with readHeap := heap } thread (root.elim .top .popped), [])
  | .prepare thread interval now =>
    match s.phase thread with
    | .popped rf => (s.shared.modify rf (defaultInterval interval now)).map fun shared =>
        (s.at shared thread (.waiting rf), [])
    | _ => none
  | .wait thread now rc =>
    match s.phase thread with
    | .waiting rf =>
      (s.shared.functions.deref rf).map fun func =>
        if s.shared.readLoop ∧ now < func.nextRead ∧ rc = 0 then (s, [])
        else (s.at s.shared thread (.due rf func.type), [])
    | _ => none
  | .choose thread =>
    match s.phase thread with
    | .due rf type =>
      if s.shared.readLoop = false then some (s.at s.shared thread (.reinserting rf true), [])
      else
        match type with
        | .remove =>
          (s.shared.functions.free rf).map fun functions =>
            (s.at { s.shared with functions := functions } thread .top, [.destroyed rf])
        | .simple | .complex =>
          (s.shared.functions.deref rf).map fun _ => (s.at s.shared thread (.running rf), [.started thread rf])
    | _ => none
  | .finish thread status now maxInterval =>
    match s.phase thread with
    | .running rf =>
      (s.shared.modify rf (reschedule status now maxInterval)).map fun shared =>
        (s.at shared thread (.reinserting rf false), [.finished thread rf])
    | _ => none
  | .insert thread =>
    match s.phase thread with
    | .reinserting rf leave =>
      match s.shared.readHeap with
      | none => none
      | some heap =>
        (heapInsert s.shared.functions heap rf).map fun (_, heap') =>
          (s.at { s.shared with readHeap := some heap' } thread (if leave then .exited else .top), [])
    | _ => none

def machine (Callback : Type u) (n : Nat) : Machine (System Callback n) (Action Callback n) (Event n) where
  initial := .initial
  Enabled := Enabled
  perform := perform

abbrev Execution : System Callback n → List (Event n) → Prop := (machine Callback n).Execution

end NCollectd.ReadFuncs
