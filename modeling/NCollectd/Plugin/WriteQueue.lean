import NCollectd.Base.Runs
import NCollectd.Base.LinkedList

/-! The write queue of `plugin.c`. -/

namespace NCollectd.WriteQueue

universe u

/-- `write_queue_t`. -/
structure Node (Family Ctx : Type u) where
  family : Family
  ctx : Ctx
  next : Option Block
deriving DecidableEq

variable {Family Ctx : Type u}

def Node.view (node : Node Family Ctx) : (Family × Ctx) × Option Block := ((node.family, node.ctx), node.next)

/-- The queue with its length and `write_loop`, and the memory of the elements. -/
structure Queue (Family Ctx : Type u) where
  memory : Heap (Node Family Ctx)
  head : Option Block
  tail : Option Block
  length : Int
  writeLoop : Bool

def Queue.initial : Queue Family Ctx := ⟨.empty, none, none, 0, true⟩

def linkChain (memory : Heap (Node Family Ctx)) : List (Family × Ctx) → Heap (Node Family Ctx) × Option Block
  | [] => (memory, none)
  | item :: items =>
    let (memory', next) := linkChain memory items
    let (memory'', block) := memory'.alloc ⟨item.1, item.2, next⟩
    (memory'', some block)

def countLoop (memory : Heap (Node Family Ctx)) :
    Nat → Option Block → Option Block → Int → Option (Option Block × Int)
  | _, none, tail, num => some (tail, num)
  | 0, some _, _, _ => none
  | fuel + 1, some elem, _, num =>
    (memory.deref elem).bind fun node => countLoop memory fuel node.next (some elem) (num + 1)

def writeQueueEnqueue (queue : Queue Family Ctx) (head tail : Option Block) (num : Int) :
    Option (Queue Family Ctx) :=
  match queue.tail with
  | none => some { queue with head := head, tail := tail, length := num }
  | some last =>
    (queue.memory.deref last).bind fun node => (queue.memory.store last { node with next := head }).map fun memory =>
      { queue with memory := memory, tail := tail, length := queue.length + num }

/-- How the critical section of `plugin_write_dequeue` ends: the thread waits, it leaves without an element,
or with one. -/
inductive Dequeued where
  | waiting
  | null
  | element (q : Block)
deriving DecidableEq

def pluginWriteDequeue (queue : Queue Family Ctx) : Option (Dequeued × Queue Family Ctx) :=
  match queue.head with
  | none => some (if queue.writeLoop then .waiting else .null, queue)
  | some q =>
    (queue.memory.deref q).bind fun node =>
      match node.next with
      | some next => some (.element q, { queue with head := some next, length := queue.length - 1 })
      | none =>
        if queue.length - 1 = 0 then
          some (.element q, { queue with head := none, tail := none, length := queue.length - 1 })
        else none

def takeFamily (queue : Queue Family Ctx) (q : Block) : Option ((Family × Ctx) × Queue Family Ctx) :=
  (queue.memory.deref q).bind fun node => (queue.memory.free q).map fun memory =>
    ((node.family, node.ctx), { queue with memory := memory })

def drainLoop : Nat → Heap (Node Family Ctx) → Option Block →
    Option (List (Block × Family × Ctx) × Heap (Node Family Ctx))
  | _, memory, none => some ([], memory)
  | 0, _, some _ => none
  | fuel + 1, memory, some q =>
    (memory.deref q).bind fun node => (memory.free q).bind fun memory' =>
      (drainLoop fuel memory' node.next).map fun (freed, memory'') =>
        ((q, node.family, node.ctx) :: freed, memory'')

def drainQueue (queue : Queue Family Ctx) : Option (List (Block × Family × Ctx) × Queue Family Ctx) :=
  (drainLoop queue.memory.blocks.length queue.memory queue.head).map fun (freed, memory) =>
    (freed, { queue with memory := memory, head := none, tail := none, length := 0 })

/-- Where a thread is, seen from the queue. -/
inductive Phase where
  | idle
  | appending (head tail : Option Block) (num : Int)
  | taken (q : Block)
deriving DecidableEq

/-- How far `stop_write_threads` has come. -/
inductive Stopping where
  | notCalled
  | signalled
  | joined
  | returned
deriving DecidableEq

/-- The queue, its threads, whether `write_threads` is set, and the progress of the only call of
`stop_write_threads`. -/
structure System (Family Ctx : Type u) (n : Nat) where
  queue : Queue Family Ctx
  phase : Fin n → Phase
  writeThreads : Bool
  stopping : Stopping

def System.initial : System Family Ctx n := ⟨.initial, fun _ => .idle, false, .notCalled⟩

/-- What the threads and `stop_write_threads` do, one critical section at a time. -/
inductive Action (Family Ctx : Type u) (n : Nat) where
  | start
  | submit (thread : Fin n) (items : List (Family × Ctx))
  | append (thread : Fin n)
  | dequeue (thread : Fin n)
  | release (thread : Fin n)
  | stop
  | join
  | drain

/-- What is observed of the elements: queued, removed, returned to a thread, or freed. -/
inductive Event (Family Ctx : Type u) (n : Nat) where
  | queued (items : List (Family × Ctx))
  | taken (thread : Fin n) (item : Family × Ctx)
  | returned (thread : Fin n) (item : Family × Ctx)
  | dropped (q : Block) (item : Family × Ctx)
deriving DecidableEq

def readChain (memory : Heap (Node Family Ctx)) : Nat → Option Block → List (Family × Ctx)
  | 0, _ => []
  | _, none => []
  | fuel + 1, some q =>
    match memory.deref q with
    | none => []
    | some node => (node.family, node.ctx) :: readChain memory fuel node.next

def Enabled (s : System Family Ctx n) : Action Family Ctx n → Prop
  | .start => s.stopping = .notCalled
  | .submit thread _ => s.phase thread = .idle
  | .append thread => ∃ head tail num, s.phase thread = .appending head tail num
  | .dequeue thread => s.phase thread = .idle ∧ s.writeThreads = true
  | .release thread => ∃ q, s.phase thread = .taken q
  | .stop => s.stopping = .notCalled
  | .join => s.stopping = .signalled ∧ ∀ thread q, s.phase thread ≠ .taken q
  | .drain => s.stopping = .joined

def System.at (s : System Family Ctx n) (queue : Queue Family Ctx) (thread : Fin n) (phase : Phase) :
    System Family Ctx n :=
  { s with queue := queue, phase := Function.update s.phase thread phase }

def perform (s : System Family Ctx n) : Action Family Ctx n → Option (System Family Ctx n × List (Event Family Ctx n))
  | .start => some ({ s with writeThreads := true }, [])
  | .submit thread items =>
    let chain := linkChain s.queue.memory items
    (countLoop chain.1 chain.1.blocks.length chain.2 none 0).map fun (tail, num) =>
      (s.at { s.queue with memory := chain.1 } thread (if num = 0 then .idle else .appending chain.2 tail num), [])
  | .append thread =>
    match s.phase thread with
    | .appending head tail num =>
      (writeQueueEnqueue s.queue head tail num).map fun queue =>
        (s.at queue thread .idle, [.queued (readChain s.queue.memory s.queue.memory.blocks.length head)])
    | _ => none
  | .dequeue thread =>
    (pluginWriteDequeue s.queue).bind fun (result, queue) =>
      match result with
      | .element q => (s.queue.memory.deref q).map fun node =>
        (s.at queue thread (.taken q), [.taken thread (node.family, node.ctx)])
      | _ => some (s.at queue thread .idle, [])
  | .release thread =>
    match s.phase thread with
    | .taken q => (takeFamily s.queue q).map fun (item, queue) => (s.at queue thread .idle, [.returned thread item])
    | _ => none
  | .stop =>
    if s.writeThreads then
      some ({ s with queue := { s.queue with writeLoop := false }, stopping := .signalled }, [])
    else some ({ s with stopping := .returned }, [])
  | .join => some ({ s with writeThreads := false, stopping := .joined }, [])
  | .drain =>
    (drainQueue s.queue).map fun (freed, queue) =>
      ({ s with queue := queue, stopping := .returned }, freed.map fun cell => .dropped cell.1 cell.2)

def machine (Family Ctx : Type u) (n : Nat) :
    Machine (System Family Ctx n) (Action Family Ctx n) (Event Family Ctx n) where
  initial := .initial
  Enabled := Enabled
  perform := perform

abbrev Execution : System Family Ctx n → List (Event Family Ctx n) → Prop := (machine Family Ctx n).Execution

end NCollectd.WriteQueue
