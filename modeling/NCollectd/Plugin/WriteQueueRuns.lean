import NCollectd.Plugin.WriteQueue

namespace NCollectd.WriteQueue

open Function Option

universe u

variable {Family Ctx : Type u} {memory memory' : Heap (Node Family Ctx)} {queue queue' : Queue Family Ctx}
  {cells : List (Block × Family × Ctx)}

def itemsOf (cells : List (Block × Family × Ctx)) : List (Family × Ctx) := cells.map Prod.snd

@[simp] theorem itemsOf_nil : itemsOf ([] : List (Block × Family × Ctx)) = [] := rfl

@[simp] theorem itemsOf_cons (cell : Block × Family × Ctx) : itemsOf (cell :: cells) = cell.2 :: itemsOf cells := rfl

@[simp] theorem itemsOf_append (more : List (Block × Family × Ctx)) :
    itemsOf (cells ++ more) = itemsOf cells ++ itemsOf more :=
  List.map_append

theorem linkChain_linked (memory : Heap (Node Family Ctx)) (items : List (Family × Ctx)) :
    ∃ cells, Linked (linkChain memory items).1 Node.view (linkChain memory items).2 cells ∧ itemsOf cells = items ∧
      (∀ block cell, memory.deref block = some cell → block ∉ blocksOf cells ∧
        (linkChain memory items).1.deref block = some cell) := by
  induction items with
  | nil => exact ⟨[], .nil, rfl, fun block cell live => ⟨List.not_mem_nil, live⟩⟩
  | cons item items ih =>
    obtain ⟨cells, linked, same, kept⟩ := ih
    rw [linkChain]
    generalize linkChain memory items = linking at linked kept
    obtain ⟨memory', next⟩ := linking
    refine ⟨((memory'.alloc ⟨item.1, item.2, next⟩).2, item) :: cells, ?_, by rw [itemsOf_cons, same], ?_⟩
    · refine .cons Heap.deref_alloc_self rfl (linked.frame fun block member => ?_)
      obtain ⟨cell, live⟩ := linked.live_of_mem member
      rw [live]
      exact Heap.deref_alloc live _
    · intro block cell live
      obtain ⟨outside, alive⟩ := kept block cell live
      refine ⟨?_, Heap.deref_alloc alive _⟩
      rw [blocksOf_cons, List.mem_cons]
      rintro (same | inside)
      · exact Heap.ne_alloc alive ⟨item.1, item.2, next⟩ same
      · exact outside inside

section

variable (linked : Linked memory Node.view pointer cells) (enough : cells.length ≤ fuel)
include linked enough

theorem countLoop_linked (tail : Option Block) (num : Int) :
    countLoop memory fuel pointer tail num = some ((lastBlock cells).or tail, num + cells.length) := by
  induction linked generalizing fuel tail num with
  | nil => cases fuel <;> simp [countLoop, lastBlock]
  | @cons block node item rest live content later ih =>
    cases fuel with
    | zero => cases enough
    | succ fuel =>
      rw [countLoop, live, Option.bind_some, show node.next = node.view.2 from rfl, ih (Nat.le_of_succ_le_succ enough)]
      rw [lastBlock_cons, Option.or_assoc, List.length_cons]
      push_cast
      rw [Int.add_assoc, Int.add_comm 1]
      rfl

theorem readChain_linked : readChain memory fuel pointer = itemsOf cells := by
  induction linked generalizing fuel with
  | nil => cases fuel <;> rfl
  | @cons block node item rest live content later ih =>
    cases fuel with
    | zero => cases enough
    | succ fuel =>
      rw [readChain, live]
      simp only [itemsOf_cons]
      rw [show node.next = node.view.2 from rfl, ih (Nat.le_of_succ_le_succ enough), ← content]
      rfl

theorem drainLoop_linked : ∃ memory', drainLoop fuel memory pointer = some (cells, memory') ∧
      ∀ block, block ∉ blocksOf cells → memory'.deref block = memory.deref block := by
  induction cells generalizing fuel memory pointer with
  | nil =>
    cases linked
    exact ⟨memory, by cases fuel <;> rfl, fun _ _ => rfl⟩
  | cons cell cells ih =>
    have distinct := linked.nodup
    cases linked with
    | @cons block node item rest live content later =>
      obtain ⟨outside, _⟩ := List.nodup_cons.mp distinct
      cases fuel with
      | zero => cases enough
      | succ fuel =>
        have freed := Heap.free_live live
        have rest' := later.frame fun other member => Heap.deref_free freed fun same => outside (same ▸ member)
        obtain ⟨memory'', drained, kept⟩ := ih rest' (Nat.le_of_succ_le_succ enough)
        refine ⟨memory'', ?_, fun other apart => ?_⟩
        · rw [drainLoop, live, bind_some, freed, bind_some, show node.next = node.view.2 from rfl,
            drained, ← content]
          rfl
        · rw [blocksOf_cons, List.mem_cons, not_or] at apart
          rw [kept other apart.2, Heap.deref_free freed apart.1]

end

/-- The elements of the queue, from its head to its tail. -/
structure Shape (queue : Queue Family Ctx) (cells : List (Block × Family × Ctx)) : Prop where
  linked : Linked queue.memory Node.view queue.head cells
  last : queue.tail = lastBlock cells
  count : queue.length = cells.length

theorem Shape.head_iff (shape : Shape queue cells) : queue.head = none ↔ queue.tail = none := by
  obtain ⟨linked, last, _⟩ := shape
  rw [last]
  generalize queue.head = head at linked
  cases linked with
  | nil | cons => simp

/-- The elements a thread has outside the queue: a chain it is about to append, or the element it has removed. -/
def Owns (memory : Heap (Node Family Ctx)) : Phase → List (Block × Family × Ctx) → Prop
  | .idle, own => own = []
  | .appending head tail num, own =>
    own ≠ [] ∧ Linked memory Node.view head own ∧ tail = lastBlock own ∧ num = own.length
  | .taken q, own => ∃ node, memory.deref q = some node ∧ own = [(q, node.view.1)]

theorem Owns.live (owns : Owns memory phase own) (member : block ∈ blocksOf own) :
    ∃ node, memory.deref block = some node := by
  cases phase with
  | idle =>
    cases owns
    cases member
  | appending head tail num => exact owns.2.1.live_of_mem member
  | taken q =>
    obtain ⟨node, live, rfl⟩ := owns
    obtain rfl := List.mem_singleton.mp member
    exact ⟨node, live⟩

theorem Owns.frame (owns : Owns memory phase own)
    (same : ∀ block ∈ blocksOf own, memory'.deref block = memory.deref block) : Owns memory' phase own := by
  cases phase with
  | idle => exact owns
  | appending head tail num =>
    obtain ⟨nonempty, linked, rest⟩ := owns
    exact ⟨nonempty, linked.frame same, rest⟩
  | taken q =>
    obtain ⟨node, live, rfl⟩ := owns
    exact ⟨node, (same q List.mem_cons_self).trans live, rfl⟩

/-- The elements of the queue and of the threads, all in different blocks. -/
structure Consistent (queue : Queue Family Ctx) (phase : Fin n → Phase) (cells : List (Block × Family × Ctx))
    (own : Fin n → List (Block × Family × Ctx)) : Prop where
  shape : Shape queue cells
  owned : ∀ thread, Owns queue.memory (phase thread) (own thread)
  apart : ∀ thread, ∀ block ∈ blocksOf cells, block ∉ blocksOf (own thread)
  separate : ∀ thread thread', thread ≠ thread' → ∀ block ∈ blocksOf (own thread), block ∉ blocksOf (own thread')

section Actions

variable {phase : Fin n → Phase} {own : Fin n → List (Block × Family × Ctx)}

section

variable (consistent : Consistent queue phase cells own)
include consistent

theorem Consistent.act (shape : Shape queue' cells') (mine : Owns queue'.memory phase' own')
    (kept : ∀ other, other ≠ thread → ∀ block ∈ blocksOf (own other),
      queue'.memory.deref block = queue.memory.deref block)
    (source : ∀ block, block ∈ blocksOf cells' ∨ block ∈ blocksOf own' →
      block ∈ blocksOf cells ∨ block ∈ blocksOf (own thread) ∨ queue.memory.deref block = none)
    (distinct : ∀ block ∈ blocksOf cells', block ∉ blocksOf own') :
    Consistent queue' (update phase thread phase') cells' (update own thread own') := by
  have foreign : ∀ other, other ≠ thread → ∀ block, block ∈ blocksOf cells' ∨ block ∈ blocksOf own' →
      block ∉ blocksOf (own other) := by
    intro other different block new inside
    rcases source block new with queued | mine | unused
    · exact consistent.apart other block queued inside
    · exact consistent.separate thread other different.symm block mine inside
    · obtain ⟨node, live⟩ := (consistent.owned other).live inside
      rw [unused] at live
      cases live
  refine ⟨shape, fun other => ?_, fun other block member => ?_, fun first second different block member => ?_⟩
  · by_cases same : other = thread
    · subst other
      rw [update_self, update_self]
      exact mine
    · rw [update_of_ne same, update_of_ne same]
      exact (consistent.owned other).frame (kept other same)
  · by_cases same : other = thread
    · subst other
      rw [update_self]
      exact distinct block member
    · rw [update_of_ne same]
      exact foreign other same block (.inl member)
  · by_cases same : first = thread
    · subst first
      rw [update_self] at member
      rw [update_of_ne different.symm]
      exact foreign second different.symm block (.inr member)
    · rw [update_of_ne same] at member
      by_cases same' : second = thread
      · subst second
        rw [update_self]
        exact fun inside => foreign first same block (.inr inside) member
      · rw [update_of_ne same']
        exact consistent.separate first second different block member

theorem Consistent.submit (thread : Fin n) (items : List (Family × Ctx)) :
    ∃ tail num own', countLoop (linkChain queue.memory items).1 (linkChain queue.memory items).1.blocks.length
        (linkChain queue.memory items).2 none 0 = some (tail, num) ∧
      Consistent { queue with memory := (linkChain queue.memory items).1 }
        (update phase thread (if num = 0 then .idle else .appending (linkChain queue.memory items).2 tail num))
        cells (update own thread own') := by
  obtain ⟨chain, linked, _, kept⟩ := linkChain_linked queue.memory items
  refine ⟨_, _, chain, countLoop_linked linked linked.length_le none 0, consistent.act ?_ ?_ ?_ ?_ ?_⟩
  · refine ⟨consistent.shape.linked.frame fun block member => ?_, consistent.shape.last, consistent.shape.count⟩
    obtain ⟨node, live⟩ := consistent.shape.linked.live_of_mem member
    rw [live]
    exact (kept block node live).2
  · split
    · rename_i none
      exact List.eq_nil_of_length_eq_zero (by omega)
    · rename_i some
      refine ⟨?_, linked, by simp, by simp⟩
      rintro rfl
      exact some rfl
  · intro other _ block member
    obtain ⟨node, live⟩ := (consistent.owned other).live member
    rw [live]
    exact (kept block node live).2
  · rintro block (queued | new)
    · exact .inl queued
    · refine .inr (.inr ?_)
      cases live : queue.memory.deref block with
      | none => rfl
      | some node => exact absurd new (kept block node live).1
  · intro block queued new
    obtain ⟨node, live⟩ := consistent.shape.linked.live_of_mem queued
    exact (kept block node live).1 new

theorem Consistent.append (appending : phase thread = .appending head tail num) :
    ∃ queue', writeQueueEnqueue queue head tail num = some queue' ∧
      readChain queue.memory queue.memory.blocks.length head = itemsOf (own thread) ∧
      Consistent queue' (update phase thread .idle) (cells ++ own thread) (update own thread []) := by
  have owns := consistent.owned thread
  rw [appending] at owns
  obtain ⟨nonempty, linked, last, count⟩ := owns
  have observed := readChain_linked linked linked.length_le
  have source : ∀ block, block ∈ blocksOf (cells ++ own thread) ∨ block ∈ blocksOf ([] : List (Block × Family × Ctx)) →
      block ∈ blocksOf cells ∨ block ∈ blocksOf (own thread) ∨ queue.memory.deref block = none := by
    intro block member
    rw [blocksOf_append, List.mem_append] at member
    rcases member with (queued | mine) | none
    · exact .inl queued
    · exact .inr (.inl mine)
    · cases none
  unfold writeQueueEnqueue
  cases end' : queue.tail with
  | none =>
    have empty : cells = [] := lastBlock_eq_none (consistent.shape.last.symm.trans end')
    subst empty
    exact ⟨_, rfl, observed, consistent.act ⟨linked, last, count⟩ rfl (fun _ _ _ _ => rfl) source nofun⟩
  | some final =>
    have place : lastBlock cells = some final := consistent.shape.last.symm.trans end'
    have queued := mem_of_lastBlock place
    obtain ⟨node, live⟩ := consistent.shape.linked.live_of_mem queued
    have stored : queue.memory.store final { node with next := head } = some _ := Heap.store_live live
    dsimp only
    refine ⟨_, by rw [live, bind_some, stored]; rfl, observed, consistent.act ⟨?_, ?_, ?_⟩ rfl ?_ source nofun⟩
    · exact consistent.shape.linked.append place live stored rfl linked (consistent.apart thread final queued)
    · rw [lastBlock, List.getLast?_append_of_ne_nil _ nonempty]
      exact last
    · rw [consistent.shape.count, count, List.length_append]
      push_cast
      rfl
    · intro other _ block member
      refine (Heap.deref_store stored block).trans (if_neg ?_)
      rintro rfl
      exact consistent.apart other block queued member

theorem Consistent.dequeue (thread : Fin n) :
    (cells = [] ∧ ∃ result, pluginWriteDequeue queue = some (result, queue) ∧ ∀ q, result ≠ .element q) ∨
      ∃ q item rest node queue', cells = (q, item) :: rest ∧ pluginWriteDequeue queue = some (.element q, queue') ∧
        queue.memory.deref q = some node ∧ (node.family, node.ctx) = item ∧
        Consistent queue' (update phase thread (.taken q)) rest
          (update own thread [(q, item)]) := by
  have shape := consistent.shape
  unfold pluginWriteDequeue
  generalize pointer : queue.head = head
  obtain ⟨linked, last, count⟩ := shape
  rw [pointer] at linked
  cases linked with
  | nil =>
    refine .inl ⟨rfl, _, rfl, fun q => ?_⟩
    split <;> nofun
  | @cons q node item rest live content later =>
    have distinct := consistent.shape.linked.nodup
    obtain ⟨outside, _⟩ := List.nodup_cons.mp distinct
    have source : ∀ block, block ∈ blocksOf rest ∨ block ∈ blocksOf [(q, item)] →
        block ∈ blocksOf ((q, item) :: rest) ∨ block ∈ blocksOf (own thread) ∨ queue.memory.deref block = none := by
      rintro block (inside | here)
      · exact .inl (List.mem_cons_of_mem q inside)
      · obtain rfl := List.mem_singleton.mp here
        exact .inl List.mem_cons_self
    have disjoint : ∀ block ∈ blocksOf rest, block ∉ blocksOf [(q, item)] := by
      intro block inside here
      obtain rfl := List.mem_singleton.mp here
      exact outside inside
    refine .inr ⟨q, item, rest, node, ?_⟩
    dsimp only
    rw [live, bind_some]
    cases next : node.next with
    | none =>
      have view : node.view.2 = none := next
      rw [view] at later
      cases later
      have zero : queue.length - 1 = 0 := by
        rw [count]
        rfl
      refine ⟨_, rfl, if_pos zero, rfl, content, consistent.act ⟨.nil, rfl, zero⟩ ?_ (fun _ _ _ _ => rfl)
        source disjoint⟩
      exact ⟨node, live, by rw [content]⟩
    | some following =>
      have view : node.view.2 = some following := next
      rw [view] at later
      refine ⟨_, rfl, rfl, rfl, content, consistent.act ⟨later, ?_, ?_⟩ ?_ (fun _ _ _ _ => rfl) source disjoint⟩
      · cases later with
        | cons => simpa using last
      · rw [count, List.length_cons]
        push_cast
        omega
      · exact ⟨node, live, by rw [content]⟩

theorem Consistent.release (taken : phase thread = .taken q) :
    ∃ item queue', takeFamily queue q = some (item, queue') ∧ own thread = [(q, item)] ∧
      Consistent queue' (update phase thread .idle) cells (update own thread []) := by
  have owns := consistent.owned thread
  rw [taken] at owns
  obtain ⟨node, live, mine⟩ := owns
  have here : q ∈ blocksOf (own thread) := by
    rw [mine]
    exact List.mem_cons_self
  obtain ⟨memory, freed⟩ : ∃ memory, queue.memory.free q = some memory := ⟨_, Heap.free_live live⟩
  refine ⟨node.view.1, { queue with memory := memory }, by rw [takeFamily, live, bind_some, freed]; rfl, mine,
    consistent.act ⟨?_, consistent.shape.last, consistent.shape.count⟩ rfl ?_ ?_ (fun _ _ => List.not_mem_nil)⟩
  · refine consistent.shape.linked.frame fun block member => Heap.deref_free freed ?_
    rintro rfl
    exact consistent.apart thread block member here
  · intro other different block member
    refine Heap.deref_free freed ?_
    rintro rfl
    exact consistent.separate other thread different block member here
  · rintro block (queued | none)
    · exact .inl queued
    · cases none

theorem Consistent.drain :
    ∃ queue', drainQueue queue = some (cells, queue') ∧ queue'.head = none ∧ Consistent queue' phase [] own := by
  obtain ⟨memory', drained, kept⟩ := drainLoop_linked consistent.shape.linked consistent.shape.linked.length_le
  refine ⟨_, by rw [drainQueue, drained]; rfl, rfl, ⟨.nil, rfl, rfl⟩, fun thread => ?_, nofun, consistent.separate⟩
  refine (consistent.owned thread).frame fun block member => kept block fun queued => ?_
  exact consistent.apart thread block queued member

end

end Actions

def queuedItems (log : List (Event Family Ctx n)) : List (Family × Ctx) :=
  log.flatMap fun
    | .queued items => items
    | _ => []

def takenItems (log : List (Event Family Ctx n)) : List (Family × Ctx) :=
  log.flatMap fun
    | .taken _ item => [item]
    | _ => []

def droppedCells (log : List (Event Family Ctx n)) : List (Block × Family × Ctx) :=
  log.flatMap fun
    | .dropped q item => [(q, item)]
    | _ => []

def takenBy (thread : Fin n) (log : List (Event Family Ctx n)) : List (Family × Ctx) :=
  log.flatMap fun
    | .taken other item => if other = thread then [item] else []
    | _ => []

def returnedTo (thread : Fin n) (log : List (Event Family Ctx n)) : List (Family × Ctx) :=
  log.flatMap fun
    | .returned other item => if other = thread then [item] else []
    | _ => []

@[simp] theorem queuedItems_append : queuedItems (log ++ new) = queuedItems log ++ queuedItems new :=
  List.flatMap_append

@[simp] theorem takenItems_append : takenItems (log ++ new) = takenItems log ++ takenItems new :=
  List.flatMap_append

@[simp] theorem droppedCells_append : droppedCells (log ++ new) = droppedCells log ++ droppedCells new :=
  List.flatMap_append

@[simp] theorem takenBy_append (thread : Fin n) :
    takenBy thread (log ++ new) = takenBy thread log ++ takenBy thread new :=
  List.flatMap_append

@[simp] theorem returnedTo_append (thread : Fin n) :
    returnedTo thread (log ++ new) = returnedTo thread log ++ returnedTo thread new :=
  List.flatMap_append

def inHand (phase : Phase) (own : List (Block × Family × Ctx)) : List (Family × Ctx) :=
  match phase with
  | .taken _ => itemsOf own
  | _ => []

theorem inHand_of_not_taken (hands : ∀ q, phase ≠ .taken q) (own : List (Block × Family × Ctx)) :
    inHand phase own = [] := by
  cases phase with
  | taken q => exact absurd rfl (hands q)
  | idle | appending => rfl

/-- The elements are in order in the queue, in the hands of a thread, or gone. -/
structure Invariant (s : System Family Ctx n) (log : List (Event Family Ctx n))
    (cells : List (Block × Family × Ctx)) (own : Fin n → List (Block × Family × Ctx)) : Prop where
  consistent : Consistent s.queue s.phase cells own
  flow : queuedItems log = takenItems log ++ itemsOf (droppedCells log) ++ itemsOf cells
  returns : ∀ thread, takenBy thread log = returnedTo thread log ++ inHand (s.phase thread) (own thread)
  running : s.writeThreads = true → s.stopping = .notCalled ∨ s.stopping = .signalled
  undropped : s.stopping ≠ .returned → droppedCells log = []
  handsEmpty : s.stopping = .joined → ∀ thread q, s.phase thread ≠ .taken q

theorem invariant_initial : Invariant (.initial : System Family Ctx n) [] [] fun _ => [] := by
  refine ⟨⟨⟨.nil, rfl, rfl⟩, fun _ => rfl, nofun, nofun⟩, rfl, fun _ => rfl, nofun, fun _ => rfl, nofun⟩

section Steps

variable {s s' : System Family Ctx n} {log new : List (Event Family Ctx n)}
  {own : Fin n → List (Block × Family × Ctx)}

section

variable (invariant : Invariant s log cells own)
include invariant

theorem Invariant.act
    (after : Consistent queue' (update s.phase thread phase') cells' (update own thread own'))
    (moved : itemsOf cells ++ queuedItems new = takenItems new ++ itemsOf cells')
    (ordered : takenItems new = [] ∨ droppedCells log = []) (kept : droppedCells new = [])
    (foreign : ∀ other, other ≠ thread → takenBy other new = [] ∧ returnedTo other new = [])
    (mine : inHand (s.phase thread) (own thread) ++ takenBy thread new = returnedTo thread new ++ inHand phase' own')
    (hands : s.stopping = .joined → ∀ q, phase' ≠ .taken q) :
    Invariant (s.at queue' thread phase') (log ++ new) cells' (update own thread own') := by
  refine ⟨after, ?_, fun other => ?_, invariant.running, fun open' => ?_, fun joined other => ?_⟩
  · rw [queuedItems_append, takenItems_append, droppedCells_append, kept, List.append_nil, invariant.flow,
      List.append_assoc, moved]
    rcases ordered with none | none
    all_goals simp [none]
  · rw [takenBy_append, returnedTo_append, invariant.returns other]
    by_cases same : other = thread
    · subst other
      simp only [System.at, update_self, List.append_assoc]
      rw [mine]
    · obtain ⟨first, second⟩ := foreign other same
      simp [System.at, update_of_ne same, first, second]
  · rw [droppedCells_append, kept, List.append_nil]
    exact invariant.undropped open'
  · by_cases same : other = thread
    · subst other
      simp only [System.at, update_self]
      exact hands joined
    · simp only [System.at, update_of_ne same]
      exact invariant.handsEmpty joined other

theorem Invariant.submit (idle : s.phase thread = .idle) (items : List (Family × Ctx)) :
    ∃ s' new own', perform s (.submit thread items) = some (s', new) ∧ Invariant s' (log ++ new) cells own' := by
  obtain ⟨tail, num, own', counted, after⟩ := invariant.consistent.submit thread items
  refine ⟨_, [], _, by rw [perform, counted]; rfl, invariant.act after (by simp [queuedItems, takenItems])
    (.inl rfl) rfl (fun _ _ => ⟨rfl, rfl⟩) ?_ fun _ q => ?_⟩
  · rw [idle]
    split <;> rfl
  · split <;> nofun

theorem Invariant.append (appending : s.phase thread = .appending head tail num) :
    ∃ s' new cells' own', perform s (.append thread) = some (s', new) ∧ Invariant s' (log ++ new) cells' own' := by
  obtain ⟨queue', enqueued, observed, after⟩ := invariant.consistent.append appending
  refine ⟨_, _, _, _, by rw [perform, appending]; dsimp only; rw [enqueued, observed]; rfl,
    invariant.act after ?_ (.inl rfl) rfl (fun _ _ => ⟨rfl, rfl⟩) ?_ nofun⟩
  · simp [queuedItems, takenItems]
  · rw [appending]
    rfl

theorem Invariant.dequeue (idle : s.phase thread = .idle) (started : s.writeThreads = true) :
    ∃ s' new cells' own', perform s (.dequeue thread) = some (s', new) ∧ Invariant s' (log ++ new) cells' own' := by
  have stage := invariant.running started
  have empty := invariant.consistent.owned thread
  rw [idle] at empty
  rcases invariant.consistent.dequeue thread with ⟨_, result, returned, none⟩ | taken
  · refine ⟨s.at s.queue thread .idle, [], cells, update own thread [], ?_,
      invariant.act ?_ (by simp [queuedItems, takenItems]) (.inl rfl) rfl (fun _ _ => ⟨rfl, rfl⟩) ?_ nofun⟩
    · rw [perform, returned, bind_some]
      cases result with
      | waiting | null => rfl
      | element q => exact absurd rfl (none q)
    · rw [← idle, ← empty, update_eq_self, update_eq_self]
      exact invariant.consistent
    · rw [idle]
      rfl
  · obtain ⟨q, item, rest, node, queue', rfl, returned, live, content, after⟩ := taken
    refine ⟨_, _, _, _, by rw [perform, returned, bind_some]; dsimp only; rw [live]; rfl,
      invariant.act after ?_ (.inr (invariant.undropped ?_)) rfl ?_ ?_ ?_⟩
    · simp [queuedItems, takenItems, content]
    · rcases stage with early | early <;> simp [early]
    · intro other different
      simp [takenBy, returnedTo, different.symm]
    · simp [idle, inHand, takenBy, returnedTo, content]
    · intro joined
      rcases stage with early | early <;> simp [early] at joined

theorem Invariant.release (taken : s.phase thread = .taken q) :
    ∃ s' new own', perform s (.release thread) = some (s', new) ∧ Invariant s' (log ++ new) cells own' := by
  obtain ⟨item, queue', returned, mine, after⟩ := invariant.consistent.release taken
  refine ⟨_, _, _, by rw [perform, taken]; dsimp only; rw [returned]; rfl,
    invariant.act after (by simp [queuedItems, takenItems]) (.inl rfl) rfl ?_ ?_ nofun⟩
  · intro other different
    simp [takenBy, returnedTo, different.symm]
  · simp [taken, inHand, mine, takenBy, returnedTo]

end

theorem flatMap_nil (list : List α) : (list.flatMap fun _ => ([] : List β)) = [] :=
  List.flatMap_eq_nil_iff.mpr fun _ _ => rfl

/-- What the second critical section of `stop_write_threads` frees. -/
theorem Invariant.drain (invariant : Invariant s log cells own) (joined : s.stopping = .joined) :
    ∃ s' new, perform s .drain = some (s', new) ∧ droppedCells new = cells ∧ s'.stopping = .returned ∧
      Invariant s' (log ++ new) [] own := by
  obtain ⟨queue', drained, _, after⟩ := invariant.consistent.drain
  have dropped : droppedCells (cells.map fun cell => (.dropped cell.1 cell.2 : Event Family Ctx n)) = cells := by
    simp [droppedCells, List.flatMap_map]
  refine ⟨_, _, by rw [perform, drained]; rfl, dropped, rfl, after, ?_, fun thread => ?_, fun started => ?_,
    fun unreturned => absurd rfl unreturned, fun impossible => by cases impossible⟩
  · rw [queuedItems_append, takenItems_append, droppedCells_append, dropped, invariant.flow,
      invariant.undropped (by simp [joined])]
    simp [queuedItems, takenItems, List.flatMap_map, flatMap_nil]
  · rw [takenBy_append, returnedTo_append, invariant.returns thread]
    simp [takenBy, returnedTo, List.flatMap_map, flatMap_nil]
  · have stage := invariant.running started
    rw [joined] at stage
    rcases stage with impossible | impossible <;> cases impossible

/-- Every action that can be taken is defined and keeps the invariant. -/
theorem Invariant.step (invariant : Invariant s log cells own)
    (enabled : Enabled s action) :
    ∃ s' new cells' own', perform s action = some (s', new) ∧ Invariant s' (log ++ new) cells' own' := by
  have unlogged : ∀ {s' : System Family Ctx n}, Invariant s' log cells own → Invariant s' (log ++ []) cells own := by
    intro s' held
    rw [List.append_nil]
    exact held
  cases action with
  | start =>
    have early : s.stopping = .notCalled := enabled
    refine ⟨_, [], cells, own, rfl, unlogged { invariant with running := fun _ => .inl early }⟩
  | submit thread items =>
    obtain ⟨s', new, own', performed, after⟩ := invariant.submit enabled items
    exact ⟨s', new, cells, own', performed, after⟩
  | append thread =>
    obtain ⟨head, tail, num, appending⟩ := enabled
    exact invariant.append appending
  | dequeue thread => exact invariant.dequeue enabled.1 enabled.2
  | release thread =>
    obtain ⟨q, taken⟩ := enabled
    obtain ⟨s', new, own', performed, after⟩ := invariant.release taken
    exact ⟨s', new, cells, own', performed, after⟩
  | stop =>
    have early : s.stopping = .notCalled := enabled
    have clean : droppedCells log = [] := invariant.undropped (by simp [early])
    cases started : s.writeThreads with
    | true =>
      refine ⟨_, [], cells, own, by rw [perform, if_pos started], unlogged ?_⟩
      obtain ⟨⟨⟨linked, last, count⟩, owned, apart, separate⟩, flow, returns, _⟩ := invariant
      exact ⟨⟨⟨linked, last, count⟩, owned, apart, separate⟩, flow, returns, fun _ => .inr rfl, fun _ => clean, nofun⟩
    | false =>
      refine ⟨_, [], cells, own, by rw [perform, started]; rfl, unlogged ?_⟩
      exact { invariant with
        running := nofun
        undropped := fun _ => clean
        handsEmpty := nofun }
  | join =>
    obtain ⟨signalled, empty⟩ := enabled
    refine ⟨_, [], cells, own, rfl,
      unlogged { invariant with running := nofun, undropped := ?_, handsEmpty := fun _ => empty }⟩
    exact fun _ => invariant.undropped (by simp [signalled])
  | drain =>
    obtain ⟨s', new, performed, _, _, after⟩ := invariant.drain enabled
    exact ⟨s', new, [], own, performed, after⟩

theorem invariant_of_execution (run : Execution s log) : ∃ cells own, Invariant s log cells own := by
  refine run.holds (fun s log => ∃ cells own, Invariant s log cells own) ⟨[], _, invariant_initial⟩ ?_
  intro s log action held enabled
  obtain ⟨cells, own, invariant⟩ := held
  obtain ⟨s', new, cells', own', performed, after⟩ := invariant.step enabled
  exact ⟨s', new, performed, cells', own', after⟩

/-- Under every interleaving the elements leave the queue in order, and none is lost when the threads stop. -/
theorem write_queue_in_order (run : Execution s log) :
    takenItems log <+: queuedItems log ∧
      (∀ thread, returnedTo thread log <+: takenBy thread log) ∧
      (∃ cells, Linked s.queue.memory Node.view s.queue.head cells ∧ s.queue.tail = lastBlock cells ∧
        (s.queue.head = none ↔ s.queue.tail = none) ∧ s.queue.length = cells.length) ∧
      (∀ action, Enabled s action → ∃ s' new, perform s action = some (s', new)) ∧
      (s.writeThreads = true → Enabled s .stop → ∃ s', perform s .stop = some (s', []) ∧ s'.stopping = .signalled) ∧
      (Enabled s .drain → ∃ s' new, perform s .drain = some (s', new) ∧ s'.stopping = .returned ∧
        queuedItems log = takenItems log ++ itemsOf (droppedCells new) ∧ (blocksOf (droppedCells new)).Nodup ∧
        (∀ thread, returnedTo thread log = takenBy thread log) ∧ s'.queue.head = none) := by
  obtain ⟨cells, own, invariant⟩ := invariant_of_execution run
  have shape := invariant.consistent.shape
  refine ⟨?_, fun thread => ?_, ⟨cells, shape.linked, shape.last, ?_, shape.count⟩, fun action enabled => ?_, ?_, ?_⟩
  · rw [invariant.flow, List.append_assoc]
    exact List.prefix_append ..
  · rw [invariant.returns thread]
    exact List.prefix_append ..
  · exact shape.head_iff
  · obtain ⟨s', new, _, _, performed, _⟩ := invariant.step enabled
    exact ⟨s', new, performed⟩
  · intro started _
    exact ⟨_, if_pos started, rfl⟩
  · intro joined
    obtain ⟨s', new, performed, dropped, returned, after⟩ := invariant.drain joined
    refine ⟨s', new, performed, returned, ?_, ?_, fun thread => ?_, ?_⟩
    · rw [invariant.flow, dropped, invariant.undropped (by simp [show s.stopping = .joined from joined])]
      simp
    · rw [dropped]
      exact shape.linked.nodup
    · rw [invariant.returns thread, inHand_of_not_taken (invariant.handsEmpty joined thread), List.append_nil]
    · have empty := after.consistent.shape.linked
      generalize s'.queue.head = head at empty
      cases empty
      rfl

end Steps

theorem write_queue_in_order_two : ∃ (s : System Nat Nat 2) (log : List (Event Nat Nat 2)), Execution s log ∧
    Enabled s .drain ∧ queuedItems log = [(1, 0), (2, 0), (3, 0)] ∧ takenItems log = [(1, 0)] ∧
    takenItems log <+: queuedItems log := by
  have begin : Execution (.initial : System Nat Nat 2) [] := .start
  have chain := ((begin.step .start rfl rfl).step (.submit 0 [(1, 0), (2, 0)]) rfl rfl).step
    (.append 0) ⟨_, _, _, rfl⟩ rfl
  have taken := (chain.step (.dequeue 1) ⟨rfl, rfl⟩ rfl).step (.submit 0 [(3, 0)]) rfl rfl
  have stopped := (taken.step .stop rfl rfl).step (.append 0) ⟨_, _, _, rfl⟩ rfl
  have run := (stopped.step (.release 1) ⟨_, rfl⟩ rfl).step .join ⟨rfl, fun
    | 0 => nofun
    | 1 => nofun⟩ rfl
  exact ⟨_, _, run, rfl, rfl, rfl, (write_queue_in_order run).1⟩

theorem stop_write_threads_not_started : ∃ (s : System Nat Nat 1) (log : List (Event Nat Nat 1)), Execution s log ∧
    s.stopping = .returned ∧ queuedItems log = [(1, 0)] ∧ takenItems log = [] ∧ droppedCells log = [] := by
  have begin : Execution (.initial : System Nat Nat 1) [] := .start
  have chain := (begin.step (.submit 0 [(1, 0)]) rfl rfl).step (.append 0) ⟨_, _, _, rfl⟩ rfl
  exact ⟨_, _, chain.step .stop rfl rfl, rfl, rfl, rfl, rfl⟩

end NCollectd.WriteQueue
