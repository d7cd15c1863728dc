import NCollectd.Utils.MessageParser

/-! What the message parser is for: the items of all matches from a start to a stop. -/

namespace NCollectd.MessageParser

open Option

/-- A parser job's patterns, with the two that `start_idx` and `stop_idx` point to. -/
structure Layout where
  patterns : List MessagePattern
  startIdx : Nat
  stopIdx : Nat
  start : MessagePattern
  stop : MessagePattern
  starts : patterns[startIdx]? = some start
  stops : patterns[stopIdx]? = some stop

def Layout.init (layout : Layout) : ParserJob := messageParserInit layout.startIdx layout.stopIdx layout.patterns

/-- A layout with no more patterns than a message has marks, and with a stop that is not its start. -/
structure Table extends Layout where
  few : patterns.length ≤ messageSize
  distinct : start.regex ≠ stop.regex

/-- A message under assembly: its items and the places of the patterns that were matched. -/
structure Draft where
  items : List MessageItem
  seen : List Nat

def Draft.empty : Draft := ⟨[], []⟩

def Draft.message (draft : Draft) (completed : Bool) : Message where
  messageItems := draft.items ++ List.replicate (messageSize - draft.items.length) .zero
  matchedPatternsCheck := (List.range messageSize).map fun i => decide (i ∈ draft.seen)
  started := true
  completed := completed

/-- A match of a pattern of the table with its submatches. -/
structure Hit where
  cm : CheckedMatch
  submatches : List CString

namespace Hit

/-- The submatch that the pattern asks for exists. -/
def Valid (hit : Hit) : Prop :=
  -1 ≤ hit.cm.msgPattern.submatchIdx ∧ hit.cm.msgPattern.submatchIdx < hit.submatches.length

instance (hit : Hit) : Decidable hit.Valid := inferInstanceAs (Decidable (_ ∧ _))

def items (hit : Hit) : List MessageItem :=
  if 0 ≤ hit.cm.msgPattern.submatchIdx then
    (hit.submatches[hit.cm.msgPattern.submatchIdx.toNat]?.map fun value =>
      ⟨sstrncpy hit.cm.msgPattern.name 32, sstrncpy value 64, hit.cm.msgPattern.userData,
        hit.cm.msgPattern.freeUserData⟩).toList
  else []

def addTo (hit : Hit) (draft : Draft) : Draft :=
  ⟨draft.items ++ hit.items, hit.cm.msgPatternIdx :: draft.seen⟩

end Hit

/-- How a message ends. -/
inductive Outcome where
  | completed (draft : Draft)
  | discarded

def Outcome.message? : Outcome → Option Message
  | .completed draft => some (draft.message true)
  | .discarded => none

section

variable {Line : Type} (matchApply : MessagePattern → Line → Option (List CString))

def lineHits (line : Line) (matchers : List CheckedMatch) : List Hit :=
  (matchers.filterMap fun cm => (matchApply cm.msgPattern line).map (Hit.mk cm)).filter fun hit => hit.Valid

def Layout.hits (layout : Layout) (lines : List Line) : List Hit :=
  lines.flatMap fun line => lineHits matchApply line (checkedMatches layout.patterns)

end

namespace Layout

/-- The mandatory patterns have a place in the array of the patterns that were matched. -/
def Safe (layout : Layout) : Prop :=
  ∀ entry ∈ layout.patterns.zipIdx, entry.1.isMandatory = true → entry.2 < messageSize

def Complete (layout : Layout) (draft : Draft) : Prop :=
  ∀ entry ∈ layout.patterns.zipIdx, entry.1.isMandatory = true → entry.2 ∈ draft.seen

instance (layout : Layout) (draft : Draft) : Decidable (layout.Complete draft) :=
  inferInstanceAs (Decidable (∀ entry ∈ layout.patterns.zipIdx, entry.1.isMandatory = true → entry.2 ∈ draft.seen))

def outcome (layout : Layout) (draft : Draft) : Outcome :=
  if layout.Complete draft then .completed draft else .discarded

def advance (layout : Layout) (opened : Option Draft) (hit : Hit) : Option (Option Draft × List Outcome) :=
  match opened.filter fun draft => messageSize ≤ draft.items.length with
  | some draft => some (none, [layout.outcome draft])
  | none =>
    match (if hit.cm.msgPattern.regex = layout.start.regex then some .empty else opened) with
    | none => some (none, [])
    | some draft =>
      if messageSize ≤ hit.cm.msgPatternIdx then none
      else if hit.cm.msgPattern.regex = layout.stop.regex then some (none, [layout.outcome (hit.addTo draft)])
      else some (some (hit.addTo draft), [])

def follow (layout : Layout) : Option Draft → List Hit → Option (Option Draft × List Outcome)
  | opened, [] => some (opened, [])
  | opened, hit :: hits =>
    (layout.advance opened hit).bind fun step =>
      (layout.follow step.1 hits).map fun ended => (ended.1, step.2 ++ ended.2)

theorem follow_append (layout : Layout) (opened : Option Draft) (first second : List Hit) :
    layout.follow opened (first ++ second) =
      (layout.follow opened first).bind fun step =>
        (layout.follow step.1 second).map fun ended => (ended.1, step.2 ++ ended.2) := by
  induction first generalizing opened with
  | nil => simp [follow]
  | cons hit hits ih =>
    rw [List.cons_append, follow, follow]
    cases layout.advance opened hit with
    | none => rfl
    | some step =>
      simp only [bind_some, ih]
      cases layout.follow step.1 hits with
      | none => rfl
      | some middle => simp [Function.comp_def]

end Layout

namespace Table

def next (table : Table) (opened : Option Draft) (hit : Hit) : Option Draft × List Outcome :=
  let opened := if hit.cm.msgPattern.regex = table.start.regex then some .empty else opened
  match opened with
  | none => (none, [])
  | some draft =>
    let draft := hit.addTo draft
    if hit.cm.msgPattern.regex = table.stop.regex then (none, [table.outcome draft]) else (some draft, [])

def assemble (table : Table) : Option Draft → List Hit → Option Draft × List Outcome
  | opened, [] => (opened, [])
  | opened, hit :: hits =>
    let (opened, ended) := table.next opened hit
    let (last, outcomes) := table.assemble opened hits
    (last, ended ++ outcomes)

def completions {Line : Type} (matchApply : MessagePattern → Line → Option (List CString)) (table : Table) :
    Option Draft → List (TailRead Line) → List (List Message)
  | _, [] => []
  | opened, tail :: rest =>
    let (opened, outcomes) := table.assemble opened (table.hits matchApply tail.lines)
    outcomes.filterMap Outcome.message? :: table.completions matchApply opened rest

end Table

section

variable (draft : Draft) (completed : Bool)

theorem draft_check (place : i < messageSize) :
    (draft.message completed).matchedPatternsCheck[i]? = some (decide (i ∈ draft.seen)) := by
  simp [Draft.message, place]

theorem draft_check_set (items : List MessageItem) (place : i < messageSize) :
    (draft.message completed).matchedPatternsCheck.set i true =
      (Draft.message ⟨items, i :: draft.seen⟩ completed).matchedPatternsCheck := by
  apply List.ext_getElem?
  intro j
  rw [List.getElem?_set]
  by_cases same : i = j
  · subst same
    simp [Draft.message, place]
  · by_cases inside : j < messageSize
    · rw [if_neg same, draft_check draft completed inside, draft_check _ completed inside]
      simp [Ne.symm same]
    · simp [Draft.message, inside, same]

theorem draft_items_set (seen : List Nat) (item : MessageItem) (room : draft.items.length < messageSize) :
    (draft.message completed).messageItems.set draft.items.length item =
      (Draft.message ⟨draft.items ++ [item], seen⟩ completed).messageItems := by
  obtain ⟨rest, enough⟩ := Nat.exists_eq_add_of_lt room
  have first : messageSize - draft.items.length = rest + 1 := by omega
  have after : messageSize - (draft.items ++ [item]).length = rest := by
    rw [List.length_append, List.length_singleton]
    omega
  simp only [Draft.message, first, after, List.replicate_succ]
  simp

theorem missesMandatory_eq (patterns : List MessagePattern) (i : Nat)
    (safe : ∀ entry ∈ patterns.zipIdx i, entry.1.isMandatory = true → entry.2 < messageSize) :
    missesMandatory (draft.message completed).matchedPatternsCheck patterns i =
      some (decide ¬ ∀ entry ∈ patterns.zipIdx i, entry.1.isMandatory = true → entry.2 ∈ draft.seen) := by
  induction patterns generalizing i with
  | nil => simp [missesMandatory]
  | cons pattern rest ih =>
    rw [List.zipIdx_cons, List.forall_mem_cons] at safe
    have others := ih (i + 1) safe.2
    rw [missesMandatory, others]
    simp only [List.zipIdx_cons, List.forall_mem_cons]
    by_cases mandatory : pattern.isMandatory = true
    · rw [draft_check draft completed (safe.1 mandatory)]
      by_cases seen : i ∈ draft.seen <;> simp [mandatory, seen]
    · simp [mandatory]

end

/-- The slots behind the current one are free; the ones before it hold no message under assembly. -/
structure Holds (layout : Layout) (job : ParserJob) (slots : List Message) (opened : Option Draft) : Prop where
  startIdx : job.startIdx = layout.startIdx
  stopIdx : job.stopIdx = layout.stopIdx
  patterns : job.messagePatterns = layout.patterns
  storage : ∃ free, job.messagesStorage =
    slots ++ (opened.toList.map (Draft.message · false) ++ List.replicate free .zero)
  index : job.messageIdx + 1 = slots.length + opened.toList.length
  itemIdx : job.messageItemIdx = (opened.map fun draft => draft.items.length).getD 0
  closed : ∀ message ∈ slots, (message.started && !message.completed) = false
  large : msgStorInitLen ≤ job.messagesMaxLen

variable {job : ParserJob}

section

variable (stored : job.messagesStorage = slots ++ message :: behind) (index : job.messageIdx = slots.length)
include stored index

theorem current_at : job.current = some message := by
  simp [ParserJob.current, index, stored]

theorem setCurrent_at (written : Message) :
    job.setCurrent written = some { job with messagesStorage := slots ++ written :: behind } := by
  simp [ParserJob.setCurrent, current_at stored index, index, stored]

end

theorem Holds.stored (holds : Holds layout job slots (some draft)) :
    ∃ free, job.messagesStorage = slots ++ draft.message false :: List.replicate free .zero ∧
      job.messageIdx = slots.length := by
  obtain ⟨free, stored⟩ := holds.storage
  have index := holds.index
  refine ⟨free, by simpa using stored, ?_⟩
  simp only [toList_some, List.length_singleton] at index
  omega

theorem Holds.unfinished (holds : Holds layout job slots opened) : job.unfinished = some opened.isSome := by
  cases opened with
  | some draft =>
    obtain ⟨free, stored, index⟩ := holds.stored
    have place : 0 ≤ job.messageIdx := by omega
    rw [ParserJob.unfinished, if_pos place, current_at stored index]
    rfl
  | none =>
    obtain ⟨free, stored⟩ := holds.storage
    have index := holds.index
    rw [toList_none, List.length_nil] at index
    rcases List.eq_nil_or_concat slots with empty | ⟨front, last, rfl⟩
    · subst empty
      have before : ¬ 0 ≤ job.messageIdx := by
        rw [List.length_nil] at index
        omega
      rw [ParserJob.unfinished, if_neg before]
      rfl
    · have closed := holds.closed last (by simp)
      rw [List.concat_eq_append, List.length_append, List.length_singleton] at index
      have place : 0 ≤ job.messageIdx := by omega
      have reached : job.messageIdx = (front.length : Int) := by omega
      have ending : job.messagesStorage = front ++ last :: List.replicate free .zero := by simpa using stored
      rw [ParserJob.unfinished, if_pos place, current_at ending reached, map_some, closed]
      rfl

/-- A job some messages later: the buffer only grows when the slots of the initial one are used. -/
structure Counts (job after : ParserJob) (slots : List Message) (count : Nat) : Prop where
  completed : after.messagesCompleted = job.messagesCompleted + count
  size : after.messagesMaxLen = job.messagesMaxLen ∨ msgStorInitLen ≤ slots.length

theorem Counts.refl (job : ParserJob) (slots : List Message) : Counts job job slots 0 := ⟨rfl, .inl rfl⟩

theorem Counts.trans (first : Counts job middle slots count)
    (second : Counts middle after more others) (longer : slots.length ≤ more.length) :
    Counts job after more (count + others) where
  completed := by rw [second.completed, first.completed, Nat.add_assoc]
  size := by
    rcases second.size with same | used
    · rw [same]
      exact first.size.imp id fun used => used.trans longer
    · exact .inr used

theorem Holds.slotTaken (holds : Holds layout job slots opened) :
    ∃ free, takeSlot job = some { job with
      messagesStorage := slots ++ .zero :: List.replicate free .zero, messageIdx := slots.length } ∧
      (slots.length + 1 + free = job.messagesMaxLen ∨ msgStorInitLen ≤ slots.length) := by
  rw [takeSlot, holds.unfinished]
  cases opened with
  | some draft =>
    obtain ⟨free, stored, index⟩ := holds.stored
    refine ⟨free, ?_, ?_⟩
    · simp only [isSome_some, if_pos, setCurrent_at stored index, bind_eq_bind, bind_some]
      rw [if_neg]
      · rw [← index]
      · simp only [ParserJob.messagesMaxLen, index, List.length_append, List.length_cons]
        omega
    · simp only [ParserJob.messagesMaxLen, stored, List.length_append, List.length_cons, List.length_replicate]
      omega
  | none =>
    obtain ⟨free, stored⟩ := holds.storage
    have index := holds.index
    simp only [toList_none, List.map_nil, List.nil_append, List.length_nil] at stored index
    have next : job.messageIdx + 1 = (slots.length : Int) := by omega
    simp only [isSome_none, Bool.false_eq_true, if_false, bind_eq_bind, bind_some,
      ParserJob.messagesMaxLen, stored, next, List.length_append, List.length_replicate]
    cases free with
    | zero =>
      have large := holds.large
      simp only [ParserJob.messagesMaxLen, stored, List.replicate_zero, List.append_nil] at large
      refine ⟨msgStorIncStep - 1, ?_, .inr large⟩
      rw [if_pos (by omega), resizeMessageBuffer, if_pos (by simp [ParserJob.messagesMaxLen])]
      simp [msgStorIncStep, List.replicate_succ]
    | succ free => exact ⟨free, by rw [if_neg (by omega), List.replicate_succ] at *, by omega⟩

theorem message_empty : Draft.empty.message false = { Message.zero with started := true, completed := false } := by
  decide

theorem Holds.begun (holds : Holds layout job slots opened) :
    ∃ after, startMessageAssembly job = some after ∧ Holds layout after slots (some .empty) ∧
      Counts job after slots 0 := by
  obtain ⟨free, taken, size⟩ := holds.slotTaken
  have large := holds.large
  refine ⟨{ job with
    messagesStorage := slots ++ Draft.empty.message false :: List.replicate free .zero
    messageIdx := slots.length
    messageItemIdx := 0 }, ?_, ?_, rfl, ?_⟩
  · rw [startMessageAssembly, taken, message_empty]
    simp only [bind_eq_bind, bind_some]
    rw [setCurrent_at rfl rfl, bind_some]
  · exact {
      startIdx := holds.startIdx
      stopIdx := holds.stopIdx
      patterns := holds.patterns
      storage := ⟨free, by simp⟩
      index := by simp
      itemIdx := rfl
      closed := holds.closed
      large := by
        simp only [ParserJob.messagesMaxLen, List.length_append, List.length_cons, List.length_replicate] at *
        omega }
  · refine size.imp_left fun same => ?_
    rw [← same, ParserJob.messagesMaxLen]
    simp [Nat.add_assoc, Nat.add_comm 1]

def Outcome.leaves (slots : List Message) : Outcome → List Message
  | .completed draft => slots ++ [draft.message true]
  | .discarded => if slots = [] then [.zero] else slots

section

variable (holds : Holds layout job slots (some draft))
include holds

theorem Holds.ended (safe : layout.Safe) : ∃ after, endMessageAssembly job = some after ∧
      Holds layout after ((layout.outcome draft).leaves slots) none ∧
      Counts job after slots (layout.outcome draft).message?.toList.length := by
  obtain ⟨free, stored, index⟩ := holds.stored
  have same (written : Message) :
      (slots ++ written :: List.replicate free .zero).length = job.messagesStorage.length := by
    rw [stored]
    simp
  have large (written : Message) : msgStorInitLen ≤ (slots ++ written :: List.replicate free .zero).length := by
    rw [same]
    exact holds.large
  have misses : missesMandatory (draft.message false).matchedPatternsCheck job.messagePatterns 0 =
      some (decide ¬ layout.Complete draft) := by
    rw [holds.patterns]
    exact missesMandatory_eq draft false layout.patterns 0 safe
  rw [endMessageAssembly, current_at stored index]
  simp only [bind_eq_bind, bind_some, misses, setCurrent_at stored index, Layout.outcome]
  by_cases complete : layout.Complete draft
  · simp only [complete, not_true_eq_false, decide_false, Bool.false_eq_true, if_false, if_true]
    refine ⟨_, rfl, ?_, rfl, .inl (same _)⟩
    exact {
      startIdx := holds.startIdx
      stopIdx := holds.stopIdx
      patterns := holds.patterns
      storage := ⟨free, by simp [Outcome.leaves, Draft.message]⟩
      index := by simp [Outcome.leaves, index]
      itemIdx := rfl
      closed := by
        intro message member
        rcases List.mem_append.mp member with earlier | last
        · exact holds.closed message earlier
        · rw [List.mem_singleton.mp last]
          rfl
      large := large _ }
  · simp only [complete, not_false_eq_true, decide_true, if_true, if_false]
    refine ⟨_, rfl, ?_, rfl, .inl (same _)⟩
    exact {
      startIdx := holds.startIdx
      stopIdx := holds.stopIdx
      patterns := holds.patterns
      storage := by
        cases slots with
        | nil => exact ⟨free, rfl⟩
        | cons first others => exact ⟨free + 1, by simp [Outcome.leaves, List.replicate_succ]⟩
      index := by
        cases slots with
        | nil => simp [Outcome.leaves, index]
        | cons first others =>
          simp only [Outcome.leaves, index]
          simp
      itemIdx := rfl
      closed := by
        cases slots with
        | nil => simp [Outcome.leaves, Message.zero]
        | cons first others => exact holds.closed
      large := large _ }

theorem Holds.redraft (other : Draft)
    (stored : job.messagesStorage = slots ++ draft.message false :: List.replicate free .zero)
    (same : written = other.message false) (count : filled = other.items.length) :
    Holds layout { job with
      messagesStorage := slots ++ written :: List.replicate free .zero, messageItemIdx := filled }
      slots (some other) where
  startIdx := holds.startIdx
  stopIdx := holds.stopIdx
  patterns := holds.patterns
  storage := ⟨free, by simp [same]⟩
  index := holds.index
  itemIdx := count
  closed := holds.closed
  large := by
    have large := holds.large
    rw [ParserJob.messagesMaxLen, stored] at large
    simpa [ParserJob.messagesMaxLen] using large

theorem Holds.itemAdded (room : draft.items.length < messageSize) (hit : Hit) (valid : hit.Valid)
    (takes : 0 ≤ hit.cm.msgPattern.submatchIdx) :
    ∃ after, messageItemAssembly job hit.cm hit.submatches = some after ∧
      Holds layout after slots (some ⟨draft.items ++ hit.items, draft.seen⟩) ∧ Counts job after slots 0 := by
  obtain ⟨free, stored, index⟩ := holds.stored
  have inside : hit.cm.msgPattern.submatchIdx.toNat < hit.submatches.length := by
    have bound := valid.2
    omega
  have value := List.getElem?_eq_getElem inside
  have filled : ¬ (draft.message false).messageItems.length ≤ job.messageItemIdx := by
    rw [holds.itemIdx]
    simp only [Draft.message, List.length_append, List.length_replicate, map_some, getD_some]
    omega
  rw [messageItemAssembly, current_at stored index]
  simp only [bind_eq_bind, bind_some, value, filled, if_false, setCurrent_at stored index]
  refine ⟨_, rfl, ?_, rfl, .inl (by simp [ParserJob.messagesMaxLen, stored])⟩
  have added : hit.items = [⟨sstrncpy hit.cm.msgPattern.name 32,
      sstrncpy hit.submatches[hit.cm.msgPattern.submatchIdx.toNat] 64, hit.cm.msgPattern.userData,
      hit.cm.msgPattern.freeUserData⟩] := by
    simp [Hit.items, takes, inside]
  have count : job.messageItemIdx = draft.items.length := holds.itemIdx
  apply holds.redraft _ stored
  · rw [added, count]
    simp only [Draft.message, Message.mk.injEq, and_true]
    exact draft_items_set draft false draft.seen _ room
  · rw [added, count, List.length_append, List.length_singleton]

theorem Holds.markPattern (place : i < messageSize) :
    ∃ after message, job.current = some message ∧ ¬ message.matchedPatternsCheck.length ≤ i ∧
      job.setCurrent { message with matchedPatternsCheck := message.matchedPatternsCheck.set i true } = some after ∧
      Holds layout after slots (some ⟨draft.items, i :: draft.seen⟩) ∧ Counts job after slots 0 := by
  obtain ⟨free, stored, index⟩ := holds.stored
  refine ⟨_, _, current_at stored index, ?_, setCurrent_at stored index _, ?_, rfl,
    .inl (by simp [ParserJob.messagesMaxLen, stored])⟩
  · simpa [Draft.message] using place
  · have marked := draft_check_set draft false draft.items place
    apply holds.redraft _ stored
    · rw [marked]
      rfl
    · exact holds.itemIdx

end

theorem addMatch_outside (outside : job.unfinished = some false) (cm : CheckedMatch) (submatches : List CString)
    (stop : MessagePattern) : addMatch job cm submatches stop = some job := by
  rw [ParserJob.unfinished] at outside
  rw [addMatch]
  by_cases place : 0 ≤ job.messageIdx
  · rw [if_pos place] at outside
    obtain ⟨message, found, closed⟩ := map_eq_some_iff.mp outside
    have dropped : (!message.started || message.completed) = true := by
      cases started : message.started <;> cases completed : message.completed <;>
        simp_all
    rw [if_neg (by omega), found]
    simp only [bind_eq_bind, bind_some, dropped, if_true]
  · rw [if_pos (by omega)]

theorem Holds.matched (holds : Holds layout job slots (some draft)) (room : draft.items.length < messageSize)
    (hit : Hit) (valid : hit.Valid) (stop : MessagePattern) :
    if messageSize ≤ hit.cm.msgPatternIdx then addMatch job hit.cm hit.submatches stop = none
    else ∃ marked, Holds layout marked slots (some (hit.addTo draft)) ∧ Counts job marked slots 0 ∧
      addMatch job hit.cm hit.submatches stop =
        if hit.cm.msgPattern.regex = stop.regex then endMessageAssembly marked else some marked := by
  obtain ⟨free, stored, index⟩ := holds.stored
  have filled : ∃ after, (if 0 ≤ hit.cm.msgPattern.submatchIdx then
        messageItemAssembly job hit.cm hit.submatches else some job) = some after ∧
      Holds layout after slots (some ⟨draft.items ++ hit.items, draft.seen⟩) ∧ Counts job after slots 0 := by
    by_cases takes : 0 ≤ hit.cm.msgPattern.submatchIdx
    · rw [if_pos takes]
      exact holds.itemAdded room hit valid takes
    · rw [if_neg takes]
      refine ⟨job, rfl, ?_, .refl job slots⟩
      simpa [Hit.items, takes] using holds
  obtain ⟨after, assembled, kept, counted⟩ := filled
  have started : ¬ job.messageIdx < 0 := by omega
  by_cases outside : messageSize ≤ hit.cm.msgPatternIdx
  · obtain ⟨rest, written, place⟩ := kept.stored
    rw [if_pos outside, addMatch, if_neg started, current_at stored index]
    simp only [bind_eq_bind, bind_some, assembled, current_at written place]
    simp [Draft.message, outside]
  · obtain ⟨marked, message, found, inside, written, holding, same⟩ := kept.markPattern (not_le.mp outside)
    rw [if_neg outside]
    refine ⟨marked, holding, counted.trans same le_rfl, ?_⟩
    rw [addMatch, if_neg started, current_at stored index]
    simp only [bind_eq_bind, bind_some, assembled, found, inside, written, if_false]
    rfl

theorem leaves_length (outcomes : List Outcome) (slots : List Message) :
    slots.length ≤ (outcomes.foldl Outcome.leaves slots).length := by
  induction outcomes generalizing slots with
  | nil => exact le_rfl
  | cons outcome rest ih =>
    refine le_trans ?_ (ih _)
    cases outcome with
    | completed draft => simp [Outcome.leaves]
    | discarded => cases slots <;> simp [Outcome.leaves]

/-- The job after some matches: its slots hold what the ends of the messages leave. -/
structure Reached (layout : Layout) (job : ParserJob) (slots : List Message)
    (ended : Option Draft × List Outcome) (after : ParserJob) : Prop where
  holds : Holds layout after (ended.2.foldl Outcome.leaves slots) ended.1
  counts : Counts job after (ended.2.foldl Outcome.leaves slots) (ended.2.filterMap Outcome.message?).length

theorem Holds.reached (holds : Holds layout job slots opened) (counts : Counts start job slots 0) :
    Reached layout start slots (opened, []) job := ⟨holds, counts⟩

theorem Reached.append (first : Reached layout job slots (opened, outcomes) middle)
    (second : Reached layout middle (outcomes.foldl Outcome.leaves slots) ended after) :
    Reached layout job slots (ended.1, outcomes ++ ended.2) after where
  holds := by simpa using second.holds
  counts := by simpa using first.counts.trans second.counts (leaves_length _ _)

theorem Holds.finished (holds : Holds layout job slots (some draft)) (safe : layout.Safe)
    (counts : Counts start job slots 0) :
    ∃ after, endMessageAssembly job = some after ∧
      Reached layout start slots (none, [layout.outcome draft]) after := by
  obtain ⟨after, finished, closed, number⟩ := holds.ended safe
  have one : ([layout.outcome draft].filterMap Outcome.message?).length =
      (layout.outcome draft).message?.toList.length := by
    cases layout.outcome draft <;> rfl
  have total := counts.trans number le_rfl
  refine ⟨after, finished, closed, ?_, total.size.imp_right fun used => used.trans (leaves_length _ _)⟩
  rw [one, total.completed, Nat.zero_add]

/-- What a run does is what it is meant to do; it is undefined where that is. -/
def Agrees (layout : Layout) (job : ParserJob) (slots : List Message)
    (meant : Option (Option Draft × List Outcome)) (run : Option ParserJob) : Prop :=
  match meant with
  | none => run = none
  | some ended => ∃ after, run = some after ∧ Reached layout job slots ended after

theorem Holds.inside (holds : Holds layout job slots (some draft)) (safe : layout.Safe)
    (room : draft.items.length < messageSize) (hit : Hit) (valid : hit.Valid) (counts : Counts start job slots 0) :
    Agrees layout start slots
      (if messageSize ≤ hit.cm.msgPatternIdx then none
      else if hit.cm.msgPattern.regex = layout.stop.regex then some (none, [layout.outcome (hit.addTo draft)])
      else some (some (hit.addTo draft), []))
      (addMatch job hit.cm hit.submatches layout.stop) := by
  have matched := holds.matched room hit valid layout.stop
  by_cases outside : messageSize ≤ hit.cm.msgPatternIdx
  · rw [if_pos outside] at matched ⊢
    exact matched
  · rw [if_neg outside] at matched ⊢
    obtain ⟨marked, holding, same, added⟩ := matched
    rw [added]
    have counted := counts.trans same le_rfl
    split
    · exact holding.finished safe counted
    · exact ⟨marked, rfl, holding.reached counted⟩

theorem Holds.assembled (holds : Holds layout job slots opened) (safe : layout.Safe) (hit : Hit)
    (valid : hit.Valid) :
    Agrees layout job slots (layout.advance opened hit)
      ((messageAssembler job hit.cm hit.submatches).map Prod.snd) := by
  have fits : ¬ (hit.cm.msgPattern.submatchIdx < -1 ∨
      (hit.submatches.length : Int) ≤ hit.cm.msgPattern.submatchIdx) := by
    obtain ⟨low, high⟩ := valid
    omega
  rw [messageAssembler, holds.patterns, holds.startIdx, holds.stopIdx, layout.starts, layout.stops]
  simp only [bind_eq_bind, bind_some, fits, if_false]
  cases full : opened.filter fun draft => messageSize ≤ draft.items.length with
  | some draft =>
    obtain ⟨rfl, filled⟩ := filter_eq_some_iff.mp full
    have exceeded : messageSize ≤ job.messageItemIdx := by
      rw [holds.itemIdx]
      simpa using filled
    obtain ⟨after, finished, reached⟩ := holds.finished safe (.refl job slots)
    rw [if_pos exceeded, finished, Layout.advance, full]
    exact ⟨after, rfl, reached⟩
  | none =>
    have few : ¬ messageSize ≤ job.messageItemIdx := by
      rw [holds.itemIdx]
      cases opened with
      | none => decide
      | some draft => simpa [Option.filter] using full
    rw [if_neg few, Layout.advance, full]
    have started : ∃ reached, (if hit.cm.msgPattern.regex = layout.start.regex then
          startMessageAssembly job else some job) = some reached ∧
        Holds layout reached slots (if hit.cm.msgPattern.regex = layout.start.regex then some .empty else opened) ∧
        Counts job reached slots 0 := by
      split
      · exact holds.begun
      · exact ⟨job, rfl, holds, .refl job slots⟩
    obtain ⟨reached, taken, kept, counted⟩ := started
    rw [taken, bind_some]
    cases inside : (if hit.cm.msgPattern.regex = layout.start.regex then some Draft.empty else opened) with
    | none =>
      rw [inside] at kept
      rw [addMatch_outside kept.unfinished]
      exact ⟨reached, rfl, kept.reached counted⟩
    | some draft =>
      rw [inside] at kept
      have room : draft.items.length < messageSize := by
        by_cases starts : hit.cm.msgPattern.regex = layout.start.regex
        · rw [if_pos starts] at inside
          cases inside
          decide
        · rw [if_neg starts] at inside
          rw [inside] at full
          simpa [Option.filter] using full
      have agrees := kept.inside safe room hit valid counted
      cases added : addMatch reached hit.cm hit.submatches layout.stop with
      | none | some after => simpa [added] using agrees

theorem Holds.rejected (holds : Holds layout job slots opened) (hit : Hit) (invalid : ¬ hit.Valid) :
    messageAssembler job hit.cm hit.submatches = some (-1, job) := by
  have unfit : hit.cm.msgPattern.submatchIdx < -1 ∨
      (hit.submatches.length : Int) ≤ hit.cm.msgPattern.submatchIdx := by
    by_contra fits
    exact invalid ⟨by omega, by omega⟩
  rw [messageAssembler, holds.patterns, holds.startIdx, holds.stopIdx, layout.starts, layout.stops]
  simp [unfit]

theorem Agrees.bind (first : Agrees layout job slots meant run)
    (further : Option Draft → Option (Option Draft × List Outcome)) (continued : ParserJob → Option ParserJob)
    (rest : ∀ ended after, Reached layout job slots ended after →
      Agrees layout after (ended.2.foldl Outcome.leaves slots) (further ended.1) (continued after)) :
    Agrees layout job slots
      (meant.bind fun step => (further step.1).map fun ended => (ended.1, step.2 ++ ended.2))
      (run.bind continued) := by
  cases meant with
  | none =>
    rw [show run = none from first]
    rfl
  | some step =>
    obtain ⟨middle, rfl, reached⟩ := first
    have second := rest step middle reached
    rw [bind_some, bind_some]
    cases next : further step.1 with
    | none =>
      rw [next] at second
      exact second
    | some ended =>
      rw [next] at second
      obtain ⟨after, called, later⟩ := second
      exact ⟨after, called, reached.append later⟩

section

variable {Line : Type}

theorem Holds.line (holds : Holds layout job slots opened) (safe : layout.Safe) (line : Line)
    (matchers : List CheckedMatch) :
    Agrees layout job slots (layout.follow opened (lineHits matchApply line matchers))
      (tailCallback matchApply job line matchers) := by
  induction matchers generalizing job slots opened with
  | nil => exact ⟨job, rfl, holds.reached (.refl job slots)⟩
  | cons cm rest ih =>
    rw [tailCallback]
    cases found : matchApply cm.msgPattern line with
    | none =>
      have same : lineHits matchApply line (cm :: rest) = lineHits matchApply line rest := by
        simp [lineHits, found]
      rw [same]
      exact ih holds
    | some submatches =>
      by_cases valid : (Hit.mk cm submatches).Valid
      · have split : lineHits matchApply line (cm :: rest) =
            ⟨cm, submatches⟩ :: lineHits matchApply line rest := by
          simp [lineHits, found, valid]
        have both := (holds.assembled safe ⟨cm, submatches⟩ valid).bind
          (layout.follow · (lineHits matchApply line rest)) (tailCallback matchApply · line rest)
          fun ended after reached => ih reached.holds
        rw [bind_map] at both
        rw [split, Layout.follow]
        exact both
      · have same : lineHits matchApply line (cm :: rest) = lineHits matchApply line rest := by
          simp [lineHits, found, valid]
        have rejected := holds.rejected ⟨cm, submatches⟩ valid
        simp only at rejected
        simp only [same, rejected, bind_eq_bind, bind_some]
        exact ih holds

theorem Holds.lines (holds : Holds layout job slots opened) (safe : layout.Safe) (lines : List Line) :
    Agrees layout job slots (layout.follow opened (layout.hits matchApply lines))
      (tailMatchRead matchApply job lines) := by
  induction lines generalizing job slots opened with
  | nil => exact ⟨job, rfl, holds.reached (.refl job slots)⟩
  | cons line rest ih =>
    rw [Layout.hits, List.flatMap_cons, layout.follow_append, tailMatchRead, holds.patterns]
    exact (holds.line safe line _).bind (layout.follow · (layout.hits matchApply rest))
      (tailMatchRead matchApply · rest) fun ended after reached => ih reached.holds

end

/-- No match is found while the message under assembly has all the items it can hold. -/
def Table.Roomy (table : Table) : Option Draft → List Hit → Prop
  | _, [] => True
  | opened, hit :: hits =>
    (∀ draft ∈ opened, draft.items.length < messageSize) ∧ table.Roomy (table.next opened hit).1 hits

instance Table.decidableRoomy (table : Table) : (opened : Option Draft) → (hits : List Hit) →
    Decidable (table.Roomy opened hits)
  | _, [] => .isTrue trivial
  | opened, hit :: hits =>
    have := table.decidableRoomy (table.next opened hit).1 hits
    inferInstanceAs (Decidable (_ ∧ _))

theorem Table.safe (table : Table) : table.Safe := by
  intro entry listed _
  have place : entry.2 < table.patterns.length + 0 := List.snd_lt_of_mem_zipIdx listed
  exact lt_of_lt_of_le (by simpa using place) table.few

theorem Table.advance_eq (table : Table) (opened : Option Draft) (hit : Hit)
    (place : hit.cm.msgPatternIdx < messageSize) (room : ∀ draft ∈ opened, draft.items.length < messageSize) :
    table.advance opened hit = some (table.next opened hit) := by
  have few : (opened.filter fun draft => messageSize ≤ draft.items.length) = none := by
    cases opened with
    | none => rfl
    | some draft => simpa [Option.filter] using room draft rfl
  rw [Layout.advance, few, Table.next]
  simp only [not_le.mpr place, if_false]
  cases (if hit.cm.msgPattern.regex = table.start.regex then some Draft.empty else opened) with
  | none => rfl
  | some draft => exact (apply_ite some (hit.cm.msgPattern.regex = table.stop.regex) _ _).symm

theorem Table.follow_eq (table : Table) (opened : Option Draft) (hits : List Hit)
    (places : ∀ hit ∈ hits, hit.cm.msgPatternIdx < messageSize) (roomy : table.Roomy opened hits) :
    table.follow opened hits = some (table.assemble opened hits) := by
  induction hits generalizing opened with
  | nil => rfl
  | cons hit rest ih =>
    have here := table.advance_eq opened hit (places hit (List.mem_cons_self ..)) roomy.1
    have later := ih (table.next opened hit).1
      (fun other member => places other (List.mem_cons_of_mem hit member)) roomy.2
    rw [Layout.follow, here, bind_some, later]
    rfl

theorem Table.hits_places (matchApply : MessagePattern → Line → Option (List CString)) (table : Table)
    (lines : List Line) : ∀ hit ∈ table.hits matchApply lines, hit.cm.msgPatternIdx < messageSize := by
  intro hit member
  obtain ⟨line, -, found⟩ := List.mem_flatMap.mp member
  obtain ⟨cm, listed, applied⟩ := List.mem_filterMap.mp (List.mem_of_mem_filter found)
  obtain ⟨submatches, -, rfl⟩ := map_eq_some_iff.mp applied
  obtain ⟨⟨pattern, i⟩, entry, rfl⟩ := List.mem_map.mp listed
  have place := List.snd_lt_of_mem_zipIdx entry
  exact lt_of_lt_of_le (by simpa using place) table.few

theorem Holds.readLines {table : Table}
    (holds : Holds table.toLayout job slots opened) (lines : List Line)
    (roomy : table.Roomy opened (table.hits matchApply lines)) :
    ∃ after, tailMatchRead matchApply job lines = some after ∧
      Reached table.toLayout job slots (table.assemble opened (table.hits matchApply lines)) after := by
  have agrees : Agrees table.toLayout job slots (table.follow opened (table.hits matchApply lines))
      (tailMatchRead matchApply job lines) := holds.lines table.safe lines
  rw [table.follow_eq opened _ (table.hits_places matchApply lines) roomy] at agrees
  exact agrees

end NCollectd.MessageParser
