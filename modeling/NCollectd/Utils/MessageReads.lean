import NCollectd.Utils.MessageAssembly

namespace NCollectd.MessageParser

open Option

def done (outcomes : List Outcome) : List Message := outcomes.filterMap Outcome.message?

/-- No message is discarded before the first one that the read completes. -/
def Tidy : List Outcome → Prop
  | .discarded :: rest => done rest = []
  | _ => True

instance : (outcomes : List Outcome) → Decidable (Tidy outcomes)
  | [] => .isTrue trivial
  | .completed _ :: _ => .isTrue trivial
  | .discarded :: rest => inferInstanceAs (Decidable (done rest = []))

theorem leaves_of_filled (outcomes : List Outcome) (filled : slots ≠ []) :
    outcomes.foldl Outcome.leaves slots = slots ++ done outcomes := by
  induction outcomes generalizing slots with
  | nil => simp [done]
  | cons outcome rest ih =>
    cases outcome with
    | completed draft =>
      have more : slots ++ [draft.message true] ≠ [] := by simp
      rw [List.foldl_cons, Outcome.leaves, ih more]
      simp [done, Outcome.message?]
    | discarded =>
      rw [List.foldl_cons, Outcome.leaves, if_neg filled, ih filled]
      rfl

theorem leaves_completed (draft : Draft) (rest : List Outcome) :
    (Outcome.completed draft :: rest).foldl Outcome.leaves [] = done (.completed draft :: rest) := by
  have filled : Outcome.leaves [] (.completed draft) ≠ [] := by simp [Outcome.leaves]
  exact leaves_of_filled rest filled

theorem leaves_discarded (rest : List Outcome) :
    (Outcome.discarded :: rest).foldl Outcome.leaves [] = .zero :: done rest := by
  have filled : Outcome.leaves [] .discarded ≠ [] := by simp [Outcome.leaves]
  exact leaves_of_filled rest filled

theorem take_leaves_iff (outcomes : List Outcome) :
    (outcomes.foldl Outcome.leaves []).take (done outcomes).length = done outcomes ↔ Tidy outcomes := by
  cases outcomes with
  | nil => simp [done, Tidy]
  | cons outcome rest =>
    cases outcome with
    | completed draft =>
      rw [leaves_completed, List.take_length]
      simp [Tidy]
    | discarded =>
      have same : done (.discarded :: rest) = done rest := rfl
      rw [leaves_discarded, same, Tidy]
      cases found : done rest with
      | nil => simp
      | cons first others =>
        have member : first ∈ done rest := by simp [found]
        obtain ⟨outcome, -, kept⟩ := List.mem_filterMap.mp member
        refine iff_of_false (fun equal => ?_) (by simp)
        rw [List.length_cons, List.take_succ_cons] at equal
        have head := (List.cons.inj equal).1
        cases outcome with
        | completed draft =>
          have completed : first.completed = true := by
            rw [← some.inj kept]
            rfl
          rw [← head] at completed
          cases completed
        | discarded => cases kept

theorem leaves_of_done_nil (outcomes : List Outcome) (nothing : done outcomes = []) :
    outcomes.foldl Outcome.leaves [] = [] ∨ outcomes.foldl Outcome.leaves [] = [.zero] := by
  cases outcomes with
  | nil => exact .inl rfl
  | cons outcome rest =>
    cases outcome with
    | completed draft => simp [done, Outcome.message?] at nothing
    | discarded =>
      rw [leaves_discarded, show done rest = [] from nothing]
      exact .inr rfl

theorem Holds.reset (holds : Holds layout job slots opened) :
    ∃ fresh, resetStorage job = some (opened.isSome, fresh) ∧ Holds layout fresh [] opened ∧
      fresh.messagesCompleted = 0 ∧ fresh.messagesMaxLen = job.messagesMaxLen := by
  rw [resetStorage, holds.unfinished]
  have large := holds.large
  cases opened with
  | some draft =>
    obtain ⟨free, stored, index⟩ := holds.stored
    obtain ⟨size, sized⟩ : ∃ size, job.messagesMaxLen = size + 1 :=
      Nat.exists_eq_succ_of_ne_zero (ne_of_gt (lt_of_lt_of_le (by decide) large))
    simp only [isSome_some, if_true, bind_eq_bind, bind_some, current_at stored index]
    refine ⟨_, rfl, ?_, rfl, by simp [ParserJob.messagesMaxLen]⟩
    exact {
      startIdx := holds.startIdx
      stopIdx := holds.stopIdx
      patterns := holds.patterns
      storage := ⟨size, by simp [sized, List.replicate_succ]⟩
      index := by simp
      itemIdx := holds.itemIdx
      closed := by simp
      large := by simpa [ParserJob.messagesMaxLen] using large }
  | none =>
    simp only [isSome_none, Bool.false_eq_true, if_false, bind_eq_bind, bind_some]
    by_cases place : 0 ≤ job.messageIdx
    · rw [if_pos place]
      refine ⟨_, rfl, ?_, rfl, by simp [ParserJob.messagesMaxLen]⟩
      exact {
        startIdx := holds.startIdx
        stopIdx := holds.stopIdx
        patterns := holds.patterns
        storage := ⟨job.messagesMaxLen, by simp⟩
        index := by simp
        itemIdx := rfl
        closed := by simp
        large := by simpa [ParserJob.messagesMaxLen] using large }
    · have index := holds.index
      rw [if_neg place]
      have empty : slots = [] := by
        apply List.eq_nil_of_length_eq_zero
        simp only [toList_none, List.length_nil] at index
        omega
      subst empty
      refine ⟨_, rfl, ?_, rfl, rfl⟩
      exact {
        startIdx := holds.startIdx
        stopIdx := holds.stopIdx
        patterns := holds.patterns
        storage := holds.storage
        index := holds.index
        itemIdx := holds.itemIdx
        closed := holds.closed
        large := large }

theorem Holds.shrink (holds : Holds layout job slots none) (unused : slots = [] ∨ slots = [.zero]) :
    ∃ after, resizeMessageBuffer job msgStorInitLen = some after ∧ Holds layout after slots none ∧
      after.messagesCompleted = job.messagesCompleted := by
  have index := holds.index
  have first : job.messageIdx.toNat = 0 := by
    rcases unused with empty | single
    · simp only [empty, List.length_nil, toList_none] at index
      omega
    · simp only [single, List.length_singleton, toList_none, List.length_nil] at index
      omega
  rw [resizeMessageBuffer, first, if_pos (by simp)]
  refine ⟨_, rfl, ?_, rfl⟩
  exact {
    startIdx := holds.startIdx
    stopIdx := holds.stopIdx
    patterns := holds.patterns
    storage := by
      rcases unused with empty | single
      · exact ⟨msgStorInitLen, by simp [empty]⟩
      · exact ⟨msgStorInitLen - 1, by simp [single, msgStorInitLen, List.replicate_succ]⟩
    index := holds.index
    itemIdx := holds.itemIdx
    closed := holds.closed
    large := by simp [ParserJob.messagesMaxLen] }

theorem Holds.take (holds : Holds layout job slots opened) (count : Nat) (inside : count ≤ slots.length) :
    job.messagesStorage.take count = slots.take count := by
  obtain ⟨free, stored⟩ := holds.storage
  rw [stored, List.take_append_of_le_length inside]

section

variable {Line : Type} (matchApply : MessagePattern → Line → Option (List CString))

/-- No match finds the message full, none is discarded too early, and no unfinished one gets cleared. -/
structure Orderly (table : Table) (job : ParserJob) (opened : Option Draft) (tail : TailRead Line) : Prop where
  roomy : table.Roomy opened (table.hits matchApply tail.lines)
  tidy : Tidy (table.assemble opened (table.hits matchApply tail.lines)).2
  kept : tail.status = 0 → opened = none → msgStorInitLen < job.messagesMaxLen →
    done (table.assemble opened (table.hits matchApply tail.lines)).2 = [] →
    (table.assemble opened (table.hits matchApply tail.lines)).1 = none

/-- The condition holds at every read, in the state in which it begins. -/
def OrderlyReads (table : Table) : ParserJob → Option Draft → List (TailRead Line) → Prop
  | _, _, [] => True
  | job, opened, tail :: rest =>
    Orderly matchApply table job opened tail ∧
      ∀ result after, messageParserRead matchApply job tail = some (result, after) →
        OrderlyReads table after (table.assemble opened (table.hits matchApply tail.lines)).1 rest

/-- A read that succeeds returns the number of the messages and a storage that begins with them. -/
def Returns (tail : TailRead Line) (messages : List Message) (result : Int × Option (List Message)) : Prop :=
  if tail.status = 0 then
    ∃ storage, result = ((messages.length : Int), some storage) ∧ storage.take messages.length = messages
  else result.1 = -1

/-- Every read of the sequence returns the messages that were completed during it. -/
def ReturnsCompleted (table : Table) (job : ParserJob) (opened : Option Draft) (reads : List (TailRead Line)) : Prop :=
  ∃ results, messageParserReads matchApply job reads = some results ∧
    List.Forall₂ (fun entry result => Returns entry.1 entry.2 result)
      (reads.zip (table.completions matchApply opened reads)) results

variable {matchApply}

theorem Reached.finish (reached : Reached layout job [] ended after) (zero : job.messagesCompleted = 0)
    (kept : opened = none → msgStorInitLen < job.messagesMaxLen → done ended.2 = [] → ended.1 = none) :
    ∃ last, (if after.messagesCompleted = 0 ∧ msgStorInitLen < after.messagesMaxLen ∧ !opened.isSome then
        resizeMessageBuffer after msgStorInitLen else some after) = some last ∧
      Holds layout last (ended.2.foldl Outcome.leaves []) ended.1 ∧
      last.messagesCompleted = (done ended.2).length := by
  have number : after.messagesCompleted = (done ended.2).length := by
    rw [reached.counts.completed, zero, Nat.zero_add]
    rfl
  split
  · rename_i shrinks
    obtain ⟨nothing, enlarged, idle⟩ := shrinks
    have empty : done ended.2 = [] := List.eq_nil_of_length_eq_zero (number ▸ nothing)
    have unused := leaves_of_done_nil _ empty
    have short : ¬ msgStorInitLen ≤ (ended.2.foldl Outcome.leaves []).length := by
      rcases unused with same | same <;> rw [same] <;> decide
    have size := reached.counts.size.resolve_right short
    have outside : ended.1 = none :=
      kept (by simpa using idle) (size ▸ enlarged) empty
    have holds := reached.holds
    rw [outside] at holds ⊢
    obtain ⟨last, resized, holding, same⟩ := holds.shrink unused
    exact ⟨last, resized, holding, same.trans number⟩
  · exact ⟨after, rfl, reached.holds, number⟩

theorem Holds.read (holds : Holds table.toLayout job slots opened) (tail : TailRead Line)
    (orderly : Orderly matchApply table job opened tail) :
    ∃ result after final, messageParserRead matchApply job tail = some (result, after) ∧
      Returns tail (done (table.assemble opened (table.hits matchApply tail.lines)).2) result ∧
      Holds table.toLayout after final (table.assemble opened (table.hits matchApply tail.lines)).1 := by
  obtain ⟨fresh, reset, begun, zero, size⟩ := holds.reset
  obtain ⟨after, found, reached⟩ := begun.readLines tail.lines orderly.roomy
  rw [messageParserRead, reset]
  simp only [bind_eq_bind, bind_some, found]
  by_cases succeeds : tail.status = 0
  · obtain ⟨last, resized, holding, number⟩ :=
      reached.finish zero fun idle enlarged => orderly.kept succeeds idle (size ▸ enlarged)
    have kept := (take_leaves_iff _).mpr orderly.tidy
    have inside : (done (table.assemble opened (table.hits matchApply tail.lines)).2).length ≤
        ((table.assemble opened (table.hits matchApply tail.lines)).2.foldl Outcome.leaves []).length := by
      have length := congrArg List.length kept
      rw [List.length_take] at length
      omega
    rw [if_neg (not_not.mpr succeeds), resized]
    refine ⟨_, last, _, rfl, ?_, holding⟩
    rw [Returns, if_pos succeeds, number]
    exact ⟨last.messagesStorage, rfl, (holding.take _ inside).trans kept⟩
  · rw [if_pos succeeds]
    refine ⟨_, after, _, rfl, ?_, reached.holds⟩
    rw [Returns, if_neg succeeds]

theorem Layout.holds_init (layout : Layout) : Holds layout layout.init [] none where
  startIdx := rfl
  stopIdx := rfl
  patterns := rfl
  storage := ⟨msgStorInitLen, rfl⟩
  index := rfl
  itemIdx := rfl
  closed := by simp
  large := by simp [ParserJob.messagesMaxLen, Layout.init, messageParserInit]

theorem Holds.reads (holds : Holds table.toLayout job slots opened) (reads : List (TailRead Line))
    (orderly : OrderlyReads matchApply table job opened reads) :
    ReturnsCompleted matchApply table job opened reads := by
  induction reads generalizing job slots opened with
  | nil => exact ⟨[], rfl, .nil⟩
  | cons tail rest ih =>
    obtain ⟨result, after, final, called, returns, holding⟩ := holds.read tail orderly.1
    obtain ⟨results, others, all⟩ := ih holding (orderly.2 result after called)
    refine ⟨result :: results, ?_, ?_⟩
    · rw [messageParserReads, called]
      simp [others]
    · exact .cons returns all

/-- Each read returns the messages that were completed during it, in order. -/
theorem message_parser_returns_completed (table : Table) (reads : List (TailRead Line))
    (orderly : OrderlyReads matchApply table table.init none reads) :
    ReturnsCompleted matchApply table table.init none reads :=
  table.holds_init.reads reads orderly

end

def literalMatch (pattern : MessagePattern) (line : CString) : Option (List CString) :=
  if pattern.regex = line then some [line] else none

def literalPattern (word : String) : MessagePattern := ⟨word.toList, word.toList, 0, none, true, 0, 0⟩

def triggerTable : Table where
  patterns := [literalPattern "START", literalPattern "BANK", literalPattern "END"]
  startIdx := 0
  stopIdx := 2
  start := literalPattern "START"
  stop := literalPattern "END"
  few := by decide
  starts := rfl
  stops := rfl
  distinct := by decide

theorem message_parser_returns_carried :
    ReturnsCompleted literalMatch triggerTable triggerTable.init none
      [⟨["START", "BANK"], 0⟩, ⟨["END", "START", "END"], 0⟩] := by
  apply message_parser_returns_completed
  refine ⟨⟨by decide +kernel, by decide +kernel, ?_⟩, fun result after called =>
    ⟨⟨by decide +kernel, by decide +kernel, ?_⟩, fun _ _ _ => trivial⟩⟩
  · intro _ _ enlarged
    exact absurd enlarged (by decide +kernel)
  · intro _ idle
    have inside : (triggerTable.assemble none
        (triggerTable.hits literalMatch ["START", "BANK"])).1.isSome = true := by decide +kernel
    rw [idle] at inside
    cases inside

theorem message_parser_discarded_keeps_slot :
    ¬ ReturnsCompleted literalMatch triggerTable triggerTable.init none
      [⟨["START", "END", "START", "BANK", "END"], 0⟩] := by
  rintro ⟨results, called, returned⟩
  have first : (messageParserReads literalMatch triggerTable.init
      [⟨["START", "END", "START", "BANK", "END"], 0⟩]).map
        (fun results => results.map fun result => result.2.map (List.take 1)) = some [some [.zero]] := by
    decide +kernel
  have completed : triggerTable.completions literalMatch none
      [⟨["START", "END", "START", "BANK", "END"], 0⟩] =
        [[Draft.message ⟨[⟨"START", "START", 0, 0⟩, ⟨"BANK", "BANK", 0, 0⟩,
          ⟨"END", "END", 0, 0⟩], [2, 1, 0]⟩ true]] := by
    decide +kernel
  rw [called, map_some] at first
  rw [completed] at returned
  cases returned with
  | cons returns rest =>
    cases rest
    obtain ⟨storage, rfl, taken⟩ := returns
    have head := some.inj (List.cons.inj (some.inj first)).1
    have same := head.symm.trans taken
    exact absurd same (by decide +kernel)

end NCollectd.MessageParser
