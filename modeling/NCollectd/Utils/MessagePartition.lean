import NCollectd.Utils.MessageReads

namespace NCollectd.MessageParser

open Option

variable {layout : Layout}
variable {hits : List Hit}

def Layout.AllOptional (layout : Layout) : Prop := ∀ pattern ∈ layout.patterns, pattern.isMandatory = false

instance (layout : Layout) : Decidable layout.AllOptional :=
  inferInstanceAs (Decidable (∀ pattern ∈ layout.patterns, pattern.isMandatory = false))

theorem Layout.AllOptional.safe (optional : layout.AllOptional) : layout.Safe := by
  intro entry listed mandatory
  rw [optional entry.1 (List.fst_mem_of_mem_zipIdx listed)] at mandatory
  cases mandatory

theorem Layout.AllOptional.outcome_eq (optional : layout.AllOptional) (draft : Draft) :
    layout.outcome draft = .completed draft := by
  refine if_pos fun entry listed mandatory => ?_
  rw [optional entry.1 (List.fst_mem_of_mem_zipIdx listed)] at mandatory
  cases mandatory

/-- No message is discarded. -/
def Kept (outcomes : List Outcome) : Prop := ∀ outcome ∈ outcomes, outcome ≠ .discarded

theorem Kept.tidy (kept : Kept outcomes) : Tidy outcomes := by
  cases outcomes with
  | nil => trivial
  | cons outcome rest =>
    cases outcome with
    | completed draft => trivial
    | discarded => exact absurd rfl (kept .discarded (List.mem_cons_self ..))

theorem Layout.AllOptional.advance_kept (optional : layout.AllOptional)
    (advanced : layout.advance opened hit = some ended) : Kept ended.2 := by
  rw [Layout.advance] at advanced
  have single (draft : Draft) : Kept [layout.outcome draft] := by
    rw [optional.outcome_eq]
    intro outcome member
    rw [List.mem_singleton.mp member]
    exact Outcome.noConfusion
  have none : Kept [] := List.forall_mem_nil _
  split at advanced
  · cases advanced
    exact single _
  · split at advanced
    · cases advanced
      exact none
    · split at advanced
      · cases advanced
      · split at advanced
        · cases advanced
          exact single _
        · cases advanced
          exact none

theorem Layout.AllOptional.follow_kept (optional : layout.AllOptional)
    (followed : layout.follow opened hits = some ended) : Kept ended.2 := by
  induction hits generalizing opened ended with
  | nil =>
    cases followed
    exact List.forall_mem_nil _
  | cons hit rest ih =>
    obtain ⟨step, advanced, later⟩ := bind_eq_some_iff.mp followed
    obtain ⟨last, others, rfl⟩ := map_eq_some_iff.mp later
    exact List.forall_mem_append.mpr ⟨optional.advance_kept advanced, ih others⟩

/-- A job between two reads. -/
structure Ready (layout : Layout) (job : ParserJob) (opened : Option Draft) : Prop where
  unfinished : job.unfinished = some opened.isSome
  reset : ∃ fresh, resetStorage job = some (opened.isSome, fresh) ∧ Holds layout fresh [] opened ∧
    fresh.messagesCompleted = 0 ∧ fresh.messagesMaxLen = job.messagesMaxLen

theorem Holds.ready (holds : Holds layout job slots opened) : Ready layout job opened :=
  ⟨holds.unfinished, holds.reset⟩

theorem Holds.wipe (holds : Holds layout job [] (some draft)) :
    ∃ after, resizeMessageBuffer job msgStorInitLen = some after ∧ Ready layout after none ∧
      after.messagesCompleted = job.messagesCompleted := by
  obtain ⟨free, stored, index⟩ := holds.stored
  have first : job.messageIdx.toNat = 0 := by rw [index]; rfl
  rw [resizeMessageBuffer, first, if_pos (by simp)]
  refine ⟨_, rfl, ⟨?_, ?_⟩, rfl⟩
  · simp [ParserJob.unfinished, ParserJob.current, index, msgStorInitLen, Message.zero]
  · refine ⟨{ job with
      messagesCompleted := 0
      messagesStorage := List.replicate msgStorInitLen .zero
      messageItemIdx := 0
      messageIdx := -1 }, ?_, ?_, rfl, by simp [ParserJob.messagesMaxLen]⟩
    · simp [resetStorage, ParserJob.unfinished, ParserJob.current, index, msgStorInitLen, Message.zero,
        ParserJob.messagesMaxLen]
    · exact {
        startIdx := holds.startIdx
        stopIdx := holds.stopIdx
        patterns := holds.patterns
        storage := ⟨msgStorInitLen, rfl⟩
        index := rfl
        itemIdx := rfl
        closed := List.forall_mem_nil _
        large := by simp [ParserJob.messagesMaxLen] }

/-- The message at the end of a read that gets cleared: the buffer had grown, and none was completed. -/
def Layout.wiped (layout : Layout) (job : ParserJob) (hits : List Hit) : Option Draft :=
  if job.unfinished = some false ∧ msgStorInitLen < job.messagesMaxLen then
    match layout.follow none hits with
    | some (some draft, []) => some draft
    | _ => none
  else none

def Layout.carried (layout : Layout) (job : ParserJob) (hits : List Hit) (last : Option Draft) : Option Draft :=
  if (layout.wiped job hits).isSome then none else last

theorem Kept.eq_nil (kept : Kept outcomes) (nothing : done outcomes = []) : outcomes = [] := by
  cases outcomes with
  | nil => rfl
  | cons outcome rest =>
    cases outcome with
    | completed draft => simp [done, Outcome.message?] at nothing
    | discarded => exact absurd rfl (kept .discarded (List.mem_cons_self ..))

theorem Layout.wiped_eq_some (wipes : layout.wiped job hits = some draft) :
    job.unfinished = some false ∧ msgStorInitLen < job.messagesMaxLen ∧
      layout.follow none hits = some (some draft, []) := by
  rw [Layout.wiped] at wipes
  grind

theorem Layout.last_eq_none (spared : layout.wiped job hits = none) (idle : job.unfinished = some false)
    (enlarged : msgStorInitLen < job.messagesMaxLen) (followed : layout.follow none hits = some (last, [])) :
    last = none := by
  cases last with
  | none => rfl
  | some draft =>
    rw [Layout.wiped, if_pos ⟨idle, enlarged⟩, followed] at spared
    cases spared

section

variable {Line : Type} {matchApply : MessagePattern → Line → Option (List CString)}

theorem Reached.wipe (reached : Reached layout fresh [] (some draft, []) after) (zero : fresh.messagesCompleted = 0)
    (enlarged : msgStorInitLen < fresh.messagesMaxLen) :
    ∃ final, (if after.messagesCompleted = 0 ∧ msgStorInitLen < after.messagesMaxLen ∧
        !(none : Option Draft).isSome then resizeMessageBuffer after msgStorInitLen else some after) = some final ∧
      Ready layout final none ∧ final.messagesCompleted = 0 := by
  have number : after.messagesCompleted = 0 := by
    rw [reached.counts.completed, zero]
    rfl
  have size : after.messagesMaxLen = fresh.messagesMaxLen :=
    reached.counts.size.resolve_right (show ¬ msgStorInitLen ≤ 0 by decide)
  obtain ⟨final, resized, ready, same⟩ := Holds.wipe reached.holds
  refine ⟨final, ?_, ready, same.trans number⟩
  rw [if_pos ⟨number, size ▸ enlarged, rfl⟩, resized]

theorem Ready.read (ready : Ready layout job opened) (optional : layout.AllOptional) (lines : List Line)
    (followed : layout.follow opened (layout.hits matchApply lines) = some (last, outcomes)) :
    ∃ (storage : List Message) (after : ParserJob), messageParserRead matchApply job ⟨lines, 0⟩ =
        some ((((done outcomes).length : Int), some storage), after) ∧
      storage.take (done outcomes).length = done outcomes ∧
      Ready layout after (layout.carried job (layout.hits matchApply lines) last) := by
  obtain ⟨fresh, reset, begun, zero, size⟩ := ready.reset
  have agrees : Agrees layout fresh [] (layout.follow opened (layout.hits matchApply lines))
    (tailMatchRead matchApply fresh lines) := begun.lines optional.safe lines
  rw [followed] at agrees
  obtain ⟨after, found, reached⟩ := agrees
  rw [messageParserRead, reset]
  simp only [bind_eq_bind, bind_some, found, ne_eq, not_true_eq_false, if_false]
  cases wipes : layout.wiped job (layout.hits matchApply lines) with
  | some draft =>
    obtain ⟨idle, enlarged, begins⟩ := Layout.wiped_eq_some wipes
    have outside : opened = none := by simpa [ready.unfinished] using idle
    subst outside
    cases followed.symm.trans begins
    obtain ⟨final, resized, rested, nothing⟩ := reached.wipe zero (size ▸ enlarged)
    rw [resized, Layout.carried, wipes]
    refine ⟨final.messagesStorage, final, ?_, rfl, rested⟩
    simp [nothing, done]
  | none =>
    have kept : Kept outcomes := optional.follow_kept followed
    have stays : opened = none → msgStorInitLen < fresh.messagesMaxLen → done outcomes = [] → last = none := by
      intro outside enlarged nothing
      subst outside
      rw [kept.eq_nil nothing] at followed
      exact Layout.last_eq_none wipes ready.unfinished (size ▸ enlarged) followed
    obtain ⟨final, resized, holding, number⟩ := reached.finish zero stays
    have first := (take_leaves_iff outcomes).mpr kept.tidy
    have inside : (done outcomes).length ≤ (outcomes.foldl Outcome.leaves []).length := by
      have length := congrArg List.length first
      rw [List.length_take] at length
      omega
    rw [resized, Layout.carried, wipes]
    refine ⟨final.messagesStorage, final, ?_, (holding.take _ inside).trans first, holding.ready⟩
    simp [number]

theorem Ready.undefined (ready : Ready layout job opened) (optional : layout.AllOptional) (lines : List Line)
    (followed : layout.follow opened (layout.hits matchApply lines) = none) :
    messageParserRead matchApply job ⟨lines, 0⟩ = none := by
  obtain ⟨fresh, reset, begun, -⟩ := ready.reset
  have agrees : Agrees layout fresh [] (layout.follow opened (layout.hits matchApply lines))
    (tailMatchRead matchApply fresh lines) := begun.lines optional.safe lines
  rw [followed] at agrees
  have found : tailMatchRead matchApply fresh lines = none := agrees
  rw [messageParserRead, reset]
  simp [found]

variable (matchApply)

def delivered (results : List (Int × Option (List Message))) : List Message :=
  results.flatMap fun result => (result.2.getD []).take result.1.toNat

def messagesFrom (job : ParserJob) (reads : List (List Line)) : Option (List Message) :=
  (messageParserReads matchApply job (reads.map fun lines => ⟨lines, 0⟩)).map delivered

/-- Cut into these reads, the lines give the messages that their matches complete, as they do in a single read. -/
def CutAnyway (layout : Layout) (reads : List (List Line)) : Prop :=
  ∃ last outcomes, layout.follow none (layout.hits matchApply reads.flatten) = some (last, outcomes) ∧
    messagesFrom matchApply layout.init [reads.flatten] = some (done outcomes) ∧
    messagesFrom matchApply layout.init reads = some (done outcomes)

/-- A message under assembly that does not change what some matches complete. -/
def Layout.Idle (layout : Layout) (draft : Draft) (hits : List Hit) : Prop :=
  (layout.follow (some draft) hits).map (fun ended => done ended.2) =
    (layout.follow none hits).map fun ended => done ended.2

/-- No read clears a message that the lines of the later reads would complete. -/
def NothingLost (layout : Layout) : ParserJob → List (List Line) → Prop
  | _, [] => True
  | job, lines :: rest =>
    (∀ draft, layout.wiped job (layout.hits matchApply lines) = some draft →
      layout.Idle draft (layout.hits matchApply rest.flatten)) ∧
    ∀ result after, messageParserRead matchApply job ⟨lines, 0⟩ = some (result, after) →
      NothingLost layout after rest

def staysSmall (job : ParserJob) : List (List Line) → Bool
  | [] => true
  | lines :: rest =>
    job.messagesMaxLen ≤ msgStorInitLen && (messageParserRead matchApply job ⟨lines, 0⟩).all fun result =>
      staysSmall result.2 rest

variable {matchApply}

theorem nothingLost_of_staysSmall (layout : Layout) (reads : List (List Line))
    (small : staysSmall matchApply job reads = true) : NothingLost matchApply layout job reads := by
  induction reads generalizing job with
  | nil => trivial
  | cons lines rest ih =>
    obtain ⟨initial, later⟩ := Bool.and_eq_true_iff.mp small
    refine ⟨fun draft wipes => ?_, fun result after called => ?_⟩
    · exact absurd (Layout.wiped_eq_some wipes).2.1 (Nat.not_lt.mpr (of_decide_eq_true initial))
    · rw [called] at later
      exact ih later

theorem messagesFrom_cons
    (called : messageParserRead matchApply job ⟨lines, 0⟩ = some ((number, some storage), after)) :
    messagesFrom matchApply job (lines :: rest) =
      (messagesFrom matchApply after rest).map (storage.take number.toNat ++ ·) := by
  rw [messagesFrom, List.map_cons, messageParserReads, called, messagesFrom]
  simp only [bind_eq_bind, bind_some]
  cases messageParserReads matchApply after (rest.map fun lines => ⟨lines, 0⟩) <;> rfl

theorem Layout.follow_done (layout : Layout) (opened : Option Draft) (first second : List Hit) :
    (layout.follow opened (first ++ second)).map (fun ended => done ended.2) =
      (layout.follow opened first).bind fun step =>
        ((layout.follow step.1 second).map fun ended => done ended.2).map (done step.2 ++ ·) := by
  rw [layout.follow_append]
  cases layout.follow opened first with
  | none => rfl
  | some step =>
    rw [bind_some, bind_some]
    cases layout.follow step.1 second with
    | none => rfl
    | some ended => simp [done]

/-- The reads return the messages that all lines complete. -/
theorem Ready.returns (ready : Ready layout job opened) (optional : layout.AllOptional) (reads : List (List Line))
    (safe : NothingLost matchApply layout job reads)
    (complete : (layout.follow opened (layout.hits matchApply reads.flatten)).map (fun ended => done ended.2) =
      some messages) :
    messagesFrom matchApply job reads = some messages := by
  induction reads generalizing job opened messages with
  | nil => exact complete
  | cons lines rest ih =>
    rw [Layout.hits, List.flatten_cons, List.flatMap_append, layout.follow_done] at complete
    obtain ⟨⟨last, outcomes⟩, followed, later⟩ := bind_eq_some_iff.mp complete
    obtain ⟨others, remaining, rfl⟩ := map_eq_some_iff.mp later
    obtain ⟨storage, after, called, taken, next⟩ := ready.read optional lines followed
    rw [messagesFrom_cons called, Int.toNat_natCast, taken]
    have spared := safe.2 _ _ called
    suffices rest_complete : (layout.follow (layout.carried job (layout.hits matchApply lines) last)
        (layout.hits matchApply rest.flatten)).map (fun ended => done ended.2) = some others by
      rw [ih next spared rest_complete]
      rfl
    rw [Layout.carried]
    cases wipes : layout.wiped job (layout.hits matchApply lines) with
    | none => exact remaining
    | some draft =>
      obtain ⟨idle, -, begins⟩ := Layout.wiped_eq_some wipes
      have outside : opened = none := by simpa [ready.unfinished] using idle
      subst outside
      cases followed.symm.trans begins
      exact (safe.1 draft wipes).symm.trans remaining

/-- A single read of all lines finds the buffer at its initial size. -/
theorem Layout.single_read (layout : Layout) (optional : layout.AllOptional) (lines : List Line) :
    messagesFrom matchApply layout.init [lines] =
      (layout.follow none (layout.hits matchApply lines)).map fun ended => done ended.2 := by
  cases followed : layout.follow none (layout.hits matchApply lines) with
  | none =>
    have undefined := layout.holds_init.ready.undefined optional lines followed
    rw [messagesFrom, List.map_cons, messageParserReads, undefined]
    rfl
  | some ended =>
    refine layout.holds_init.ready.returns optional [lines] (nothingLost_of_staysSmall layout [lines] ?_) ?_
    · have initial : layout.init.messagesMaxLen = msgStorInitLen := List.length_replicate
      simp [staysSmall, initial]
    · rw [List.flatten_singleton, followed]
      rfl

/-- Cut in any way, the lines give the messages that they give in a single read. -/
theorem message_parser_cut_anyway (layout : Layout) (optional : layout.AllOptional) (reads : List (List Line))
    (placed : (layout.follow none (layout.hits matchApply reads.flatten)).isSome = true)
    (kept : NothingLost matchApply layout layout.init reads) : CutAnyway matchApply layout reads := by
  obtain ⟨⟨last, outcomes⟩, followed⟩ := isSome_iff_exists.mp placed
  refine ⟨last, outcomes, followed, ?_, ?_⟩
  · rw [layout.single_read optional, followed]
    rfl
  · refine layout.holds_init.ready.returns optional reads kept ?_
    rw [followed]
    rfl

end

def optionalPattern (word : String) : MessagePattern := { literalPattern word with isMandatory := false }

def optionalLayout : Layout where
  patterns := [optionalPattern "START", optionalPattern "END"]
  startIdx := 0
  stopIdx := 1
  start := optionalPattern "START"
  stop := optionalPattern "END"
  starts := rfl
  stops := rfl

theorem message_parser_cut_inside :
    CutAnyway literalMatch optionalLayout
      [["START"], ["END", "START"], [], ["END"]] := by
  refine message_parser_cut_anyway optionalLayout (by decide) _ (by decide +kernel) ?_
  apply nothingLost_of_staysSmall
  decide +kernel

def crowdedReads : List (List CString) :=
  [(List.replicate 65 ["START".toList, "END".toList]).flatten, ["START"], ["END"]]

theorem message_parser_cut_loses_message :
    optionalLayout.AllOptional ∧
    (messagesFrom literalMatch optionalLayout.init [crowdedReads.flatten]).map List.length = some 66 ∧
    (messagesFrom literalMatch optionalLayout.init crowdedReads).map List.length = some 65 ∧
    ¬ CutAnyway literalMatch optionalLayout crowdedReads := by
  have all : (messagesFrom literalMatch optionalLayout.init [crowdedReads.flatten]).map List.length = some 66 := by
    decide +kernel
  have fewer : (messagesFrom literalMatch optionalLayout.init crowdedReads).map List.length = some 65 := by
    decide +kernel
  refine ⟨by decide, all, fewer, ?_⟩
  rintro ⟨_, outcomes, _, whole, cut⟩
  rw [whole] at all
  rw [cut] at fewer
  exact absurd (all.symm.trans fewer) (by decide)

end NCollectd.MessageParser
