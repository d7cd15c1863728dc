import NCollectd.Base.Libc

/-! The assembly of multi-line log messages in `utils/message_parser/message_parser.c`. -/

namespace NCollectd.MessageParser

/-- `message_pattern_t`. The two pointers are only passed on. -/
structure MessagePattern where
  name : CString
  regex : CString
  submatchIdx : Int
  excluderegex : Option CString
  isMandatory : Bool
  userData : Nat
  freeUserData : Nat
deriving DecidableEq, Repr

structure MessageItem where
  name : CString
  value : CString
  userData : Nat
  freeUserData : Nat
deriving DecidableEq, Repr

def MessageItem.zero : MessageItem := ⟨[], [], 0, 0⟩

structure Message where
  messageItems : List MessageItem
  matchedPatternsCheck : List Bool
  started : Bool
  completed : Bool
deriving DecidableEq, Repr

def messageSize : Nat := 32

def Message.zero : Message :=
  ⟨List.replicate messageSize .zero, List.replicate messageSize false, false, false⟩

def msgStorInitLen : Nat := 64

def msgStorIncStep : Nat := 10

/-- `parser_job_data_t` without its constant callbacks; `messages_max_len` is the length of the storage. -/
structure ParserJob where
  startIdx : Nat
  stopIdx : Nat
  messagesStorage : List Message
  messageIdx : Int
  messageItemIdx : Nat
  messagesCompleted : Nat
  messagePatterns : List MessagePattern
deriving DecidableEq, Repr

/-- `checked_match_t` without the pointer to the job. -/
structure CheckedMatch where
  msgPattern : MessagePattern
  msgPatternIdx : Nat
deriving DecidableEq, Repr

namespace ParserJob

def messagesMaxLen (job : ParserJob) : Nat := job.messagesStorage.length

def current (job : ParserJob) : Option Message :=
  if 0 ≤ job.messageIdx then job.messagesStorage[job.messageIdx.toNat]? else none

def setCurrent (job : ParserJob) (message : Message) : Option ParserJob :=
  job.current.map fun _ => { job with messagesStorage := job.messagesStorage.set job.messageIdx.toNat message }

def unfinished (job : ParserJob) : Option Bool :=
  if 0 ≤ job.messageIdx then job.current.map fun message => message.started && !message.completed else some false

end ParserJob

def messageItemAssembly (job : ParserJob) (cm : CheckedMatch) (submatches : List CString) : Option ParserJob := do
  let message ← job.current
  let value ← submatches[cm.msgPattern.submatchIdx.toNat]?
  let item : MessageItem :=
    ⟨sstrncpy cm.msgPattern.name 32, sstrncpy value 64, cm.msgPattern.userData, cm.msgPattern.freeUserData⟩
  if message.messageItems.length ≤ job.messageItemIdx then none
  else
    let job' ← job.setCurrent { message with messageItems := message.messageItems.set job.messageItemIdx item }
    some { job' with messageItemIdx := job.messageItemIdx + 1 }

def resizeMessageBuffer (job : ParserJob) (newSize : Nat) : Option ParserJob :=
  let unusedIdx := job.messageIdx.toNat
  if unusedIdx ≤ job.messagesMaxLen ∧ unusedIdx ≤ newSize then
    some { job with
      messagesStorage := job.messagesStorage.take unusedIdx ++ List.replicate (newSize - unusedIdx) .zero }
  else none

def takeSlot (job : ParserJob) : Option ParserJob := do
  let unfinished ← job.unfinished
  let job ← if unfinished then job.setCurrent .zero else some { job with messageIdx := job.messageIdx + 1 }
  if (job.messagesMaxLen : Int) ≤ job.messageIdx then
    resizeMessageBuffer job (job.messagesMaxLen + msgStorIncStep)
  else some job

def startMessageAssembly (job : ParserJob) : Option ParserJob := do
  let job ← takeSlot job
  let job ← job.setCurrent { Message.zero with started := true, completed := false }
  some { job with messageItemIdx := 0 }

def missesMandatory (check : List Bool) : List MessagePattern → Nat → Option Bool
  | [], _ => some false
  | pattern :: rest, i =>
    if pattern.isMandatory then
      match check[i]? with
      | none => none
      | some true => missesMandatory check rest (i + 1)
      | some false => some true
    else missesMandatory check rest (i + 1)

def endMessageAssembly (job : ParserJob) : Option ParserJob := do
  let message ← job.current
  let misses ← missesMandatory message.matchedPatternsCheck job.messagePatterns 0
  if misses then
    let job ← job.setCurrent .zero
    some { job with
      messageItemIdx := 0
      messageIdx := if 0 < job.messageIdx then job.messageIdx - 1 else job.messageIdx }
  else
    let job ← job.setCurrent { message with completed := true }
    some { job with messagesCompleted := job.messagesCompleted + 1, messageItemIdx := 0 }

def addMatch (job : ParserJob) (cm : CheckedMatch) (submatches : List CString) (stop : MessagePattern) :
    Option ParserJob :=
  if job.messageIdx < 0 then some job
  else do
    let message ← job.current
    if !message.started || message.completed then some job
    else
      let job ← (if 0 ≤ cm.msgPattern.submatchIdx then messageItemAssembly job cm submatches else some job)
      let message ← job.current
      if message.matchedPatternsCheck.length ≤ cm.msgPatternIdx then none
      else
        let job ← job.setCurrent
          { message with matchedPatternsCheck := message.matchedPatternsCheck.set cm.msgPatternIdx true }
        if cm.msgPattern.regex = stop.regex then endMessageAssembly job else some job

def messageAssembler (job : ParserJob) (cm : CheckedMatch) (submatches : List CString) :
    Option (Status × ParserJob) := do
  let start ← job.messagePatterns[job.startIdx]?
  let stop ← job.messagePatterns[job.stopIdx]?
  if cm.msgPattern.submatchIdx < -1 ∨ (submatches.length : Int) ≤ cm.msgPattern.submatchIdx then
    some (-1, job)
  else if messageSize ≤ job.messageItemIdx then
    let job ← endMessageAssembly job
    some (-1, job)
  else
    let job ← (if cm.msgPattern.regex = start.regex then startMessageAssembly job else some job)
    let job ← addMatch job cm submatches stop
    some (0, job)

def messageParserInit (startIdx stopIdx : Nat) (messagePatterns : List MessagePattern) : ParserJob where
  startIdx := startIdx
  stopIdx := stopIdx
  messagesStorage := List.replicate msgStorInitLen .zero
  messageIdx := -1
  messageItemIdx := 0
  messagesCompleted := 0
  messagePatterns := messagePatterns

section

variable {Line : Type} (matchApply : MessagePattern → Line → Option (List CString))

def tailCallback (job : ParserJob) (line : Line) : List CheckedMatch → Option ParserJob
  | [] => some job
  | cm :: rest =>
    match matchApply cm.msgPattern line with
    | none => tailCallback job line rest
    | some submatches => do
      let (_, job) ← messageAssembler job cm submatches
      tailCallback job line rest

def checkedMatches (messagePatterns : List MessagePattern) : List CheckedMatch :=
  messagePatterns.zipIdx.map fun (pattern, i) => ⟨pattern, i⟩

/-- What a call of `tail_match_read` finds: the new lines of the file and its status. -/
structure TailRead (Line : Type) where
  lines : List Line
  status : Status

def tailMatchRead (job : ParserJob) : List Line → Option ParserJob
  | [] => some job
  | line :: rest => do
    let job ← tailCallback matchApply job line (checkedMatches job.messagePatterns)
    tailMatchRead job rest

def resetStorage (job : ParserJob) : Option (Bool × ParserJob) := do
  let unfinished ← job.unfinished
  let cleared := List.replicate job.messagesMaxLen Message.zero
  if unfinished then
    let message ← job.current
    some (true, { job with messagesCompleted := 0, messagesStorage := cleared.set 0 message, messageIdx := 0 })
  else if 0 ≤ job.messageIdx then
    some (false, { job with
      messagesCompleted := 0, messagesStorage := cleared, messageItemIdx := 0, messageIdx := -1 })
  else some (false, { job with messagesCompleted := 0 })

def messageParserRead (job : ParserJob) (tail : TailRead Line) :
    Option ((Int × Option (List Message)) × ParserJob) := do
  let (incompleteMsgFound, job) ← resetStorage job
  let job ← tailMatchRead matchApply job tail.lines
  if tail.status ≠ 0 then some ((-1, none), job)
  else
    let job ← (if job.messagesCompleted = 0 ∧ msgStorInitLen < job.messagesMaxLen ∧ !incompleteMsgFound then
        resizeMessageBuffer job msgStorInitLen
      else some job)
    some ((job.messagesCompleted, some job.messagesStorage), job)

def messageParserReads (job : ParserJob) : List (TailRead Line) → Option (List (Int × Option (List Message)))
  | [] => some []
  | tail :: rest => do
    let (result, job) ← messageParserRead matchApply job tail
    let results ← messageParserReads job rest
    some (result :: results)

end

end NCollectd.MessageParser
