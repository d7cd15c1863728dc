import NCollectd.Base.Libc

/-! The chains of `filter_chain.c` and their processing. -/

namespace NCollectd.Filter

def FC_MATCH_MATCHES : Status := 1

def FC_TARGET_CONTINUE : Status := 0
def FC_TARGET_STOP : Status := 1
def FC_TARGET_RETURN : Status := 2

structure FcMatch (α : Type) where
  name : CString
  userData : α

/-- What a target invokes, with its user data: a built-in target or a target of a plugin. -/
inductive TargetProc (α : Type) where
  | bitJump (chainName : CString)
  | bitStop
  | bitReturn
  | bitWrite (plugins : List CString)
  | plugin (userData : α)

structure FcTarget (α : Type) where
  name : CString
  proc : TargetProc α

/-- `fc_rule_t`. No rule is made without a target. -/
structure FcRule (α : Type) where
  name : CString
  matchList : List (FcMatch α)
  targets : List (FcTarget α)
  targeted : targets ≠ []

structure FcChain (α : Type) where
  name : CString
  rules : List (FcRule α)
  targets : List (FcTarget α)

/-- A call that is made while a family is dispatched, with the status it returned. -/
inductive Call (α : Type) where
  | tested (userData : α) (status : Status)
  | invoked (userData : α) (status : Status)
  | jumped (chainName : CString)
  | stopped
  | returned
  | written (plugin : Option CString) (status : Status)
  | updated (status : Status)
deriving DecidableEq

/-- The state of the callbacks and the calls that were made. -/
structure World (σ α : Type) where
  state : σ
  calls : List (Call α)

/-- What the callbacks of plugins answer and change. -/
structure Environment (σ α : Type) where
  test : α → σ → Status × σ
  invoke : α → σ → Status × σ
  pluginWrite : Option CString → σ → Status × σ
  ucUpdate : σ → Status × σ

variable {σ α : Type}

def World.record (w : World σ α) (call : Call α) : World σ α := ⟨w.state, w.calls ++ [call]⟩

def World.call (w : World σ α) (run : σ → Status × σ) (call : Status → Call α) : Status × World σ α :=
  ((run w.state).1, ⟨(run w.state).2, w.calls ++ [call (run w.state).1]⟩)

section Process

variable (env : Environment σ α) (chains : List (FcChain α))

def fcChainGetByName : Option CString → Option (FcChain α)
  | none => none
  | some chainName => chains.find? fun chain => strcasecmp chainName chain.name == 0

def fcBitWriteInvoke (plugins : List CString) (w : World σ α) : Status × World σ α :=
  match plugins with
  | [] => (FC_TARGET_CONTINUE, (w.call (env.pluginWrite none) (.written none)).2)
  | _ :: _ =>
    (FC_TARGET_CONTINUE,
      plugins.foldl (fun w plugin => (w.call (env.pluginWrite (some plugin)) (.written (some plugin))).2) w)

def fcDefaultAction (w : World σ α) : Status × World σ α := fcBitWriteInvoke env [] w

def fcBitJumpInvoke (process : Option (FcChain α) → World σ α → Option (Status × World σ α)) (chainName : CString)
    (w : World σ α) : Option (Status × World σ α) :=
  match fcChainGetByName chains (some chainName) with
  | none => some (-1, w)
  | some chain =>
    (process (some chain) w).map fun result =>
      if result.1 < 0 then result
      else if result.1 = FC_TARGET_STOP then (FC_TARGET_STOP, result.2)
      else (FC_TARGET_CONTINUE, result.2)

def invokeTarget (process : Option (FcChain α) → World σ α → Option (Status × World σ α)) (target : FcTarget α)
    (w : World σ α) : Option (Status × World σ α) :=
  match target.proc with
  | .bitJump chainName => fcBitJumpInvoke chains process chainName (w.record (.jumped chainName))
  | .bitStop => some (FC_TARGET_STOP, w.record .stopped)
  | .bitReturn => some (FC_TARGET_RETURN, w.record .returned)
  | .bitWrite plugins => some (fcBitWriteInvoke env plugins w)
  | .plugin userData => some (w.call (env.invoke userData) (.invoked userData))

def matchLoop : Status → List (FcMatch α) → World σ α → (Bool × Status) × World σ α
  | status, [], w => ((true, status), w)
  | _, m :: rest, w =>
    let result := w.call (env.test m.userData) (.tested m.userData)
    if result.1 < 0 then ((false, result.1), result.2)
    else if result.1 ≠ FC_MATCH_MATCHES then ((false, result.1), result.2)
    else matchLoop result.1 rest result.2

def targetLoop (invoke : FcTarget α → World σ α → Option (Status × World σ α)) :
    Status → List (FcTarget α) → World σ α → Option ((Status × List (FcTarget α)) × World σ α)
  | status, [], w => some ((status, []), w)
  | _, target :: rest, w =>
    (invoke target w).bind fun result =>
      if result.1 < 0 then targetLoop invoke result.1 rest result.2
      else if result.1 = FC_TARGET_CONTINUE then targetLoop invoke result.1 rest result.2
      else if result.1 = FC_TARGET_STOP then some ((result.1, target :: rest), result.2)
      else if result.1 = FC_TARGET_RETURN then some ((result.1, target :: rest), result.2)
      else targetLoop invoke result.1 rest result.2

def ruleLoop (invoke : FcTarget α → World σ α → Option (Status × World σ α)) :
    Status → List (FcRule α) → World σ α → Option (Status × World σ α)
  | status, [], w => some (status, w)
  | _, rule :: rest, w =>
    let tested := matchLoop env FC_TARGET_CONTINUE rule.matchList w
    if tested.1.1 then
      (targetLoop invoke tested.1.2 rule.targets tested.2).bind fun result =>
        if result.1.1 = FC_TARGET_STOP ∨ result.1.1 = FC_TARGET_RETURN then some (result.1.1, result.2)
        else ruleLoop invoke result.1.1 rest result.2
    else ruleLoop invoke FC_TARGET_CONTINUE rest tested.2

def defaultTargets (invoke : FcTarget α → World σ α → Option (Status × World σ α)) (targets : List (FcTarget α))
    (w : World σ α) : Option (Status × World σ α) :=
  (targetLoop invoke FC_TARGET_CONTINUE targets w).bind fun result =>
    if result.1.1 = FC_TARGET_STOP ∨ result.1.1 = FC_TARGET_RETURN then
      if result.1.2 = [] then none
      else if result.1.1 = FC_TARGET_STOP then some (FC_TARGET_STOP, result.2)
      else some (FC_TARGET_CONTINUE, result.2)
    else some (FC_TARGET_CONTINUE, result.2)

def fcProcessChain : Nat → Option (FcChain α) → World σ α → Option (Status × World σ α)
  | 0, _, _ => none
  | _ + 1, none, w => some (-1, w)
  | depth + 1, some chain, w =>
    let invoke := invokeTarget env chains (fcProcessChain depth)
    (ruleLoop env invoke FC_TARGET_CONTINUE chain.rules w).bind fun result =>
      if result.1 = FC_TARGET_STOP ∨ result.1 = FC_TARGET_RETURN then some result
      else defaultTargets invoke chain.targets result.2

def pluginDispatchMetricInternal (depth : Nat) (preCacheChain postCacheChain : Option (FcChain α)) (famIsNull : Bool)
    (w : World σ α) : Option (Status × World σ α) :=
  if famIsNull then some (EINVAL, w)
  else
    let filtered : Option (Status × World σ α) := match preCacheChain with
      | none => some (0, w)
      | some chain => fcProcessChain env chains depth (some chain) w
    filtered.bind fun result =>
      if preCacheChain.isSome ∧ ¬ result.1 < 0 ∧ result.1 = FC_TARGET_STOP then some (0, result.2)
      else
        let updated := result.2.call env.ucUpdate .updated
        match postCacheChain with
        | some chain => (fcProcessChain env chains depth (some chain) updated.2).map fun processed => (0, processed.2)
        | none => some (0, (fcDefaultAction env updated.2).2)

end Process

end NCollectd.Filter
