import NCollectd.Filter.Chain

/-! What the loops of `fc_process_chain` do, as relations. -/

namespace NCollectd.Filter

open Option

variable {σ α : Type}
variable {invoke larger : FcTarget α → World σ α → Option (Status × World σ α)}

/-- The statuses that end a loop over targets. -/
abbrev Signals (status : Status) : Prop := status = FC_TARGET_STOP ∨ status = FC_TARGET_RETURN

def settle (status : Status) : Status := if Signals status then status else FC_TARGET_CONTINUE

@[simp] theorem settle_of_signals (signals : Signals status) : settle status = status := if_pos signals

@[simp] theorem settle_of_quiet (quiet : ¬ Signals status) : settle status = FC_TARGET_CONTINUE := if_neg quiet

theorem quiet_continue : ¬ Signals FC_TARGET_CONTINUE := by decide

theorem quiet_of_settle (settled : settle status = FC_TARGET_CONTINUE) : ¬ Signals status := by
  intro signals
  rw [settle_of_signals signals] at settled
  exact quiet_continue (settled ▸ signals)

theorem signals_of_settle (settled : settle status = last) (signals : Signals last) : status = last := by
  by_cases quiet : Signals status
  · rwa [settle_of_signals quiet] at settled
  · rw [settle_of_quiet quiet] at settled
    exact absurd (settled ▸ signals) quiet_continue

inductive TargetsRun (invoke : FcTarget α → World σ α → Option (Status × World σ α)) :
    List (FcTarget α) → World σ α → Status → World σ α → Prop where
  | done : TargetsRun invoke [] w FC_TARGET_CONTINUE w
  | signalled (called : invoke target w = some (status, w')) (signals : Signals status) :
      TargetsRun invoke (target :: rest) w status w'
  | passed (called : invoke target w = some (status, w')) (quiet : ¬ Signals status)
      (later : TargetsRun invoke rest w' last w'') : TargetsRun invoke (target :: rest) w last w''

inductive RulesRun (env : Environment σ α) (invoke : FcTarget α → World σ α → Option (Status × World σ α)) :
    List (FcRule α) → World σ α → Status → World σ α → Prop where
  | done : RulesRun env invoke [] w FC_TARGET_CONTINUE w
  | skipped (unmatched : matchLoop env FC_TARGET_CONTINUE rule.matchList w = ((false, status), w'))
      (later : RulesRun env invoke rest w' last w'') : RulesRun env invoke (rule :: rest) w last w''
  | passed (matched : matchLoop env FC_TARGET_CONTINUE rule.matchList w = ((true, status), w₁))
      (ran : TargetsRun invoke rule.targets w₁ FC_TARGET_CONTINUE w₂)
      (later : RulesRun env invoke rest w₂ last w₃) : RulesRun env invoke (rule :: rest) w last w₃
  | signalled (matched : matchLoop env FC_TARGET_CONTINUE rule.matchList w = ((true, status), w₁))
      (ran : TargetsRun invoke rule.targets w₁ last w₂) (signals : Signals last) :
      RulesRun env invoke (rule :: rest) w last w₂

inductive ChainRun (env : Environment σ α) (invoke : FcTarget α → World σ α → Option (Status × World σ α))
    (chain : FcChain α) (w : World σ α) : Status → World σ α → Prop where
  | signalled (ran : RulesRun env invoke chain.rules w status w') (signals : Signals status) :
      ChainRun env invoke chain w status w'
  | stopped (ran : RulesRun env invoke chain.rules w FC_TARGET_CONTINUE w₁)
      (default : TargetsRun invoke chain.targets w₁ FC_TARGET_STOP w₂) : ChainRun env invoke chain w FC_TARGET_STOP w₂
  | finished (ran : RulesRun env invoke chain.rules w FC_TARGET_CONTINUE w₁)
      (default : TargetsRun invoke chain.targets w₁ status w₂) (unstopped : status ≠ FC_TARGET_STOP) :
      ChainRun env invoke chain w FC_TARGET_CONTINUE w₂

theorem targetLoop_cons (start : Status) (target : FcTarget α) (rest : List (FcTarget α)) (w : World σ α) :
    targetLoop invoke start (target :: rest) w = (invoke target w).bind fun result =>
      if Signals result.1 then some ((result.1, target :: rest), result.2)
      else targetLoop invoke result.1 rest result.2 := by
  rw [targetLoop]
  congr 1
  funext result
  by_cases stop : result.1 = FC_TARGET_STOP
  · simp [stop, Signals, FC_TARGET_STOP, FC_TARGET_CONTINUE]
  · by_cases leave : result.1 = FC_TARGET_RETURN
    · simp [leave, Signals, FC_TARGET_RETURN, FC_TARGET_CONTINUE, FC_TARGET_STOP]
    · simp [stop, leave, Signals]

theorem targetLoop_runs (start : targets ≠ [] ∨ ¬ Signals first)
    (looped : targetLoop invoke first targets w = some ((status, rest), w')) :
    TargetsRun invoke targets w (settle status) w' ∧ (Signals status → rest ≠ []) := by
  induction targets generalizing first w with
  | nil =>
    obtain ⟨⟨rfl, rfl⟩, rfl⟩ : (first = status ∧ [] = rest) ∧ w = w' := by simpa [targetLoop] using looped
    have quiet := start.resolve_left (fun nonempty => nonempty rfl)
    rw [settle_of_quiet quiet]
    exact ⟨.done, fun signals => absurd signals quiet⟩
  | cons target targets ih =>
    rw [targetLoop_cons] at looped
    obtain ⟨⟨status', w₁⟩, called, looped⟩ := bind_eq_some_iff.mp looped
    split at looped
    · rename_i signals
      obtain ⟨⟨rfl, rfl⟩, rfl⟩ : (status' = status ∧ target :: targets = rest) ∧ w₁ = w' := by simpa using looped
      rw [settle_of_signals signals]
      exact ⟨.signalled called signals, fun _ => List.cons_ne_nil _ _⟩
    · rename_i quiet
      obtain ⟨later, position⟩ := ih (.inr quiet) looped
      exact ⟨.passed called quiet later, position⟩

theorem TargetsRun.loop (run : TargetsRun invoke targets w status w') (first : Status)
    (start : targets ≠ [] ∨ ¬ Signals first) :
    ∃ last rest, targetLoop invoke first targets w = some ((last, rest), w') ∧ settle last = status := by
  induction run generalizing first with
  | done =>
    have quiet := start.resolve_left (fun nonempty => nonempty rfl)
    exact ⟨first, [], rfl, settle_of_quiet quiet⟩
  | @signalled target w status w' rest called signals =>
    refine ⟨status, target :: rest, ?_, settle_of_signals signals⟩
    rw [targetLoop_cons, called, bind_some, if_pos signals]
  | passed called quiet later ih =>
    obtain ⟨last, rest, looped, settled⟩ := ih _ (.inr quiet)
    refine ⟨last, rest, ?_, settled⟩
    rw [targetLoop_cons, called, bind_some, if_neg quiet, looped]

theorem ruleLoop_runs (start : rules ≠ [] ∨ ¬ Signals first)
    (looped : ruleLoop env invoke first rules w = some (status, w')) :
    RulesRun env invoke rules w (settle status) w' := by
  induction rules generalizing first w with
  | nil =>
    obtain ⟨rfl, rfl⟩ : first = status ∧ w = w' := by simpa [ruleLoop] using looped
    rw [settle_of_quiet (start.resolve_left fun nonempty => nonempty rfl)]
    exact .done
  | cons rule rules ih =>
    rw [ruleLoop] at looped
    cases tested : matchLoop env FC_TARGET_CONTINUE rule.matchList w with
    | mk outcome w₁ =>
      obtain ⟨held, left⟩ := outcome
      simp only [tested] at looped
      cases held with
      | false => exact .skipped tested (ih (.inr quiet_continue) looped)
      | true =>
        obtain ⟨⟨⟨status', rest⟩, w₂⟩, ran, looped⟩ := bind_eq_some_iff.mp looped
        have run := (targetLoop_runs (.inl rule.targeted) ran).1
        split at looped
        · rename_i signals
          cases looped
          rw [settle_of_signals signals] at run ⊢
          exact .signalled tested run signals
        · rename_i quiet
          rw [settle_of_quiet quiet] at run
          exact .passed tested run (ih (.inr quiet) looped)

theorem RulesRun.loop (run : RulesRun env invoke rules w status w') (start : rules ≠ [] ∨ ¬ Signals first) :
    ∃ last, ruleLoop env invoke first rules w = some (last, w') ∧ settle last = status := by
  induction run generalizing first with
  | done => exact ⟨first, rfl, settle_of_quiet (start.resolve_left fun nonempty => nonempty rfl)⟩
  | skipped unmatched later ih =>
    obtain ⟨last, looped, settled⟩ := ih (.inr quiet_continue)
    refine ⟨last, ?_, settled⟩
    simpa [ruleLoop, unmatched] using looped
  | @passed w left w₁ w₂ rest status w₃ rule matched ran later ih =>
    obtain ⟨last, remaining, looped, settled⟩ := ran.loop left (.inl rule.targeted)
    have quiet := quiet_of_settle settled
    obtain ⟨final, after, reached⟩ := ih (.inr quiet)
    refine ⟨final, ?_, reached⟩
    simp [ruleLoop, matched, looped, if_neg quiet, after]
  | @signalled w left w₁ status w₂ rule rest matched ran signals =>
    obtain ⟨final, remaining, looped, settled⟩ := ran.loop left (.inl rule.targeted)
    obtain rfl := signals_of_settle settled signals
    refine ⟨final, ?_, settled⟩
    simp [ruleLoop, matched, looped, if_pos signals]

theorem defaultTargets_runs (default : defaultTargets invoke targets w = some (status, w')) :
    ∃ last, TargetsRun invoke targets w last w' ∧
      status = if last = FC_TARGET_STOP then FC_TARGET_STOP else FC_TARGET_CONTINUE := by
  obtain ⟨⟨⟨last, rest⟩, w₁⟩, looped, ended⟩ := bind_eq_some_iff.mp default
  obtain ⟨run, position⟩ := targetLoop_runs (.inr quiet_continue) looped
  refine ⟨settle last, ?_⟩
  split at ended
  · rename_i signals
    rw [if_neg (position signals)] at ended
    rw [settle_of_signals signals] at run ⊢
    split at ended
    · rename_i stop
      cases ended
      exact ⟨run, (if_pos stop).symm⟩
    · rename_i unstopped
      cases ended
      exact ⟨run, (if_neg unstopped).symm⟩
  · rename_i quiet
    cases ended
    rw [settle_of_quiet quiet] at run ⊢
    exact ⟨run, rfl⟩

theorem TargetsRun.default (run : TargetsRun invoke targets w last w') :
    defaultTargets invoke targets w =
      some (if last = FC_TARGET_STOP then FC_TARGET_STOP else FC_TARGET_CONTINUE, w') := by
  obtain ⟨final, rest, looped, rfl⟩ := run.loop FC_TARGET_CONTINUE (.inr quiet_continue)
  have position := (targetLoop_runs (.inr quiet_continue) looped).2
  simp only [defaultTargets, looped, bind_some]
  split
  · rename_i signals
    rw [if_neg (position signals), settle_of_signals signals]
    split
    · rfl
    · rfl
  · rename_i quiet
    rw [settle_of_quiet quiet]
    rfl

abbrev invokeWithin (env : Environment σ α) (chains : List (FcChain α)) (depth : Nat) :
    FcTarget α → World σ α → Option (Status × World σ α) :=
  invokeTarget env chains (fcProcessChain env chains depth)

theorem fcProcessChain_iff :
    fcProcessChain env chains (depth + 1) (some chain) w = some (status, w') ↔
      ChainRun env (invokeWithin env chains depth) chain w status w' := by
  constructor
  · intro returned
    obtain ⟨⟨left, w₁⟩, looped, ended⟩ := bind_eq_some_iff.mp returned
    have ran := ruleLoop_runs (.inr quiet_continue) looped
    split at ended
    · rename_i signals
      cases ended
      rw [settle_of_signals signals] at ran
      exact .signalled ran signals
    · rename_i quiet
      rw [settle_of_quiet quiet] at ran
      obtain ⟨last, default, rfl⟩ := defaultTargets_runs ended
      split
      · rename_i stop
        subst stop
        exact .stopped ran default
      · rename_i unstopped
        exact .finished ran default unstopped
  · intro run
    rw [fcProcessChain]
    cases run with
    | signalled ran signals =>
      obtain ⟨last, looped, settled⟩ := ran.loop (.inr quiet_continue)
      obtain rfl := signals_of_settle settled signals
      simp [looped, if_pos signals]
    | stopped ran default =>
      obtain ⟨last, looped, settled⟩ := ran.loop (.inr quiet_continue)
      have quiet := quiet_of_settle settled
      simp [looped, if_neg quiet, default.default]
    | finished ran default unstopped =>
      obtain ⟨last, looped, settled⟩ := ran.loop (.inr quiet_continue)
      have quiet := quiet_of_settle settled
      simp [looped, if_neg quiet, default.default, if_neg unstopped]

section

variable (within : ∀ target w result, invoke target w = some result → larger target w = some result)
include within

theorem TargetsRun.mono (run : TargetsRun invoke targets w status w') : TargetsRun larger targets w status w' := by
  induction run with
  | done => exact .done
  | signalled called signals => exact .signalled (within _ _ _ called) signals
  | passed called quiet later ih => exact .passed (within _ _ _ called) quiet ih

theorem RulesRun.mono (run : RulesRun env invoke rules w status w') : RulesRun env larger rules w status w' := by
  induction run with
  | done => exact .done
  | skipped unmatched later ih => exact .skipped unmatched ih
  | passed matched ran later ih => exact .passed matched (ran.mono within) ih
  | signalled matched ran signals => exact .signalled matched (ran.mono within) signals

theorem ChainRun.mono (run : ChainRun env invoke chain w status w') : ChainRun env larger chain w status w' := by
  cases run with
  | signalled ran signals => exact .signalled (ran.mono within) signals
  | stopped ran default => exact .stopped (ran.mono within) (default.mono within)
  | finished ran default unstopped => exact .finished (ran.mono within) (default.mono within) unstopped

end

theorem invokeTarget_mono
    (within : ∀ chain w result, process chain w = some result → further chain w = some result) (target : FcTarget α)
    (w : World σ α) (result : Status × World σ α) (called : invokeTarget env chains process target w = some result) :
    invokeTarget env chains further target w = some result := by
  obtain ⟨name, proc⟩ := target
  cases proc with
  | bitJump chainName =>
    simp only [invokeTarget, fcBitJumpInvoke] at called ⊢
    cases found : fcChainGetByName chains (some chainName) with
    | none => simpa only [found] using called
    | some chain =>
      simp only [found] at called ⊢
      obtain ⟨processed, returned, mapped⟩ := map_eq_some_iff.mp called
      rw [within _ _ _ returned, map_some, mapped]
  | bitStop | bitReturn | bitWrite plugins | plugin userData => exact called

theorem fcProcessChain_mono (depths : depth ≤ deeper) (chain : Option (FcChain α)) (w : World σ α)
    (result : Status × World σ α) (returned : fcProcessChain env chains depth chain w = some result) :
    fcProcessChain env chains deeper chain w = some result := by
  induction depth generalizing deeper chain w result with
  | zero => cases returned
  | succ depth ih =>
    cases deeper with
    | zero => exact absurd depths (Nat.not_succ_le_zero _)
    | succ deeper =>
      cases chain with
      | none => exact returned
      | some chain =>
        have smaller := ih (Nat.le_of_succ_le_succ depths)
        exact fcProcessChain_iff.mpr ((fcProcessChain_iff.mp returned).mono (invokeTarget_mono smaller))

end NCollectd.Filter
