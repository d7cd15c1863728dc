import NCollectd.Filter.LiveJumps

/-! A reference interpreter for chains, in which a signal is an exception. -/

namespace NCollectd.Filter

variable {σ α : Type} {chains : List (FcChain α)}

inductive Signal where
  | stop
  | leave

/-- Computations that change the world and may raise a signal. -/
abbrev Flow (σ α : Type) := EStateM Signal (World σ α)

namespace Reference

def call (run : σ → Status × σ) (record : Status → Call α) : Flow σ α Status :=
  fun w => .ok (w.call run record).1 (w.call run record).2

def note (entry : Call α) : Flow σ α Unit := fun w => .ok () (w.record entry)

def allMatch (env : Environment σ α) : List (FcMatch α) → Flow σ α Bool
  | [] => pure true
  | m :: rest => do
    let status ← call (env.test m.userData) (.tested m.userData)
    if status = FC_MATCH_MATCHES then allMatch env rest else pure false

def untilReturn (flow : Flow σ α Unit) : Flow σ α Unit := fun w =>
  match flow w with
  | .error .leave w' => .ok () w'
  | result => result

def react (status : Status) : Flow σ α Unit :=
  if status = FC_TARGET_STOP then throw .stop else if status = FC_TARGET_RETURN then throw .leave else pure ()

def write (env : Environment σ α) (plugin : Option CString) : Flow σ α Unit := do
  let _ ← call (env.pluginWrite plugin) (.written plugin)
  pure ()

def target (env : Environment σ α) (chains : List (FcChain α)) (chain : FcChain α → Flow σ α Unit) (t : FcTarget α) :
    Flow σ α Unit :=
  match t.proc with
  | .bitJump chainName => do
    note (.jumped chainName)
    match fcChainGetByName chains (some chainName) with
    | none => pure ()
    | some next => untilReturn (chain next)
  | .bitStop => do
    note .stopped
    throw .stop
  | .bitReturn => do
    note .returned
    throw .leave
  | .bitWrite [] => write env none
  | .bitWrite plugins => plugins.forM fun plugin => write env (some plugin)
  | .plugin userData => do
    let status ← call (env.invoke userData) (.invoked userData)
    react status

def rule (env : Environment σ α) (chains : List (FcChain α)) (chain : FcChain α → Flow σ α Unit) (r : FcRule α) :
    Flow σ α Unit := do
  if ← allMatch env r.matchList then r.targets.forM (target env chains chain)

def body (env : Environment σ α) (chains : List (FcChain α)) (chain : FcChain α → Flow σ α Unit) (c : FcChain α) :
    Flow σ α Unit := do
  c.rules.forM (rule env chains chain)
  untilReturn (c.targets.forM (target env chains chain))

end Reference

/-- A chain has a target that jumps to another chain. -/
def JumpsTo (chains : List (FcChain α)) (chain next : FcChain α) : Prop :=
  ∃ target, (target ∈ chain.targets ∨ ∃ rule ∈ chain.rules, target ∈ rule.targets) ∧ target.JumpsTo chains next

def Acyclic (chains : List (FcChain α)) : Prop := ∀ chain, ¬ Relation.TransGen (JumpsTo chains) chain chain

theorem JumpsTo.mem (jumps : JumpsTo chains chain next) : next ∈ chains := by
  obtain ⟨_, _, _, _, found⟩ := jumps
  exact fcChainGetByName_mem found

namespace Reference

open Classical in
noncomputable def chain (env : Environment σ α) (acyclic : Acyclic chains) : FcChain α → Flow σ α Unit :=
  (wellFounded_of_acyclic (fun _ _ jumps => jumps.mem) acyclic).fix fun c meaning =>
    body env chains (fun next => if jumps : JumpsTo chains c next then meaning next jumps else pure ()) c

theorem forM_congr {f g : β → Flow σ α Unit} (items : List β) (same : ∀ a ∈ items, f a = g a) :
    items.forM f = items.forM g := by
  induction items with
  | nil => rfl
  | cons a rest ih =>
    change (f a >>= fun _ => rest.forM f) = g a >>= fun _ => rest.forM g
    rw [same a List.mem_cons_self, ih fun b member => same b (List.mem_cons_of_mem _ member)]

theorem target_congr (t : FcTarget α)
    (same : ∀ next, t.JumpsTo chains next → first next = second next) :
    target env chains first t = target env chains second t := by
  obtain ⟨name, proc⟩ := t
  cases proc with
  | bitJump chainName =>
    simp only [target]
    cases found : fcChainGetByName chains (some chainName) with
    | none => rfl
    | some next =>
      dsimp only
      rw [same next ⟨chainName, rfl, found⟩]
  | bitStop | bitReturn => rfl
  | bitWrite plugins => cases plugins <;> rfl
  | plugin userData => rfl

theorem body_congr {first second : FcChain α → Flow σ α Unit} (c : FcChain α)
    (same : ∀ next, JumpsTo chains c next → first next = second next) :
    body env chains first c = body env chains second c := by
  have rules : c.rules.forM (rule env chains first) = c.rules.forM (rule env chains second) := by
    refine forM_congr _ fun r member => ?_
    have targets : r.targets.forM (target env chains first) = r.targets.forM (target env chains second) :=
      forM_congr _ fun t inside => target_congr t fun next jumps => same next ⟨t, .inr ⟨r, member, inside⟩, jumps⟩
    rw [rule, targets, rule]
  have targets : c.targets.forM (target env chains first) = c.targets.forM (target env chains second) :=
    forM_congr _ fun t inside => target_congr t fun next jumps => same next ⟨t, .inl inside, jumps⟩
  rw [body, rules, targets, body]

theorem chain_eq (env : Environment σ α) (acyclic : Acyclic chains) (c : FcChain α) :
    chain env acyclic c = body env chains (chain env acyclic) c := by
  rw [chain, WellFounded.fix_eq]
  apply body_congr
  intro next jumps
  rw [dif_pos jumps]

def outcome : EStateM.Result Signal (World σ α) Unit → Status × World σ α
  | .ok _ w => (FC_TARGET_CONTINUE, w)
  | .error .stop w => (FC_TARGET_STOP, w)
  | .error .leave w => (FC_TARGET_RETURN, w)

theorem outcome_continue
    (reported : outcome result = (FC_TARGET_CONTINUE, w)) : result = .ok () w := by
  match result with
  | .ok _ w' => exact congrArg _ (congrArg Prod.snd reported)
  | .error .stop w' => cases reported
  | .error .leave w' => cases reported

theorem outcome_signal
    (reported : outcome result = (status, w)) (signals : Signals status) :
    ∃ signal, result = .error signal w ∧ outcome (.error signal w) = (status, w) := by
  match result with
  | .ok _ w' =>
    cases reported
    exact absurd signals quiet_continue
  | .error .stop w' =>
    cases reported
    exact ⟨.stop, rfl, rfl⟩
  | .error .leave w' =>
    cases reported
    exact ⟨.leave, rfl, rfl⟩

theorem bind_ok {second : β → Flow σ α γ} (done : first w = .ok a w') :
    (first >>= second) w = second a w' := by
  simp only [bind, EStateM.bind, done]

theorem bind_error (second : β → Flow σ α γ)
    (raised : first w = .error signal w') : (first >>= second) w = .error signal w' := by
  simp only [bind, EStateM.bind, raised]

theorem outcome_then {first second : Flow σ α Unit} (reported : outcome (first w) = (FC_TARGET_CONTINUE, w₁)) :
    outcome ((first >>= fun _ => second) w) = outcome (second w₁) := by
  rw [bind_ok (outcome_continue reported)]

theorem outcome_ended {first second : Flow σ α Unit} (reported : outcome (first w) = (status, w₁))
    (signals : Signals status) : outcome ((first >>= fun _ => second) w) = (status, w₁) := by
  obtain ⟨signal, raised, same⟩ := outcome_signal reported signals
  rw [bind_error _ raised, same]

theorem outcome_untilReturn (reported : outcome (flow w) = (status, w')) :
    outcome (untilReturn flow w) = (if status = FC_TARGET_STOP then FC_TARGET_STOP else FC_TARGET_CONTINUE, w') := by
  unfold untilReturn
  match result : flow w with
  | .ok _ w₁ =>
    rw [result] at reported
    cases reported
    rfl
  | .error .stop w₁ =>
    rw [result] at reported
    cases reported
    rfl
  | .error .leave w₁ =>
    rw [result] at reported
    cases reported
    rfl

theorem allMatch_eq (env : Environment σ α) (matchList : List (FcMatch α)) (start : Status) (w : World σ α) :
    allMatch env matchList w =
      .ok (matchLoop env start matchList w).1.1 (matchLoop env start matchList w).2 := by
  induction matchList generalizing start w with
  | nil => rfl
  | cons m rest ih =>
    change (if (w.call (env.test m.userData) (.tested m.userData)).1 = FC_MATCH_MATCHES then allMatch env rest
      else pure false : Flow σ α Bool) (w.call (env.test m.userData) (.tested m.userData)).2 = _
    rw [matchLoop]
    by_cases matched : (w.call (env.test m.userData) (.tested m.userData)).1 = FC_MATCH_MATCHES
    · simp only [matched, if_true, ne_eq, not_true_eq_false, if_false]
      rw [if_neg (by decide)]
      exact ih _ _
    · simp only [matched, if_false, ne_eq, not_false_eq_true, if_true, ite_self]
      rfl

/-- A target reports what the interpreter says. -/
private def Agrees (env : Environment σ α) (chains : List (FcChain α))
    (invoke : FcTarget α → World σ α → Option (Status × World σ α)) (meaning : FcChain α → Flow σ α Unit) : Prop :=
  ∀ t w status w', invoke t w = some (status, w') → outcome (target env chains meaning t w) = (settle status, w')

theorem targets_agree (agrees : Agrees env chains invoke meaning)
    (run : TargetsRun invoke targets w status w') :
    outcome (targets.forM (target env chains meaning) w) = (status, w') := by
  induction run with
  | done => rfl
  | signalled called signals =>
    have reported := agrees _ _ _ _ called
    rw [settle_of_signals signals] at reported
    exact outcome_ended reported signals
  | passed called quiet later ih =>
    have reported := agrees _ _ _ _ called
    rw [settle_of_quiet quiet] at reported
    exact (outcome_then reported).trans ih

theorem rule_eq (r : FcRule α) (tested : matchLoop env FC_TARGET_CONTINUE r.matchList w = ((held, status), w')) :
    rule env chains meaning r w =
      (if held then r.targets.forM (target env chains meaning) else pure () : Flow σ α Unit) w' := by
  have matched := allMatch_eq env r.matchList FC_TARGET_CONTINUE w
  rw [tested] at matched
  exact bind_ok matched

theorem rules_agree (agrees : Agrees env chains invoke meaning)
    (run : RulesRun env invoke rules w status w') :
    outcome (rules.forM (rule env chains meaning) w) = (status, w') := by
  induction run with
  | done => rfl
  | @skipped w left w₁ rest last w₂ r unmatched later ih =>
    have reported : outcome (rule env chains meaning r w) = (FC_TARGET_CONTINUE, w₁) := by
      rw [rule_eq r unmatched]
      rfl
    exact (outcome_then reported).trans ih
  | @passed w left w₁ w₂ rest last w₃ r matched ran later ih =>
    have reported : outcome (rule env chains meaning r w) = (FC_TARGET_CONTINUE, w₂) := by
      rw [rule_eq r matched, if_pos rfl]
      exact targets_agree agrees ran
    exact (outcome_then reported).trans ih
  | @signalled w left w₁ last w₂ r rest matched ran signals =>
    have reported : outcome (rule env chains meaning r w) = (last, w₂) := by
      rw [rule_eq r matched, if_pos rfl]
      exact targets_agree agrees ran
    exact outcome_ended reported signals

theorem body_agrees (agrees : Agrees env chains invoke meaning) (run : ChainRun env invoke c w status w') :
    outcome (body env chains meaning c w) = (status, w') := by
  cases run with
  | signalled ran signals => exact outcome_ended (rules_agree agrees ran) signals
  | stopped ran default =>
    exact (outcome_then (rules_agree agrees ran)).trans (outcome_untilReturn (targets_agree agrees default))
  | finished ran default unstopped =>
    refine (outcome_then (rules_agree agrees ran)).trans ?_
    rw [outcome_untilReturn (targets_agree agrees default), if_neg unstopped]

theorem write_forM (env : Environment σ α) (plugins : List CString) (w : World σ α) :
    (plugins.forM fun plugin => write env (some plugin)) w = .ok () (plugins.foldl (fun w plugin =>
      (w.call (env.pluginWrite (some plugin)) (.written (some plugin))).2) w) := by
  induction plugins generalizing w with
  | nil => rfl
  | cons plugin rest ih => exact ih _

theorem outcome_react (status : Status) (w : World σ α) : outcome (react status w) = (settle status, w) := by
  by_cases stop : status = FC_TARGET_STOP
  · subst stop
    rfl
  · by_cases leave : status = FC_TARGET_RETURN
    · subst leave
      rfl
    · have quiet : ¬ Signals status := fun signals => signals.elim stop leave
      rw [react, if_neg stop, if_neg leave, settle_of_quiet quiet]
      rfl

theorem agrees_within (ends : ∀ c w status w', fcProcessChain env chains depth (some c) w = some (status, w') →
    outcome (meaning c w) = (status, w')) : Agrees env chains (invokeWithin env chains depth) meaning := by
  rintro ⟨name, proc⟩ w status w' called
  cases proc with
  | bitJump chainName =>
    rcases fcBitJumpInvoke_cases called with ⟨missing, rfl, rfl⟩ | ⟨next, result, found, processed, reported⟩
    · simp only [target, missing]
      rfl
    · have entered := outcome_untilReturn (ends _ _ _ _ processed)
      have reached : target env chains meaning ⟨name, .bitJump chainName⟩ w =
          untilReturn (meaning next) (w.record (.jumped chainName)) := by
        simp only [target, found]
        rfl
      rw [reached, entered]
      rcases reported with ⟨rfl, rfl⟩ | ⟨unstopped, quiet⟩
      · rfl
      · rw [if_neg unstopped, settle_of_quiet quiet]
  | bitStop | bitReturn =>
    cases called
    rfl
  | bitWrite plugins =>
    cases plugins with
    | nil =>
      cases called
      rfl
    | cons plugin rest =>
      cases called
      change outcome (((plugin :: rest).forM fun plugin => write env (some plugin)) w) = _
      rw [write_forM]
      rfl
  | plugin userData =>
    cases called
    exact outcome_react _ _

/-- What `fc_process_chain` returns is the meaning of the chain. -/
theorem process_agrees (acyclic : Acyclic chains)
    (returned : fcProcessChain env chains depth (some c) w = some (status, w')) :
    outcome (chain env acyclic c w) = (status, w') := by
  induction depth generalizing c w status w' with
  | zero => cases returned
  | succ depth ih =>
    rw [chain_eq]
    exact body_agrees (agrees_within fun _ _ _ _ => ih) (fcProcessChain_iff.mp returned)

end Reference

end NCollectd.Filter
