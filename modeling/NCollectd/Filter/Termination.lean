import NCollectd.Filter.Config
import NCollectd.Filter.LiveJumps

/-! A cycle of jumps that may be taken is taken with callbacks that follow a script. -/

namespace NCollectd.Filter

open List Option

open Stream'

variable {α : Type} {chains : List (FcChain α)} {mayPass : FcTarget α → Bool}

def scripted : Environment (Stream' Status) α where
  test _ s := (s.head, s.tail)
  invoke _ s := (s.head, s.tail)
  pluginWrite _ s := (0, s)
  ucUpdate s := (0, s)

/-- With this script in front, the target passes if it returns at all, and uses up the script. -/
private def PassedBy (chains : List (FcChain α)) (target : FcTarget α) (script : List Status) : Prop :=
  ∀ s (w : World (Stream' Status) α) depth status w', w.state = script ++ₛ s →
    invokeWithin scripted chains depth target w = some (status, w') → ¬ Signals status ∧ w'.state = s

/-- Every target that may pass can be made to. -/
private def Steerable (chains : List (FcChain α)) (mayPass : FcTarget α → Bool) : Prop :=
  ∀ target, mayPass target = true → ∃ script, PassedBy chains target script

theorem targets_passed (steerable : Steerable chains mayPass) (pass : targets.all mayPass = true) :
    ∃ script : List Status, ∀ s w depth status w', w.state = script ++ₛ s →
      TargetsRun (invokeWithin scripted chains depth) targets w status w' →
        status = FC_TARGET_CONTINUE ∧ w'.state = s := by
  induction targets with
  | nil =>
    refine ⟨[], fun s w depth status w' start run => ?_⟩
    cases run
    exact ⟨rfl, start⟩
  | cons target rest ih =>
    obtain ⟨here, there⟩ := Bool.and_eq_true_iff.mp pass
    obtain ⟨first, passed⟩ := steerable target here
    obtain ⟨second, later⟩ := ih there
    refine ⟨first ++ second, fun s w depth status w' start run => ?_⟩
    rw [append_append_stream] at start
    cases run with
    | signalled called signals => exact absurd signals (passed _ _ _ _ _ start called).1
    | passed called quiet run => exact later _ _ _ _ _ (passed _ _ _ _ _ start called).2 run

theorem target_reached (steerable : Steerable chains mayPass) (member : target ∈ reached mayPass targets) :
    ∃ script : List Status, ∀ s w depth status w', w.state = script ++ₛ s →
      TargetsRun (invokeWithin scripted chains depth) targets w status w' →
        ∃ w₁ answer w₂, w₁.state = s ∧ invokeWithin scripted chains depth target w₁ = some (answer, w₂) ∧
          (Signals answer → status = answer ∧ w' = w₂) := by
  induction targets with
  | nil => cases member
  | cons first rest ih =>
    rw [reached] at member
    rcases mem_cons.mp member with rfl | member
    · refine ⟨[], fun s w depth status w' start run => ?_⟩
      cases run with
      | signalled called signals => exact ⟨w, _, _, start, called, fun _ => ⟨rfl, rfl⟩⟩
      | passed called quiet later => exact ⟨w, _, _, start, called, fun signals => absurd signals quiet⟩
    · split at member
      · rename_i pass
        obtain ⟨before, passed⟩ := steerable first pass
        obtain ⟨after, later⟩ := ih member
        refine ⟨before ++ after, fun s w depth status w' start run => ?_⟩
        rw [append_append_stream] at start
        cases run with
        | signalled called signals => exact absurd signals (passed _ _ _ _ _ start called).1
        | passed called quiet run => exact later _ _ _ _ _ (passed _ _ _ _ _ start called).2 run
      · cases member

theorem matchLoop_failed (first : Status) (some : matchList ≠ [])
    (start : w.state = [0] ++ₛ s) :
    ∃ w', matchLoop scripted first matchList w = ((false, 0), w') ∧ w'.state = s := by
  cases matchList with
  | nil => exact absurd rfl some
  | cons m rest =>
    have head : w.state.head = 0 := by rw [start]; rfl
    have tail : w.state.tail = s := by rw [start]; rfl
    refine ⟨(w.call (scripted.test m.userData) (.tested m.userData)).2, ?_, tail⟩
    simp [matchLoop, World.call, scripted, head, FC_MATCH_MATCHES]

theorem matchLoop_held (matchList : List (FcMatch α))
    (start : w.state = replicate matchList.length FC_MATCH_MATCHES ++ₛ s) (first : Status) :
    ∃ status w', matchLoop scripted first matchList w = ((true, status), w') ∧ w'.state = s := by
  induction matchList generalizing w first with
  | nil => exact ⟨first, w, rfl, start⟩
  | cons m rest ih =>
    have head : w.state.head = FC_MATCH_MATCHES := by rw [start]; rfl
    have tail : w.state.tail = replicate rest.length FC_MATCH_MATCHES ++ₛ s := by rw [start]; rfl
    obtain ⟨status, w', held, state⟩ :=
      @ih (w.call (scripted.test m.userData) (.tested m.userData)).2 tail FC_MATCH_MATCHES
    refine ⟨status, w', ?_, state⟩
    rw [matchLoop]
    simpa [World.call, scripted, head, FC_MATCH_MATCHES] using held

section

variable (steerable : Steerable chains mayPass)
include steerable

theorem rule_passed (pass : rule.passes mayPass = true) :
    ∃ script : List Status, ∀ s w depth rest status w', w.state = script ++ₛ s →
      RulesRun scripted (invokeWithin scripted chains depth) (rule :: rest) w status w' →
        ∃ w₁, w₁.state = s ∧ RulesRun scripted (invokeWithin scripted chains depth) rest w₁ status w' := by
  by_cases empty : rule.matchList = []
  · have all : rule.targets.all mayPass = true := by simpa [FcRule.passes, empty] using pass
    obtain ⟨script, passed⟩ := targets_passed steerable all
    refine ⟨script, fun s w depth rest status w' start run => ?_⟩
    cases run with
    | skipped unmatched later => exact absurd empty (matchLoop_unmatched unmatched)
    | passed matched ran later =>
      rw [empty] at matched
      cases matched
      exact ⟨_, (passed _ _ _ _ _ start ran).2, later⟩
    | signalled matched ran signals =>
      rw [empty] at matched
      cases matched
      obtain ⟨rfl, _⟩ := passed _ _ _ _ _ start ran
      exact absurd signals quiet_continue
  · refine ⟨[0], fun s w depth rest status w' start run => ?_⟩
    obtain ⟨w₁, failed, state⟩ := matchLoop_failed FC_TARGET_CONTINUE empty start
    cases run with
    | skipped unmatched later =>
      rw [failed] at unmatched
      cases unmatched
      exact ⟨w₁, state, later⟩
    | passed matched ran later | signalled matched ran signals =>
      rw [failed] at matched
      cases matched

theorem rules_passed (pass : rules.all (FcRule.passes mayPass) = true) :
    ∃ script : List Status, ∀ s w depth status w', w.state = script ++ₛ s →
      RulesRun scripted (invokeWithin scripted chains depth) rules w status w' →
        status = FC_TARGET_CONTINUE ∧ w'.state = s := by
  induction rules with
  | nil =>
    refine ⟨[], fun s w depth status w' start run => ?_⟩
    cases run
    exact ⟨rfl, start⟩
  | cons rule rest ih =>
    obtain ⟨here, there⟩ := Bool.and_eq_true_iff.mp pass
    obtain ⟨first, passed⟩ := rule_passed steerable here
    obtain ⟨second, later⟩ := ih there
    refine ⟨first ++ second, fun s w depth status w' start run => ?_⟩
    rw [append_append_stream] at start
    obtain ⟨w₁, state, run⟩ := passed _ _ _ _ _ _ start run
    exact later _ _ _ _ _ state run

theorem rule_target_reached (member : target ∈ reachedByRules mayPass rules) :
    ∃ script : List Status, ∀ s w depth status w', w.state = script ++ₛ s →
      RulesRun scripted (invokeWithin scripted chains depth) rules w status w' →
        ∃ w₁ answer w₂, w₁.state = s ∧ invokeWithin scripted chains depth target w₁ = some (answer, w₂) ∧
          (Signals answer → status = answer ∧ w' = w₂) := by
  induction rules with
  | nil => cases member
  | cons rule rest ih =>
    rcases mem_append.mp member with here | there
    · obtain ⟨script, found⟩ := target_reached steerable here
      refine ⟨replicate rule.matchList.length FC_MATCH_MATCHES ++ script, fun s w depth status w' start run => ?_⟩
      rw [append_append_stream] at start
      obtain ⟨left, w₁, held, state⟩ := matchLoop_held rule.matchList start FC_TARGET_CONTINUE
      cases run with
      | skipped unmatched later =>
        rw [held] at unmatched
        cases unmatched
      | passed matched ran later =>
        rw [held] at matched
        cases matched
        obtain ⟨w₃, answer, w₄, reached, called, ended⟩ := found _ _ _ _ _ state ran
        refine ⟨w₃, answer, w₄, reached, called, fun signals => ?_⟩
        obtain ⟨rfl, _⟩ := ended signals
        exact absurd signals quiet_continue
      | signalled matched ran signals =>
        rw [held] at matched
        cases matched
        exact found _ _ _ _ _ state ran
    · split at there
      · rename_i pass
        obtain ⟨before, passed⟩ := rule_passed steerable pass
        obtain ⟨after, later⟩ := ih there
        refine ⟨before ++ after, fun s w depth status w' start run => ?_⟩
        rw [append_append_stream] at start
        obtain ⟨w₁, state, run⟩ := passed _ _ _ _ _ _ start run
        exact later _ _ _ _ _ state run
      · cases there

theorem chain_target_reached (member : target ∈ chain.reached mayPass) :
    ∃ script : List Status, ∀ s w depth status w', w.state = script ++ₛ s →
      ChainRun scripted (invokeWithin scripted chains depth) chain w status w' →
        ∃ w₁ answer w₂, w₁.state = s ∧ invokeWithin scripted chains depth target w₁ = some (answer, w₂) ∧
          (answer = FC_TARGET_RETURN → status ≠ FC_TARGET_STOP ∧ w' = w₂) := by
  rcases mem_append.mp member with here | there
  · obtain ⟨script, found⟩ := rule_target_reached steerable here
    refine ⟨script, fun s w depth status w' start run => ?_⟩
    cases run with
    | signalled ran signals =>
      obtain ⟨w₁, answer, w₂, state, called, ended⟩ := found _ _ _ _ _ start ran
      refine ⟨w₁, answer, w₂, state, called, fun leave => ?_⟩
      obtain ⟨rfl, same⟩ := ended (.inr leave)
      exact ⟨by rw [leave]; decide, same⟩
    | stopped ran default | finished ran default unstopped =>
      obtain ⟨w₁, answer, w₂, state, called, ended⟩ := found _ _ _ _ _ start ran
      refine ⟨w₁, answer, w₂, state, called, fun leave => ?_⟩
      rw [leave] at ended
      exact absurd (ended (.inr rfl)).1 (by decide)
  · split at there
    · rename_i pass
      obtain ⟨before, passed⟩ := rules_passed steerable pass
      obtain ⟨after, found⟩ := target_reached steerable there
      refine ⟨before ++ after, fun s w depth status w' start run => ?_⟩
      rw [append_append_stream] at start
      cases run with
      | signalled ran signals =>
        obtain ⟨rfl, _⟩ := passed _ _ _ _ _ start ran
        exact absurd signals quiet_continue
      | stopped ran default =>
        obtain ⟨w₁, answer, w₂, state, called, ended⟩ := found _ _ _ _ _ (passed _ _ _ _ _ start ran).2 default
        refine ⟨w₁, answer, w₂, state, called, fun leave => ?_⟩
        rw [leave] at ended
        exact absurd (ended (.inr rfl)).1 (by decide)
      | finished ran default unstopped =>
        obtain ⟨w₁, answer, w₂, state, called, ended⟩ := found _ _ _ _ _ (passed _ _ _ _ _ start ran).2 default
        refine ⟨w₁, answer, w₂, state, called, fun leave => ⟨by decide, ?_⟩⟩
        exact (ended (.inr leave)).2
    · cases there

end

theorem target_returned (chains : List (FcChain α)) (returns : target.returns = true) :
    ∃ script : List Status, ∀ s (w : World (Stream' Status) α) depth status w', w.state = script ++ₛ s →
      invokeWithin scripted chains depth target w = some (status, w') → status = FC_TARGET_RETURN ∧ w'.state = s := by
  obtain ⟨name, proc⟩ := target
  cases proc with
  | bitJump chainName | bitStop => cases returns
  | bitReturn =>
    refine ⟨[], fun s w depth status w' start called => ?_⟩
    cases called
    exact ⟨rfl, start⟩
  | bitWrite plugins => cases returns
  | plugin userData =>
    refine ⟨[FC_TARGET_RETURN], fun s w depth status w' start called => ?_⟩
    cases called
    have head : w.state.head = FC_TARGET_RETURN := by rw [start]; rfl
    have tail : w.state.tail = s := by rw [start]; rfl
    exact ⟨head, tail⟩

theorem fcBitWriteInvoke_state (env : Environment σ α) (kept : ∀ plugin s, (env.pluginWrite plugin s).2 = s)
    (plugins : List CString) (w : World σ α) : (fcBitWriteInvoke env plugins w).2.state = w.state := by
  have loop : ∀ (plugins : List CString) (w : World σ α), (plugins.foldl (fun w plugin =>
      (w.call (env.pluginWrite (some plugin)) (.written (some plugin))).2) w).state = w.state := by
    intro plugins
    induction plugins with
    | nil => exact fun w => rfl
    | cons plugin rest ih => exact fun w => (ih _).trans (kept (some plugin) w.state)
  cases plugins with
  | nil => exact kept none w.state
  | cons plugin rest => exact loop (plugin :: rest) w

theorem steerable_of_chains {pass}
    (ends : ∀ chain, pass chain = true → ∃ script : List Status, ∀ s w depth status w', w.state = script ++ₛ s →
      fcProcessChain scripted chains depth (some chain) w = some (status, w') →
        status ≠ FC_TARGET_STOP ∧ w'.state = s) :
    Steerable chains (FcTarget.passes chains pass) := by
  rintro ⟨name, proc⟩ may
  cases proc with
  | bitJump chainName =>
    cases found : fcChainGetByName chains (some chainName) with
    | none =>
      refine ⟨[], fun s w depth status w' start called => ?_⟩
      rcases fcBitJumpInvoke_cases called with ⟨_, rfl, rfl⟩ | ⟨next, result, there, _⟩
      · exact ⟨by decide, start⟩
      · rw [found] at there
        cases there
    | some chain =>
      simp only [FcTarget.passes, found] at may
      obtain ⟨script, passed⟩ := ends chain may
      refine ⟨script, fun s w depth status w' start called => ?_⟩
      rcases fcBitJumpInvoke_cases called with ⟨missing, _⟩ | ⟨next, result, there, processed, outcome⟩
      · rw [found] at missing
        cases missing
      · cases found.symm.trans there
        obtain ⟨unstopped, state⟩ := passed s (w.record (.jumped chainName)) _ _ _ start processed
        rcases outcome with ⟨stop, _⟩ | ⟨_, quiet⟩
        · exact absurd stop unstopped
        · exact ⟨quiet, state⟩
  | bitStop | bitReturn => cases may
  | bitWrite plugins =>
    refine ⟨[], fun s w depth status w' start called => ?_⟩
    have same : fcBitWriteInvoke scripted plugins w = (status, w') := some.inj called
    have settled := fcBitWriteInvoke_status scripted plugins w
    have state := fcBitWriteInvoke_state scripted (fun _ _ => rfl) plugins w
    rw [same] at settled state
    obtain rfl : status = FC_TARGET_CONTINUE := settled
    exact ⟨quiet_continue, state.trans start⟩
  | plugin userData =>
    refine ⟨[FC_TARGET_CONTINUE], fun s w depth status w' start called => ?_⟩
    cases called
    have head : w.state.head = FC_TARGET_CONTINUE := by rw [start]; rfl
    have tail : w.state.tail = s := by rw [start]; rfl
    have quiet : ¬ Signals w.state.head := by
      rw [head]
      exact quiet_continue
    exact ⟨quiet, tail⟩

theorem chain_passed (pass : canPass chains bound chain = true) :
    ∃ script : List Status, ∀ s w depth status w', w.state = script ++ₛ s →
      fcProcessChain scripted chains depth (some chain) w = some (status, w') →
        status ≠ FC_TARGET_STOP ∧ w'.state = s := by
  induction bound generalizing chain with
  | zero => cases pass
  | succ bound ih =>
    have steerable := steerable_of_chains fun chain pass => ih pass
    rcases Bool.or_eq_true_iff.mp pass with returns | passes
    · obtain ⟨target, member, returns⟩ := any_eq_true.mp returns
      obtain ⟨before, found⟩ := chain_target_reached steerable member
      obtain ⟨last, answered⟩ := target_returned chains returns
      refine ⟨before ++ last, fun s w depth status w' start returned => ?_⟩
      rw [append_append_stream] at start
      cases depth with
      | zero => cases returned
      | succ depth =>
        obtain ⟨w₁, answer, w₂, state, called, ended⟩ := found _ _ _ _ _ start (fcProcessChain_iff.mp returned)
        obtain ⟨leave, state⟩ := answered _ _ _ _ _ state called
        obtain ⟨unstopped, rfl⟩ := ended leave
        exact ⟨unstopped, state⟩
    · obtain ⟨rules, targets⟩ := Bool.and_eq_true_iff.mp passes
      obtain ⟨before, first⟩ := rules_passed steerable rules
      obtain ⟨after, second⟩ := targets_passed steerable targets
      refine ⟨before ++ after, fun s w depth status w' start returned => ?_⟩
      rw [append_append_stream] at start
      cases depth with
      | zero => cases returned
      | succ depth =>
        cases fcProcessChain_iff.mp returned with
        | signalled ran signals =>
          obtain ⟨rfl, _⟩ := first _ _ _ _ _ start ran
          exact absurd signals quiet_continue
        | stopped ran default =>
          exact absurd (second _ _ _ _ _ (first _ _ _ _ _ start ran).2 default).1 (by decide)
        | finished ran default unstopped =>
          exact ⟨by decide, (second _ _ _ _ _ (first _ _ _ _ _ start ran).2 default).2⟩

theorem LiveJump.taken {next} (live : LiveJump chains chain next) :
    ∃ script : List Status, ∀ s w depth result, w.state = script ++ₛ s →
      fcProcessChain scripted chains depth (some chain) w = some result →
        ∃ smaller < depth, ∃ w₁ result', w₁.state = s ∧
          fcProcessChain scripted chains smaller (some next) w₁ = some result' := by
  obtain ⟨bound, target, member, chainName, jump, found⟩ := live
  have steerable : Steerable chains (FcTarget.passes chains (canPass chains bound)) :=
    steerable_of_chains fun chain pass => chain_passed pass
  obtain ⟨script, leads⟩ := chain_target_reached steerable member
  refine ⟨script, fun s w depth result start returned => ?_⟩
  cases depth with
  | zero => cases returned
  | succ depth =>
    obtain ⟨w₁, answer, w₂, state, called, _⟩ := leads _ _ _ _ _ start (fcProcessChain_iff.mp returned)
    simp only [invokeWithin, invokeTarget, jump] at called
    rcases fcBitJumpInvoke_cases called with ⟨missing, _⟩ | ⟨entered, result', there, processed, _⟩
    · rw [found] at missing
      cases missing
    · cases found.symm.trans there
      exact ⟨depth, Nat.lt_succ_self _, w₁.record (.jumped chainName), _, state, processed⟩

theorem path_taken (path : Relation.TransGen (LiveJump chains) chain last) :
    ∃ script : List Status, ∀ s w depth result, w.state = script ++ₛ s →
      fcProcessChain scripted chains depth (some chain) w = some result →
        ∃ smaller < depth, ∃ w₁ result', w₁.state = s ∧
          fcProcessChain scripted chains smaller (some last) w₁ = some result' := by
  induction path with
  | single live => exact live.taken
  | tail path live ih =>
    obtain ⟨before, first⟩ := ih
    obtain ⟨after, second⟩ := live.taken
    refine ⟨before ++ after, fun s w depth result start returned => ?_⟩
    rw [append_append_stream] at start
    obtain ⟨middle, less, w₁, result₁, state, reached⟩ := first _ _ _ _ start returned
    obtain ⟨smaller, lesser, rest⟩ := second _ _ _ _ state reached
    exact ⟨smaller, Nat.lt_trans lesser less, rest⟩

theorem exists_repeating (script : List Status) : ∃ s : Stream' Status, s = script ++ₛ s := by
  by_cases empty : script = []
  · subst empty
    exact ⟨Stream'.const 0, rfl⟩
  · exact ⟨Stream'.cycle script empty, Stream'.cycle_eq script empty⟩

theorem diverges_of_cycle (cycle : Relation.TransGen (LiveJump chains) chain chain) :
    ∃ s : Stream' Status, ∀ depth (w : World (Stream' Status) α), w.state = s →
      fcProcessChain scripted chains depth (some chain) w = none := by
  obtain ⟨script, taken⟩ := path_taken cycle
  obtain ⟨s, repeats⟩ := exists_repeating script
  refine ⟨s, fun depth => ?_⟩
  induction depth using Nat.strongRecOn with
  | ind depth ih =>
    intro w start
    cases returned : fcProcessChain scripted chains depth (some chain) w with
    | none => rfl
    | some result =>
      obtain ⟨smaller, less, w₁, result', state, again⟩ := taken s w depth result (start.trans repeats) returned
      rw [ih smaller less w₁ state] at again
      cases again

/-- Every chain is processed with a bounded number of nested calls, whatever the callbacks do. -/
def TerminatesBounded (chains : List (FcChain α)) : Prop :=
  ∃ depth, ∀ chain ∈ chains, ReturnsWithin chains depth chain

/-- Every call of `fc_process_chain` returns, whatever the callbacks do. -/
def Terminates (chains : List (FcChain α)) : Prop :=
  ∀ chain ∈ chains, ∀ (σ : Type) (env : Environment σ α) (w : World σ α),
    ∃ depth result, fcProcessChain env chains depth (some chain) w = some result

theorem TerminatesBounded.terminates (bounded : TerminatesBounded chains) : Terminates chains := by
  obtain ⟨depth, returns⟩ := bounded
  intro chain member σ env w
  exact ⟨depth, returns chain member σ env w⟩

theorem terminatesBounded_of_noLiveCycle (acyclic : NoLiveCycle chains) : TerminatesBounded chains := by
  obtain ⟨depth, returns⟩ := returnsWithin_of_noLiveCycle acyclic
  exact ⟨depth, fun chain _ => returns chain⟩

theorem Terminates.noLiveCycle (terminates : Terminates chains) : NoLiveCycle chains := by
  intro chain cycle
  obtain ⟨s, diverges⟩ := diverges_of_cycle cycle
  obtain ⟨before, _, live⟩ := Relation.TransGen.tail'_iff.mp cycle
  obtain ⟨depth, result, returned⟩ := terminates chain live.mem _ scripted ⟨s, []⟩
  rw [diverges depth _ rfl] at returned
  cases returned

/-- Processing terminates if and only if no jumps that may be taken form a cycle. -/
theorem filter_termination_iff (loader : Loader α) (registry : Registry α) (blocks : List ConfigItem) :
    ((∀ chains, acceptedChains loader registry [] blocks = some chains → TerminatesBounded chains) ↔
      ∀ chains, acceptedChains loader registry [] blocks = some chains → NoLiveCycle chains) ∧
    ((∀ chains, acceptedChains loader registry [] blocks = some chains → Terminates chains) ↔
      ∀ chains, acceptedChains loader registry [] blocks = some chains → NoLiveCycle chains) := by
  refine ⟨⟨fun bounded chains accepted => ?_, fun acyclic chains accepted => ?_⟩,
    fun terminates chains accepted => ?_, fun acyclic chains accepted => ?_⟩
  · exact (bounded chains accepted).terminates.noLiveCycle
  · exact terminatesBounded_of_noLiveCycle (acyclic chains accepted)
  · exact (terminates chains accepted).noLiveCycle
  · exact (terminatesBounded_of_noLiveCycle (acyclic chains accepted)).terminates

def selfJump : ConfigItem :=
  ⟨"Chain", [.string "loop"],
    [⟨"Target", [.string "jump"], [⟨"Chain", [.string "loop"], []⟩]⟩]⟩

def selfJumpChain : FcChain Unit := ⟨"loop", [], [⟨"jump", .bitJump "loop"⟩]⟩

def loadNothing : Loader Unit := ⟨false, fun _ registry => (0, registry)⟩

theorem selfJump_diverges (env : Environment σ Unit) (depth : Nat) (w : World σ Unit) :
    fcProcessChain env [selfJumpChain] depth (some selfJumpChain) w = none := by
  induction depth generalizing w with
  | zero => rfl
  | succ depth ih =>
    have jumped : invokeWithin env [selfJumpChain] depth ⟨"jump", .bitJump "loop"⟩ w = none := by
      change (fcProcessChain env [selfJumpChain] depth (some selfJumpChain) _).map _ = none
      rw [ih, map_none]
    change defaultTargets (invokeWithin env [selfJumpChain] depth) [⟨"jump", .bitJump "loop"⟩] w = none
    rw [defaultTargets, targetLoop, jumped]
    rfl

theorem self_jump_accepted_diverges :
    acceptedChains loadNothing (fcInitOnce ⟨[], []⟩) [] [selfJump] = some [selfJumpChain] ∧
      (∀ (σ : Type) (env : Environment σ Unit) depth w,
        fcProcessChain env [selfJumpChain] depth (some selfJumpChain) w = none) ∧
      ¬ Terminates [selfJumpChain] := by
  refine ⟨rfl, fun σ env depth w => selfJump_diverges env depth w, fun terminates => ?_⟩
  obtain ⟨depth, result, returned⟩ := terminates _ mem_cons_self _ scripted ⟨Stream'.const 0, []⟩
  rw [selfJump_diverges] at returned
  cases returned

end NCollectd.Filter
