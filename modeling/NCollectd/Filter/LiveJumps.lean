import NCollectd.Base.Runs
import NCollectd.Filter.Processing

/-! Which jumps of a configuration can be taken, whatever the callbacks answer. -/

namespace NCollectd.Filter

open List Option

variable {σ α : Type} {chains : List (FcChain α)}
def FcTarget.passes (chains : List (FcChain α)) (pass : FcChain α → Bool) (target : FcTarget α) : Bool :=
  match target.proc with
  | .bitJump chainName =>
    match fcChainGetByName chains (some chainName) with
    | none => true
    | some chain => pass chain
  | .bitStop => false
  | .bitReturn => false
  | .bitWrite _ => true
  | .plugin _ => true

def FcTarget.returns (target : FcTarget α) : Bool :=
  match target.proc with
  | .bitReturn => true
  | .plugin _ => true
  | _ => false

def reached (mayPass : FcTarget α → Bool) : List (FcTarget α) → List (FcTarget α)
  | [] => []
  | target :: rest => target :: if mayPass target then reached mayPass rest else []

def FcRule.passes (mayPass : FcTarget α → Bool) (rule : FcRule α) : Bool :=
  !rule.matchList.isEmpty || rule.targets.all mayPass

def reachedByRules (mayPass : FcTarget α → Bool) : List (FcRule α) → List (FcTarget α)
  | [] => []
  | rule :: rest => reached mayPass rule.targets ++ if rule.passes mayPass then reachedByRules mayPass rest else []

def FcChain.reached (mayPass : FcTarget α → Bool) (chain : FcChain α) : List (FcTarget α) :=
  reachedByRules mayPass chain.rules ++
    if chain.rules.all (FcRule.passes mayPass) then Filter.reached mayPass chain.targets else []

def canPass (chains : List (FcChain α)) : Nat → FcChain α → Bool
  | 0, _ => false
  | depth + 1, chain =>
    (chain.reached (FcTarget.passes chains (canPass chains depth))).any FcTarget.returns ||
      chain.rules.all (FcRule.passes (FcTarget.passes chains (canPass chains depth))) &&
        chain.targets.all (FcTarget.passes chains (canPass chains depth))

/-- The target jumps to a chain that exists. -/
def FcTarget.JumpsTo (chains : List (FcChain α)) (target : FcTarget α) (next : FcChain α) : Prop :=
  ∃ chainName, target.proc = .bitJump chainName ∧ fcChainGetByName chains (some chainName) = some next

def LiveJump (chains : List (FcChain α)) (chain next : FcChain α) : Prop :=
  ∃ depth, ∃ target ∈ chain.reached (FcTarget.passes chains (canPass chains depth)), target.JumpsTo chains next

def NoLiveCycle (chains : List (FcChain α)) : Prop := ∀ chain, ¬ Relation.TransGen (LiveJump chains) chain chain

theorem fcChainGetByName_mem (found : fcChainGetByName chains chainName = some chain) : chain ∈ chains := by
  cases chainName with
  | none => cases found
  | some chainName => exact mem_of_find?_eq_some found

theorem LiveJump.mem {next} (live : LiveJump chains chain next) : next ∈ chains := by
  obtain ⟨_, _, _, _, _, found⟩ := live
  exact fcChainGetByName_mem found

/-- The targets answer only as `mayPass` and `returns` allow. -/
structure Allowed (invoke : FcTarget α → World σ α → Option (Status × World σ α)) (mayPass : FcTarget α → Bool) :
    Prop where
  quiet : ∀ target w status w', invoke target w = some (status, w') → ¬ Signals status → mayPass target = true
  leave : ∀ target w w', invoke target w = some (FC_TARGET_RETURN, w') → target.returns = true

theorem TargetsRun.passes (allowed : Allowed invoke mayPass) (run : TargetsRun invoke targets w status w')
    (quiet : ¬ Signals status) : targets.all mayPass = true := by
  induction run with
  | done => rfl
  | signalled called signals => exact absurd signals quiet
  | passed called before later ih =>
    rw [all_cons, allowed.quiet _ _ _ _ called before, ih quiet]
    rfl

theorem TargetsRun.returns (allowed : Allowed invoke mayPass) (run : TargetsRun invoke targets w status w')
    (leave : status = FC_TARGET_RETURN) : ∃ target ∈ reached mayPass targets, target.returns = true := by
  induction run with
  | done => cases leave
  | signalled called signals =>
    subst leave
    exact ⟨_, mem_cons_self, allowed.leave _ _ _ called⟩
  | passed called before later ih =>
    obtain ⟨target, member, returns⟩ := ih leave
    refine ⟨target, ?_, returns⟩
    rw [reached, allowed.quiet _ _ _ _ called before, if_pos rfl]
    exact mem_cons_of_mem _ member

theorem matchLoop_unmatched (unmatched : matchLoop env start matchList w = ((false, status), w')) :
    matchList ≠ [] := by
  rintro rfl
  cases unmatched

theorem passes_of_unmatched {rule : FcRule α}
    (unmatched : matchLoop env start rule.matchList w = ((false, status), w')) : rule.passes mayPass = true := by
  have nonempty := matchLoop_unmatched unmatched
  rw [FcRule.passes, isEmpty_eq_false_iff.mpr nonempty]
  rfl

theorem passes_of_targets {rule : FcRule α} (pass : rule.targets.all mayPass = true) :
    rule.passes mayPass = true := by
  rw [FcRule.passes, pass, Bool.or_true]

theorem RulesRun.passes (allowed : Allowed invoke mayPass) (run : RulesRun env invoke rules w status w')
    (quiet : ¬ Signals status) : rules.all (FcRule.passes mayPass) = true := by
  induction run with
  | done => rfl
  | skipped unmatched later ih =>
    rw [all_cons, passes_of_unmatched unmatched, ih quiet]
    rfl
  | passed matched ran later ih =>
    rw [all_cons, passes_of_targets (ran.passes allowed quiet_continue), ih quiet]
    rfl
  | signalled matched ran signals => exact absurd signals quiet

theorem RulesRun.returns (allowed : Allowed invoke mayPass) (run : RulesRun env invoke rules w status w')
    (leave : status = FC_TARGET_RETURN) : ∃ target ∈ reachedByRules mayPass rules, target.returns = true := by
  induction run with
  | done => cases leave
  | skipped unmatched later ih =>
    obtain ⟨target, member, returns⟩ := ih leave
    refine ⟨target, mem_append_right _ ?_, returns⟩
    rwa [passes_of_unmatched unmatched]
  | passed matched ran later ih =>
    obtain ⟨target, member, returns⟩ := ih leave
    refine ⟨target, mem_append_right _ ?_, returns⟩
    rwa [passes_of_targets (ran.passes allowed quiet_continue)]
  | signalled matched ran signals =>
    obtain ⟨target, member, returns⟩ := ran.returns allowed leave
    exact ⟨target, mem_append_left _ member, returns⟩

theorem fcBitJumpInvoke_cases
    (called : fcBitJumpInvoke chains process chainName w = some (status, w')) :
    fcChainGetByName chains (some chainName) = none ∧ status = -1 ∧ w' = w ∨
      ∃ next result, fcChainGetByName chains (some chainName) = some next ∧ process (some next) w = some (result, w') ∧
        (result = FC_TARGET_STOP ∧ status = FC_TARGET_STOP ∨ result ≠ FC_TARGET_STOP ∧ ¬ Signals status) := by
  unfold fcBitJumpInvoke at called
  split at called
  · rename_i missing
    cases called
    exact .inl ⟨missing, rfl, rfl⟩
  · rename_i next found
    obtain ⟨⟨result, w₁⟩, processed, mapped⟩ := map_eq_some_iff.mp called
    dsimp only at mapped
    split at mapped
    · rename_i negative
      obtain ⟨rfl, rfl⟩ := Prod.mk.inj mapped
      have quiet : ¬ Signals result := by
        rintro (rfl | rfl)
        all_goals exact absurd negative (by decide)
      exact .inr ⟨next, result, found, processed, .inr ⟨fun stop => quiet (.inl stop), quiet⟩⟩
    · split at mapped
      · rename_i stop
        cases mapped
        exact .inr ⟨next, result, found, processed, .inl ⟨stop, rfl⟩⟩
      · rename_i unstopped
        cases mapped
        exact .inr ⟨next, result, found, processed, .inr ⟨unstopped, quiet_continue⟩⟩

theorem fcBitWriteInvoke_status (env : Environment σ α) (plugins : List CString) (w : World σ α) :
    (fcBitWriteInvoke env plugins w).1 = FC_TARGET_CONTINUE := by
  cases plugins with
  | nil | cons plugin rest => rfl

theorem allowed_within {pass}
    (ends : ∀ chain w status w', fcProcessChain env chains depth (some chain) w = some (status, w') →
      status ≠ FC_TARGET_STOP → pass chain = true) :
    Allowed (invokeWithin env chains depth) (FcTarget.passes chains pass) := by
  refine ⟨fun target w status w' called quiet => ?_, fun target w w' called => ?_⟩
  · obtain ⟨name, proc⟩ := target
    cases proc with
    | bitJump chainName =>
      rcases fcBitJumpInvoke_cases called with ⟨missing, _⟩ | ⟨next, result, found, processed, outcome⟩
      · simp only [FcTarget.passes, missing]
      · simp only [FcTarget.passes, found]
        rcases outcome with ⟨_, rfl⟩ | ⟨unstopped, _⟩
        · exact absurd (.inl rfl) quiet
        · exact ends _ _ _ _ processed unstopped
    | bitStop =>
      cases called
      exact absurd (.inl rfl) quiet
    | bitReturn =>
      cases called
      exact absurd (.inr rfl) quiet
    | bitWrite plugins | plugin userData => rfl
  · obtain ⟨name, proc⟩ := target
    cases proc with
    | bitJump chainName =>
      rcases fcBitJumpInvoke_cases called with ⟨_, status, _⟩ | ⟨next, result, _, _, outcome⟩
      · exact absurd status (by decide)
      · rcases outcome with ⟨_, status⟩ | ⟨_, quiet⟩
        · exact absurd status (by decide)
        · exact absurd (.inr rfl) quiet
    | bitStop =>
      obtain ⟨status, _⟩ := Prod.mk.inj (some.inj called)
      exact absurd status (by decide)
    | bitReturn => rfl
    | bitWrite plugins =>
      have status : (fcBitWriteInvoke env plugins w).1 = FC_TARGET_RETURN := congrArg Prod.fst (some.inj called)
      rw [fcBitWriteInvoke_status] at status
      exact absurd status (by decide)
    | plugin userData => rfl

theorem canPass_of_process (returned : fcProcessChain env chains depth (some chain) w = some (status, w'))
    (unstopped : status ≠ FC_TARGET_STOP) : canPass chains depth chain = true := by
  induction depth generalizing chain w status w' with
  | zero => cases returned
  | succ depth ih =>
    have allowed := allowed_within fun _ _ _ _ => ih
    rw [canPass, Bool.or_eq_true, Bool.and_eq_true]
    cases fcProcessChain_iff.mp returned with
    | signalled ran signals =>
      obtain ⟨target, member, returns⟩ := ran.returns allowed (signals.resolve_left unstopped)
      exact .inl (any_eq_true.mpr ⟨target, mem_append_left _ member, returns⟩)
    | stopped ran default => exact absurd rfl unstopped
    | finished ran default quiet =>
      rename_i w₁ last
      have rules := ran.passes allowed quiet_continue
      by_cases signals : Signals last
      · obtain ⟨target, member, returns⟩ := default.returns allowed (signals.resolve_left quiet)
        refine .inl (any_eq_true.mpr ⟨target, mem_append_right _ ?_, returns⟩)
        rwa [rules]
      · exact .inr ⟨rules, default.passes allowed signals⟩

theorem exists_targetsRun (allowed : Allowed invoke mayPass)
    (defined : ∀ target ∈ reached mayPass targets, ∀ w, ∃ result, invoke target w = some result) (w : World σ α) :
    ∃ status w', TargetsRun invoke targets w status w' := by
  induction targets generalizing w with
  | nil => exact ⟨_, _, .done⟩
  | cons target rest ih =>
    obtain ⟨⟨status, w₁⟩, called⟩ := defined target mem_cons_self w
    by_cases signals : Signals status
    · exact ⟨status, w₁, .signalled called signals⟩
    · have pass := allowed.quiet _ _ _ _ called signals
      rw [reached, if_pos pass] at defined
      obtain ⟨last, w₂, later⟩ := ih (fun target member => defined target (mem_cons_of_mem _ member)) w₁
      exact ⟨last, w₂, .passed called signals later⟩

theorem TargetsRun.status_cases (run : TargetsRun invoke targets w status w') :
    status = FC_TARGET_CONTINUE ∨ Signals status := by
  induction run with
  | done => exact .inl rfl
  | signalled called signals => exact .inr signals
  | passed called quiet later ih => exact ih

theorem RulesRun.status_cases (run : RulesRun env invoke rules w status w') :
    status = FC_TARGET_CONTINUE ∨ Signals status := by
  induction run with
  | done => exact .inl rfl
  | skipped unmatched later ih | passed matched ran later ih => exact ih
  | signalled matched ran signals => exact .inr signals

theorem exists_rulesRun (env : Environment σ α) (allowed : Allowed invoke mayPass)
    (defined : ∀ target ∈ reachedByRules mayPass rules, ∀ w, ∃ result, invoke target w = some result)
    (w : World σ α) : ∃ status w', RulesRun env invoke rules w status w' := by
  induction rules generalizing w with
  | nil => exact ⟨_, _, .done⟩
  | cons rule rest ih =>
    rw [reachedByRules] at defined
    cases tested : matchLoop env FC_TARGET_CONTINUE rule.matchList w with
    | mk outcome w₁ =>
      obtain ⟨held, left⟩ := outcome
      cases held with
      | false =>
        rw [passes_of_unmatched tested, if_pos rfl] at defined
        obtain ⟨last, w₂, later⟩ := ih (fun target member => defined target (mem_append_right _ member)) w₁
        exact ⟨last, w₂, .skipped tested later⟩
      | true =>
        obtain ⟨status, w₂, ran⟩ := exists_targetsRun allowed
          (fun target member => defined target (mem_append_left _ member)) w₁
        rcases ran.status_cases with rfl | signals
        · rw [passes_of_targets (ran.passes allowed quiet_continue), if_pos rfl] at defined
          obtain ⟨last, w₃, later⟩ := ih (fun target member => defined target (mem_append_right _ member)) w₂
          exact ⟨last, w₃, .passed tested ran later⟩
        · exact ⟨status, w₂, .signalled tested ran signals⟩

theorem exists_chainRun (env : Environment σ α) (allowed : Allowed invoke mayPass)
    (defined : ∀ target ∈ chain.reached mayPass, ∀ w, ∃ result, invoke target w = some result) (w : World σ α) :
    ∃ status w', ChainRun env invoke chain w status w' := by
  obtain ⟨status, w₁, ran⟩ := exists_rulesRun env allowed
    (fun target member => defined target (mem_append_left _ member)) w
  rcases ran.status_cases with rfl | signals
  · rw [FcChain.reached, ran.passes allowed quiet_continue, if_pos rfl] at defined
    obtain ⟨last, w₂, default⟩ := exists_targetsRun allowed
      (fun target member => defined target (mem_append_right _ member)) w₁
    by_cases stop : last = FC_TARGET_STOP
    · subst stop
      exact ⟨_, w₂, .stopped ran default⟩
    · exact ⟨_, w₂, .finished ran default stop⟩
  · exact ⟨status, w₁, .signalled ran signals⟩

/-- The chain is processed with at most `depth` nested calls, whatever the callbacks do. -/
def ReturnsWithin (chains : List (FcChain α)) (depth : Nat) (chain : FcChain α) : Prop :=
  ∀ (σ : Type) (env : Environment σ α) (w : World σ α), ∃ result,
    fcProcessChain env chains depth (some chain) w = some result

theorem ReturnsWithin.mono (returns : ReturnsWithin chains depth chain) (depths : depth ≤ deeper) :
    ReturnsWithin chains deeper chain := by
  intro σ env w
  obtain ⟨result, returned⟩ := returns σ env w
  exact ⟨result, fcProcessChain_mono depths _ _ _ returned⟩

theorem invokeWithin_defined
    (next : ∀ next, target.JumpsTo chains next → ReturnsWithin chains depth next) (w : World σ α) :
    ∃ result, invokeWithin env chains depth target w = some result := by
  obtain ⟨name, proc⟩ := target
  cases proc with
  | bitJump chainName =>
    simp only [invokeWithin, invokeTarget, fcBitJumpInvoke]
    cases found : fcChainGetByName chains (some chainName) with
    | none => exact ⟨_, rfl⟩
    | some chain =>
      obtain ⟨result, returned⟩ := next chain ⟨chainName, rfl, found⟩ σ env (w.record (.jumped chainName))
      dsimp only
      rw [returned]
      exact ⟨_, rfl⟩
  | bitStop | bitReturn | bitWrite plugins | plugin userData => exact ⟨_, rfl⟩

theorem returnsWithin_succ (next : ∀ next, LiveJump chains chain next → ReturnsWithin chains depth next) :
    ReturnsWithin chains (depth + 1) chain := by
  intro σ env w
  have allowed : Allowed (invokeWithin env chains depth) (FcTarget.passes chains (canPass chains depth)) :=
    allowed_within fun _ _ _ _ => canPass_of_process
  have defined : ∀ target ∈ chain.reached (FcTarget.passes chains (canPass chains depth)), ∀ w,
      ∃ result, invokeWithin env chains depth target w = some result :=
    fun target member => invokeWithin_defined fun entered jump => next entered ⟨depth, target, member, jump⟩
  obtain ⟨status, w', run⟩ := exists_chainRun env allowed defined w
  exact ⟨_, fcProcessChain_iff.mpr run⟩

theorem exists_bound {P : Nat → β → Prop} (mono : ∀ a n m, n ≤ m → P n a → P m a) (items : List β)
    (each : ∀ a ∈ items, ∃ n, P n a) : ∃ n, ∀ a ∈ items, P n a := by
  induction items with
  | nil => exact ⟨0, by simp⟩
  | cons a rest ih =>
    obtain ⟨first, here⟩ := each a mem_cons_self
    obtain ⟨other, there⟩ := ih fun a member => each a (mem_cons_of_mem _ member)
    refine ⟨Nat.max first other, forall_mem_cons.mpr ⟨?_, fun a member => ?_⟩⟩
    · exact mono a _ _ (le_max_left _ _) here
    · exact mono a _ _ (le_max_right _ _) (there a member)

theorem exists_returnsWithin (acyclic : NoLiveCycle chains) (chain : FcChain α) :
    ∃ depth, ReturnsWithin chains depth chain := by
  have order := wellFounded_of_acyclic (fun _ _ live => LiveJump.mem live) acyclic
  induction chain using order.induction with
  | _ chain ih =>
    obtain ⟨depth, bounded⟩ := exists_bound
      (P := fun depth next => LiveJump chains chain next → ReturnsWithin chains depth next)
      (fun next n m larger returns live => (returns live).mono larger) chains (by
        intro next _
        by_cases live : LiveJump chains chain next
        · obtain ⟨depth, returns⟩ := ih next live
          exact ⟨depth, fun _ => returns⟩
        · exact ⟨0, fun taken => absurd taken live⟩)
    exact ⟨depth + 1, returnsWithin_succ fun next live => bounded next live.mem live⟩

/-- Without a cycle of jumps that may be taken, one depth is enough for every chain. -/
theorem returnsWithin_of_noLiveCycle (acyclic : NoLiveCycle chains) :
    ∃ depth, ∀ chain, ReturnsWithin chains depth chain := by
  obtain ⟨depth, bounded⟩ := exists_bound (P := ReturnsWithin chains)
    (fun chain n m larger returns => returns.mono larger) chains (fun chain _ => exists_returnsWithin acyclic chain)
  exact ⟨depth + 1, fun chain => returnsWithin_succ fun next live => bounded next live.mem⟩

end NCollectd.Filter
