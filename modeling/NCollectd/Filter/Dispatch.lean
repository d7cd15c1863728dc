import NCollectd.Filter.Reference

namespace NCollectd.Filter

open List Option

variable {σ α : Type} {chains : List (FcChain α)}
variable {invoke : FcTarget α → World σ α → Option (Status × World σ α)}

def Call.stops : Call α → Bool
  | .invoked _ status => status = FC_TARGET_STOP
  | .stopped => true
  | _ => false

def Call.ofChain : Call α → Bool
  | .updated _ => false
  | _ => true

/-- A stop is reported if and only if the last call asked for it, and no earlier one did. -/
def StopsLast (w : World σ α) (status : Status) (w' : World σ α) : Prop :=
  ∃ before : List (Call α), (∀ call ∈ before, call.stops = false ∧ call.ofChain = true) ∧
    (status ≠ FC_TARGET_STOP ∧ w'.calls = w.calls ++ before ∨
      status = FC_TARGET_STOP ∧ ∃ last : Call α, last.stops = true ∧ w'.calls = w.calls ++ before ++ [last])

theorem stopsLast_refl (w : World σ α) (quiet : status ≠ FC_TARGET_STOP) : StopsLast w status w :=
  ⟨[], by simp, .inl ⟨quiet, by simp⟩⟩

theorem StopsLast.trans (first : StopsLast w status w₁) (unstopped : status ≠ FC_TARGET_STOP)
    (second : StopsLast w₁ last w₂) : StopsLast w last w₂ := by
  obtain ⟨before, quiet, ⟨_, calls⟩ | ⟨stop, _⟩⟩ := first
  · obtain ⟨after, later, rest⟩ := second
    rw [calls] at rest
    refine ⟨before ++ after, forall_mem_append.mpr ⟨quiet, later⟩, ?_⟩
    simpa only [append_assoc] using rest
  · exact absurd stop unstopped

theorem StopsLast.congr (logged : StopsLast w status w')
    (same : status = FC_TARGET_STOP ↔ last = FC_TARGET_STOP) : StopsLast w last w' := by
  obtain ⟨before, quiet, ⟨unstopped, calls⟩ | ⟨stop, found⟩⟩ := logged
  · exact ⟨before, quiet, .inl ⟨fun stop => unstopped (same.mpr stop), calls⟩⟩
  · exact ⟨before, quiet, .inr ⟨same.mp stop, found⟩⟩

theorem stopsLast_record (w : World σ α) (quiet : call.stops = false)
    (own : call.ofChain = true) (unstopped : status ≠ FC_TARGET_STOP) : StopsLast w status (w.record call) :=
  ⟨[call], by simp [quiet, own], .inl ⟨unstopped, rfl⟩⟩

theorem matchLoop_calls (env : Environment σ α) (matchList : List (FcMatch α)) (start : Status) (w : World σ α) :
    StopsLast w FC_TARGET_CONTINUE (matchLoop env start matchList w).2 := by
  induction matchList generalizing start w with
  | nil => exact stopsLast_refl w (by decide)
  | cons m rest ih =>
    have tested : StopsLast w FC_TARGET_CONTINUE (w.call (env.test m.userData) (.tested m.userData)).2 :=
      ⟨[.tested m.userData _], by simp [Call.stops, Call.ofChain], .inl ⟨by decide, rfl⟩⟩
    rw [matchLoop]
    split
    · exact tested
    · split
      · exact tested
      · exact tested.trans (by decide) (ih _ _)

section

variable (logged : ∀ target w status w', invoke target w = some (status, w') → StopsLast w status w')
include logged

theorem TargetsRun.calls (run : TargetsRun invoke targets w status w') : StopsLast w status w' := by
  induction run with
  | done => exact stopsLast_refl _ (by decide)
  | signalled called signals => exact logged _ _ _ _ called
  | passed called quiet later ih =>
    exact (logged _ _ _ _ called).trans (fun stop => quiet (.inl stop)) ih

theorem RulesRun.calls (run : RulesRun env invoke rules w status w') : StopsLast w status w' := by
  induction run with
  | done => exact stopsLast_refl _ (by decide)
  | @skipped w left w₁ rest last w₂ rule unmatched later ih =>
    have tested := matchLoop_calls env rule.matchList FC_TARGET_CONTINUE w
    rw [unmatched] at tested
    exact tested.trans (by decide) ih
  | @passed w left w₁ w₂ rest last w₃ rule matched ran later ih =>
    have tested := matchLoop_calls env rule.matchList FC_TARGET_CONTINUE w
    rw [matched] at tested
    exact tested.trans (by decide) ((ran.calls logged).trans (by decide) ih)
  | @signalled w left w₁ last w₂ rule rest matched ran signals =>
    have tested := matchLoop_calls env rule.matchList FC_TARGET_CONTINUE w
    rw [matched] at tested
    exact tested.trans (by decide) (ran.calls logged)

theorem ChainRun.calls (run : ChainRun env invoke chain w status w') : StopsLast w status w' := by
  cases run with
  | signalled ran signals => exact ran.calls logged
  | stopped ran default => exact (ran.calls logged).trans (by decide) (default.calls logged)
  | finished ran default unstopped =>
    have ended := (ran.calls logged).trans (by decide) (default.calls logged)
    exact ended.congr (iff_of_false unstopped (by decide))

end

theorem fcBitWriteInvoke_calls (env : Environment σ α) (plugins : List CString) (w : World σ α) :
    StopsLast w FC_TARGET_CONTINUE (fcBitWriteInvoke env plugins w).2 := by
  have written : ∀ (plugin : Option CString) (w : World σ α), StopsLast w FC_TARGET_CONTINUE
      (w.call (env.pluginWrite plugin) (.written plugin)).2 := fun plugin w =>
    ⟨[.written plugin _], by simp [Call.stops, Call.ofChain], .inl ⟨by decide, rfl⟩⟩
  have loop : ∀ (plugins : List CString) (w : World σ α), StopsLast w FC_TARGET_CONTINUE (plugins.foldl
      (fun w plugin => (w.call (env.pluginWrite (some plugin)) (.written (some plugin))).2) w) := by
    intro plugins
    induction plugins with
    | nil => exact fun w => stopsLast_refl w (by decide)
    | cons plugin rest ih => exact fun w => (written _ w).trans (by decide) (ih _)
  cases plugins with
  | nil => exact written none w
  | cons plugin rest => exact loop (plugin :: rest) w

theorem invokeWithin_calls (logged : ∀ chain w status w',
    fcProcessChain env chains depth (some chain) w = some (status, w') → StopsLast w status w')
    (target : FcTarget α) (w : World σ α) (status : Status) (w' : World σ α)
    (called : invokeWithin env chains depth target w = some (status, w')) : StopsLast w status w' := by
  obtain ⟨name, proc⟩ := target
  cases proc with
  | bitJump chainName =>
    have noted : StopsLast w FC_TARGET_CONTINUE (w.record (.jumped chainName)) :=
      stopsLast_record w rfl rfl (by decide)
    rcases fcBitJumpInvoke_cases called with ⟨_, rfl, rfl⟩ | ⟨next, result, _, processed, reported⟩
    · exact stopsLast_record w rfl rfl (by decide)
    · refine noted.trans (by decide) ((logged _ _ _ _ processed).congr ?_)
      rcases reported with ⟨stop, same⟩ | ⟨unstopped, quiet⟩
      · exact iff_of_true stop same
      · exact iff_of_false unstopped fun stop => quiet (.inl stop)
  | bitStop =>
    cases called
    exact ⟨[], by simp, .inr ⟨rfl, .stopped, rfl, by simp [World.record]⟩⟩
  | bitReturn =>
    cases called
    exact stopsLast_record w rfl rfl (by decide)
  | bitWrite plugins =>
    have same : fcBitWriteInvoke env plugins w = (status, w') := some.inj called
    have settled := fcBitWriteInvoke_status env plugins w
    have written := fcBitWriteInvoke_calls env plugins w
    rw [same] at settled written
    obtain rfl : status = FC_TARGET_CONTINUE := settled
    exact written
  | plugin userData =>
    cases called
    by_cases stop : (env.invoke userData w.state).1 = FC_TARGET_STOP
    · exact ⟨[], by simp, .inr ⟨stop, .invoked userData _, by simpa [Call.stops] using stop, by simp⟩⟩
    · exact ⟨[.invoked userData _], by simpa [Call.stops, Call.ofChain] using stop, .inl ⟨stop, rfl⟩⟩

theorem fcProcessChain_calls (returned : fcProcessChain env chains depth (some chain) w = some (status, w')) :
    StopsLast w status w' := by
  induction depth generalizing chain w status w' with
  | zero => cases returned
  | succ depth ih => exact (fcProcessChain_iff.mp returned).calls (invokeWithin_calls fun _ _ _ _ => ih)

/-- After a stop of the pre-cache chain the dispatcher does nothing more. -/
theorem pluginDispatchMetricInternal_stopped (post : Option (FcChain α))
    (returned : fcProcessChain env chains depth (some pre) w = some (FC_TARGET_STOP, w')) :
    pluginDispatchMetricInternal env chains depth (some pre) post false w = some (0, w') := by
  rw [pluginDispatchMetricInternal, if_neg Bool.false_ne_true]
  simp only [returned, bind_some]
  exact if_pos ⟨rfl, by decide, trivial⟩

theorem mem_of_mem_reached (member : target ∈ reached mayPass targets) :
    target ∈ targets := by
  induction targets with
  | nil => cases member
  | cons first rest ih =>
    rcases mem_cons.mp member with rfl | member
    · exact mem_cons_self
    · split at member
      · exact mem_cons_of_mem _ (ih member)
      · cases member

theorem mem_of_mem_reachedByRules
    (member : target ∈ reachedByRules mayPass rules) : ∃ rule ∈ rules, target ∈ rule.targets := by
  induction rules with
  | nil => cases member
  | cons rule rest ih =>
    rcases mem_append.mp member with here | there
    · exact ⟨rule, mem_cons_self, mem_of_mem_reached here⟩
    · split at there
      · obtain ⟨later, found, inside⟩ := ih there
        exact ⟨later, mem_cons_of_mem _ found, inside⟩
      · cases there

theorem LiveJump.jumpsTo {next} (live : LiveJump chains chain next) : JumpsTo chains chain next := by
  obtain ⟨depth, target, member, jump⟩ := live
  refine ⟨target, ?_, jump⟩
  rcases mem_append.mp member with rules | targets
  · exact .inr (mem_of_mem_reachedByRules rules)
  · split at targets
    · exact .inl (mem_of_mem_reached targets)
    · cases targets

theorem Acyclic.noLiveCycle (acyclic : Acyclic chains) : NoLiveCycle chains := by
  intro chain cycle
  exact acyclic chain (Relation.TransGen.mono (fun _ _ live => LiveJump.jumpsTo live) _ _ cycle)

/-- Without a cycle of jumps, chains do what the reference interpreter says and nothing after a stop. -/
theorem filter_chain_semantics (chains : List (FcChain α)) (acyclic : Acyclic chains) :
    ∃ bound, ∀ (σ : Type) (env : Environment σ α) (depth : Nat), bound ≤ depth → ∀ (c : FcChain α) (w : World σ α),
      ∃ status w', Reference.outcome (Reference.chain env acyclic c w) = (status, w') ∧
        fcProcessChain env chains depth (some c) w = some (status, w') ∧ StopsLast w status w' ∧
        (status = FC_TARGET_STOP → ∀ post,
          pluginDispatchMetricInternal env chains depth (some c) post false w = some (0, w')) := by
  obtain ⟨bound, returns⟩ := returnsWithin_of_noLiveCycle acyclic.noLiveCycle
  refine ⟨bound, fun σ env depth enough c w => ?_⟩
  obtain ⟨⟨status, w'⟩, returned⟩ := (returns c).mono enough σ env w
  refine ⟨status, w', Reference.process_agrees acyclic returned, returned, fcProcessChain_calls returned, ?_⟩
  rintro rfl post
  exact pluginDispatchMetricInternal_stopped post returned

def returningChain : FcChain Nat :=
  ⟨"sub", [⟨[], [⟨"regex", 0⟩], [⟨"return", .bitReturn⟩], cons_ne_nil _ _⟩],
    [⟨"replace", .plugin 1⟩]⟩

def jumpingChain : FcChain Nat :=
  ⟨"pre", [], [⟨"jump", .bitJump "SUB"⟩, ⟨"stop", .bitStop⟩, ⟨"write", .bitWrite []⟩]⟩

theorem jumpsTo_returningChain {next} (jumps : JumpsTo [jumpingChain, returningChain] jumpingChain next) :
    next = returningChain := by
  obtain ⟨target, owned | ⟨rule, member, _⟩, chainName, jump, found⟩ := jumps
  · simp only [jumpingChain, mem_cons, not_mem_nil, or_false] at owned
    rcases owned with rfl | rfl | rfl
    · cases jump
      exact (some.inj found).symm
    all_goals cases jump
  · cases member

theorem not_jumpsTo_of_returningChain {next} {chains : List (FcChain Nat)} : ¬ JumpsTo chains returningChain next := by
  rintro ⟨target, owned | ⟨rule, member, owned⟩, chainName, jump, found⟩
  · obtain rfl := mem_singleton.mp owned
    cases jump
  · obtain rfl := mem_singleton.mp member
    obtain rfl := mem_singleton.mp owned
    cases jump

theorem acyclic_jumpingChain : Acyclic [jumpingChain, returningChain] := by
  intro chain cycle
  obtain ⟨next, first, rest⟩ := Relation.TransGen.head'_iff.mp cycle
  obtain ⟨before, _, last⟩ := Relation.TransGen.tail'_iff.mp cycle
  rcases mem_pair.mp last.mem with rfl | rfl
  · obtain rfl := jumpsTo_returningChain first
    rcases Relation.ReflTransGen.cases_head rest with same | ⟨_, jumps, _⟩
    · cases same
    · exact not_jumpsTo_of_returningChain jumps
  · exact not_jumpsTo_of_returningChain first

def obliging : Environment Unit Nat := ⟨fun _ _ => (1, ()), fun _ _ => (0, ()), fun _ _ => (0, ()), fun _ => (0, ())⟩

theorem filter_chain_semantics_jumping :
    Acyclic [jumpingChain, returningChain] ∧ ∃ depth status w',
      fcProcessChain obliging [jumpingChain, returningChain] depth (some jumpingChain) ⟨(), []⟩ = some (status, w') ∧
        StopsLast ⟨(), []⟩ status w' := by
  refine ⟨acyclic_jumpingChain, ?_⟩
  obtain ⟨bound, agrees⟩ := filter_chain_semantics _ acyclic_jumpingChain
  obtain ⟨status, w', _, returned, calls, _⟩ := agrees Unit obliging bound (Nat.le_refl _) jumpingChain ⟨(), []⟩
  exact ⟨bound, status, w', returned, calls⟩

end NCollectd.Filter
