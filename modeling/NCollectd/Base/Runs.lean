import Mathlib

/-! Runs: machines whose actions are taken in any order, folds in lockstep, and relations without a cycle. -/

namespace NCollectd

universe u v w

/-- A system that takes one of several actions at a time, and what is observed of them. -/
structure Machine (σ : Type u) (ι : Type v) (ε : Type w) where
  initial : σ
  Enabled : σ → ι → Prop
  perform : σ → ι → Option (σ × List ε)

namespace Machine

variable {σ : Type u} {ι : Type v} {ε : Type w}

/-- The states every interleaving of actions can reach, with all that was observed. -/
inductive Execution (machine : Machine σ ι ε) : σ → List ε → Prop where
  | start : Execution machine machine.initial []
  | step (before : Execution machine s log) (action : ι) (enabled : machine.Enabled s action)
      (performed : machine.perform s action = some (s', new)) : Execution machine s' (log ++ new)

/-- Every possible action is defined and keeps what holds of the state and the log. -/
def Preserves (machine : Machine σ ι ε) (holds : σ → List ε → Prop) : Prop :=
  ∀ s log action, holds s log → machine.Enabled s action →
    ∃ s' new, machine.perform s action = some (s', new) ∧ holds s' (log ++ new)

theorem Execution.holds {machine : Machine σ ι ε} (run : machine.Execution s log) (holds : σ → List ε → Prop)
    (initially : holds machine.initial []) (preserved : machine.Preserves holds) : holds s log := by
  induction run with
  | start => exact initially
  | step before action enabled performed ih =>
    obtain ⟨s', new, result, after⟩ := preserved _ _ action ih enabled
    cases performed.symm.trans result
    exact after

end Machine

section Lockstep

variable {α : Type u} {σ : Type v} {τ : Type w}

theorem forall_split_cons (holds : List α → α → Prop) :
    (∀ front x back, item :: items = front ++ x :: back → holds front x) ↔
      holds [] item ∧ ∀ front x back, items = front ++ x :: back → holds (item :: front) x := by
  constructor
  · intro every
    refine ⟨every [] item items rfl, ?_⟩
    intro front x back split
    exact every (item :: front) x back (by rw [split]; rfl)
  · rintro ⟨first, others⟩ front x back split
    cases front with
    | nil =>
      obtain ⟨rfl, -⟩ := List.cons.inj split
      exact first
    | cons head front =>
      obtain ⟨rfl, rest⟩ := List.cons.inj split
      exact others front x back rest

theorem forall_take_cons (holds : List α → Prop) :
    (∀ count, holds ((item :: items).take count)) ↔ holds [] ∧ ∀ count, holds (item :: items.take count) := by
  constructor
  · exact fun every => ⟨every 0, fun count => every (count + 1)⟩
  · rintro ⟨none, some⟩ count
    cases count with
    | zero => exact none
    | succ count => exact some count

/-- If it is known when a step keeps two states related, it is known when they are related after
every item. -/
theorem foldl_lockstep_iff (concrete : σ → α → σ) (abstract : τ → α → τ) (related : σ → τ → Prop)
    (sound : σ → Prop) {fits : σ → α → Prop} (keeps : ∀ state item, sound state → sound (concrete state item))
    (step : ∀ state other item, sound state → related state other →
      (related (concrete state item) (abstract other item) ↔ fits state item))
    (items : List α) (start : sound state) (begun : related state other) :
    (∀ count, related ((items.take count).foldl concrete state) ((items.take count).foldl abstract other)) ↔
      ∀ front item back, items = front ++ item :: back → fits (front.foldl concrete state) item := by
  induction items generalizing state other with
  | nil =>
    refine iff_of_true (fun count => ?_) (fun front item back split => ?_)
    · rw [List.take_nil]
      exact begun
    · exact absurd split (by simp)
  | cons item items ih =>
    rw [forall_split_cons fun front x => fits (front.foldl concrete state) x,
      forall_take_cons fun front => related (front.foldl concrete state) (front.foldl abstract other)]
    simp only [List.foldl_nil, List.foldl_cons]
    rw [and_iff_right begun, ← step state other item start begun]
    constructor
    · intro every
      have first := every 0
      exact ⟨first, (ih (keeps state item start) first).mp every⟩
    · rintro ⟨first, others⟩
      exact (ih (keeps state item start) first).mpr others

end Lockstep

section Acyclic

variable {α : Type u} {nodes : List α}

theorem wellFounded_within (nodes : List α) (acyclic : ∀ a, ¬ Relation.TransGen r a a) :
    WellFounded fun second first : { a // a ∈ nodes } => Relation.TransGen r first.1 second.1 := by
  have : Finite { a // a ∈ nodes } := List.finite_toSet nodes
  have : IsTrans { a // a ∈ nodes } fun second first => Relation.TransGen r first.1 second.1 :=
    ⟨fun _ _ _ later earlier => earlier.trans later⟩
  have : Std.Irrefl fun second first : { a // a ∈ nodes } => Relation.TransGen r first.1 second.1 :=
    ⟨fun a cycle => acyclic a.1 cycle⟩
  exact Finite.wellFounded_of_trans_of_irrefl _

theorem wellFounded_of_acyclic (closed : ∀ a b, r a b → b ∈ nodes) (acyclic : ∀ a, ¬ Relation.TransGen r a a) :
    WellFounded fun second first => r first second := by
  have inside : ∀ a : { a // a ∈ nodes }, Acc (fun second first => r first second) a.1 := by
    intro a
    induction a using (wellFounded_within nodes acyclic).induction with
    | _ a ih => exact ⟨_, fun b edge => ih ⟨b, closed _ _ edge⟩ (.single edge)⟩
  exact ⟨fun a => ⟨_, fun b edge => inside ⟨b, closed a b edge⟩⟩⟩

end Acyclic

end NCollectd
