import Mathlib

namespace NCollectd

open Function List

universe u v

variable {α : Type u} {β : Type v} {f g : α → Option β}

/-- The list has one pair for each argument with a value, and no other. -/
structure Represents (entries : List (α × β)) (f : α → Option β) : Prop where
  nodup : (entries.map Prod.fst).Nodup
  holds : ∀ a b, f a = some b ↔ (a, b) ∈ entries

namespace Represents

theorem nil : Represents ([] : List (α × β)) fun _ => none :=
  ⟨nodup_nil, fun _ _ => ⟨nofun, nofun⟩⟩

theorem unique (first : Represents entries f) (second : Represents entries g) : f = g := by
  funext a
  apply Option.ext
  intro b
  rw [first.holds, second.holds]

theorem iff_eq (represented : Represents entries f) : Represents entries g ↔ f = g :=
  ⟨represented.unique, fun same => same ▸ represented⟩

theorem perm_iff (same : entries.Perm others) : Represents entries f ↔ Represents others f := by
  constructor
  · intro represented
    exact ⟨(same.map _).nodup_iff.mp represented.nodup, fun a b => (represented.holds a b).trans same.mem_iff⟩
  · intro represented
    exact ⟨(same.map _).nodup_iff.mpr represented.nodup, fun a b => (represented.holds a b).trans same.mem_iff.symm⟩

theorem eq_none_iff (represented : Represents entries f) : f a = none ↔ a ∉ entries.map Prod.fst := by
  rw [Option.eq_none_iff_forall_ne_some, mem_map]
  constructor
  · rintro missing ⟨⟨_, b⟩, member, rfl⟩
    exact missing b ((represented.holds _ b).mpr member)
  · intro absent b found
    exact absent ⟨(a, b), (represented.holds a b).mp found, rfl⟩

variable [DecidableEq α]

theorem cons_iff : Represents ((a, b) :: entries) f ↔ f a = some b ∧ Represents entries (update f a none) := by
  constructor
  · intro represented
    obtain ⟨new, nodup⟩ := nodup_cons.mp represented.nodup
    refine ⟨(represented.holds a b).mpr mem_cons_self, nodup, ?_⟩
    intro x y
    rw [update_apply]
    split
    · rename_i same
      subst same
      exact iff_of_false nofun fun member => new (mem_map.mpr ⟨_, member, rfl⟩)
    · rename_i different
      rw [represented.holds, mem_cons]
      exact or_iff_right fun same => different (congrArg Prod.fst same)
  · rintro ⟨found, represented⟩
    have new : a ∉ entries.map Prod.fst := represented.eq_none_iff.mp (update_self a none f)
    refine ⟨nodup_cons.mpr ⟨new, represented.nodup⟩, ?_⟩
    intro x y
    rw [mem_cons, ← represented.holds, update_apply]
    split
    · rename_i same
      subst same
      simp [found, eq_comm]
    · rename_i different
      simp [different]

theorem cons_new (represented : Represents entries f) (new : f a = none) :
    Represents ((a, b) :: entries) (update f a (some b)) := by
  refine cons_iff.mpr ⟨update_self a _ f, ?_⟩
  rwa [update_idem, ← new, update_eq_self]

theorem cons_change (represented : Represents ((a, old) :: entries) f) (b : β) :
    Represents ((a, b) :: entries) (update f a (some b)) := by
  refine cons_iff.mpr ⟨update_self a _ f, ?_⟩
  rw [update_idem]
  exact (cons_iff.mp represented).2

end Represents

theorem update_some_eq_iff [DecidableEq α] :
    update f a (some b) = update f c (some b) ↔ a = c ∨ f a = some b ∧ f c = some b := by
  constructor
  · intro same
    by_cases equal : a = c
    · exact .inl equal
    · have first := congrFun same a
      have second := congrFun same c
      rw [update_self, update_of_ne equal] at first
      rw [update_self, update_of_ne (Ne.symm equal)] at second
      exact .inr ⟨first.symm, second⟩
  · rintro (rfl | ⟨first, second⟩)
    · rfl
    · rw [← first, update_eq_self, first, ← second, update_eq_self]

theorem foldl_update [DecidableEq α] (place : α) (step : β → γ → β) (items : List γ) (start : α → β) :
    items.foldl (fun f item => update f place (step (f place) item)) start =
      update start place (items.foldl step (start place)) := by
  induction items generalizing start with
  | nil => exact (update_eq_self place start).symm
  | cons item rest ih => rw [foldl_cons, ih, update_self, update_idem, foldl_cons]

end NCollectd
