import Mathlib

namespace NCollectd.KeyOrder

universe u v

variable {κ : Type u} {ν : Type v} {compare : κ → κ → Int} {earlier later : List (κ × ν)}

/-- A comparison function of a total order, up to equivalence of keys. -/
structure Comparison (compare : κ → κ → Int) : Prop where
  swap : ∀ a b, compare a b < 0 ↔ 0 < compare b a
  trans : ∀ {a b c}, compare a b ≤ 0 → compare b c ≤ 0 → compare a c ≤ 0

section

variable (order : Comparison compare)
include order

theorem Comparison.le_iff (a b : κ) : compare a b ≤ 0 ↔ 0 ≤ compare b a := by
  have swapped := order.swap b a
  omega

theorem Comparison.eq_comm : compare a b = 0 ↔ compare b a = 0 := by
  have first := order.swap a b
  have second := order.swap b a
  omega

theorem Comparison.lt_of_lt_of_le (first : compare a b < 0) (second : compare b c ≤ 0) : compare a c < 0 := by
  by_contra less
  have back : compare b a ≤ 0 := order.trans second ((order.le_iff c a).mpr (Int.not_lt.mp less))
  exact absurd ((order.swap a b).mp first) (Int.not_lt.mpr back)

theorem Comparison.lt_trans (first : compare a b < 0) (second : compare b c < 0) : compare a c < 0 :=
  order.lt_of_lt_of_le first (Int.le_of_lt second)

end

def Ascending (compare : κ → κ → Int) (entries : List (κ × ν)) : Prop :=
  entries.Pairwise fun first second => compare first.1 second.1 < 0

theorem ascending_insert_iff :
    Ascending compare (earlier ++ entry :: later) ↔ Ascending compare (earlier ++ later) ∧
      (∀ before ∈ earlier, compare before.1 entry.1 < 0) ∧ ∀ after ∈ later, compare entry.1 after.1 < 0 := by
  simp only [Ascending, List.pairwise_append, List.pairwise_cons, List.mem_cons, forall_eq_or_imp]
  constructor
  · rintro ⟨first, ⟨above, second⟩, across⟩
    exact ⟨⟨first, second, fun x member => (across x member).2⟩, fun x member => (across x member).1, above⟩
  · rintro ⟨⟨first, second, across⟩, below, above⟩
    exact ⟨first, ⟨above, second⟩, fun x member => ⟨below x member, across x member⟩⟩

end NCollectd.KeyOrder
