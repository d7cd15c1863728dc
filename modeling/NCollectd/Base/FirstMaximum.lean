import Mathlib

namespace NCollectd.FirstMaximum

open List

variable {α β : Type} [LinearOrder β] (score : α → β)

def keep (score : α → β) (best : β × Option α) (item : α) : β × Option α :=
  if best.1 < score item then (score item, some item) else best

theorem keep_of_lt (greater : best.1 < score item) : keep score best item = (score item, some item) := if_pos greater

theorem keep_of_le (less : score item ≤ best.1) : keep score best item = best := if_neg less.not_gt

section

variable (items : List α) (best : β × Option α)

theorem le_foldl_keep : best.1 ≤ (items.foldl (keep score) best).1 := by
  induction items generalizing best with
  | nil => exact le_rfl
  | cons item items ih =>
    rw [foldl_cons]
    refine le_trans ?_ (ih _)
    rcases lt_or_ge best.1 (score item) with greater | less
    · rw [keep_of_lt score greater]
      exact greater.le
    · rw [keep_of_le score less]

theorem score_le_foldl_keep (found : item ∈ items) : score item ≤ (items.foldl (keep score) best).1 := by
  induction items generalizing best with
  | nil => cases found
  | cons head items ih =>
    rw [foldl_cons]
    rcases mem_cons.mp found with rfl | found
    · refine le_trans ?_ (le_foldl_keep score items _)
      rcases lt_or_ge best.1 (score item) with greater | less
      · rw [keep_of_lt score greater]
      · rw [keep_of_le score less]
        exact less
    · exact ih _ found

/-- What is kept is the first item with the greatest score, or what was there before. -/
theorem foldl_keep : (items.foldl (keep score) best = best ∧ ∀ item ∈ items, score item ≤ best.1) ∨
      ∃ item, items.foldl (keep score) best = (score item, some item) ∧ best.1 < score item ∧
        items.find? (fun other => score other = score item) = some item := by
  induction items generalizing best with
  | nil => exact .inl ⟨rfl, fun _ found => absurd found not_mem_nil⟩
  | cons head items ih =>
    rw [foldl_cons]
    rcases lt_or_ge best.1 (score head) with greater | less
    · rw [keep_of_lt score greater]
      rcases ih (score head, some head) with ⟨kept, -⟩ | ⟨item, kept, more, first⟩
      · exact .inr ⟨head, kept, greater, find?_cons_of_pos (decide_eq_true rfl)⟩
      · refine .inr ⟨item, kept, greater.trans more, ?_⟩
        rw [find?_cons_of_neg (by simpa using more.ne)]
        exact first
    · rw [keep_of_le score less]
      rcases ih best with ⟨kept, bound⟩ | ⟨item, kept, more, first⟩
      · exact .inl ⟨kept, forall_mem_cons.mpr ⟨less, bound⟩⟩
      · refine .inr ⟨item, kept, more, ?_⟩
        rw [find?_cons_of_neg (by simpa using (less.trans_lt more).ne)]
        exact first

end

theorem foldl_keep_of_lt (filled : items ≠ []) (below : ∀ item ∈ items, best.1 < score item) :
    ∃ item, items.foldl (keep score) best = (score item, some item) ∧
      IsGreatest {value | ∃ item ∈ items, score item = value} (score item) ∧
      items.find? (fun other => score other = score item) = some item := by
  rcases foldl_keep score items best with ⟨-, bound⟩ | ⟨item, kept, -, first⟩
  · obtain ⟨item, found⟩ := exists_mem_of_ne_nil items filled
    exact absurd (bound item found) (below item found).not_ge
  · refine ⟨item, kept, ⟨⟨item, mem_of_find?_eq_some first, rfl⟩, ?_⟩, first⟩
    rintro value ⟨other, found, rfl⟩
    have bound := score_le_foldl_keep score items best found
    rwa [kept] at bound

end NCollectd.FirstMaximum
