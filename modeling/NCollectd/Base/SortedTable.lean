import NCollectd.Base.Libc

/-! Tables that `qsort` keeps sorted and `bsearch` looks things up in. -/

namespace NCollectd

open Option

universe u v

variable {α : Type u} {κ : Type v} [LinearOrder κ]

/-- A comparison callback that orders elements by a key. -/
structure ComparesBy (compare : α → α → Int) (key : α → κ) : Prop where
  less : ∀ first second, compare first second < 0 ↔ key first < key second
  same : ∀ first second, compare first second = 0 ↔ key first = key second

namespace ComparesBy

variable {compare : α → α → Int} {key : α → κ}

theorem nonpos (order : ComparesBy compare key) (first second : α) :
    compare first second ≤ 0 ↔ key first ≤ key second := by
  rw [Int.le_iff_lt_or_eq, order.less, order.same, le_iff_lt_or_eq]

theorem pos (order : ComparesBy compare key) (first second : α) :
    0 < compare first second ↔ key second < key first := by
  rw [← not_le, order.nonpos, not_le]

end ComparesBy

/-- `qsort` and `bsearch` with one comparison callback. -/
structure TableFunctions (compare : α → α → Int) where
  qsort : List α → List α
  bsearch : α → List α → Option Nat
  qsort_perm : ∀ table, (qsort table).Perm table
  qsort_sorted : ∀ table, (qsort table).Pairwise fun first second => compare first second ≤ 0
  bsearch_hit : ∀ wanted table index, bsearch wanted table = some index →
    ∃ element, table[index]? = some element ∧ compare wanted element = 0
  bsearch_miss : ∀ wanted table, table.Pairwise (fun first second => compare first second ≤ 0) →
    bsearch wanted table = none → ∀ element ∈ table, compare wanted element ≠ 0

/-- The signs of a wanted element against a sorted table fall. -/
def Falling (signs : Nat → Option Int) : Prop :=
  ∀ i j sign sign', i ≤ j → signs i = some sign → signs j = some sign' →
    (sign < 0 → sign' < 0) ∧ (0 < sign' → 0 < sign)

theorem bsearchLoop_miss (falling : Falling signs)
    (missed : bsearchLoop signs low high = some none) (above : low ≤ i) (below : i < high) : signs i ≠ some 0 := by
  induction size : high - low using Nat.strongRecOn generalizing low high with
  | ind size ih =>
    rw [bsearchLoop, if_pos (above.trans_lt below)] at missed
    dsimp only at missed
    split at missed
    · cases missed
    · rename_i sign middle
      split at missed
      · rename_i negative
        rcases lt_or_ge i ((low + high) / 2) with left | right
        · exact ih _ (by omega) missed above left rfl
        · intro zero
          have less := (falling _ _ _ _ right middle zero).1 negative
          exact lt_irrefl _ less
      · split at missed
        · rename_i positive
          rcases lt_or_ge ((low + high) / 2) i with right | left
          · exact ih _ (by omega) missed right below rfl
          · intro zero
            have greater := (falling _ _ _ _ left zero middle).2 positive
            exact lt_irrefl _ greater
        · cases missed

theorem bsearchLoop_defined (defined : ∀ i < high, signs i ≠ none) :
    bsearchLoop signs low high ≠ none := by
  induction size : high - low using Nat.strongRecOn generalizing low high with
  | ind size ih =>
    rw [bsearchLoop]
    split
    · rename_i nonempty
      have inside : (low + high) / 2 < high := by omega
      dsimp only
      split
      · rename_i undefined
        exact absurd undefined (defined _ inside)
      · split
        · exact ih _ (by omega) (fun i below => defined i (below.trans inside)) rfl
        · split
          · exact ih _ (by omega) defined rfl
          · exact nofun
    · exact nofun

namespace ComparesBy

variable {compare : α → α → Int} {key : α → κ} {table : List α}

theorem falling (order : ComparesBy compare key)
    (sorted : table.Pairwise fun first second => compare first second ≤ 0) (wanted : α) :
    Falling fun i => (table[i]?).map (compare wanted) := by
  intro i j sign sign' before here there
  obtain ⟨first, inside, rfl⟩ := map_eq_some_iff.mp here
  obtain ⟨second, inside', rfl⟩ := map_eq_some_iff.mp there
  have ordered : key first ≤ key second := by
    rcases Nat.lt_or_eq_of_le before with earlier | same
    · obtain ⟨bound, rfl⟩ := List.getElem?_eq_some_iff.mp inside
      obtain ⟨bound', rfl⟩ := List.getElem?_eq_some_iff.mp inside'
      exact (order.nonpos _ _).mp (List.pairwise_iff_getElem.mp sorted i j bound bound' earlier)
    · subst same
      exact (congrArg key (some.inj (inside.symm.trans inside'))).le
  rw [order.less, order.less, order.pos, order.pos]
  exact ⟨fun less => less.trans_le ordered, fun greater => ordered.trans_lt greater⟩

def tableFunctions (order : ComparesBy compare key) : TableFunctions compare where
  qsort table := table.insertionSort fun first second => compare first second ≤ 0
  bsearch wanted table := (NCollectd.bsearch (fun i => (table[i]?).map (compare wanted)) table.length).join
  qsort_perm table := List.perm_insertionSort _ table
  qsort_sorted table := by
    have total : Std.Total fun (first second : α) => compare first second ≤ 0 := by
      constructor
      intro first second
      rw [order.nonpos, order.nonpos]
      exact le_total _ _
    have transitive : IsTrans α fun first second => compare first second ≤ 0 := by
      constructor
      intro first second third
      rw [order.nonpos, order.nonpos, order.nonpos]
      exact le_trans
    exact List.pairwise_insertionSort _ table
  bsearch_hit wanted table index found := by
    have hit := bsearch_sound (join_eq_some_iff.mp found)
    obtain ⟨element, inside, zero⟩ := map_eq_some_iff.mp hit.2
    exact ⟨element, inside, zero⟩
  bsearch_miss wanted table sorted missed element member zero := by
    obtain ⟨i, bound, rfl⟩ := List.mem_iff_getElem.mp member
    have here : (table[i]?).map (compare wanted) = some 0 := by
      rw [List.getElem?_eq_getElem bound, map_some, zero]
    have defined : ∀ j < table.length, (table[j]?).map (compare wanted) ≠ none := by
      intro j inside
      simp [inside]
    rcases join_eq_none_iff.mp missed with undefined | nothing
    · exact bsearchLoop_defined defined undefined
    · exact bsearchLoop_miss (order.falling sorted wanted) nothing (Nat.zero_le i) bound here

end ComparesBy

end NCollectd
