import NCollectd.Cache.Steps

/-! The history of an entry over runs of updates and of `uc_get_history_by_name`. -/

namespace NCollectd

open List Option

/-- The recorded rates, newest first, and the slot of the ring for the next one. -/
structure Recorded where
  length : Nat
  next : Nat
  kept : List Double
deriving DecidableEq

def Recorded.disabled : Recorded := ⟨0, 0, []⟩

def Recorded.record (recorded : Recorded) (rate : Double) : Recorded :=
  if recorded.length = 0 then recorded
  else ⟨recorded.length, (recorded.next + 1) % recorded.length, (rate :: recorded.kept).take recorded.length⟩

def Recorded.grow (recorded : Recorded) (numSteps : Nat) : Recorded :=
  { recorded with length := max recorded.length numSteps }

def Recorded.answer (recorded : Recorded) (numSteps : Nat) : List Double :=
  (range numSteps).map fun i => recorded.kept[i]?.getD .nan

def Recorded.newestSlot (recorded : Recorded) : Nat :=
  if recorded.next = 0 then recorded.length - 1 else recorded.next - 1

/-- All that is recorded is NaN, except for a newest rate in the first slot. -/
def Recorded.OnlyFirstSlot (recorded : Recorded) : Prop :=
  (∀ rate ∈ recorded.kept, rate = .nan) ∨
    recorded.newestSlot = 0 ∧ ∀ rate ∈ recorded.kept.tail, rate = .nan

inductive HistoryOp where
  | update (m : Metric) (now : CdTime)
  | history (numSteps : Nat)

/-- The updates are updates of the entry with the given key. -/
def HistoryOp.On (page : PageSize) (key : CString) : HistoryOp → Prop
  | update m _ => entryKey page m = some (.ok key)
  | history _ => True

def historyStep (page : PageSize) (key : CString) (state : Cache × Recorded) :
    HistoryOp → Option (Cache × Recorded)
  | .update m now =>
    (ucUpdateMetric page state.1 m now).bind fun outcome =>
      if outcome.status ≠ 0 then none
      else outcome.cache[key]?.map fun ce => (outcome.cache, state.2.record ce.valuesGauge)
  | .history numSteps =>
    (ucGetHistoryByName state.1 key numSteps).bind fun
      | (.ok _, cache) => some (cache, state.2.grow numSteps)
      | (.error _, _) => none

def historyRun (page : PageSize) (key : CString) (state : Cache × Recorded) :
    List HistoryOp → Option (Cache × Recorded)
  | [] => some state
  | op :: rest => (historyStep page key state op).bind fun state => historyRun page key state rest

/-- A call with at most as many steps as there are slots returns the newest rates. -/
def HistoryCorrect (key : CString) (cache : Cache) (recorded : Recorded) : Prop :=
  ∀ numSteps ≤ recorded.length,
    ∃ next, ucGetHistoryByName cache key numSteps = some (.ok (recorded.answer numSteps), next)

/-- What the buffer holds of the recorded rates: the newest, always in the first slot. -/
structure Mirrors (history : History) (recorded : Recorded) : Prop where
  values : history.values = (replicate recorded.length .nan).set 0 (recorded.kept.head?.getD .nan)
  index : history.index = recorded.next
  few : recorded.kept.length ≤ recorded.length

theorem Mirrors.length (mirrors : Mirrors history recorded) : history.values.length = recorded.length := by
  rw [mirrors.values, length_set, length_replicate]

theorem Mirrors.record (mirrors : Mirrors history recorded) (rate : Double) :
    Mirrors (history.record rate) (recorded.record rate) := by
  have length := mirrors.length
  unfold History.record Recorded.record
  by_cases disabled : recorded.length = 0
  · rw [dif_pos (length_eq_zero_iff.mp (length.trans disabled)), if_pos disabled]
    exact mirrors
  · have enabled : history.values ≠ [] := by
      intro empty
      rw [empty] at length
      exact disabled length.symm
    obtain ⟨slots, count⟩ := Nat.exists_eq_succ_of_ne_zero disabled
    rw [dif_neg enabled, if_neg disabled]
    refine ⟨?_, ?_, ?_⟩
    · dsimp only
      rw [mirrors.values, set_set, count, take_succ_cons]
      rfl
    · dsimp only
      rw [mirrors.index, length]
    · exact length_take_le _ _

theorem Mirrors.grow (mirrors : Mirrors history recorded) (numSteps : Nat) :
    Mirrors (history.grow numSteps) (recorded.grow numSteps) := by
  have few := mirrors.few
  refine ⟨?_, mirrors.index, le_trans few (le_max_left _ _)⟩
  have slots : max recorded.length numSteps = recorded.length + (numSteps - recorded.length) := by omega
  simp only [History.grow, Recorded.grow, mirrors.length]
  rw [mirrors.values, slots, ← replicate_append_replicate]
  cases count : recorded.length with
  | zero =>
    have empty : recorded.kept = [] := length_eq_zero_iff.mp (by omega)
    cases numSteps <;> simp [empty, replicate_succ]
  | succ length => simp [replicate_succ]

theorem History.grow_of_le {history : History} (enough : numSteps ≤ history.values.length) :
    history.grow numSteps = history := by
  cases history
  simp [History.grow, Nat.sub_eq_zero_of_le enough]

section

variable (mirrors : Mirrors history recorded)
include mirrors

theorem Mirrors.cell (inside : i < recorded.length) :
    history.slot i < recorded.length ∧ history.values[history.slot i]? =
      some (if history.slot i = 0 then recorded.kept.head?.getD .nan else .nan) := by
  have length := mirrors.length
  have bound : history.slot i < recorded.length := by
    have index := history.inside
    rw [length] at index
    unfold History.slot
    rcases index with index | ⟨empty, _⟩
    · split <;> omega
    · rw [empty] at length
      exact absurd length (by simp; omega)
  refine ⟨bound, ?_⟩
  rw [mirrors.values, getElem?_set, length_replicate]
  split
  · rename_i first
    rw [← first] at bound ⊢
    rw [if_pos bound, if_pos rfl]
  · rename_i other
    rw [if_neg (Ne.symm other), getElem?_replicate, if_pos bound]

theorem Mirrors.read_iff :
    (∀ numSteps ≤ recorded.length, history.read numSteps = some (recorded.answer numSteps)) ↔
      ∀ i < recorded.length, (if history.slot i = 0 then recorded.kept.head?.getD .nan else .nan) =
        recorded.kept[i]?.getD .nan := by
  constructor
  · intro reads i inside
    obtain ⟨_, cells⟩ := readAll_eq_some_iff.mp (reads recorded.length (le_refl _))
    have cell := cells i inside
    rw [(mirrors.cell inside).2, Recorded.answer, getElem?_map, getElem?_range inside] at cell
    exact some.inj cell
  · intro cells numSteps atMost
    refine readAll_eq_some_iff.mpr ⟨by simp [Recorded.answer], ?_⟩
    intro i inside
    have within := lt_of_lt_of_le inside atMost
    rw [(mirrors.cell within).2, cells i within, Recorded.answer, getElem?_map, getElem?_range inside]
    rfl

theorem Mirrors.slot_zero : history.slot 0 = recorded.newestSlot := by
  unfold History.slot Recorded.newestSlot
  rw [mirrors.index, mirrors.length]
  split <;> split <;> omega

theorem Mirrors.slot_ne_zero (inside : i < recorded.length) (first : recorded.newestSlot = 0)
    (later : 0 < i) : history.slot i ≠ 0 := by
  have same := mirrors.slot_zero
  rw [first] at same
  have length := mirrors.length
  unfold History.slot at same ⊢
  split <;> split at same <;> omega

end

theorem getD_eq_nan {rates : List Double} (all : ∀ rate ∈ rates, rate = .nan) (i : Nat) :
    rates[i]?.getD Double.nan = .nan := by
  cases found : rates[i]? with
  | none => rfl
  | some rate => exact all rate (mem_of_getElem? found)

theorem Mirrors.onlyFirstSlot_iff (mirrors : Mirrors history recorded) :
    (∀ numSteps ≤ recorded.length, history.read numSteps = some (recorded.answer numSteps)) ↔
      recorded.OnlyFirstSlot := by
  rw [mirrors.read_iff]
  have few := mirrors.few
  constructor
  · intro cells
    by_cases first : recorded.newestSlot = 0
    · refine .inr ⟨first, ?_⟩
      intro rate member
      obtain ⟨i, found⟩ := getElem?_of_mem member
      rw [List.getElem?_tail] at found
      obtain ⟨bound, _⟩ := List.getElem?_eq_some_iff.mp found
      have inside := lt_of_lt_of_le bound few
      have cell := cells (i + 1) inside
      rw [if_neg (mirrors.slot_ne_zero inside first (Nat.succ_pos i)), found] at cell
      exact cell.symm
    · left
      intro rate member
      obtain ⟨i, found⟩ := List.getElem?_of_mem member
      obtain ⟨bound, _⟩ := List.getElem?_eq_some_iff.mp found
      have inside := lt_of_lt_of_le bound few
      have newest := cells 0 (Nat.zero_lt_of_lt inside)
      rw [mirrors.slot_zero, if_neg first, ← head?_eq_getElem?] at newest
      have cell := cells i inside
      rw [← newest, ite_self, found] at cell
      exact cell.symm
  · intro condition i inside
    rcases condition with none | ⟨first, older⟩
    · rw [head?_eq_getElem?, getD_eq_nan none, getD_eq_nan none, ite_self]
    · cases i with
      | zero => rw [mirrors.slot_zero, if_pos first, head?_eq_getElem?]
      | succ i =>
        rw [if_neg (mirrors.slot_ne_zero inside first (Nat.succ_pos i)), ← getElem?_tail, getD_eq_nan older]

theorem updateEntry_history {next} (stepped : updateEntry ce m now = some (0, next)) :
    next.history = ce.history.record next.valuesGauge := by
  obtain ⟨_, changed, revalued, rfl⟩ := updateEntry_success stepped
  cases revalued with
  | _ => rfl

/-- The entry's buffer mirrors what the run has recorded. -/
def Mirrored (key : CString) (state : Cache × Recorded) : Prop :=
  ∃ ce, state.1[key]? = some ce ∧ Mirrors ce.history state.2

theorem Mirrored.step {next} (mirrored : Mirrored key state) (own : op.On page key)
    (stepped : historyStep page key state op = some next) : Mirrored key next := by
  obtain ⟨ce, present, mirrors⟩ := mirrored
  cases op with
  | update m now =>
    obtain ⟨outcome, updated, remaining⟩ := bind_eq_some_iff.mp stepped
    split at remaining
    · cases remaining
    · rename_i success
      obtain ⟨entry, found, rfl⟩ := map_eq_some_iff.mp remaining
      obtain ⟨after, entry_step, stored⟩ := ucUpdateMetric_next updated own present
      rw [stored, AvlTree.getElem?_insert, if_pos rfl] at found
      obtain rfl := some.inj found
      rw [not_not.mp success] at entry_step
      refine ⟨after, by rw [stored, AvlTree.getElem?_insert, if_pos rfl], ?_⟩
      rw [updateEntry_history entry_step]
      exact mirrors.record _
  | history numSteps =>
    simp only [historyStep, ucGetHistoryByName, present] at stepped
    obtain ⟨result, reading, remaining⟩ := bind_eq_some_iff.mp stepped
    obtain ⟨values, _, rfl⟩ := map_eq_some_iff.mp reading
    cases remaining
    exact ⟨_, by rw [AvlTree.getElem?_insert, if_pos rfl], mirrors.grow numSteps⟩

theorem Mirrored.run (mirrored : Mirrored key state) (own : ∀ op ∈ ops, HistoryOp.On page key op)
    (run : historyRun page key state ops = some last) : Mirrored key last := by
  induction ops generalizing state with
  | nil =>
    cases run
    exact mirrored
  | cons op rest ih =>
    obtain ⟨next, stepped, remaining⟩ := bind_eq_some_iff.mp run
    exact ih (mirrored.step (own op mem_cons_self) stepped)
      (fun op member => own op (mem_cons_of_mem _ member)) remaining

theorem Mirrored.historyCorrect_iff (mirrored : Mirrored key (cache, recorded)) :
    HistoryCorrect key cache recorded ↔ recorded.OnlyFirstSlot := by
  obtain ⟨ce, present, mirrors⟩ := mirrored
  rw [← mirrors.onlyFirstSlot_iff]
  apply forall₂_congr
  intro numSteps atMost
  have same := History.grow_of_le (mirrors.length.symm ▸ atMost)
  simp only [ucGetHistoryByName, present, same, map_eq_some_iff, Prod.mk.injEq, Except.ok.injEq]
  constructor
  · intro result
    obtain ⟨next, values, read, rfl, _⟩ := result
    exact read
  · intro read
    exact ⟨_, _, read, rfl, rfl⟩

/-- The history is right exactly where nothing but NaN is recorded, except for a newest rate in the first slot. -/
theorem cache_history_correct_iff (page : PageSize) (key : CString) (start cache : Cache) (ce : CacheEntry)
    (ops : List HistoryOp) (recorded : Recorded) (present : start[key]? = some ce)
    (disabled : ce.history = .empty) (own : ∀ op ∈ ops, op.On page key)
    (run : historyRun page key (start, .disabled) ops = some (cache, recorded)) :
    HistoryCorrect key cache recorded ↔ recorded.OnlyFirstSlot := by
  have begun : Mirrored key (start, Recorded.disabled) :=
    ⟨ce, present, disabled ▸ ⟨rfl, rfl, le_refl _⟩⟩
  exact (begun.run own run).historyCorrect_iff

def load (value : ℚ) (time : CdTime) : Metric :=
  ⟨⟨"load", .gauge⟩, .empty, .gauge (.fin value), time, 10⟩

def loadCache : Cache := ((ucUpdateMetric (strbufPagesize 4096) ∅ (load 0 1) 1).map Outcome.cache).getD ∅

theorem cache_history_correct_one :
    ∃ cache recorded,
      historyRun (strbufPagesize 4096) "load" (loadCache, .disabled) [.history 2, .update (load 5 2) 2] =
        some (cache, recorded) ∧
      (HistoryCorrect "load" cache recorded ↔ recorded.OnlyFirstSlot) := by
  have success : (historyRun (strbufPagesize 4096) "load" (loadCache, .disabled)
      [.history 2, .update (load 5 2) 2]).isSome = true := by decide +kernel
  obtain ⟨⟨cache, recorded⟩, run⟩ := isSome_iff_exists.mp success
  obtain ⟨ce, present, disabled⟩ := map_eq_some_iff.mp
    (show loadCache["load".toList]?.map CacheEntry.history = some .empty by decide +kernel)
  refine ⟨cache, recorded, run, cache_history_correct_iff _ _ _ _ _ _ _ present disabled ?_ run⟩
  intro op member
  rcases mem_cons.mp member with rfl | member
  · trivial
  · obtain rfl := mem_singleton.mp member
    exact entryKey_bare _ rfl

theorem cache_history_second_update_lost :
    ∃ cache recorded,
      historyRun (strbufPagesize 4096) "load" (loadCache, .disabled)
        [.history 2, .update (load 5 2) 2, .update (load 7 3) 3] = some (cache, recorded) ∧
      recorded.answer 2 = [.fin 7, .fin 5] ∧
      (ucGetHistoryByName cache "load" 2).map Prod.fst = some (.ok [.nan, .fin 7]) ∧
      ¬ HistoryCorrect "load" cache recorded := by
  have evaluated : (historyRun (strbufPagesize 4096) "load" (loadCache, .disabled)
      [.history 2, .update (load 5 2) 2, .update (load 7 3) 3]).map (fun state =>
        (state.2, (ucGetHistoryByName state.1 "load" 2).map Prod.fst)) =
      some (⟨2, 0, [.fin 7, .fin 5]⟩, some (.ok [.nan, .fin 7])) := by decide +kernel
  obtain ⟨⟨cache, recorded⟩, run, values⟩ := map_eq_some_iff.mp evaluated
  obtain ⟨rfl, read⟩ := Prod.mk.inj values
  refine ⟨cache, _, run, rfl, read, ?_⟩
  intro correct
  obtain ⟨next, answered⟩ := correct 2 (le_refl 2)
  rw [answered] at read
  have same : [Double.fin 7, Double.fin 5] = [.nan, .fin 7] := Except.ok.inj (some.inj read)
  simp at same

end NCollectd
