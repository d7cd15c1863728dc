import Mathlib

/-! Records that end in a stop symbol, for a reader that takes the stream in portions. -/

namespace NCollectd.Terminated

open List

universe u

variable {α : Type u} [DecidableEq α] {stop : α} {record rest portion : List α}

def takeRecord (stop : α) : List α → List α
  | [] => []
  | symbol :: rest => if symbol = stop then [symbol] else symbol :: takeRecord stop rest

def finished (stop : α) : List α → List (List α)
  | [] => []
  | symbol :: rest =>
    if symbol = stop then [] :: finished stop rest
    else
      match finished stop rest with
      | [] => []
      | record :: records => (symbol :: record) :: records

def unfinished (stop : α) : List α → List α
  | [] => []
  | symbol :: rest => if stop ∈ symbol :: rest then unfinished stop rest else symbol :: rest

def pieces (stop : α) (portion : List α) : List (List α) :=
  finished stop portion ++ if unfinished stop portion = [] then [] else [unfinished stop portion]

section

variable (clean : stop ∉ record)
include clean

theorem takeRecord_of_notMem : takeRecord stop record = record := by
  induction record with
  | nil => rfl
  | cons symbol record ih =>
    rw [mem_cons, not_or] at clean
    rw [takeRecord, if_neg (Ne.symm clean.1), ih clean.2]

theorem takeRecord_append : takeRecord stop (record ++ stop :: rest) = record ++ [stop] := by
  induction record with
  | nil => simp [takeRecord]
  | cons symbol record ih =>
    rw [mem_cons, not_or] at clean
    rw [cons_append, takeRecord, if_neg (Ne.symm clean.1), ih clean.2, cons_append]

theorem finished_of_notMem : finished stop record = [] := by
  induction record with
  | nil => rfl
  | cons symbol record ih =>
    rw [mem_cons, not_or] at clean
    rw [finished, if_neg (Ne.symm clean.1), ih clean.2]

theorem unfinished_of_notMem : unfinished stop record = record := by
  cases record with
  | nil => rfl
  | cons symbol record => rw [unfinished, if_neg clean]

theorem finished_append : finished stop (record ++ stop :: rest) = record :: finished stop rest := by
  induction record with
  | nil => simp [finished]
  | cons symbol record ih =>
    rw [mem_cons, not_or] at clean
    rw [cons_append, finished, if_neg (Ne.symm clean.1), ih clean.2]

end

theorem unfinished_append (record rest : List α) :
    unfinished stop (record ++ stop :: rest) = unfinished stop rest := by
  induction record with
  | nil => simp [unfinished]
  | cons symbol record ih => rw [cons_append, unfinished, if_pos (by simp), ih]

theorem pieces_append (clean : stop ∉ record) :
    pieces stop (record ++ stop :: rest) = record :: pieces stop rest := by
  rw [pieces, finished_append clean, unfinished_append, pieces, cons_append]

theorem pieces_of_notMem (clean : stop ∉ record) (some : record ≠ []) : pieces stop record = [record] := by
  rw [pieces, finished_of_notMem clean, unfinished_of_notMem clean, if_neg some, nil_append]

theorem length_finished (portion : List α) : (finished stop portion).length = portion.count stop := by
  induction portion with
  | nil => rfl
  | cons symbol rest ih =>
    rw [finished, count_cons]
    by_cases same : symbol = stop
    · simp [same, ih]
    · rw [if_neg same]
      cases records : finished stop rest with
      | nil | cons record records' =>
        rw [records] at ih
        simpa [same] using ih

theorem finished_append_of_finished (whole : unfinished stop portion = []) :
    finished stop (portion ++ rest) = finished stop portion ++ finished stop rest := by
  induction length : portion.length using Nat.strong_induction_on generalizing portion with
  | _ size ih =>
    by_cases member : stop ∈ portion
    · obtain ⟨record, later, rfl, clean⟩ := eq_append_cons_of_mem member
      rw [unfinished_append] at whole
      rw [append_assoc, cons_append, finished_append clean, finished_append clean,
        ih later.length (by rw [← length]; simp; omega) whole rfl, cons_append]
    · rw [unfinished_of_notMem member] at whole
      rw [whole]
      rfl

theorem length_pieces (portion : List α) :
    (pieces stop portion).length = portion.count stop + if unfinished stop portion = [] then 0 else 1 := by
  rw [pieces, length_append, length_finished]
  split <;> rfl

theorem length_flatMap_pieces (portions : List (List α)) : (portions.flatMap (pieces stop)).length =
    portions.flatten.count stop + portions.countP fun portion => unfinished stop portion ≠ [] := by
  induction portions with
  | nil => rfl
  | cons portion portions ih =>
    rw [flatMap_cons, length_append, ih, length_pieces, flatten_cons, count_append,
      countP_cons]
    by_cases whole : unfinished stop portion = []
    · simp only [whole, if_true, ne_eq, not_true_eq_false, decide_false, Bool.false_eq_true, if_false]
      omega
    · simp only [whole, if_false, ne_eq, not_false_eq_true, decide_true, if_true]
      omega

/-- The records are the finished ones exactly if no portion ends inside a record. -/
theorem flatMap_pieces_iff (portions : List (List α)) :
    portions.flatMap (pieces stop) = finished stop portions.flatten ↔
      ∀ portion ∈ portions, unfinished stop portion = [] := by
  constructor
  · intro same
    have total := congrArg length same
    rw [length_flatMap_pieces, length_finished, Nat.add_eq_left, countP_eq_zero] at total
    intro portion member
    simpa using total portion member
  · intro whole
    induction portions with
    | nil => rfl
    | cons portion portions ih =>
      have here := whole portion mem_cons_self
      rw [flatMap_cons, flatten_cons, finished_append_of_finished here,
        ih fun other member => whole other (mem_cons_of_mem portion member), pieces, if_pos here,
        append_nil]

end NCollectd.Terminated
