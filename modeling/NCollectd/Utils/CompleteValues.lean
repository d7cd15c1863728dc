import NCollectd.Utils.ParseValues

/-! Which values strings `parse_values` accepts. -/

namespace NCollectd.Common

/-- The tokens are a time and one value for each data source. -/
def CompleteValues (platform : Platform) (now : CdTime) (ds : DataSet) (tokens : List CString)
    (result : CdTime × List Value) : Prop :=
  ∃ head rest, tokens = head :: rest ∧ parseTime platform now head = .ok result.1 ∧
    rest.length = ds.ds.length ∧ List.zipWith (parseToken platform) ds.ds rest = result.2.map .ok

theorem parseTokens_timed (timed : time ≠ 0)
    (parsed : parseTokens platform now before later time tokens = .ok (final, values)) :
    final = time ∧ tokens.length ≤ later.length ∧ ∃ new,
      List.zipWith (parseToken platform) later tokens = new.map .ok ∧
        values = before ++ new ++ (later.drop tokens.length).map zeroValue := by
  induction tokens generalizing before later with
  | nil =>
    rw [parseTokens] at parsed
    split at parsed <;> cases parsed
    exact ⟨rfl, by simp, [], by simp⟩
  | cons token tokens ih =>
    cases later with
    | nil => simp [parseTokens] at parsed
    | cons dsType later =>
      rw [parseTokens, if_neg timed] at parsed
      split at parsed
      · cases parsed
      · rename_i value here
        obtain ⟨same, fit, new, rest, rfl⟩ := ih parsed
        exact ⟨same, Nat.succ_le_succ fit, value :: new, by simp [here, rest], by simp⟩

/-- The time is the first one that is not zero. -/
theorem parseTokens_untimed (parsed : parseTokens platform now [] (dsType :: later) 0 tokens = .ok (time, values)) :
    time ≠ 0 ∧ ∃ zeros head rest, tokens = zeros ++ head :: rest ∧
      (∀ token ∈ zeros, parseTime platform now token = .ok 0) ∧ parseTime platform now head = .ok time ∧
      parseTokens platform now [] (dsType :: later) time rest = .ok (time, values) := by
  induction tokens with
  | nil => simp [parseTokens] at parsed
  | cons token tokens ih =>
    rw [parseTokens, if_pos rfl] at parsed
    split at parsed
    · cases parsed
    · rename_i first read
      by_cases zero : first = 0
      · obtain ⟨timed, zeros, head, rest, rfl, allZero, rest_parsed⟩ := ih (zero ▸ parsed)
        exact ⟨timed, token :: zeros, head, rest, rfl, by simpa [← zero, read] using allZero, rest_parsed⟩
      · obtain ⟨rfl, -⟩ := parseTokens_timed zero parsed
        exact ⟨zero, [], token, tokens, rfl, by simp, read, parsed⟩

/-- The accepted language: any number of zero times, a time other than zero, and at least one value but no more than
there are data sources, each of which parses. -/
structure ValueTokens (platform : Platform) (now : CdTime) (ds : DataSet) (tokens zeros : List CString)
    (head : CString) (rest : List CString) : Prop where
  split : tokens = zeros ++ head :: rest
  zero : ∀ token ∈ zeros, parseTime platform now token = .ok 0
  timed : ∃ time, parseTime platform now head = .ok time ∧ time ≠ 0
  given : rest ≠ []
  fit : rest.length ≤ ds.ds.length
  values : ∃ values : List Value, List.zipWith (parseToken platform) ds.ds rest = values.map .ok

theorem parseTokens_values (now : CdTime) (timed : time ≠ 0) (fit : tokens.length ≤ later.length)
    (read : List.zipWith (parseToken platform) later tokens = new.map .ok) (given : before ++ new ≠ []) :
    ∃ values, parseTokens platform now before later time tokens = .ok (time, values) := by
  induction tokens generalizing before later new with
  | nil =>
    obtain rfl : new = [] := by simpa using read.symm
    rw [parseTokens, if_neg (by simpa using given)]
    exact ⟨_, rfl⟩
  | cons token tokens ih =>
    cases later with
    | nil => simp at fit
    | cons dsType later =>
      cases new with
      | nil => simp at read
      | cons value new =>
        simp only [List.zipWith_cons_cons, List.map_cons, List.cons.injEq] at read
        rw [parseTokens, if_neg timed, read.1]
        exact ih (Nat.le_of_succ_le_succ fit) read.2 (by simp)

theorem parseTokens_zeros (zero : ∀ token ∈ zeros, parseTime platform now token = .ok 0) :
    parseTokens platform now [] (dsType :: later) 0 (zeros ++ tokens) =
      parseTokens platform now [] (dsType :: later) 0 tokens := by
  induction zeros with
  | nil => rfl
  | cons token zeros ih =>
    rw [List.cons_append, parseTokens, if_pos rfl, zero token List.mem_cons_self]
    exact ih fun token member => zero token (List.mem_cons_of_mem _ member)

theorem ValueTokens.accepted (shape : ValueTokens platform now ⟨dsType :: later⟩ tokens zeros head rest) :
    ∃ result, parseTokens platform now [] (dsType :: later) 0 tokens = .ok result := by
  obtain ⟨time, read, timed⟩ := shape.timed
  obtain ⟨new, values⟩ := shape.values
  have given : [] ++ new ≠ [] := by
    rintro rfl
    obtain ⟨token, others, same⟩ := List.exists_cons_of_ne_nil shape.given
    simp [same] at values
  obtain ⟨result, parsed⟩ := parseTokens_values now timed shape.fit values given
  rw [shape.split, parseTokens_zeros shape.zero, parseTokens, if_pos rfl, read]
  exact ⟨_, parsed⟩

theorem parseTokens_shape (parsed : parseTokens platform now [] (dsType :: later) 0 tokens = .ok (time, values)) :
    ∃ zeros head rest, ValueTokens platform now ⟨dsType :: later⟩ tokens zeros head rest ∧
      parseTime platform now head = .ok time ∧ ∃ new,
        List.zipWith (parseToken platform) (dsType :: later) rest = new.map .ok ∧
          values = new ++ ((dsType :: later).drop rest.length).map zeroValue := by
  obtain ⟨timed, zeros, head, rest, tokens, zero, read, rest_parsed⟩ := parseTokens_untimed parsed
  obtain ⟨-, fit, new, values_read, rfl⟩ := parseTokens_timed timed rest_parsed
  have given : rest ≠ [] := by
    rintro rfl
    simp [parseTokens] at rest_parsed
  refine ⟨zeros, head, rest, ⟨tokens, zero, ⟨time, read, timed⟩, given, fit, new, values_read⟩, read, ?_⟩
  exact ⟨new, values_read, rfl⟩

/-- `parse_values` accepts incomplete strings: its strings are complete iff those of the accepted language have no
zero time in front and as many values as there are data sources. -/
theorem parseValues_complete_iff (platform : Platform) (now : CdTime) (text : CString) (dsType : Nat)
    (later : List Nat) :
    (∀ result, parseValues platform now text ⟨dsType :: later⟩ = .ok result →
        CompleteValues platform now ⟨dsType :: later⟩ (strtok ':' text) result) ↔
      ∀ zeros head rest, ValueTokens platform now ⟨dsType :: later⟩ (strtok ':' text) zeros head rest →
        zeros = [] ∧ rest.length = later.length + 1 := by
  constructor
  · intro complete zeros head rest shape
    obtain ⟨⟨time, values⟩, parsed⟩ := shape.accepted
    obtain ⟨first, others, tokens, read, all, -⟩ := complete (time, values) parsed
    have timed := (parseTokens_untimed parsed).1
    have same := shape.split.symm.trans tokens
    cases zeros with
    | nil =>
      cases same
      exact ⟨rfl, all⟩
    | cons token zeros =>
      obtain rfl := (List.cons.inj same).1
      rw [shape.zero token List.mem_cons_self] at read
      cases read
      exact absurd rfl timed
  · rintro complete ⟨time, values⟩ parsed
    obtain ⟨zeros, head, rest, shape, read, new, values_read, rfl⟩ := parseTokens_shape parsed
    obtain ⟨rfl, all⟩ := complete zeros head rest shape
    exact ⟨head, rest, shape.split, read, all, by simpa [all] using values_read⟩

theorem parseValues_accepts_incomplete :
    let platform : Platform := ⟨fun _ => ⟨.nan, 0, true⟩, fun _ => 0, fun _ => []⟩
    let ds : DataSet := ⟨[DS_TYPE_COUNTER, DS_TYPE_COUNTER]⟩
    parseValues platform 1 "N:7" ds = .ok (1, [.counter 7, .counter 0]) ∧
      ¬CompleteValues platform 1 ds (strtok ':' "N:7") (1, [.counter 7, .counter 0]) := by
  intro platform ds
  have tokens : strtok ':' "N:7" = [['N'], ['7']] := by decide
  have value : parseToken platform DS_TYPE_COUNTER ['7'] = .ok (.counter 7) := by decide +kernel
  have zero : zeroValue DS_TYPE_COUNTER = .counter 0 := rfl
  refine ⟨by rw [parseValues, tokens]; simp [ds, parseTokens, parseTime, value, zero], ?_⟩
  rintro ⟨head, rest, same, -, all, -⟩
  cases tokens.symm.trans same
  cases all

end NCollectd.Common
