import NCollectd.Metric.Model
import NCollectd.LabelSet.RoundTrip

namespace NCollectd

open LabelSet List Option

def identityText (name : CString) (pairs : List LabelPair) : CString :=
  if pairs = [] then name else name ++ labelText pairs

/-- On a growing buffer the identity of a metric with readable labels is written. -/
theorem metricIdentity_appends (page : PageSize) (read : readPairs m.label = some pairs)
    (growing : buf.fixed = false) :
    ∃ next, metricIdentity page buf m = some (0, next) ∧ next.fixed = false ∧
      next.text = buf.text ++ identityText m.family.name pairs := by
  have length : pairs.length = m.label.num := (readAll_eq_some_iff.mp read).1
  obtain ⟨named, printed, flag, text⟩ := strbufPrint_appends page m.family.name buf growing
  by_cases free : m.label.num = 0
  · have empty : pairs = [] := length_eq_zero_iff.mp (length.trans free)
    exact ⟨named, by simp [metricIdentity, printed, free], flag, by simp [identityText, empty, text]⟩
  · have labelled : pairs ≠ [] := fun empty => free (by rw [← length, empty, length_nil])
    obtain ⟨next, marshalled, last_flag, last_text⟩ := labelSetMarshal_appends page read flag
    refine ⟨next, ?_, last_flag, ?_⟩
    · simp [metricIdentity, printed, free, marshalled]
    · simp [identityText, labelled, last_text, text]

theorem strspn_identityText (pairs : List LabelPair) (chars : ∀ c ∈ name, c ∈ validNameChars) :
    strspn (identityText name pairs) validNameChars = name.length := by
  unfold identityText
  split
  · exact (strspn_eq_length_iff _ _).mpr chars
  · apply strspn_append _ _ _ chars
    intro c first
    obtain rfl : '{' = c := some.inj first
    decide

theorem identityText_inj (chars : ∀ c ∈ name, c ∈ validNameChars) (others : ∀ c ∈ name', c ∈ validNameChars)
    (formed : WellFormed pairs) (formed' : WellFormed pairs') :
    identityText name pairs = identityText name' pairs' ↔ name = name' ∧ pairs = pairs' := by
  constructor
  · intro same
    have length : name.length = name'.length := by
      rw [← strspn_identityText pairs chars, same, strspn_identityText pairs' others]
    unfold identityText at same
    split at same <;> split at same
    · rename_i free free'
      exact ⟨same, free.trans free'.symm⟩
    · have longer := congrArg List.length same
      simp [length, labelText] at longer
    · have longer := congrArg List.length same
      simp [length, labelText] at longer
    · rename_i some_pairs some_pairs'
      obtain ⟨names, texts⟩ := append_inj same length
      exact ⟨names, labelText_injective formed formed' some_pairs some_pairs' texts⟩
  · rintro ⟨rfl, rfl⟩
    rfl

/-- The identity parser applied to the metric's own text returns its name and labels. -/
def RoundTrips (page : PageSize) (m : Metric) : Prop :=
  ∃ pairs buf parsed, readPairs m.label = some pairs ∧
    metricIdentity page .create m = some (0, buf) ∧
    metricParseIdentity page buf.text = some (.ok parsed) ∧
    parsed.family.name = m.family.name ∧ readPairs parsed.label = some pairs

/-- A family name that is not empty and made of `VALID_NAME_CHARS`. -/
def ValidName (name : CString) : Prop := name ≠ [] ∧ ∀ c ∈ name, c ∈ validNameChars

theorem unmarshalLoop_suffix (page : PageSize)
    (read : unmarshalLoop page labels value ptr = some (0, labels', rest)) :
    ∃ consumed, ptr = consumed ++ rest := by
  fun_induction unmarshalLoop page labels value ptr with
  | case1 =>
    cases read
    exact ⟨[], rfl⟩
  | case2 => cases read
  | case3 labels value c text separator next value' left found ih =>
    obtain ⟨consumed, split⟩ := unmarshalLabel_suffix found
    obtain ⟨more, split'⟩ := ih read
    exact ⟨c :: (consumed ++ '"' :: more), by simp [split, split']⟩
  | case4 labels value c text separator status next value' left found failed =>
    cases read
    exact absurd rfl failed
  | case5 labels value c text other =>
    cases read
    exact ⟨[], rfl⟩

theorem labelSetUnmarshal_suffix (page : PageSize)
    (read : labelSetUnmarshal page labels text = some (0, labels', rest)) :
    ∃ consumed, text = consumed ++ '}' :: rest := by
  unfold labelSetUnmarshal at read
  split at read
  · cases read
  · obtain ⟨⟨status, next, left⟩, found, finished⟩ := map_eq_some_iff.mp read
    dsimp only at finished
    split at finished
    · rename_i failed
      exact absurd (congrArg Prod.fst finished) failed
    · rename_i success
      obtain rfl : status = 0 := not_not.mp success
      split at finished
      · rename_i tail
        obtain rfl : tail = rest := congrArg (fun result => result.2.2) finished
        exact unmarshalLoop_suffix page found
      · cases congrArg Prod.fst finished

/-- A parsed identity is a bare name, or it ends in two closing braces. -/
theorem metricParseIdentity_shape (parsed : metricParseIdentity page text = some (.ok m)) :
    (∀ c ∈ text, c ∈ validNameChars) ∨ ∃ front, text = front ++ ['}', '}'] := by
  obtain ⟨outcome, unmarshalled, finished⟩ := map_eq_some_iff.mp parsed
  rcases outcome with status | ⟨name, label, rest⟩
  · cases finished
  dsimp only at finished
  split at finished
  · cases finished
  rename_i complete
  obtain rfl : rest = [] := not_not.mp complete
  unfold metricFamilyUnmarshalIdentity at unmarshalled
  dsimp only at unmarshalled
  split at unmarshalled
  · cases unmarshalled
  split at unmarshalled
  · left
    simp only [some.injEq, Except.ok.injEq, Prod.mk.injEq, drop_eq_nil_iff] at unmarshalled
    have span := Nat.le_antisymm (strspn_le_length text validNameChars) unmarshalled.2.2
    exact (strspn_eq_length_iff text validNameChars).mp span
  · right
    obtain ⟨⟨status, label', left'⟩, read, accepted⟩ := map_eq_some_iff.mp unmarshalled
    split at accepted
    · cases accepted
    rename_i success
    obtain rfl : status = 0 := not_not.mp success
    split at accepted
    · cases accepted
    rename_i brace
    simp only [Except.ok.injEq, Prod.mk.injEq] at accepted
    obtain ⟨consumed, split⟩ := labelSetUnmarshal_suffix page read
    have last : left' = ['}'] := by
      have head : left'.head? = some '}' := by
        by_contra other
        exact brace (.inl other)
      cases left' with
      | nil => cases head
      | cons c tail =>
        obtain rfl : c = '}' := some.inj head
        exact congrArg _ accepted.2.2
    refine ⟨text.take (strspn text validNameChars) ++ consumed, ?_⟩
    conv_lhs => rw [← take_append_drop (strspn text validNameChars) text, split, last]
    simp

theorem labelText_end (pairs : List LabelPair) (nonempty : pairs ≠ []) :
    ∃ front, labelText pairs = front ++ ['"', '}'] := by
  obtain ⟨front, last, rfl⟩ := eq_nil_or_concat pairs |>.resolve_left nonempty
  refine ⟨'{' :: ((front.mapIdx entryText).flatten ++ (if front.length ≠ 0 then [','] else []) ++ last.name ++
    '=' :: '"' :: escapeText needEscape '\\' last.value), ?_⟩
  simp [labelText, mapIdx_concat, entryText, pairText]

def parsedMetric (name : CString) : Metric := ⟨⟨name, .untyped⟩, .empty, .gauge (.fin 0), 0, 0⟩

theorem metricParseIdentity_name (page : PageSize) (valid : ValidName name) :
    metricParseIdentity page name = some (.ok (parsedMetric name)) := by
  have span := (strspn_eq_length_iff name validNameChars).mpr valid.2
  have nonempty : name.length ≠ 0 := fun empty => valid.1 (length_eq_zero_iff.mp empty)
  simp [metricParseIdentity, metricFamilyUnmarshalIdentity, span, nonempty, parsedMetric]

theorem metricParseIdentity_identityText (page : PageSize) (chars : ∀ c ∈ name, c ∈ validNameChars)
    (formed : WellFormed pairs) :
    metricParseIdentity page (identityText name pairs) =
      some (if name ≠ [] ∧ pairs = [] then .ok (parsedMetric name) else .error EINVAL) := by
  have span := strspn_identityText pairs chars
  by_cases empty : name = []
  · rw [empty, length_nil] at span
    simp [metricParseIdentity, metricFamilyUnmarshalIdentity, empty, span]
  · by_cases free : pairs = []
    · rw [if_pos ⟨empty, free⟩, identityText, if_pos free]
      exact metricParseIdentity_name page ⟨empty, chars⟩
    · have nonempty : name.length ≠ 0 := fun zero => empty (length_eq_zero_iff.mp zero)
      obtain ⟨labels, read, _⟩ := labelSetUnmarshal_labelText page formed free []
      rw [append_nil] at read
      have labelled : identityText name pairs = name ++ labelText pairs := if_neg free
      have brace : (labelText pairs).head? = some '{' := rfl
      rw [labelled] at span ⊢
      simp [metricParseIdentity, metricFamilyUnmarshalIdentity, span, nonempty, brace, read, free]

theorem quote_not_valid : '"' ∉ validNameChars := by decide

/-- Exactly the identities without labels survive the round trip, however the label
set was built. -/
theorem metric_identity_round_trip_iff (page : PageSize) (m : Metric) (valid : ValidName m.family.name) :
    RoundTrips page m ↔ m.label.num = 0 := by
  constructor
  · rintro ⟨pairs, buf, parsed, read, written, success, _, _⟩
    by_contra labelled
    have length : pairs.length = m.label.num := (readAll_eq_some_iff.mp read).1
    have nonempty : pairs ≠ [] := fun empty => labelled (by rw [← length, empty, length_nil])
    obtain ⟨next, written', _, text⟩ :=
      metricIdentity_appends page read (show Strbuf.create.fixed = false from rfl)
    obtain rfl : next = buf := congrArg Prod.snd (some.inj (written'.symm.trans written))
    obtain ⟨front, ending⟩ := labelText_end pairs nonempty
    have shape : next.text = (m.family.name ++ front) ++ ['"', '}'] := by
      rw [text, identityText, if_neg nonempty, ending]
      simp [Strbuf.create]
    rcases metricParseIdentity_shape success with bare | ⟨front', double⟩
    · exact quote_not_valid (bare _ (by rw [shape]; simp))
    · have same := append_inj_right' (shape.symm.trans double) rfl
      exact absurd same (by decide)
  · intro free
    have read : readPairs m.label = some [] := by rw [readPairs, free]; rfl
    obtain ⟨next, written, _, text⟩ :=
      metricIdentity_appends page read (show Strbuf.create.fixed = false from rfl)
    have name : next.text = m.family.name := by simpa [Strbuf.create, identityText] using text
    have parsed := metricParseIdentity_name page valid
    rw [← name] at parsed
    exact ⟨[], next, _, read, written, parsed, name, rfl⟩

def bareMetric : Metric := ⟨⟨"up", .gauge⟩, .empty, .gauge (.fin 0), 0, 0⟩

theorem metric_identity_round_trip_bare :
    ValidName bareMetric.family.name ∧
      (RoundTrips (strbufPagesize 4096) bareMetric ↔ bareMetric.label.num = 0) :=
  have valid : ValidName bareMetric.family.name :=
    ⟨by decide, (strspn_eq_length_iff _ _).mp (by decide)⟩
  ⟨valid, metric_identity_round_trip_iff (strbufPagesize 4096) bareMetric valid⟩

def labelledMetric : Metric :=
  { bareMetric with label := ⟨⟨[some "a", some "1"]⟩, pairBytes 0 1, 1⟩ }

theorem metric_identity_labelled_fails :
    metricLabelSet bareMetric "a".toList (some "1".toList) = some (0, labelledMetric) ∧
      (metricIdentity (strbufPagesize 4096) .create labelledMetric).map (fun result => result.2.text) =
        some "up\x7ba=\"1\"\x7d".toList ∧
      metricParseIdentity (strbufPagesize 4096) "up\x7ba=\"1\"\x7d".toList = some (.error EINVAL) ∧
      ¬ RoundTrips (strbufPagesize 4096) labelledMetric := by
  have text : (metricIdentity (strbufPagesize 4096) .create labelledMetric).map (fun result => result.2.text) =
      some "up\x7ba=\"1\"\x7d".toList := by decide +kernel
  have refused : metricParseIdentity (strbufPagesize 4096) "up\x7ba=\"1\"\x7d".toList =
      some (.error EINVAL) := by decide +kernel
  refine ⟨by decide +kernel, text, refused, ?_⟩
  rintro ⟨pairs, buf, parsed, _, written, success, _⟩
  rw [written, map_some, some.injEq] at text
  rw [text, refused] at success
  cases success

end NCollectd
