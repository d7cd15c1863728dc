import NCollectd.LabelSet.Text
import NCollectd.LabelSet.Content

namespace NCollectd.LabelSet

open Option

def pairText (pair : LabelPair) : CString :=
  pair.name ++ '=' :: '"' :: (escapeText needEscape '\\' pair.value ++ ['"'])

def entryText (i : Nat) (pair : LabelPair) : CString :=
  (if i ≠ 0 then [','] else []) ++ pairText pair

def labelText (pairs : List LabelPair) : CString :=
  '{' :: ((pairs.mapIdx entryText).flatten ++ ['}'])

theorem orWrite_appends (write : Strbuf → CString → Status × Strbuf)
    (appends : Appends (fun buf => write buf text) added) (growing : buf.fixed = false) :
    ∃ next, orWrite write (some text) (0, buf) = some (0, next) ∧ next.fixed = false ∧
      next.text = buf.text ++ added := by
  obtain ⟨next, written, flag, content⟩ := appends buf growing
  exact ⟨next, by simp [orWrite, written], flag, content⟩

theorem marshalLabel_appends (page : PageSize) (read : readPair labels i = some pair)
    (growing : buf.fixed = false) :
    ∃ next, marshalLabel page labels i (0, buf) = some (0, next) ∧ next.fixed = false ∧
      next.text = buf.text ++ entryText i pair := by
  have fields : pairName labels i = some pair.name ∧ pairValue labels i = some pair.value := by
    unfold readPair at read
    split at read
    · rename_i name value first second
      cases read
      exact ⟨first, second⟩
    · cases read
  have separator : ∃ next, marshalSeparator page i (0, buf) = some (0, next) ∧ next.fixed = false ∧
      next.text = buf.text ++ (if i ≠ 0 then [','] else []) := by
    by_cases first : i = 0
    · exact ⟨buf, by simp [marshalSeparator, first], growing, by simp [first]⟩
    · simpa [marshalSeparator, first] using orWrite_appends _ (strbufPrint_appends page [',']) growing
  obtain ⟨buf₁, step₁, growing₁, text₁⟩ := separator
  obtain ⟨buf₂, step₂, growing₂, text₂⟩ :=
    orWrite_appends _ (strbufPrint_appends page pair.name) growing₁
  obtain ⟨buf₃, step₃, growing₃, text₃⟩ :=
    orWrite_appends _ (strbufPrint_appends page ['=', '"']) growing₂
  obtain ⟨buf₄, step₄, growing₄, text₄⟩ :=
    orWrite_appends (fun buf value => strbufPrintEscaped page buf value needEscape '\\')
      (strbufPrintEscaped_appends page pair.value needEscape '\\') growing₃
  obtain ⟨buf₅, step₅, growing₅, text₅⟩ := orWrite_appends _ (strbufPrint_appends page ['"']) growing₄
  refine ⟨buf₅, ?_, growing₅, ?_⟩
  · simp [marshalLabel, fields, step₁, step₂, step₃, step₄, step₅]
  · simp [text₅, text₄, text₃, text₂, text₁, entryText, pairText]

theorem marshalLabels_appends (page : PageSize) (read : readPairs labels = some pairs)
    (growing : buf.fixed = false) (bound : count ≤ pairs.length) :
    ∃ next, marshalLabels page buf labels count = some (0, next) ∧ next.fixed = false ∧
      next.text = buf.text ++ '{' :: ((pairs.take count).mapIdx entryText).flatten := by
  induction count with
  | zero =>
    obtain ⟨next, written, flag, text⟩ := strbufPrint_appends page ['{'] buf growing
    exact ⟨next, congrArg some written, flag, by simp [text]⟩
  | succ count ih =>
    obtain ⟨middle, before, flag, text⟩ := ih (Nat.le_of_succ_le bound)
    have here : readPair labels count = pairs[count]? := by
      obtain ⟨length, reads⟩ := readAll_eq_some_iff.mp read
      exact reads count (length ▸ bound)
    rw [List.getElem?_eq_getElem bound] at here
    obtain ⟨next, written, last_flag, last_text⟩ := marshalLabel_appends page here flag
    refine ⟨next, by simp only [marshalLabels, before, bind_some, written], last_flag, ?_⟩
    have length : (pairs.take count).length = count := List.length_take_of_le (Nat.le_of_succ_le bound)
    rw [List.take_add_one, List.getElem?_eq_getElem bound, toList_some, List.mapIdx_concat, length]
    simp [last_text, text]

theorem labelSetMarshal_appends (page : PageSize) (read : readPairs labels = some pairs)
    (growing : buf.fixed = false) :
    ∃ next, labelSetMarshal page buf labels = some (0, next) ∧ next.fixed = false ∧
      next.text = buf.text ++ labelText pairs := by
  have length : pairs.length = labels.num := (readAll_eq_some_iff.mp read).1
  obtain ⟨middle, before, flag, text⟩ := marshalLabels_appends page read growing (Nat.le_refl _)
  obtain ⟨next, written, last_flag, last_text⟩ :=
    orWrite_appends _ (strbufPrint_appends page ['}']) flag
  refine ⟨next, ?_, last_flag, ?_⟩
  · rw [length] at before
    simp [labelSetMarshal, before, written]
  · simp [last_text, text, labelText]

def unquote : CString → Option (CString × CString)
  | [] => none
  | c :: rest =>
    if c = '"' then some ([], rest)
    else if c = '\n' then none
    else if c = '\\' then
      match rest with
      | [] => none
      | d :: rest => (unquote rest).map fun (value, left) => (unescapedChar d :: value, left)
    else (unquote rest).map fun (value, left) => (c :: value, left)

theorem unquote_quote (rest : CString) : unquote ('"' :: rest) = some ([], rest) := by
  unfold unquote
  rfl

theorem unquote_escape (d : Char) (rest : CString) :
    unquote ('\\' :: d :: rest) = (unquote rest).map fun (value, left) => (unescapedChar d :: value, left) := by
  conv_lhs => unfold unquote
  rfl

theorem unquote_ordinary (ordinary : c ∉ valueStop) (rest : CString) :
    unquote (c :: rest) = (unquote rest).map fun (value, left) => (c :: value, left) := by
  simp only [valueStop, List.mem_cons, List.not_mem_nil, or_false, not_or] at ordinary
  conv_lhs => unfold unquote
  simp [ordinary]

theorem lone_escape (none_valid : ¬ strcspn (c :: rest) valueStop ≠ 0) (quote : ¬ c = '"')
    (newline : ¬ c = '\n') : c = '\\' := by
  by_contra different
  have ordinary : c ∉ valueStop := by simp [valueStop, quote, newline, different]
  exact none_valid (strcspn_cons_of_notMem ordinary rest ▸ Nat.succ_ne_zero _)

theorem unquote_plain (s rest : CString) :
    unquote (s.take (strcspn s valueStop) ++ rest) =
      (unquote rest).map fun (value, left) => (s.take (strcspn s valueStop) ++ value, left) := by
  induction s with
  | nil => simp [strcspn]
  | cons c s ih =>
    by_cases special : c ∈ valueStop
    · simp [strcspn_eq_zero_of_mem special]
    · rw [strcspn_cons_of_notMem special]
      simp only [List.take_succ_cons, List.cons_append]
      rw [unquote_ordinary special, ih, map_map]
      rfl

theorem parseValueLoop_unquote (page : PageSize) (growing : buf.fixed = false) :
    ∀ value, unquote ptr = some (value, rest) →
      ∃ next, parseValueLoop page buf ptr = .ok (next, rest) ∧ next.fixed = false ∧
        next.text = buf.text ++ value := by
  fun_induction parseValueLoop page buf ptr with
  | case1 =>
    intro value quoted
    simp [unquote] at quoted
  | case2 buf text =>
    intro value quoted
    rw [unquote_quote] at quoted
    cases quoted
    exact ⟨buf, rfl, growing, by simp⟩
  | case3 buf c text quote valid some_valid ih =>
    intro value quoted
    obtain ⟨middle, written, flag, content⟩ := strbufPrintn_appends page (c :: text) valid buf growing
    have parts := unquote_plain (c :: text) ((c :: text).drop valid)
    rw [List.take_append_drop, quoted] at parts
    obtain ⟨⟨tail, left⟩, found, same⟩ := map_eq_some_iff.mp parts.symm
    cases same
    have middle_eq := congrArg Prod.snd written
    rw [middle_eq] at ih ⊢
    obtain ⟨next, parsed, last_flag, last_text⟩ := ih flag tail found
    exact ⟨next, parsed, last_flag, by rw [last_text, content, List.append_assoc]⟩
  | case4 buf text =>
    intro value quoted
    unfold unquote at quoted
    simp at quoted
  | case5 buf c quote newline valid none_valid =>
    intro value quoted
    rw [lone_escape none_valid quote newline] at quoted
    unfold unquote at quoted
    simp at quoted
  | case6 buf c quote newline d text valid none_valid ih =>
    intro value quoted
    rw [lone_escape none_valid quote newline, unquote_escape] at quoted
    obtain ⟨⟨tail, left⟩, found, same⟩ := map_eq_some_iff.mp quoted
    cases same
    obtain ⟨middle, written, flag, content⟩ := strbufPrint_appends page [unescapedChar d] buf growing
    have middle_eq := congrArg Prod.snd written
    rw [middle_eq] at ih ⊢
    obtain ⟨next, parsed, last_flag, last_text⟩ := ih flag tail found
    exact ⟨next, parsed, last_flag, by rw [last_text, content, List.append_assoc]; rfl⟩

theorem unquote_escapeText (value rest : CString) :
    unquote (escapeText needEscape '\\' value ++ '"' :: rest) = some (value, rest) := by
  induction value with
  | nil => exact unquote_quote rest
  | cons c value ih =>
    unfold escapeText at ih ⊢
    rw [List.flatMap_cons, List.append_assoc]
    by_cases special : c ∈ needEscape
    · have inverse : unescapedChar (escapedChar '\\' c) = c := by
        simp only [needEscape, List.mem_cons, List.not_mem_nil, or_false] at special
        rcases special with rfl | rfl | rfl | rfl | rfl <;> rfl
      rw [if_pos special, List.cons_append, List.singleton_append, unquote_escape, ih, inverse]
      rfl
    · have ordinary : c ∉ valueStop := fun stop => special (by
        simp only [valueStop, needEscape, List.mem_cons, List.not_mem_nil, or_false] at stop ⊢
        rcases stop with same | same | same <;> simp [same])
      rw [if_neg special, List.singleton_append, unquote_ordinary ordinary, ih]
      rfl

theorem label_chars (valid : validLabelName name = true) :
    name ≠ [] ∧ ∀ c ∈ name, c ∈ validLabelChars := by
  simp only [validLabelName, Bool.and_eq_true, bne_iff_ne, beq_iff_eq] at valid
  obtain ⟨⟨nonempty, span⟩, _⟩ := valid
  exact ⟨fun empty => nonempty (by simp [empty]), (strspn_eq_length_iff _ _).mp span⟩

theorem ptr_of_text (content : buf.text = value) (given : value ≠ []) :
    Strbuf.ptr buf = some value := by
  rcases buf.fits with room | ⟨empty, _⟩
  · rw [Strbuf.ptr, if_neg (Nat.ne_zero_of_lt room), content]
  · exact absurd (content ▸ empty) given

theorem unmarshalLabel_pairText (page : PageSize) (labels : LabelArray) (tail : CString)
    (growing : buf.fixed = false) (given : pair.value ≠ []) (valid : validLabelName pair.name = true) :
    ∃ next, next.fixed = false ∧ unmarshalLabel page labels buf (pairText pair ++ tail) =
      (labelSetAdd labels pair.name (some pair.value)).map fun (status, labels) =>
        (status, labels, next, tail) := by
  obtain ⟨nonempty, chars⟩ := label_chars valid
  have shape : pairText pair ++ tail =
      pair.name ++ '=' :: '"' :: (escapeText needEscape '\\' pair.value ++ '"' :: tail) := by
    simp [pairText]
  have span : strspn (pairText pair ++ tail) validLabelChars = pair.name.length := by
    rw [shape]
    apply strspn_append _ _ _ chars
    intro c first
    cases first
    decide
  have some_key : pair.name.length ≠ 0 := fun empty => nonempty (List.length_eq_zero_iff.mp empty)
  obtain ⟨next, parsed, flag, content⟩ := parseValueLoop_unquote page
    (show (strbufReset page buf).fixed = false from growing) pair.value (unquote_escapeText pair.value tail)
  refine ⟨next, flag, ?_⟩
  replace content : next.text = pair.value := content
  unfold unmarshalLabel
  rw [span, if_neg some_key, shape, List.drop_left, List.take_left]
  simp only [parseLabelValue, parsed, ptr_of_text content given]

theorem unmarshalLoop_step (page : PageSize) (separator : c = '{' ∨ c = ',')
    (growing : buf.fixed = false) (stores : Stores labels pairs) (given : pair.value ≠ [])
    (valid : validLabelName pair.name = true) (tail : CString) :
    ∃ next buf' pairs', buf'.fixed = false ∧ Stores next pairs' ∧
      ((∀ earlier ∈ pairs, earlier.name < pair.name) → pairs' = pairs ++ [pair]) ∧
      unmarshalLoop page labels buf (c :: (pairText pair ++ tail)) = unmarshalLoop page next buf' tail := by
  obtain ⟨next, pairs', added, stored, last⟩ := stores.set valid given
  obtain ⟨buf', flag, read⟩ := unmarshalLabel_pairText page labels tail growing given valid
  refine ⟨next, buf', pairs', flag, stored, last, ?_⟩
  conv_lhs => unfold unmarshalLoop
  rw [if_pos separator]
  rw [added, map_some] at read
  split
  · rename_i failed
    rw [read] at failed
    cases failed
  · rename_i status labels' buf'' text done
    rw [read] at done
    cases done
    rfl

theorem unmarshalLoop_rest (page : PageSize) (growing : buf.fixed = false) (stores : Stores labels pairs)
    (valid : ∀ pair ∈ more, pair.value ≠ [] ∧ validLabelName pair.name = true) (tail : CString) :
    ∃ next after, unmarshalLoop page labels buf
        (more.flatMap (fun pair => ',' :: pairText pair) ++ '}' :: tail) = some (0, next, '}' :: tail) ∧
      Stores next after ∧
      (((pairs ++ more).map LabelPair.name).Pairwise (· < ·) → after = pairs ++ more) := by
  induction more generalizing labels buf pairs with
  | nil =>
    refine ⟨labels, pairs, ?_, stores, fun _ => (List.append_nil pairs).symm⟩
    rw [List.flatMap_nil, List.nil_append]
    unfold unmarshalLoop
    rw [if_neg (by decide)]
  | cons pair more ih =>
    obtain ⟨⟨given, name⟩, others⟩ := List.forall_mem_cons.mp valid
    rw [List.flatMap_cons, List.append_assoc, List.cons_append]
    obtain ⟨middle, buf', pairs', flag, stored, last, step⟩ := unmarshalLoop_step page (.inr rfl) growing stores given
      name (more.flatMap (fun pair => ',' :: pairText pair) ++ '}' :: tail)
    obtain ⟨next, after, read, done, sorted⟩ := ih flag stored others
    refine ⟨next, after, step.trans read, done, fun ascending => ?_⟩
    rw [List.append_cons] at ascending ⊢
    have front : pairs' = pairs ++ [pair] := by
      apply last
      intro earlier member
      rw [List.map_append, List.map_append, List.append_assoc, List.pairwise_append] at ascending
      exact ascending.2.2 _ (List.mem_map_of_mem member) _ (by simp)
    rw [front] at sorted
    exact sorted ascending

theorem labelText_cons (pair : LabelPair) (more : List LabelPair) (tail : CString) :
    labelText (pair :: more) ++ tail =
      '{' :: (pairText pair ++ (more.flatMap (fun pair => ',' :: pairText pair) ++ '}' :: tail)) := by
  have later : more.mapIdx (fun i => entryText (i + 1)) = more.map fun pair => ',' :: pairText pair := by
    apply List.ext_getElem <;> simp [entryText]
  simp only [labelText, List.mapIdx_cons, later, List.flatMap_def]
  simp [entryText]

theorem labelSetUnmarshal_valid (page : PageSize)
    (valid : ∀ pair ∈ pairs, pair.value ≠ [] ∧ validLabelName pair.name = true) (nonempty : pairs ≠ [])
    (tail : CString) :
    ∃ labels after, labelSetUnmarshal page .empty (labelText pairs ++ tail) = some (0, labels, tail) ∧
      Stores labels after ∧ ((pairs.map LabelPair.name).Pairwise (· < ·) → after = pairs) := by
  obtain ⟨pair, more, rfl⟩ := List.exists_cons_of_ne_nil nonempty
  obtain ⟨⟨given, name⟩, others⟩ := List.forall_mem_cons.mp valid
  rw [labelText_cons]
  obtain ⟨middle, buf, first, flag, stored, only, step⟩ := unmarshalLoop_step page (.inl rfl)
    (show Strbuf.create.fixed = false from rfl) Stores.empty given name
    (more.flatMap (fun pair => ',' :: pairText pair) ++ '}' :: tail)
  obtain rfl : first = [pair] := only nofun
  obtain ⟨labels, after, read, done, sorted⟩ := unmarshalLoop_rest page flag stored others tail
  refine ⟨labels, after, ?_, done, sorted⟩
  unfold labelSetUnmarshal
  rw [if_neg (by simp), step, read]
  rfl

/-- An empty pair of braces is refused. -/
theorem labelSetUnmarshal_nil (page : PageSize) (tail : CString) :
    labelSetUnmarshal page .empty (labelText [] ++ tail) = some (EINVAL, .empty, labelText [] ++ tail) := by
  have none : strspn ('}' :: tail) validLabelChars = 0 := by
    have outside : validLabelChars.contains '}' = false := by decide
    simp only [strspn, List.takeWhile_cons, outside, Bool.false_eq_true, if_false, List.length_nil]
  have label (buf : Strbuf) : unmarshalLabel page .empty buf ('}' :: tail) =
      some (EINVAL, .empty, buf, '}' :: tail) := by
    unfold unmarshalLabel
    rw [if_pos none]
  have text : labelText [] ++ tail = '{' :: '}' :: tail := rfl
  have loop : unmarshalLoop page .empty .create ('{' :: '}' :: tail) = some (EINVAL, .empty, '}' :: tail) := by
    unfold unmarshalLoop
    rw [if_pos (.inl rfl)]
    split
    · rename_i failed
      rw [label] at failed
      cases failed
    · rename_i done
      rw [label] at done
      cases done
      exact dif_neg (by decide)
  rw [text]
  unfold labelSetUnmarshal
  rw [if_neg (by simp), loop]
  rfl

theorem labelSetUnmarshal_labelText (page : PageSize) (formed : WellFormed pairs) (nonempty : pairs ≠ [])
    (tail : CString) :
    ∃ labels, labelSetUnmarshal page .empty (labelText pairs ++ tail) = some (0, labels, tail) ∧
      Stores labels pairs := by
  obtain ⟨labels, after, read, stores, sorted⟩ := labelSetUnmarshal_valid page formed.valid nonempty tail
  obtain rfl := sorted formed.sorted
  exact ⟨labels, read, stores⟩

theorem labelText_injective (first : WellFormed pairs) (second : WellFormed others)
    (some_pairs : pairs ≠ []) (some_others : others ≠ [])
    (same : labelText pairs = labelText others) : pairs = others := by
  obtain ⟨labels, read, stores⟩ := labelSetUnmarshal_labelText (strbufPagesize 0) first some_pairs []
  obtain ⟨labels', read', stores'⟩ := labelSetUnmarshal_labelText (strbufPagesize 0) second some_others []
  rw [same, read'] at read
  cases read
  exact some.inj (stores.read.symm.trans stores'.read)

/-- What `label_set_marshal` writes, `label_set_unmarshal` reads back, unless there is no label. -/
theorem label_set_marshal_reads_back (page : PageSize) (calls : List LabelCall)
    (given : ∀ call ∈ calls, givenValue call.value ≠ none) (built : runCalls .empty calls = some labels)
    (tail : CString) :
    ∃ pairs buf, readPairs labels = some pairs ∧ labelSetMarshal page .create labels = some (0, buf) ∧
      if pairs = [] then labelSetUnmarshal page .empty (buf.text ++ tail) = some (EINVAL, .empty, buf.text ++ tail)
      else ∃ copy, labelSetUnmarshal page .empty (buf.text ++ tail) = some (0, copy, tail) ∧
        readPairs copy = some pairs := by
  obtain ⟨pairs, stores⟩ := Stores.empty.run given built
  have growing : Strbuf.create.fixed = false := rfl
  obtain ⟨buf, written, _, text⟩ := labelSetMarshal_appends page stores.read growing
  refine ⟨pairs, buf, stores.read, written, ?_⟩
  rw [text]
  split_ifs with none
  · rw [none]
    exact labelSetUnmarshal_nil page tail
  · obtain ⟨copy, parsed, stored⟩ := labelSetUnmarshal_labelText page stores.wellFormed none tail
    exact ⟨copy, parsed, stored.read⟩

/-- The set of the one label `a="1"`. -/
def oneLabel : LabelArray := ⟨⟨[some "a", some "1"]⟩, pairBytes 0 1, 1⟩

theorem label_set_marshal_reads_back_one : ∃ buf copy,
    labelSetMarshal (strbufPagesize 4096) .create oneLabel = some (0, buf) ∧
      labelSetUnmarshal (strbufPagesize 4096) .empty (buf.text ++ [' ']) = some (0, copy, [' ']) ∧
        readPairs copy = some [⟨"a", "1"⟩] := by
  obtain ⟨pairs, buf, read, written, back⟩ := label_set_marshal_reads_back (strbufPagesize 4096) [⟨"a", some "1"⟩]
    (by simp [givenValue]) (show runCalls .empty _ = some oneLabel by decide +kernel) [' ']
  have only : readPairs oneLabel = some [⟨"a", "1"⟩] := by decide +kernel
  obtain rfl := some.inj (read.symm.trans only)
  obtain ⟨copy, parsed, same⟩ := back
  exact ⟨buf, copy, written, parsed, same⟩

end NCollectd.LabelSet
