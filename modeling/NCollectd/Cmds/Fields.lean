import NCollectd.Cmds.Scanner

namespace NCollectd.Cmds

open List

/-- Where the splitter stands between two characters; after a quotation mark, whether it is glued to another. -/
inductive Mode where
  | outside
  | bare
  | opened (glued : Bool)
  | quoted (blank : Bool)
  | closed
deriving DecidableEq

/-- Fields behind a closing quotation mark, words inside quotation marks, and words left at the end. -/
structure Tally where
  glued : Nat
  inner : Nat
  idle : Nat
deriving DecidableEq

@[simp] def Tally.add (first second : Tally) : Tally :=
  ⟨first.glued + second.glued, first.inner + second.inner, first.idle + second.idle⟩

def count (flag : Bool) : Nat := if flag then 1 else 0

@[simp] theorem count_true : count true = 1 := rfl

@[simp] theorem count_false : count false = 0 := rfl

theorem count_not (flag : Bool) : count flag + count (!flag) = 1 := by
  cases flag <;> rfl

def tally : Mode → List Char → Tally
  | .opened glued, [] => ⟨0, 0, count !glued⟩
  | _, [] => ⟨0, 0, 0⟩
  | .outside, c :: rest =>
    if isspace c then tally .outside rest
    else if c = '"' then tally (.opened false) rest
    else tally .bare rest
  | .bare, c :: rest =>
    if isspace c then tally .outside rest
    else if c = '"' then tally (.quoted false) rest
    else tally .bare rest
  | .closed, c :: rest =>
    if isspace c then tally .outside rest
    else if c = '"' then tally (.opened true) rest
    else (Tally.mk 1 0 0).add (tally .bare rest)
  | .opened glued, c :: rest =>
    if c = '"' then ⟨count glued, 0, estimate true rest⟩
    else if c = '\\' then
      match rest with
      | [] => ⟨0, 0, count !glued⟩
      | next :: rest => (Tally.mk (count glued) 0 0).add (tally (.quoted (isspace next)) rest)
    else (Tally.mk (count glued) 0 0).add (tally (.quoted (isspace c)) rest)
  | .quoted blank, c :: rest =>
    if isspace c then tally (.quoted true) rest
    else if c = '"' then (Tally.mk 0 (count blank) 0).add (tally .closed rest)
    else if c = '\\' then
      match rest with
      | [] => ⟨0, count blank, 0⟩
      | next :: rest => (Tally.mk 0 (count blank) 0).add (tally (.quoted (isspace next)) rest)
    else (Tally.mk 0 (count blank) 0).add (tally (.quoted false) rest)

@[simp] def Mode.inField : Mode → Bool
  | .bare | .quoted _ => true
  | _ => false

@[simp] def Mode.inQuotes : Mode → Bool
  | .opened _ | .quoted _ => true
  | _ => false

@[simp] def Mode.inWord : Mode → Bool
  | .outside => false
  | .quoted blank => !blank
  | _ => true

@[simp] def Mode.pending : Mode → Nat
  | .opened glued => count !glued
  | _ => 0

def starting (inField inQuotes : Bool) : List Char → Nat
  | [] => 0
  | c :: rest =>
    if isspace c && !inQuotes then starting false false rest
    else if c = '"' then
      if inQuotes then (if inField then starting false false rest else 1) else starting inField true rest
    else if c = '\\' && inQuotes then
      match rest with
      | [] => 0
      | _ :: rest => count (!inField) + starting true inQuotes rest
    else count (!inField) + starting true inQuotes rest

theorem starting_blank (blank : (isspace c && !inQuotes) = true) :
    starting inField inQuotes (c :: rest) = starting false false rest := by
  rw [starting.eq_def]
  simp only [if_pos blank]

theorem starting_open : starting inField false ('"' :: rest) = starting inField true rest := by
  rw [starting.eq_def]
  rfl

theorem starting_close :
    starting inField true ('"' :: rest) = if inField then starting false false rest else 1 := by
  rw [starting.eq_def]
  rfl

theorem starting_backslash : starting inField true ['\\'] = 0 := rfl

theorem starting_escape {next} :
    starting inField true ('\\' :: next :: rest) = count (!inField) + starting true true rest := by
  rw [starting.eq_def]
  rfl

theorem starting_other (blank : ¬ (isspace c && !inQuotes) = true) (other : c ≠ '"')
    (plain : ¬ (c = '\\' && inQuotes) = true) :
    starting inField inQuotes (c :: rest) = count (!inField) + starting true inQuotes rest := by
  rw [starting.eq_def]
  simp only [if_neg blank, if_neg other, if_neg plain]

theorem starting_unquoted (word : isspace c = false) (other : c ≠ '"') :
    starting inField false (c :: rest) = count (!inField) + starting true false rest :=
  starting_other (by simp [word]) other (by simp)

theorem starting_quoted (other : c ≠ '"') (plain : c ≠ '\\') :
    starting inField true (c :: rest) = count (!inField) + starting true true rest :=
  starting_other (by simp) other (by simp [plain])

theorem length_toList (current : Option CString) : current.toList.length + count (!current.isSome) = 1 := by
  cases current <;> rfl

theorem length_added (current : Option CString) (text : CString)
    (later : fields = (some text).toList.length + more) :
    fields = current.toList.length + (count (!current.isSome) + more) := by
  rw [later, ← Nat.add_assoc, length_toList]
  rfl

theorem length_fields (current : Option CString) (inQuotes : Bool) (rest : List Char) :
    (scan current inQuotes rest).fields.length = current.toList.length + starting current.isSome inQuotes rest := by
  fun_induction scan current inQuotes rest with
  | case1 => rfl
  | case2 current inQuotes c rest blank ih =>
    rw [Scan.after, length_append, ih, starting_blank blank]
    simp
  | case3 rest _ =>
    rw [starting_close]
    rfl
  | case4 rest text _ ih =>
    rw [Scan.after, length_append, ih, starting_close]
    simp
  | case5 current inQuotes rest unquoted _ ih =>
    rw [Bool.not_eq_true] at unquoted
    rw [ih, unquoted, starting_open]
  | case6 current inQuotes c _ _ escaped =>
    obtain ⟨rfl, rfl⟩ : c = '\\' ∧ inQuotes = true := by simpa using escaped
    rfl
  | case7 current inQuotes c _ _ escaped next rest ih =>
    obtain ⟨rfl, rfl⟩ : c = '\\' ∧ inQuotes = true := by simpa using escaped
    rw [starting_escape]
    exact length_added current _ ih
  | case8 current inQuotes c rest blank other plain ih =>
    rw [starting_other blank other plain]
    exact length_added current _ ih

@[simp] theorem estimate_nil : estimate inWord [] = 0 := rfl

theorem estimate_blank (ordinary : c ≠ NUL) (blank : isspace c = true) :
    estimate inWord (c :: rest) = estimate false rest := by
  simp [estimate, ordinary, blank]

theorem estimate_word (ordinary : c ≠ NUL) (word : isspace c = false) :
    estimate inWord (c :: rest) = count (!inWord) + estimate true rest := by
  cases inWord <;> simp [estimate, ordinary, word, count]

theorem estimate_char (ordinary : c ≠ NUL) :
    estimate inWord (c :: rest) = count (!isspace c && !inWord) + estimate (!isspace c) rest := by
  cases blank : isspace c with
  | true => rw [estimate_blank ordinary blank]; simp [count]
  | false => rw [estimate_word ordinary blank]; simp

theorem quote_word : isspace '"' = false := by decide

theorem backslash_word : isspace '\\' = false := by decide

theorem starting_tally (mode : Mode) (rest : List Char) (clean : NUL ∉ rest) :
    starting mode.inField mode.inQuotes rest + (tally mode rest).inner + (tally mode rest).idle =
      estimate mode.inWord rest + (tally mode rest).glued + mode.pending := by
  fun_induction tally mode rest with
  | case1 glued => simp [starting]
  | case2 mode other =>
    cases mode <;> simp [starting] at other ⊢
  | case3 c rest blank ih | case6 c rest blank ih | case9 c rest blank ih =>
    obtain ⟨ordinary, clean⟩ := clean_cons clean
    have later := ih clean
    simp [starting_blank, blank, estimate_blank ordinary] at later ⊢
    omega
  | case4 rest word ih | case7 rest word ih | case10 rest word ih =>
    obtain ⟨ordinary, clean⟩ := clean_cons clean
    have later := ih clean
    simp [starting_open, estimate_word ordinary, quote_word] at later ⊢
    omega
  | case5 c rest word other ih | case8 c rest word other ih | case11 c rest word other ih =>
    obtain ⟨ordinary, clean⟩ := clean_cons clean
    have later := ih clean
    simp [starting_unquoted, estimate_word ordinary, word, other] at later ⊢
    omega
  | case12 glued rest =>
    have one := count_not glued
    obtain ⟨ordinary, clean⟩ := clean_cons clean
    simp [starting_close, estimate_word ordinary, quote_word]
    omega
  | case13 glued | case18 blank _ _ =>
    obtain ⟨ordinary, _⟩ := clean_cons clean
    simp [starting_backslash, estimate_word ordinary, backslash_word]
  | case14 glued next rest _ ih =>
    obtain ⟨ordinary, clean⟩ := clean_cons clean
    obtain ⟨unescaped, clean⟩ := clean_cons clean
    have one := count_not glued
    have later := ih clean
    simp [starting_escape, estimate_word ordinary, backslash_word, estimate_char unescaped] at later ⊢
    omega
  | case15 glued c rest other plain ih =>
    obtain ⟨ordinary, clean⟩ := clean_cons clean
    have later := ih clean
    have one := count_not glued
    simp [starting_quoted, estimate_char ordinary, other, plain] at later ⊢
    omega
  | case16 blank c rest space ih =>
    obtain ⟨ordinary, clean⟩ := clean_cons clean
    have later := ih clean
    have other : c ≠ '"' := fun same => by simp [same, quote_word] at space
    have plain : c ≠ '\\' := fun same => by simp [same, backslash_word] at space
    simp [starting_quoted, estimate_blank ordinary, space, other, plain] at later ⊢
    omega
  | case17 blank rest word ih =>
    obtain ⟨ordinary, clean⟩ := clean_cons clean
    have later := ih clean
    simp [starting_close, estimate_word ordinary, quote_word] at later ⊢
    omega
  | case19 blank next rest _ _ ih =>
    obtain ⟨ordinary, clean⟩ := clean_cons clean
    obtain ⟨unescaped, clean⟩ := clean_cons clean
    have later := ih clean
    simp [starting_escape, estimate_word ordinary, backslash_word, estimate_char unescaped] at later ⊢
    omega
  | case20 blank c rest word other plain ih =>
    obtain ⟨ordinary, clean⟩ := clean_cons clean
    have later := ih clean
    simp [starting_quoted, estimate_word ordinary, word, other, plain] at later ⊢
    omega

/-- `cmd_split` returns: with fields and a NULL entry that are inside the array, or with a parse error. -/
def SplitReturns (line : CString) : Prop :=
  (∃ fields, cmdSplit line = .ok fields ∧ fields.length + 1 ≤ estimate false line + 1) ∨
    ∃ message, cmdSplit line = .error (.parseError message)

theorem splitReturns_iff (clean : NUL ∉ line) :
    SplitReturns line ↔ (scan none false line).fields.length ≤ estimate false line := by
  unfold SplitReturns
  rw [cmdSplit_eq clean]
  constructor
  · intro returns
    by_contra exceeds
    rw [if_pos (lt_of_not_ge exceeds)] at returns
    rcases returns with ⟨fields, result, _⟩ | ⟨message, result⟩
    all_goals cases result
  · intro within
    rw [if_neg (not_lt.mpr within)]
    cases (scan none false line).stop with
    | finished => exact .inl ⟨_, rfl, Nat.succ_le_succ within⟩
    | unterminated | backslash => exact .inr ⟨_, rfl⟩

/-- Fields glued to a closing quotation mark are made up for by words that start no field. -/
theorem cmd_split_within_estimate_iff (line : CString) (clean : NUL ∉ line) :
    SplitReturns line ↔
      (tally .outside line).glued ≤ (tally .outside line).inner + (tally .outside line).idle := by
  have balance := starting_tally .outside line clean
  have fields := length_fields none false line
  rw [splitReturns_iff clean, fields]
  simp at balance ⊢
  omega

theorem cmd_split_within_estimate_word :
    NUL ∉ "\"a b\"\"c\"".toList ∧
      (SplitReturns "\"a b\"\"c\"" ↔
        (tally .outside "\"a b\"\"c\"").glued ≤
          (tally .outside "\"a b\"\"c\"").inner + (tally .outside "\"a b\"\"c\"").idle) :=
  ⟨by decide, cmd_split_within_estimate_iff _ (by decide)⟩

theorem cmd_split_exceeds_estimate :
    NUL ∉ "\"a\"\"b\"".toList ∧ estimate false "\"a\"\"b\"".toList = 1 ∧
      cmdSplit "\"a\"\"b\"" = .error .assertion ∧ ¬ SplitReturns "\"a\"\"b\"" := by
  have aborted : cmdSplit "\"a\"\"b\"" = .error .assertion := by decide +kernel
  refine ⟨by decide, by decide, aborted, ?_⟩
  unfold SplitReturns
  rw [aborted]
  simp

end NCollectd.Cmds
