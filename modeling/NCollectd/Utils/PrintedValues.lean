import NCollectd.Utils.ParseValues

namespace NCollectd.Common

open List

open Cmds (isspace)

def storedInteger (dsType n : Nat) : Value :=
  if dsType = DS_TYPE_COUNTER then .counter (UInt64.ofNat n) else .derive (min n (2 ^ 63 - 1))

theorem isspace_digit (digit : c.isDigit = true) : isspace c = false := by
  have bounds : '0' ≤ c := by
    simp only [Char.isDigit, Bool.and_eq_true, decide_eq_true_eq] at digit
    exact digit.1
  have low : 48 ≤ c.toNat := bounds
  have different : c ≠ ' ' := by
    rintro rfl
    exact absurd low (by decide)
  have above : ¬ c ≤ '\r' := by
    intro below
    have high : c.toNat ≤ 13 := below
    omega
  simp [isspace, different, above]

theorem sign_digit (digit : c.isDigit = true) : c ≠ '-' ∧ c ≠ '+' := by
  constructor
  all_goals
    rintro rfl
    exact absurd digit (by decide)

theorem trimEnd_eq (visible : ∀ c ∈ text, isspace c = false) : trimEnd text = text := by
  have kept : text.reverse.dropWhile isspace = text.reverse := by
    cases shape : text.reverse with
    | nil => rfl
    | cons c rest =>
      have inside : c ∈ text := mem_reverse.mp (shape ▸ mem_cons_self)
      rw [dropWhile_cons_of_neg]
      simp [visible c inside]
  rw [trimEnd, kept, reverse_reverse]

section Digits

variable {text : CString} (digits : ∀ c ∈ text, c.isDigit = true)
include digits

theorem scanNumeral_digits : scanNumeral text = ⟨false, (readNumeral text).1, (readNumeral text).2⟩ := by
  cases text with
  | nil => rfl
  | cons c rest =>
    have first := digits c mem_cons_self
    obtain ⟨minus, plus⟩ := sign_digit first
    have blanks : (c :: rest).takeWhile isspace = [] := by simp [isspace_digit first]
    simp only [scanNumeral, blanks, length_nil, drop_zero, head?_cons, Option.some.injEq, minus, plus,
      decide_false, Bool.or_self, Bool.false_eq_true, ↓reduceIte, zero_add, Numeral.mk.injEq, true_and]
    split
    · rename_i none
      exact none.symm
    · rfl

section

variable (platform : Platform) (some : (readNumeral text).2 ≠ 0) (small : (readNumeral text).1 < 2 ^ 64)
  (integer : dsType = DS_TYPE_COUNTER ∨ dsType = DS_TYPE_DERIVE)
include some small integer

theorem parseValue_digits : parseValue platform text dsType = .ok (storedInteger dsType (readNumeral text).1) := by
  have trimmed : trimEnd text = text := trimEnd_eq fun c member => isspace_digit (digits c member)
  have scanned := scanNumeral_digits digits
  unfold parseValue storedInteger
  rw [trimmed]
  rcases integer with counter | derive
  · have below : ¬ 2 ^ 64 ≤ (readNumeral text).1 := not_le.mpr small
    simp only [counter, ↓reduceIte, strtoull, scanned, some, below, Conversion.accept, Bool.false_eq_true]
  · subst derive
    have other : DS_TYPE_DERIVE ≠ DS_TYPE_COUNTER ∧ DS_TYPE_DERIVE ≠ DS_TYPE_GAUGE := by decide
    simp only [if_neg other.1, if_neg other.2, ↓reduceIte, strtoll, scanned, some, Bool.false_eq_true]
    split
    · have most : min ((readNumeral text).1 : Int) (2 ^ 63 - 1) = 2 ^ 63 - 1 := by omega
      simp only [Conversion.accept, some, ↓reduceIte, most]
    · have most : min ((readNumeral text).1 : Int) (2 ^ 63 - 1) = (readNumeral text).1 := by omega
      simp only [Conversion.accept, some, ↓reduceIte, most]

theorem parseToken_digits : parseToken platform dsType text = .ok (storedInteger dsType (readNumeral text).1) := by
  have other : dsType ≠ DS_TYPE_GAUGE := by
    rcases integer with counter | derive
    · rw [counter]
      decide
    · rw [derive]
      decide
  unfold parseToken
  simp only [other, decide_false, Bool.and_false, Bool.false_eq_true, ↓reduceIte]
  exact parseValue_digits digits platform some small integer

end

end Digits

/-- Tokens that start with a number of at most 64 bits and have nothing but digits. -/
def IsInteger (token : CString) : Prop :=
  (∀ c ∈ token, c.isDigit = true) ∧ (readNumeral token).2 ≠ 0 ∧ (readNumeral token).1 < 2 ^ 64

def storedIntegers : List Nat → List CString → List Value
  | types, [] => types.map zeroValue
  | [], _ :: _ => []
  | dsType :: types, token :: tokens =>
    storedInteger dsType (readNumeral token).1 :: storedIntegers types tokens

theorem parseTokens_integers (platform : Platform) (now : CdTime)
    (timed : time ≠ 0) (integers : ∀ token ∈ tokens, IsInteger token)
    (sources : ∀ dsType ∈ types, dsType = DS_TYPE_COUNTER ∨ dsType = DS_TYPE_DERIVE)
    (enough : tokens.length ≤ types.length) (filled : done ≠ [] ∨ tokens ≠ []) :
    parseTokens platform now done types time tokens = .ok (time, done ++ storedIntegers types tokens) := by
  induction tokens generalizing done types with
  | nil =>
    have some : done ≠ [] := filled.resolve_right (· rfl)
    unfold parseTokens storedIntegers
    rw [if_neg some]
  | cons token tokens ih =>
    cases types with
    | nil => exact absurd enough (by simp)
    | cons dsType types =>
      obtain ⟨digits, some, small⟩ := integers token mem_cons_self
      have stored := parseToken_digits digits platform some small (sources dsType mem_cons_self)
      have laterTokens := fun t member => integers t (mem_cons_of_mem token member)
      have laterSources := fun t member => sources t (mem_cons_of_mem dsType member)
      have started : done ++ [storedInteger dsType (readNumeral token).1] ≠ [] := by simp
      rw [parseTokens, if_neg timed, stored]
      simp [ih laterTokens laterSources (Nat.le_of_succ_le_succ enough) (.inl started), storedIntegers]

def cutTexts (room : Nat) : List CString → List CString
  | [] => []
  | text :: texts =>
    if text.length + 1 ≤ room then text :: cutTexts (room - (text.length + 1)) texts
    else if room ≤ 1 then []
    else [text.take (room - 1)]

section

variable {word : CString} (filled : word ≠ []) (unbroken : delimiter ∉ word)
include filled unbroken

theorem strtok_single : strtok delimiter word = [word] := by
  rw [strtok, splitOn_eq_singleton unbroken]
  simp [filled]

theorem strtok_cons (rest : CString) :
    strtok delimiter (word ++ delimiter :: rest) = word :: strtok delimiter rest := by
  rw [strtok, splitOn_append_cons_self_of_not_mem unbroken]
  simp [filled, strtok]

theorem strtok_cut (words : ∀ text ∈ texts, text ≠ [] ∧ delimiter ∉ text) (room : Nat) :
    strtok delimiter (word ++ (texts.flatMap (delimiter :: ·)).take room) = word :: cutTexts room texts := by
  induction texts generalizing word room with
  | nil => simpa [cutTexts] using strtok_single filled unbroken
  | cons text texts ih =>
    obtain ⟨textFilled, textUnbroken⟩ := words text mem_cons_self
    rw [flatMap_cons, cons_append]
    cases room with
    | zero => simpa [cutTexts] using strtok_single filled unbroken
    | succ room =>
      rw [take_succ_cons, strtok_cons filled unbroken, cutTexts]
      by_cases whole : text.length ≤ room
      · rw [if_pos (Nat.succ_le_succ whole), take_append, take_of_length_le whole,
          ih textFilled textUnbroken (fun t member => words t (mem_cons_of_mem _ member)), Nat.succ_sub_succ]
      · rw [if_neg (by omega), take_append_of_le_length (by omega)]
        cases room with
        | zero => simp [strtok]
        | succ room =>
          have started : text.take (room + 1) ≠ [] := by simpa using textFilled
          rw [if_neg (by omega), strtok_single started fun member => textUnbroken (mem_of_mem_take member)]
          rfl

end

end NCollectd.Common
