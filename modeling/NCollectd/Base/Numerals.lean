import NCollectd.Base.Libc

/-! Numerals as `%u` prints them and as they are read when the text tells the base. -/

namespace NCollectd

open List

def digitValue (c : Char) : Option Nat :=
  if '0' ≤ c && c ≤ '9' then some (c.toNat - 48)
  else if 'a' ≤ c && c ≤ 'z' then some (c.toNat - 87)
  else if 'A' ≤ c && c ≤ 'Z' then some (c.toNat - 55)
  else none

def readDigits (base acc : Nat) : CString → Nat × Nat
  | [] => (acc, 0)
  | c :: rest =>
    match digitValue c with
    | none => (acc, 0)
    | some digit =>
      if digit < base then
        let later := readDigits base (base * acc + digit) rest
        (later.1, later.2 + 1)
      else (acc, 0)

def numeralBase : CString → Nat × Nat
  | '0' :: mark :: digit :: _ =>
    if (mark = 'x' || mark = 'X') && (digitValue digit).any (· < 16) then (16, 2) else (8, 0)
  | '0' :: _ => (8, 0)
  | _ => (10, 0)

def readNumeral (text : CString) : Nat × Nat :=
  let read := readDigits (numeralBase text).1 0 (text.drop (numeralBase text).2)
  (read.1, read.2 + (numeralBase text).2)

def printUnsigned (n : Nat) : CString := Nat.toDigits 10 n

theorem digitValue_of_isDigit (digit : c.isDigit = true) :
    digitValue c = some (c.toNat - '0'.toNat) ∧ c.toNat - '0'.toNat < 10 := by
  have bounds : '0' ≤ c ∧ c ≤ '9' := by
    simpa [Char.isDigit, Char.le_def, UInt32.le_iff_toNat_le] using digit
  have upper : c.toNat ≤ 57 := bounds.2
  refine ⟨by simp [digitValue, bounds], ?_⟩
  have zero : '0'.toNat = 48 := rfl
  omega

theorem readDigits_ten (digits : ∀ c ∈ text, c.isDigit = true) :
    readDigits 10 acc text = (Nat.ofDigitChars 10 text acc, text.length) := by
  induction text generalizing acc with
  | nil => simp [readDigits]
  | cons c rest ih =>
    obtain ⟨value, small⟩ := digitValue_of_isDigit (digits c (mem_cons_self ..))
    have later := fun d member => digits d (mem_cons_of_mem c member)
    simp only [readDigits, value, small, ↓reduceIte, ih later, Nat.ofDigitChars_cons, length_cons]

theorem isDigit_printUnsigned (member : c ∈ printUnsigned n) : c.isDigit = true :=
  Nat.isDigit_of_mem_toDigits (by decide) (by decide) member

theorem printUnsigned_ne_nil : printUnsigned n ≠ [] := Nat.toDigits_ne_nil

theorem printUnsigned_zero : printUnsigned 0 = ['0'] := Nat.toDigits_zero 10

theorem head?_printUnsigned (positive : 0 < n) : (printUnsigned n).head? ≠ some '0' := by
  induction n using Nat.strongRecOn with
  | ind n ih =>
    unfold printUnsigned at ih ⊢
    rw [Nat.toDigits_eq_if (by decide)]
    by_cases single : n < 10
    · rw [if_pos single]
      intro leading
      have same : n.digitChar = '0' := by simpa using leading
      have number : n.digitChar.toNat = 48 := by rw [same]; rfl
      rw [Nat.toNat_digitChar_of_lt_ten single] at number
      omega
    · rw [if_neg single, head?_append_of_ne_nil _ Nat.toDigits_ne_nil]
      exact ih (n / 10) (by omega) (by omega)

theorem numeralBase_ten (first : text.head? ≠ some '0') : numeralBase text = (10, 0) := by
  unfold numeralBase
  split
  · simp at first
  · simp at first
  · rfl

theorem readNumeral_of_digits (digits : ∀ c ∈ text, c.isDigit = true) (first : text.head? ≠ some '0') :
    readNumeral text = (Nat.ofDigitChars 10 text 0, text.length) := by
  simp [readNumeral, numeralBase_ten first, readDigits_ten digits]

theorem readNumeral_printUnsigned (n : Nat) :
    readNumeral (printUnsigned n) = (n, (printUnsigned n).length) := by
  rcases eq_zero_or_pos n with zero | positive
  · subst zero
    rw [printUnsigned_zero]
    decide
  · rw [readNumeral_of_digits (fun c => isDigit_printUnsigned) (head?_printUnsigned positive), printUnsigned,
      Nat.ofDigitChars_ten_toDigits]

theorem readNumeral_cut (positive : 0 < n) (started : 0 < k) (cut : k < (printUnsigned n).length) :
    (readNumeral ((printUnsigned n).take k)).1 < n ∧ (readNumeral ((printUnsigned n).take k)).2 = k := by
  have digits : ∀ c ∈ (printUnsigned n).take k, c.isDigit = true := fun c member =>
    isDigit_printUnsigned (mem_of_mem_take member)
  have first : ((printUnsigned n).take k).head? ≠ some '0' := by
    rw [head?_take, if_neg (ne_of_gt started)]
    exact head?_printUnsigned positive
  have whole : Nat.ofDigitChars 10 ((printUnsigned n).drop k) (Nat.ofDigitChars 10 ((printUnsigned n).take k) 0)
      = n := by
    rw [← Nat.ofDigitChars_append, take_append_drop, printUnsigned, Nat.ofDigitChars_ten_toDigits]
  rw [Nat.ofDigitChars_eq_ofDigitChars_zero] at whole
  rw [readNumeral_of_digits digits first]
  have grown : 10 ^ 1 ≤ 10 ^ ((printUnsigned n).drop k).length :=
    Nat.pow_le_pow_right (by decide) (by simp; omega)
  have scaled := Nat.mul_le_mul_right (Nat.ofDigitChars 10 ((printUnsigned n).take k) 0) grown
  refine ⟨?_, by simp [le_of_lt cut]⟩
  simp only
  omega

end NCollectd
