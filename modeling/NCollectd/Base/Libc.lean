import Mathlib

/-! The C library: status codes, strings, binary search and sorting. -/

namespace NCollectd

/-- The `int` that C functions return: zero on success. -/
abbrev Status := Int

def ENOENT : Status := 2
def ENOMEM : Status := 12
def EEXIST : Status := 17
def EINVAL : Status := 22
def ENOSPC : Status := 28
def ERANGE : Status := 34
def ENOBUFS : Status := 105

/-- The characters before the NUL; a byte is the character with its number, so their order is that of bytes. -/
abbrev CString := List Char

instance : Coe String CString := ⟨String.toList⟩

def dataMaxNameLen : Nat := 128

def sstrncpy (src : CString) (size : Nat) : CString := src.take (size - 1)

def strcmp : CString → CString → Int
  | [], [] => 0
  | [], _ :: _ => -1
  | _ :: _, [] => 1
  | a :: s, b :: t => if a = b then strcmp s t else if a < b then -1 else 1

def strcasecmp (s t : CString) : Int := strcmp (s.map Char.toLower) (t.map Char.toLower)

def strspn (s accept : CString) : Nat := (s.takeWhile fun c => accept.contains c).length

def strcspn (s reject : CString) : Nat := (s.takeWhile fun c => !reject.contains c).length

/-- The tokens that the calls of `strtok_r` with this separator return until the first NULL. -/
def strtokR (sep text : CString) : List CString := (text.splitOnP (· ∈ sep)).filter (· ≠ [])

def isdigit (c : Char) : Bool := '0' ≤ c && c ≤ '9'

theorem strcmp_self (s : CString) : strcmp s s = 0 := by
  induction s with
  | nil => rfl
  | cons c s ih => simpa [strcmp] using ih

theorem strcmp_orders (s t : CString) : (strcmp s t < 0 ↔ s < t) ∧ (strcmp s t = 0 ↔ s = t) := by
  induction s generalizing t with
  | nil => cases t <;> simp [strcmp]
  | cons a s ih =>
    cases t with
    | nil => simp [strcmp]
    | cons b t =>
      by_cases same : a = b
      · subst b
        simpa [strcmp, List.cons_lt_cons_iff] using ih t
      · by_cases less : a < b <;> simp [strcmp, List.cons_lt_cons_iff, same, less]

theorem strcmp_neg_iff (s t : CString) : strcmp s t < 0 ↔ s < t := (strcmp_orders s t).1

theorem strcmp_eq_zero_iff (s t : CString) : strcmp s t = 0 ↔ s = t := (strcmp_orders s t).2

theorem strcmp_pos_iff (s t : CString) : 0 < strcmp s t ↔ t < s := by
  rcases lt_trichotomy s t with less | same | greater
  · have negative := (strcmp_neg_iff s t).mpr less
    simp [not_lt_of_gt less, not_lt_of_gt negative]
  · subst same
    simp [strcmp_self]
  · have notNegative : ¬ strcmp s t < 0 := fun negative =>
      not_lt_of_gt greater ((strcmp_neg_iff s t).mp negative)
    have notZero : strcmp s t ≠ 0 := fun zero =>
      ne_of_gt greater ((strcmp_eq_zero_iff s t).mp zero)
    simp only [greater, iff_true]
    omega

theorem strcmp_nonpos_iff (s t : CString) : strcmp s t ≤ 0 ↔ s ≤ t := by
  rw [← not_lt, strcmp_pos_iff, not_lt]

theorem strspn_le_length (s accept : CString) : strspn s accept ≤ s.length :=
  (List.takeWhile_prefix _).length_le

theorem strspn_eq_length_iff (s accept : CString) :
    strspn s accept = s.length ↔ ∀ c ∈ s, c ∈ accept := by
  induction s with
  | nil => simp [strspn]
  | cons c s ih =>
    by_cases member : c ∈ accept
    · simpa [strspn, List.takeWhile_cons, member] using ih
    · simp [strspn, member]

theorem strspn_append (s rest accept : CString) (accepted : ∀ c ∈ s, c ∈ accept)
    (stop : ∀ c, rest.head? = some c → c ∉ accept) : strspn (s ++ rest) accept = s.length := by
  induction s with
  | nil =>
    cases rest with
    | nil => rfl
    | cons c rest => simp [strspn, stop c rfl]
  | cons c s ih =>
    have tail := ih fun d member => accepted d (List.mem_cons_of_mem c member)
    simpa [strspn, List.takeWhile_cons, accepted c (List.mem_cons_self ..)] using tail

theorem strcspn_eq_zero_of_mem (member : c ∈ reject) (s : CString) :
    strcspn (c :: s) reject = 0 := by
  simp [strcspn, member]

theorem strcspn_cons_of_notMem (absent : c ∉ reject) (s : CString) :
    strcspn (c :: s) reject = strcspn s reject + 1 := by
  simp [strcspn, absent]

def readAll (read : Nat → Option α) : Nat → Option (List α)
  | 0 => some []
  | count + 1 =>
    match readAll read count, read count with
    | some front, some last => some (front ++ [last])
    | _, _ => none

theorem readAll_eq_some_iff {read : Nat → Option α} :
    readAll read count = some elements ↔
      elements.length = count ∧ ∀ i < count, read i = elements[i]? := by
  induction count generalizing elements with
  | zero => simp [readAll, eq_comm]
  | succ count ih =>
    constructor
    · intro done
      simp only [readAll] at done
      split at done
      · rename_i front last frontRead lastRead
        obtain ⟨length, reads⟩ := ih.mp frontRead
        cases done
        refine ⟨by simp [length], fun i bound => ?_⟩
        by_cases final : i = count
        · rw [final, lastRead, ← length, List.getElem?_concat_length]
        · rw [List.getElem?_append_left (by omega)]
          exact reads i (by omega)
      · cases done
    · rintro ⟨length, reads⟩
      have nonempty : elements ≠ [] := by
        intro empty
        simp [empty] at length
      have split := List.dropLast_append_getLast nonempty
      have front : readAll read count = some elements.dropLast := by
        refine ih.mpr ⟨by simp [length], fun i bound => ?_⟩
        rw [reads i (by omega), List.getElem?_dropLast]
        simp [length, bound]
      have last : read count = some (elements.getLast nonempty) := by
        rw [reads count (by omega), ← List.getLast?_eq_some_getLast, List.getLast?_eq_getElem?, length]
        rfl
      simp only [readAll, front, last]
      rw [split]

def bsearchLoop (compare : Nat → Option Int) (low high : Nat) : Option (Option Nat) :=
  if low < high then
    let middle := (low + high) / 2
    match compare middle with
    | none => none
    | some sign =>
      if sign < 0 then bsearchLoop compare low middle
      else if 0 < sign then bsearchLoop compare (middle + 1) high
      else some (some middle)
  else some none
termination_by high - low

def bsearch (compare : Nat → Option Int) (count : Nat) : Option (Option Nat) :=
  bsearchLoop compare 0 count

theorem bsearchLoop_found {names : List CString}
    (sorted : names.Pairwise (· < ·)) (within : high ≤ names.length)
    (above : low ≤ index) (below : index < high) (here : names[index]? = some key) :
    bsearchLoop (fun i => (names[i]?).map (strcmp key)) low high = some (some index) := by
  rw [bsearchLoop]
  have middleBound : (low + high) / 2 < names.length := by omega
  have indexBound : index < names.length := by omega
  have keyEq : names[index] = key := by
    rw [List.getElem?_eq_getElem indexBound] at here
    exact Option.some.inj here
  simp only [show low < high by omega, ↓reduceIte, List.getElem?_eq_getElem middleBound, Option.map_some]
  have order := List.pairwise_iff_getElem.mp sorted
  rcases Nat.lt_trichotomy index ((low + high) / 2) with before | same | after
  · have less := order index _ indexBound middleBound before
    rw [keyEq] at less
    simp only [(strcmp_neg_iff _ _).mpr less, ↓reduceIte]
    exact bsearchLoop_found sorted (by omega) above before here
  · subst same
    simp [keyEq, strcmp_self]
  · have greater := order _ index middleBound indexBound after
    rw [keyEq] at greater
    have positive := (strcmp_pos_iff _ _).mpr greater
    simp only [not_lt_of_gt positive, positive, ↓reduceIte]
    exact bsearchLoop_found sorted within (by omega) below here
termination_by high - low

theorem bsearchLoop_absent {names : List CString}
    (within : high ≤ names.length) (absent : key ∉ names) :
    bsearchLoop (fun i => (names[i]?).map (strcmp key)) low high = some none := by
  rw [bsearchLoop]
  split
  · rename_i nonempty
    have middleBound : (low + high) / 2 < names.length := by omega
    have different : strcmp key names[(low + high) / 2] ≠ 0 := by
      intro zero
      exact absent ((strcmp_eq_zero_iff _ _).mp zero ▸ List.getElem_mem middleBound)
    simp only [List.getElem?_eq_getElem middleBound, Option.map_some]
    split
    · exact bsearchLoop_absent (by omega) absent
    · split
      · exact bsearchLoop_absent within absent
      · omega
  · rfl
termination_by high - low

theorem bsearchLoop_sound {compare : Nat → Option Int}
    (found : bsearchLoop compare low high = some (some index)) :
    index < high ∧ compare index = some 0 := by
  induction size : high - low using Nat.strongRecOn generalizing low high with
  | ind size ih =>
    rw [bsearchLoop] at found
    split at found
    · rename_i nonempty
      dsimp only at found
      split at found
      · cases found
      · rename_i sign compared
        split at found
        · obtain ⟨bound, zero⟩ := ih _ (by omega) found rfl
          exact ⟨by omega, zero⟩
        · split at found
          · exact ih _ (by omega) found rfl
          · obtain rfl : (low + high) / 2 = index := by simpa using found
            refine ⟨by omega, ?_⟩
            rw [compared]
            congr 1
            omega
    · cases found

theorem bsearch_sound {compare : Nat → Option Int} (found : bsearch compare count = some (some index)) :
    index < count ∧ compare index = some 0 := bsearchLoop_sound found

theorem bsearch_found {names : List CString} (sorted : names.Pairwise (· < ·))
    (here : names[index]? = some key) :
    bsearch (fun i => (names[i]?).map (strcmp key)) names.length = some (some index) :=
  bsearchLoop_found sorted (Nat.le_refl _) (Nat.zero_le _)
    (List.getElem?_eq_some_iff.mp here).1 here

theorem bsearch_absent {names : List CString} (absent : key ∉ names) :
    bsearch (fun i => (names[i]?).map (strcmp key)) names.length = some none :=
  bsearchLoop_absent (le_refl _) absent

theorem bsearch_congr
    (agree : ∀ i < count, first i = second i) : bsearch first count = bsearch second count := by
  have loop : ∀ low high, high ≤ count → bsearchLoop first low high = bsearchLoop second low high := by
    intro low high bound
    induction size : high - low using Nat.strongRecOn generalizing low high with
    | ind size ih =>
      rw [bsearchLoop, bsearchLoop]
      split
      · rename_i nonempty
        dsimp only
        rw [agree ((low + high) / 2) (by omega)]
        cases second ((low + high) / 2) with
        | none => rfl
        | some sign =>
          simp only
          rw [ih ((low + high) / 2 - low) (by omega) low _ (by omega) rfl,
            ih (high - ((low + high) / 2 + 1)) (by omega) _ high bound rfl]
      · rfl
  exact loop 0 count (le_refl _)

def qsortByName (records : List (CString × α)) : List (CString × α) :=
  records.insertionSort fun first second => strcmp first.1 second.1 ≤ 0

end NCollectd
