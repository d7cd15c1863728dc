import NCollectd.Cmds.Fields

namespace NCollectd.Cmds

open List

def escapeText (s : CString) : CString :=
  s.flatMap fun c => if c = '"' || c = '\\' then ['\\', c] else [c]

def quoteText (s : CString) : CString := '"' :: escapeText s ++ ['"']

/-- The destination has room for the escaped string, the quotation marks and the NUL. -/
def Fits (src : CString) (destSize : Nat) : Prop := (escapeText src).length + 3 ≤ destSize

theorem strescapeLoop_eq (room : dest.length + (escapeText src).length + 2 ≤ destSize) :
    strescapeLoop destSize dest src = dest ++ escapeText src := by
  induction src generalizing dest with
  | nil => simp [strescapeLoop, escapeText]
  | cons c rest ih =>
    have split : escapeText (c :: rest) = (if c = '"' || c = '\\' then ['\\', c] else [c]) ++ escapeText rest := rfl
    rw [split] at room ⊢
    unfold strescapeLoop
    by_cases special : (c = '"' || c = '\\') = true
    · simp only [if_pos special, length_append, length_cons, length_nil] at room ⊢
      rw [if_neg (by omega), if_neg (by omega), ih (by simp; omega), append_assoc]
    · simp only [if_neg special, length_append, length_cons, length_nil] at room ⊢
      rw [if_neg (by omega), ih (by simp; omega), append_assoc]

theorem lccStrescape_eq (fits : Fits src destSize) : lccStrescape src destSize = some (quoteText src) := by
  unfold Fits at fits
  have loop : strescapeLoop destSize ['"'] src = '"' :: escapeText src :=
    strescapeLoop_eq (by simp; omega)
  unfold lccStrescape
  rw [if_pos (by omega), loop]
  simp only [length_cons]
  rw [if_pos (by omega)]
  rfl

theorem scan_open : scan none false ('"' :: rest) = scan none true rest := by
  rw [scan.eq_def]
  rfl

theorem scan_close : scan (some text) true ('"' :: rest) = (scan none false rest).after [text] := by
  rw [scan.eq_def]
  rfl

theorem scan_empty : scan none true ('"' :: rest) = ⟨[['"']], .finished⟩ := by
  rw [scan.eq_def]
  rfl

theorem scan_escape {next} :
    scan current true ('\\' :: next :: rest) = scan (some (current.getD [] ++ [next])) true rest := by
  rw [scan.eq_def]
  rfl

theorem scan_quoted (other : c ≠ '"') (plain : c ≠ '\\') :
    scan current true (c :: rest) = scan (some (current.getD [] ++ [c])) true rest := by
  rw [scan.eq_def]
  simp [other, plain]

theorem scan_separator : scan none false (' ' :: rest) = scan none false rest := by
  rw [scan.eq_def]
  rfl

theorem scan_escapeText_cons (current : Option CString) (c : Char) (s rest : CString) :
    scan current true (escapeText (c :: s) ++ rest) =
      scan (some (current.getD [] ++ [c])) true (escapeText s ++ rest) := by
  have split : escapeText (c :: s) = (if c = '"' || c = '\\' then ['\\', c] else [c]) ++ escapeText s := rfl
  rw [split]
  by_cases special : (c = '"' || c = '\\') = true
  · rw [if_pos special]
    exact scan_escape
  · rw [if_neg special]
    obtain ⟨other, plain⟩ : c ≠ '"' ∧ c ≠ '\\' := by simpa using special
    exact scan_quoted other plain

theorem scan_escapeText (text s rest : CString) :
    scan (some text) true (escapeText s ++ '"' :: rest) = (scan none false rest).after [text ++ s] := by
  induction s generalizing text with
  | nil =>
    rw [append_nil]
    exact scan_close
  | cons c s ih =>
    rw [scan_escapeText_cons, ih]
    simp

theorem scan_quoteText_nil (rest : CString) : scan none false (quoteText [] ++ rest) = ⟨[['"']], .finished⟩ := by
  exact scan_open.trans scan_empty

theorem scan_quoteText (filled : s ≠ []) (rest : CString) :
    scan none false (quoteText s ++ rest) = (scan none false rest).after [s] := by
  obtain ⟨c, s, rfl⟩ := exists_cons_of_ne_nil filled
  have shape : quoteText (c :: s) ++ rest = '"' :: (escapeText (c :: s) ++ '"' :: rest) := by
    simp [quoteText]
  rw [shape, scan_open, scan_escapeText_cons, scan_escapeText]
  rfl

def spaced (strings : List CString) : CString := strings.flatMap fun s => ' ' :: quoteText s

def commandLine (strings : List CString) : CString := intercalate [' '] (strings.map quoteText)

theorem spaced_eq (s : CString) (strings : List CString) :
    spaced (s :: strings) = ' ' :: commandLine (s :: strings) := by
  induction strings generalizing s with
  | nil => simp [spaced, commandLine]
  | cons next strings ih =>
    have tail := ih next
    have first : commandLine (s :: next :: strings) = quoteText s ++ ' ' :: commandLine (next :: strings) := by
      simp [commandLine]
    rw [first, ← tail]
    rfl

def fieldsOf : List CString → List CString
  | [] => []
  | s :: strings => if s = [] then [['"']] else s :: fieldsOf strings

theorem scan_spaced (strings : List CString) : scan none false (spaced strings) = ⟨fieldsOf strings, .finished⟩ := by
  induction strings with
  | nil => rfl
  | cons s strings ih =>
    have shape : spaced (s :: strings) = ' ' :: (quoteText s ++ spaced strings) := rfl
    rw [shape, scan_separator, fieldsOf]
    split
    · rename_i empty
      rw [empty, scan_quoteText_nil]
    · rename_i filled
      rw [scan_quoteText filled, ih]
      rfl

theorem estimate_skip (clean : NUL ∉ word) (inWord : Bool) (rest : CString) :
    ∃ after, estimate after rest ≤ estimate inWord (word ++ rest) := by
  induction word generalizing inWord with
  | nil => exact ⟨inWord, le_refl _⟩
  | cons c word ih =>
    obtain ⟨ordinary, clean⟩ := clean_cons clean
    obtain ⟨after, fewer⟩ := ih clean (!isspace c)
    refine ⟨after, fewer.trans ?_⟩
    rw [cons_append, estimate_char ordinary]
    exact Nat.le_add_left _ _

theorem nul_notMem_quoteText (clean : NUL ∉ s) : NUL ∉ quoteText s := by
  have special : NUL ≠ '"' ∧ NUL ≠ '\\' := by decide
  intro member
  simp only [quoteText, escapeText, cons_append, mem_cons, mem_append, mem_flatMap,
    not_mem_nil, or_false, special.1, false_or] at member
  obtain ⟨c, inside, found⟩ := member
  split at found
  · simp only [mem_cons, not_mem_nil, or_false, special.2, false_or] at found
    exact clean (found ▸ inside)
  · exact clean (mem_singleton.mp found ▸ inside)

theorem length_le_estimate (clean : ∀ s ∈ strings, NUL ∉ s) (inWord : Bool) :
    strings.length ≤ estimate inWord (spaced strings) := by
  induction strings generalizing inWord with
  | nil => exact Nat.zero_le _
  | cons s strings ih =>
    have others := ih fun s member => clean s (mem_cons_of_mem _ member)
    have quoted := nul_notMem_quoteText (clean s mem_cons_self)
    have shape : spaced (s :: strings) = ' ' :: '"' :: ((escapeText s ++ ['"']) ++ spaced strings) := by
      simp [spaced, quoteText]
    have inner : NUL ∉ escapeText s ++ ['"'] := fun member => quoted (mem_cons_of_mem _ member)
    obtain ⟨after, fewer⟩ := estimate_skip inner true (spaced strings)
    rw [shape, estimate_blank (by decide) (by decide), estimate_word (by decide) (by decide), length_cons]
    have tail := others after
    simp only [Bool.not_false, count_true]
    omega

theorem length_fieldsOf (strings : List CString) : (fieldsOf strings).length ≤ strings.length := by
  induction strings with
  | nil => exact le_refl _
  | cons s strings ih =>
    unfold fieldsOf
    split
    · simp
    · simpa using ih

theorem fieldsOf_eq_iff (strings : List CString) : fieldsOf strings = strings ↔ ∀ s ∈ strings, s ≠ [] := by
  induction strings with
  | nil => simp [fieldsOf]
  | cons s strings ih =>
    unfold fieldsOf
    split
    · rename_i empty
      simp [empty]
    · rename_i filled
      simp [filled, ih]

theorem nul_notMem_spaced (clean : ∀ s ∈ strings, NUL ∉ s) : NUL ∉ spaced strings := by
  intro member
  obtain ⟨s, inside, found⟩ := mem_flatMap.mp member
  rcases mem_cons.mp found with space | quoted
  · revert space
    decide
  · exact nul_notMem_quoteText (clean s inside) quoted

/-- Whatever the strings are, the line is split without a failed assertion. -/
theorem cmdSplit_commandLine (clean : ∀ s ∈ strings, NUL ∉ s) :
    cmdSplit (commandLine strings) = .ok (fieldsOf strings) := by
  cases strings with
  | nil => decide +kernel
  | cons s strings =>
    have scanned := scan_spaced (s :: strings)
    have enough := length_le_estimate clean false
    have untouched := nul_notMem_spaced clean
    rw [spaced_eq] at scanned enough untouched
    rw [scan_separator] at scanned
    rw [estimate_blank (by decide) (by decide)] at enough
    rw [cmdSplit_eq fun member => untouched (mem_cons_of_mem _ member), scanned,
      if_neg (not_lt.mpr ((length_fieldsOf _).trans enough))]

theorem mapM_lccStrescape {items : List (CString × Nat)} (large : ∀ item ∈ items, Fits item.1 item.2) :
    items.mapM (fun item => lccStrescape item.1 item.2) = some ((items.map Prod.fst).map quoteText) := by
  induction items with
  | nil => rfl
  | cons item items ih =>
    have others := ih fun item member => large item (mem_cons_of_mem _ member)
    rw [mapM_cons, lccStrescape_eq (large item mem_cons_self), others]
    rfl

/-- The client's line comes back as the same fields exactly if no string is empty. -/
theorem cmd_split_inverts_strescape_iff (items : List (CString × Nat)) (clean : ∀ item ∈ items, NUL ∉ item.1)
    (large : ∀ item ∈ items, Fits item.1 item.2) :
    ∃ quoted, items.mapM (fun item => lccStrescape item.1 item.2) = some quoted ∧
      (cmdSplit (intercalate [' '] quoted) = .ok (items.map Prod.fst) ↔ ∀ item ∈ items, item.1 ≠ []) := by
  have given : ∀ s ∈ items.map Prod.fst, NUL ∉ s := by simpa using clean
  have split : cmdSplit (intercalate [' '] ((items.map Prod.fst).map quoteText)) =
      .ok (fieldsOf (items.map Prod.fst)) :=
    cmdSplit_commandLine given
  refine ⟨(items.map Prod.fst).map quoteText, mapM_lccStrescape large, ?_⟩
  rw [split]
  simpa using fieldsOf_eq_iff (items.map Prod.fst)

theorem cmd_split_inverts_strescape_two :
    ∃ quoted, [("a b".toList, 10), ("\\".toList, 5)].mapM (fun item => lccStrescape item.1 item.2) = some quoted ∧
      (cmdSplit (intercalate [' '] quoted) = .ok ["a b".toList, "\\".toList] ↔
        ∀ item ∈ [("a b".toList, 10), ("\\".toList, 5)], item.1 ≠ []) := by
  refine cmd_split_inverts_strescape_iff _ ?_ ?_
  · simp
    decide
  · simp [Fits]
    decide

theorem cmd_split_empty_string_lost :
    lccStrescape [] 3 = some "\"\"".toList ∧ lccStrescape "a".toList 4 = some "\"a\"".toList ∧
      cmdSplit (intercalate [' '] ["\"\"".toList, "\"a\"".toList]) = .ok ["\"".toList] ∧
      cmdSplit (intercalate [' '] ["\"\"".toList, "\"a\"".toList]) ≠ .ok [[], "a".toList] := by
  decide +kernel

end NCollectd.Cmds
