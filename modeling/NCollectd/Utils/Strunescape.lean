import NCollectd.Cmds.Split
import NCollectd.Utils.Strbuf

/-! `strunescape` of `common.c` inside its buffer. -/

namespace NCollectd.Common

open Cmds (NUL)
open List

/-- What `strunescape` leaves of a string that has room. -/
def strunescape : CString → CString
  | '\\' :: c :: rest =>
    (if c = 't' then '\t' else if c = 'n' then '\n' else if c = 'r' then '\r' else c) :: strunescape rest
  | ['\\'] => []
  | c :: rest => c :: strunescape rest
  | [] => []

def unescapedChar (c : Char) : Char := if c = 't' then '\t' else if c = 'n' then '\n' else if c = 'r' then '\r' else c

def strunescapeLoop (buf : List Char) (bufLen i : Nat) : Option (Status × List Char) :=
  if i < bufLen then
    buf[i]?.bind fun c =>
      if c = NUL then some (0, buf)
      else if c ≠ '\\' then strunescapeLoop buf bufLen (i + 1)
      else if bufLen ≤ i + 1 then some (-1, buf.set i NUL)
      else buf[i + 1]?.bind fun next =>
        if next = NUL then some (-1, buf.set i NUL)
        else
          let buf := buf.set i (unescapedChar next)
          let count := bufLen - i - 2
          if i + 2 + count ≤ buf.length then
            let buf := buf.take (i + 1) ++ (buf.drop (i + 2)).take count ++ buf.drop (i + 1 + count)
            strunescapeLoop (buf.set (bufLen - 1) NUL) bufLen (i + 1)
          else none
  else some (0, buf)
termination_by bufLen - i

def strunescapeIn (buf : List Char) : Option (Status × List Char) := strunescapeLoop buf buf.length 0

def stringIn (buf : List Char) : CString := buf.takeWhile (· ≠ NUL)

def endsUnescaped (text : CString) : Bool := text.foldl (fun unescaped c => c = '\\' && !unescaped) false

theorem stringIn_append (clean : NUL ∉ text) (rest : List Char) : stringIn (text ++ NUL :: rest) = text := by
  rw [stringIn, takeWhile_append_of_pos (by grind), takeWhile_cons_of_neg (by simp), append_nil]

theorem stringIn_cons (inside : c ≠ NUL) (rest : List Char) : stringIn (c :: rest) = c :: stringIn rest :=
  takeWhile_cons_of_pos (by simpa using inside)

theorem stringIn_terminated (rest : List Char) : stringIn (rest ++ [NUL]) = stringIn rest := by
  induction rest with
  | nil => simp [stringIn]
  | cons c rest ih =>
    by_cases ended : c = NUL
    · simp [stringIn, ended]
    · rw [cons_append, stringIn_cons ended, stringIn_cons ended, ih]

theorem unescapedChar_ne (inside : c ≠ NUL) : unescapedChar c ≠ NUL := by
  unfold unescapedChar
  split_ifs <;> first | decide | exact inside

theorem strunescape_cons (plain : c ≠ '\\') (text : CString) : strunescape (c :: text) = c :: strunescape text := by
  rw [strunescape] <;> simp [plain]

theorem endsUnescaped_cons (plain : c ≠ '\\') (text : CString) : endsUnescaped (c :: text) = endsUnescaped text := by
  simp [endsUnescaped, plain]

theorem set_shifted (front rest : List Char) (c next : Char) :
    ((front ++ c :: next :: rest).take (front.length + 1) ++
        ((front ++ c :: next :: rest).drop (front.length + 2)).take rest.length ++
        (front ++ c :: next :: rest).drop (front.length + 1 + rest.length)).set (front.length + 1 + rest.length) NUL =
      front ++ [c] ++ (rest ++ [NUL]) := by
  have begins : (front ++ c :: next :: rest).take (front.length + 1) = front ++ [c] := by
    simp [take_append]
  have moved : (front ++ c :: next :: rest).drop (front.length + 2) = rest := by
    simp [drop_append]
  obtain ⟨last, ends⟩ : ∃ last, (front ++ c :: next :: rest).drop (front.length + 1 + rest.length) = [last] :=
    length_eq_one_iff.mp (by simp; omega)
  have place : front.length + 1 + rest.length = (front ++ [c] ++ rest).length := by
    simp
    omega
  rw [begins, moved, take_length, ends, place, set_append_right _ _ (Nat.le_refl _), Nat.sub_self]
  simp

theorem strunescapeLoop_spec (front rest : List Char) :
    ∃ out, strunescapeLoop (front ++ rest) (front.length + rest.length) front.length =
        some (if endsUnescaped (stringIn rest) then -1 else 0, front ++ out) ∧
      out.length = rest.length ∧ stringIn out = strunescape (stringIn rest) := by
  match rest with
  | [] => exact ⟨[], by simp [strunescapeLoop, stringIn, endsUnescaped], rfl, rfl⟩
  | c :: rest =>
    have inside : front.length < front.length + (c :: rest).length := by simp
    have first : (front ++ c :: rest)[front.length]? = some c := by simp
    rw [strunescapeLoop, if_pos inside, first, Option.bind_some]
    by_cases ended : c = NUL
    · exact ⟨c :: rest, by simp [ended, stringIn, endsUnescaped], rfl, by simp [ended, stringIn, strunescape]⟩
    rw [if_neg ended, stringIn_cons ended]
    by_cases plain : c = '\\'
    · subst plain
      rw [if_neg (by simp)]
      match rest with
      | [] => exact ⟨[NUL], by simp [stringIn, endsUnescaped], rfl, by simp [stringIn, strunescape]⟩
      | next :: rest =>
        have second : (front ++ '\\' :: next :: rest)[front.length + 1]? = some next := by simp
        rw [if_neg (by simp), second, Option.bind_some]
        by_cases dangling : next = NUL
        · exact ⟨NUL :: next :: rest, by simp [dangling, stringIn, endsUnescaped], rfl,
          by simp [dangling, stringIn, strunescape]⟩
        have count : front.length + ('\\' :: next :: rest).length - front.length - 2 = rest.length := by simp
        have text := stringIn_cons dangling rest
        rw [if_neg dangling, set_append_right _ _ (Nat.le_refl _), Nat.sub_self, set_cons_zero]
        have inside : front.length + 2 + rest.length ≤ (front ++ unescapedChar next :: next :: rest).length := by
          simp
          omega
        have last : front.length + ('\\' :: next :: rest).length - 1 = front.length + 1 + rest.length := by
          simp
          omega
        simp only [count, if_pos inside, last, set_shifted]
        obtain ⟨out, done, size, unescaped⟩ := strunescapeLoop_spec (front ++ [unescapedChar next]) (rest ++ [NUL])
        rw [stringIn_terminated] at done unescaped
        refine ⟨unescapedChar next :: out, ?_, by simp [size], ?_⟩
        · have skipped : endsUnescaped ('\\' :: next :: stringIn rest) = endsUnescaped (stringIn rest) := by
            simp [endsUnescaped]
          rw [text, skipped]
          simpa [add_assoc, add_comm 1] using done
        · rw [stringIn_cons (unescapedChar_ne dangling), unescaped, text]
          rfl
    · rw [if_pos plain, strunescape_cons plain, endsUnescaped_cons plain]
      obtain ⟨out, done, size, text⟩ := strunescapeLoop_spec (front ++ [c]) rest
      refine ⟨c :: out, ?_, by simp [size], by rw [stringIn_cons ended, text]⟩
      simpa [add_assoc, add_comm 1] using done
termination_by rest.length

theorem strunescapeIn_spec (buf : List Char) :
    ∃ out, strunescapeIn buf = some (if endsUnescaped (stringIn buf) then -1 else 0, out) ∧
      out.length = buf.length ∧ stringIn out = strunescape (stringIn buf) := by
  simpa [strunescapeIn] using strunescapeLoop_spec [] buf

theorem unescapedChar_escapedChar (letters : c ≠ 'n' ∧ c ≠ 'r' ∧ c ≠ 't') :
    unescapedChar (escapedChar '\\' c) = c := by
  unfold unescapedChar escapedChar
  grind

theorem strunescape_escapeText (backslash : '\\' ∈ needEscape)
    (letters : ∀ c ∈ needEscape, c ≠ 'n' ∧ c ≠ 'r' ∧ c ≠ 't') (s : CString) :
    strunescape (escapeText needEscape '\\' s) = s ∧ endsUnescaped (escapeText needEscape '\\' s) = false := by
  induction s with
  | nil => exact ⟨rfl, rfl⟩
  | cons c s ih =>
    by_cases special : c ∈ needEscape
    · have first : escapeText needEscape '\\' (c :: s) =
          '\\' :: escapedChar '\\' c :: escapeText needEscape '\\' s := by simp [escapeText, special]
      have skipped : endsUnescaped ('\\' :: escapedChar '\\' c :: escapeText needEscape '\\' s) =
          endsUnescaped (escapeText needEscape '\\' s) := by simp [endsUnescaped]
      rw [first, skipped]
      exact ⟨congrArg₂ _ (unescapedChar_escapedChar (letters c special)) ih.1, ih.2⟩
    · have plain : c ≠ '\\' := fun same => special (same ▸ backslash)
      have first : escapeText needEscape '\\' (c :: s) = c :: escapeText needEscape '\\' s := by
        simp [escapeText, special]
      rw [first, strunescape_cons plain, endsUnescaped_cons plain]
      exact ⟨congrArg _ ih.1, ih.2⟩

theorem nul_notMem_escapeText (clean : NUL ∉ s) : NUL ∉ escapeText needEscape '\\' s := by
  intro member
  obtain ⟨c, inside, written⟩ := mem_flatMap.mp member
  have ne : c ≠ NUL := fun same => clean (same ▸ inside)
  have escaped : escapedChar '\\' c ≠ NUL := by
    unfold escapedChar
    split_ifs <;> first | decide | exact ne
  split at written <;> simp [ne.symm, escaped.symm, show NUL ≠ '\\' by decide] at written

/-- `strunescape` undoes `strbuf_print_escaped` and fails exactly at a final backslash. -/
theorem strunescapeIn_inverts (page : PageSize) :
    (∀ s needEscape : CString, NUL ∉ s → '\\' ∈ needEscape → (∀ c ∈ needEscape, c ≠ 'n' ∧ c ≠ 'r' ∧ c ≠ 't') →
      ∃ buf, strbufPrintEscaped page .create s needEscape '\\' = (0, buf) ∧
        ∀ rest, ∃ out, strunescapeIn (buf.text ++ NUL :: rest) = some (0, out) ∧ stringIn out = s) ∧
      ∀ buf, ∃ status out, strunescapeIn buf = some (status, out) ∧ out.length = buf.length ∧
        (status = -1 ↔ endsUnescaped (stringIn buf) = true) := by
  constructor
  · intro s needEscape clean backslash letters
    obtain ⟨buf, printed, -, text⟩ := strbufPrintEscaped_appends page s needEscape '\\' .create rfl
    obtain ⟨back, ends⟩ := strunescape_escapeText backslash letters s
    refine ⟨buf, printed, fun rest => ?_⟩
    obtain ⟨out, done, -, unescaped⟩ := strunescapeIn_spec (buf.text ++ NUL :: rest)
    have held : stringIn (buf.text ++ NUL :: rest) = escapeText needEscape '\\' s := by
      rw [text]
      exact stringIn_append (nul_notMem_escapeText clean) rest
    rw [held] at done unescaped
    exact ⟨out, by rw [done, ends]; rfl, unescaped.trans back⟩
  · intro buf
    obtain ⟨out, done, size, -⟩ := strunescapeIn_spec buf
    exact ⟨_, out, done, size, by split <;> simp_all⟩

theorem strunescapeIn_inverts_quote : ∃ buf,
    strbufPrintEscaped (strbufPagesize 4096) .create ['a', '"', '\n'] ['\\', '"', '\n'] '\\' = (0, buf) ∧
      ∀ rest, ∃ out, strunescapeIn (buf.text ++ NUL :: rest) = some (0, out) ∧ stringIn out = ['a', '"', '\n'] :=
  (strunescapeIn_inverts (strbufPagesize 4096)).1 ['a', '"', '\n'] ['\\', '"', '\n']
    (by simp [NUL]) (by simp) (by simp)

end NCollectd.Common
