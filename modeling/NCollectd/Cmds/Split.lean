import NCollectd.Base.Libc

/-! `cmd_split` of `cmds.c` inside its buffer, and `lcc_strescape` of the client library. -/

namespace NCollectd.Cmds

def NUL : Char := Char.ofNat 0

theorem clean_cons (clean : NUL ∉ c :: rest) : c ≠ NUL ∧ NUL ∉ rest :=
  (not_or.mp (mt List.mem_cons.mpr clean)).imp_left Ne.symm

def isspace (c : Char) : Bool := c = ' ' || ('\t' ≤ c && c ≤ '\r')

/-- How `cmd_split` ends without fields. -/
inductive SplitHalt where
  | undefined
  | assertion
  | parseError (message : CString)
deriving DecidableEq

def backslashMessage : CString := "Backslash at end of string."
def unterminatedMessage : CString := "Unterminated quoted string."

def estimate (inField : Bool) : List Char → Nat
  | [] => 0
  | c :: rest =>
    if c = NUL then 0
    else if isspace c then estimate false rest
    else (if inField then 0 else 1) + estimate true rest

/-- The variables of the second pass; `fields` has the positions stored so far. -/
structure Splitter where
  buffer : List Char
  field : Option Nat
  inField : Bool
  inQuotes : Bool
  fields : List Nat
deriving DecidableEq

def Splitter.put (s : Splitter) (c : Char) : Except SplitHalt Splitter :=
  match s.field with
  | none => .error .undefined
  | some field =>
    if field < s.buffer.length then .ok { s with buffer := s.buffer.set field c, field := some (field + 1) }
    else .error .undefined

def Splitter.endField (s : Splitter) : Except SplitHalt Splitter :=
  (s.put NUL).map fun s => { s with field := none, inField := false }

def Splitter.newField (limit string : Nat) (s : Splitter) : Except SplitHalt Splitter :=
  if s.fields.length < limit then
    .ok { s with field := some (string + 1), inField := true, fields := s.fields ++ [string] }
  else .error .assertion

def Splitter.addChar (limit string : Nat) (c : Char) (s : Splitter) : Except SplitHalt Splitter :=
  if s.inField then s.put c else s.newField limit string

def splitStep (limit : Nat) (s : Splitter) (string : Nat) : Except SplitHalt (Option (Splitter × Nat)) :=
  match s.buffer[string]? with
  | none => .error .undefined
  | some c =>
    if c = NUL then .ok none
    else if isspace c && !s.inQuotes then
      if s.inField then s.endField.map fun s => some (s, string + 1) else .ok (some (s, string + 1))
    else if c = '"' then
      if s.inQuotes then
        (if s.inField then .ok s else s.newField limit string).bind fun s =>
          s.endField.map fun s => some ({ s with inQuotes := false }, string + 1)
      else .ok (some ({ s with inQuotes := true }, string + 1))
    else if c = '\\' && s.inQuotes then
      match s.buffer[string + 1]? with
      | none => .error .undefined
      | some next =>
        if next = NUL then .error (.parseError backslashMessage)
        else (s.addChar limit (string + 1) next).map fun s => some (s, string + 2)
    else (s.addChar limit string c).map fun s => some (s, string + 1)

variable {s s' : Splitter}

theorem Splitter.put_length (written : s.put c = .ok s') : s'.buffer.length = s.buffer.length := by
  unfold Splitter.put at written
  grind

theorem Splitter.endField_length (ended : s.endField = .ok s') : s'.buffer.length = s.buffer.length := by
  unfold Splitter.endField at ended
  cases written : s.put NUL with
  | error halt =>
    rw [written] at ended
    cases ended
  | ok middle =>
    rw [written] at ended
    cases ended
    have same := Splitter.put_length written
    exact same

theorem Splitter.newField_buffer (started : s.newField limit string = .ok s') : s'.buffer = s.buffer := by
  unfold Splitter.newField at started
  split at started
  · cases started
    rfl
  · cases started

theorem Splitter.addChar_length (added : s.addChar limit string c = .ok s') :
    s'.buffer.length = s.buffer.length := by
  unfold Splitter.addChar at added
  split at added
  · exact Splitter.put_length added
  · rw [Splitter.newField_buffer added]

theorem map_ok {result : Except ε α} (mapped : result.map f = .ok value) :
    ∃ before, result = .ok before ∧ f before = value := by
  cases result with
  | error halt => cases mapped
  | ok before => exact ⟨before, rfl, Except.ok.inj mapped⟩

theorem bind_ok {result : Except ε α} (bound : result.bind f = .ok value) :
    ∃ before, result = .ok before ∧ f before = .ok value := by
  cases result with
  | error halt => cases bound
  | ok before => exact ⟨before, rfl, bound⟩

theorem splitStep_advances (next : splitStep limit s string = .ok (some (s', string'))) :
    s'.buffer.length = s.buffer.length ∧ string < string' ∧ string < s.buffer.length := by
  unfold splitStep at next
  split at next
  · cases next
  · rename_i c here
    have inside : string < s.buffer.length := (List.getElem?_eq_some_iff.mp here).1
    split at next
    · cases next
    · split at next
      · split at next
        · obtain ⟨middle, ended, same⟩ := map_ok next
          cases same
          exact ⟨Splitter.endField_length ended, Nat.lt_succ_self _, inside⟩
        · cases next
          exact ⟨rfl, Nat.lt_succ_self _, inside⟩
      · split at next
        · split at next
          · obtain ⟨first, started, rest⟩ := bind_ok next
            obtain ⟨middle, ended, same⟩ := map_ok rest
            cases same
            refine ⟨(Splitter.endField_length ended).trans ?_, Nat.lt_succ_self _, inside⟩
            split at started
            · cases started
              rfl
            · rw [Splitter.newField_buffer started]
          · cases next
            exact ⟨rfl, Nat.lt_succ_self _, inside⟩
        · split at next
          · split at next
            · cases next
            · split at next
              · cases next
              · obtain ⟨middle, added, same⟩ := map_ok next
                cases same
                exact ⟨Splitter.addChar_length added, by omega, inside⟩
          · obtain ⟨middle, added, same⟩ := map_ok next
            cases same
            exact ⟨Splitter.addChar_length added, Nat.lt_succ_self _, inside⟩

def splitLoop (limit : Nat) (s : Splitter) (string : Nat) : Except SplitHalt Splitter :=
  match next : splitStep limit s string with
  | .error halt => .error halt
  | .ok none => .ok s
  | .ok (some (s', string')) =>
    have := splitStep_advances next
    splitLoop limit s' string'
termination_by s.buffer.length - string

def stringAt (buffer : List Char) (position : Nat) : CString :=
  (buffer.drop position).takeWhile (· ≠ NUL)

def cmdSplit (line : CString) : Except SplitHalt (List CString) :=
  let buffer := line ++ [NUL]
  let limit := estimate false buffer
  (splitLoop limit ⟨buffer, none, false, false, []⟩ 0).bind fun s =>
    if s.inQuotes then .error (.parseError unterminatedMessage)
    else if s.fields.length < limit + 1 then .ok (s.fields.map (stringAt s.buffer))
    else .error .undefined

def strescapeLoop (destSize : Nat) (dest : CString) : CString → CString
  | [] => dest
  | c :: rest =>
    if dest.length = destSize - 2 then dest
    else if c = '"' || c = '\\' then
      if dest.length = destSize - 3 then dest else strescapeLoop destSize (dest ++ ['\\', c]) rest
    else strescapeLoop destSize (dest ++ [c]) rest

def lccStrescape (src : CString) (destSize : Nat) : Option CString :=
  if 3 ≤ destSize then
    let dest := strescapeLoop destSize ['"'] src
    if dest.length ≤ destSize - 2 then some (dest ++ ['"']) else none
  else none

end NCollectd.Cmds
