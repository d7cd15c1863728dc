import NCollectd.Cmds.Split

/-! What `cmd_split` does to a line, without the buffer: a scanner over the unread characters. -/

namespace NCollectd.Cmds

open List

/-- Why the second pass ends. -/
inductive ScanStop where
  | finished
  | unterminated
  | backslash
deriving DecidableEq

/-- The fields started, with their text, and the end. -/
structure Scan where
  fields : List CString
  stop : ScanStop
deriving DecidableEq

def Scan.after (texts : List CString) (later : Scan) : Scan := ⟨texts ++ later.fields, later.stop⟩

def scan (current : Option CString) (inQuotes : Bool) : List Char → Scan
  | [] => ⟨current.toList, if inQuotes then .unterminated else .finished⟩
  | c :: rest =>
    if isspace c && !inQuotes then (scan none false rest).after current.toList
    else if c = '"' then
      if inQuotes then
        match current with
        | none => ⟨[['"']], .finished⟩
        | some text => (scan none false rest).after [text]
      else scan current true rest
    else if c = '\\' && inQuotes then
      match rest with
      | [] => ⟨current.toList, .backslash⟩
      | next :: rest => scan (some (current.getD [] ++ [next])) inQuotes rest
    else scan (some (current.getD [] ++ [c])) inQuotes rest

/-- A field that is complete in the part of the buffer before `limit`. -/
def Stored (buffer : List Char) (limit position : Nat) (text : CString) : Prop :=
  position + text.length < limit ∧ NUL ∉ text ∧
    ∀ i ≤ text.length, buffer[position + i]? = (text ++ [NUL])[i]?

section

variable (stored : Stored buffer limit position text)
include stored

theorem Stored.mono (le : limit ≤ limit') : Stored buffer limit' position text :=
  ⟨lt_of_lt_of_le stored.1 le, stored.2⟩

theorem Stored.set (le : limit ≤ target) : Stored (buffer.set target c) limit position text := by
  obtain ⟨inside, clean, cells⟩ := stored
  refine ⟨inside, clean, ?_⟩
  intro i within
  rw [getElem?_set_ne (by omega)]
  exact cells i within

theorem Stored.stringAt_eq : stringAt buffer position = text := by
  obtain ⟨_, clean, cells⟩ := stored
  have taken : (buffer.drop position).take (text.length + 1) = text ++ [NUL] := by
    apply ext_getElem?
    intro i
    rcases lt_or_ge i (text.length + 1) with within | beyond
    · rw [getElem?_take_of_lt within, getElem?_drop]
      exact cells i (Nat.le_of_lt_succ within)
    · rw [getElem?_eq_none, getElem?_eq_none]
      · simpa using beyond
      · exact le_trans (length_take_le _ _) beyond
  unfold stringAt
  rw [← take_append_drop (text.length + 1) (buffer.drop position), taken, append_assoc,
    takeWhile_append_of_pos]
  · simp
  · intro c member
    have different : c ≠ NUL := fun same => clean (same ▸ member)
    simpa using different

end

/-- The second pass and the scanner have the same fields and the same unread characters. -/
structure Reads (s : Splitter) (string : Nat) (done : List CString) (current : Option CString) (inQuotes : Bool)
    (rest : List Char) : Prop where
  unread : ∀ i, s.buffer[string + i]? = (rest ++ [NUL])[i]?
  quotes : s.inQuotes = inQuotes
  inField : s.inField = current.isSome
  complete : current = none → List.Forall₂ (Stored s.buffer string) s.fields done
  opened : ∀ text, current = some text → ∃ fields start, s.fields = fields ++ [start] ∧
    List.Forall₂ (Stored s.buffer start) fields done ∧ s.field = some (start + text.length) ∧
    start + text.length ≤ string ∧ (inQuotes = false → start + text.length = string) ∧ NUL ∉ text ∧
    ∀ i < text.length, s.buffer[start + i]? = text[i]?

theorem Reads.started (reads : Reads s string done current inQuotes rest) :
    s.fields.length = done.length + current.toList.length := by
  cases current with
  | none => simpa using (reads.complete rfl).length_eq
  | some text =>
    obtain ⟨fields, start, same, stored, _⟩ := reads.opened text rfl
    simp [same, stored.length_eq]

section

variable (reads : Reads s string done current inQuotes (c :: rest))
include reads

theorem Reads.here : s.buffer[string]? = some c := by
  simpa using reads.unread 0

theorem Reads.behind (i : Nat) : s.buffer[string + 1 + i]? = (rest ++ [NUL])[i]? := by
  simpa [Nat.add_assoc, Nat.add_comm 1 i] using reads.unread (i + 1)

theorem Reads.inside : string < s.buffer.length :=
  (List.getElem?_eq_some_iff.mp reads.here).1

theorem Reads.skip : Reads { s with inQuotes := true } (string + 1) done current true rest where
  unread := reads.behind
  quotes := rfl
  inField := reads.inField
  complete := fun none => (reads.complete none).imp fun _ _ stored => stored.mono (Nat.le_succ string)
  opened := by
    intro text some
    obtain ⟨fields, start, same, stored, field, within, _, clean, cells⟩ := reads.opened text some
    exact ⟨fields, start, same, stored, field, Nat.le_succ_of_le within, nofun, clean, cells⟩

end

theorem Reads.between (reads : Reads s string done none inQuotes (c :: rest)) :
    Reads s (string + 1) done none inQuotes rest :=
  ⟨reads.behind, reads.quotes, reads.inField,
    fun none => (reads.complete none).imp fun _ _ stored => stored.mono (Nat.le_succ string), nofun⟩

theorem Reads.closeQuotes (reads : Reads s string done none inQuotes rest) :
    Reads { s with inQuotes := false } string done none false rest :=
  ⟨reads.unread, rfl, reads.inField, reads.complete, nofun⟩

theorem Reads.newField (reads : Reads s string done none inQuotes (c :: rest)) (ordinary : c ≠ NUL)
    (room : done.length < limit) :
    ∃ s', s.newField limit string = .ok s' ∧ Reads s' (string + 1) done (some [c]) inQuotes rest := by
  have count : s.fields.length < limit := by
    simpa [reads.started] using room
  refine ⟨_, if_pos count, reads.behind, reads.quotes, rfl, nofun, ?_⟩
  rintro text ⟨⟩
  refine ⟨s.fields, string, rfl, reads.complete rfl, rfl, le_refl _, fun _ => rfl, by simpa using ordinary.symm, ?_⟩
  intro i within
  obtain rfl : i = 0 := by simpa using within
  simpa using reads.here

theorem Reads.put (reads : Reads s string done (some text) inQuotes (c :: rest)) (written : Char) :
    ∃ fields start, s.put written = .ok { s with
        buffer := s.buffer.set (start + text.length) written
        field := some (start + text.length + 1) } ∧
      s.fields = fields ++ [start] ∧ start + text.length ≤ string ∧
      (inQuotes = false → start + text.length = string) ∧ NUL ∉ text ∧
      List.Forall₂ (Stored (s.buffer.set (start + text.length) written) start) fields done ∧
      (∀ i < text.length, (s.buffer.set (start + text.length) written)[start + i]? = text[i]?) ∧
      (s.buffer.set (start + text.length) written)[start + text.length]? = some written ∧
      ∀ i, (s.buffer.set (start + text.length) written)[string + 1 + i]? = (rest ++ [NUL])[i]? := by
  obtain ⟨fields, start, same, stored, field, within, level, clean, cells⟩ := reads.opened text rfl
  have room : start + text.length < s.buffer.length := lt_of_le_of_lt within reads.inside
  refine ⟨fields, start, ?_, same, within, level, clean, ?_, ?_, ?_, ?_⟩
  · simp [Splitter.put, field, room]
  · exact stored.imp fun _ _ kept => kept.set (Nat.le_add_right _ _)
  · intro i before
    rw [getElem?_set_ne (by omega)]
    exact cells i before
  · rw [getElem?_set_self room]
  · intro i
    rw [getElem?_set_ne (by omega)]
    exact reads.behind i

theorem Reads.append (reads : Reads s string done (some text) inQuotes (c :: rest)) (ordinary : c ≠ NUL) :
    ∃ s', s.put c = .ok s' ∧ Reads s' (string + 1) done (some (text ++ [c])) inQuotes rest := by
  obtain ⟨fields, start, written, same, within, level, clean, stored, cells, last, unread⟩ := reads.put c
  refine ⟨_, written, unread, reads.quotes, reads.inField, nofun, ?_⟩
  rintro _ ⟨⟩
  refine ⟨fields, start, same, stored, by simp [Nat.add_assoc], by simp; omega, ?_, ?_, ?_⟩
  · intro unquoted
    simp [← level unquoted, Nat.add_assoc]
  · simpa using ⟨clean, ordinary.symm⟩
  · intro i before
    rcases Nat.lt_or_ge i text.length with old | new
    · rw [getElem?_append_left old]
      exact cells i old
    · obtain rfl : i = text.length := by
        simp at before
        omega
      simpa using last

theorem Reads.addChar (reads : Reads s string done current inQuotes (c :: rest)) (ordinary : c ≠ NUL)
    (room : done.length + current.toList.length ≤ limit) :
    (∃ s', s.addChar limit string c = .ok s' ∧
        Reads s' (string + 1) done (some (current.getD [] ++ [c])) inQuotes rest ∧ done.length < limit) ∨
      s.addChar limit string c = .error .assertion ∧ limit ≤ done.length := by
  unfold Splitter.addChar
  cases current with
  | none =>
    rw [reads.inField]
    rcases lt_or_ge done.length limit with free | full
    · obtain ⟨s', started, next⟩ := reads.newField ordinary free
      exact .inl ⟨s', started, next, free⟩
    · right
      refine ⟨?_, full⟩
      have count : ¬ s.fields.length < limit := by
        simpa [reads.started] using full
      simp [Splitter.newField, count]
  | some text =>
    obtain ⟨s', written, next⟩ := reads.append ordinary
    rw [reads.inField]
    exact .inl ⟨s', written, next, by simpa [Nat.succ_le_iff] using room⟩

theorem Reads.endField (reads : Reads s string done (some text) inQuotes (c :: rest)) :
    ∃ s', s.endField = .ok s' ∧ Reads s' (string + 1) (done ++ [text]) none inQuotes rest := by
  obtain ⟨fields, start, written, same, within, _, clean, stored, cells, last, unread⟩ := reads.put NUL
  have ended : s.endField = .ok { s with
      buffer := s.buffer.set (start + text.length) NUL, field := none, inField := false } := by
    rw [Splitter.endField, written]
    rfl
  refine ⟨_, ended, unread, reads.quotes, rfl, ?_, nofun⟩
  intro _
  rw [same]
  refine rel_append (stored.imp fun _ _ kept => kept.mono (by omega)) (.cons ?_ .nil)
  refine ⟨by omega, clean, ?_⟩
  intro i before
  rcases lt_or_ge i text.length with old | new
  · rw [getElem?_append_left old]
    exact cells i old
  · obtain rfl : i = text.length := by omega
    simpa using last

theorem splitLoop_error (next : splitStep limit s string = .error halt) :
    splitLoop limit s string = .error halt := by
  unfold splitLoop
  split <;> simp_all

theorem splitLoop_stop (next : splitStep limit s string = .ok none) : splitLoop limit s string = .ok s := by
  unfold splitLoop
  split <;> simp_all

theorem splitLoop_next (next : splitStep limit s string = .ok (some (s', string'))) :
    splitLoop limit s string = splitLoop limit s' string' := by
  rw [splitLoop]
  split <;> simp_all

/-- What the second pass ends with, given the complete fields and the scan of the rest. -/
def Scan.Ends (limit : Nat) (done : List CString) (later : Scan) (result : Except SplitHalt Splitter) : Prop :=
  if limit < done.length + later.fields.length then result = .error .assertion
  else match later.stop with
    | .backslash => result = .error (.parseError backslashMessage)
    | .unterminated => ∃ s, result = .ok s ∧ s.inQuotes = true
    | .finished =>
      ∃ s, result = .ok s ∧ s.inQuotes = false ∧ s.fields.map (stringAt s.buffer) = done ++ later.fields

variable {later : Scan}

theorem Scan.ends_after :
    (later.after texts).Ends limit done result ↔ later.Ends limit (done ++ texts) result := by
  simp [Scan.Ends, Scan.after, Nat.add_assoc]

theorem Scan.ends_assertion (full : limit < done.length + later.fields.length) :
    later.Ends limit done (.error .assertion) := by
  simp [Scan.Ends, full]

theorem length_scan (current : Option CString) (inQuotes : Bool) (rest : List Char) :
    current.toList.length ≤ (scan current inQuotes rest).fields.length := by
  have single : ∀ option : Option CString, option.toList.length ≤ 1 := by
    intro option
    cases option <;> simp
  fun_induction scan current inQuotes rest with
  | case1 => exact le_refl _
  | case2 => simp [Scan.after]
  | case3 => exact Nat.zero_le _
  | case4 => simp [Scan.after]
  | case5 current inQuotes rest _ _ ih => exact ih
  | case6 => exact le_refl _
  | case7 current inQuotes c _ _ _ next rest ih
  | case8 current inQuotes c rest _ _ _ ih => exact (single current).trans ih

theorem Reads.addChar_ends (reads : Reads s string done current inQuotes (c :: rest)) (ordinary : c ≠ NUL)
    (room : done.length + current.toList.length ≤ limit)
    (turn : splitStep limit s₀ string₀ = (s.addChar limit string c).map fun s => some (s, string + 1))
    (later : ∀ s', Reads s' (string + 1) done (some (current.getD [] ++ [c])) inQuotes rest →
      done.length + 1 ≤ limit →
      (scan (some (current.getD [] ++ [c])) inQuotes rest).Ends limit done (splitLoop limit s' (string + 1))) :
    (scan (some (current.getD [] ++ [c])) inQuotes rest).Ends limit done (splitLoop limit s₀ string₀) := by
  rcases reads.addChar ordinary room with ⟨s', added, next, free⟩ | ⟨failed, full⟩
  · rw [added] at turn
    rw [splitLoop_next turn]
    exact later s' next free
  · rw [failed] at turn
    rw [splitLoop_error turn]
    apply Scan.ends_assertion
    have one := length_scan (some (current.getD [] ++ [c])) inQuotes rest
    simp at one
    omega

theorem Reads.turn_close (reads : Reads s string done none true ('"' :: rest)) :
    splitStep limit s string = (s.newField limit string).bind fun s =>
      s.endField.map fun s => some ({ s with inQuotes := false }, string + 1) := by
  have ordinary : '"' ≠ NUL := by decide
  have blank : isspace '"' = false := by decide
  simp [splitStep, reads.here, ordinary, blank, reads.quotes, reads.inField]

theorem texts_of_stored (stored : List.Forall₂ (Stored buffer limit) fields done) :
    fields.map (stringAt buffer) = done := by
  induction stored with
  | nil => rfl
  | cons first _ ih => rw [map_cons, first.stringAt_eq, ih]

theorem Reads.emptyQuoted (reads : Reads s string done none true ('"' :: rest)) (free : done.length < limit) :
    ∃ s', splitStep limit s string = .ok (some (s', string + 1)) ∧ splitStep limit s' (string + 1) = .ok none ∧
      s'.inQuotes = false ∧ s'.fields.map (stringAt s'.buffer) = done ++ [['"']] := by
  have count : s.fields.length < limit := by
    simpa [reads.started] using free
  have room : string + 1 < s.buffer.length := by
    by_contra outside
    have next := reads.behind 0
    rw [Nat.add_zero, getElem?_eq_none (Nat.le_of_not_lt outside)] at next
    cases rest <;> cases next
  have replaced : (s.buffer.set (string + 1) NUL)[string + 1]? = some NUL := getElem?_set_self room
  refine ⟨⟨s.buffer.set (string + 1) NUL, none, false, false, s.fields ++ [string]⟩, ?_, ?_, rfl, ?_⟩
  · simp [reads.turn_close, Splitter.newField, count, Splitter.endField, Splitter.put, room, Except.bind, Except.map]
  · simp [splitStep, replaced]
  · have kept := texts_of_stored ((reads.complete rfl).imp fun _ _ stored =>
      stored.set (c := NUL) (Nat.le_succ string))
    have last : Stored (s.buffer.set (string + 1) NUL) (string + 2) string ['"'] := by
      refine ⟨Nat.lt_succ_self _, by decide, ?_⟩
      intro i within
      rcases Nat.le_one_iff_eq_zero_or_eq_one.mp within with rfl | rfl
      · rw [getElem?_set_ne (by omega)]
        simpa using reads.here
      · simpa using replaced
    simp [kept, last.stringAt_eq]

theorem Reads.finish (reads : Reads s string done current false []) :
    s.fields.map (stringAt s.buffer) = done ++ current.toList := by
  cases current with
  | none => simpa using texts_of_stored (reads.complete rfl)
  | some text =>
    obtain ⟨fields, start, same, stored, _, _, level, clean, cells⟩ := reads.opened text rfl
    have last : Stored s.buffer (string + 1) start text := by
      refine ⟨by rw [level rfl]; exact Nat.lt_succ_self _, clean, ?_⟩
      intro i within
      rcases lt_or_ge i text.length with old | new
      · rw [getElem?_append_left old]
        exact cells i old
      · obtain rfl : i = text.length := le_antisymm within new
        rw [level rfl]
        simpa using reads.unread 0
    simp [same, texts_of_stored stored, last.stringAt_eq]

theorem Reads.loop (reads : Reads s string done current inQuotes rest) (clean : NUL ∉ rest)
    (room : done.length + current.toList.length ≤ limit) :
    (scan current inQuotes rest).Ends limit done (splitLoop limit s string) := by
  fun_induction scan current inQuotes rest generalizing s string done with
  | case1 current inQuotes =>
    have here : s.buffer[string]? = some NUL := by simpa using reads.unread 0
    have turn : splitStep limit s string = .ok none := by simp [splitStep, here]
    rw [splitLoop_stop turn, Scan.Ends, if_neg (not_lt.mpr room)]
    cases inQuotes with
    | true => exact ⟨s, rfl, reads.quotes⟩
    | false => exact ⟨s, rfl, reads.quotes, reads.finish⟩
  | case2 current inQuotes c rest space ih =>
    obtain ⟨ordinary, clean⟩ := clean_cons clean
    have unquoted : inQuotes = false := by simpa using (Bool.and_eq_true_iff.mp space).2
    rw [Scan.ends_after]
    cases current with
    | none =>
      have turn : splitStep limit s string = .ok (some (s, string + 1)) := by
        simp only [splitStep, reads.here, reads.quotes, reads.inField, if_neg ordinary, if_pos space]
        rfl
      rw [splitLoop_next turn, Option.toList_none, append_nil]
      exact ih (unquoted ▸ reads.between) clean room
    | some text =>
      obtain ⟨s', ended, next⟩ := reads.endField
      have turn : splitStep limit s string = .ok (some (s', string + 1)) := by
        simp only [splitStep, reads.here, reads.quotes, reads.inField, if_neg ordinary, if_pos space, ended]
        rfl
      rw [splitLoop_next turn]
      exact ih (unquoted ▸ next) clean (by simpa using room)
  | case3 rest blank =>
    rcases lt_or_ge done.length limit with free | full
    · obtain ⟨s', turn, stop, quotes, texts⟩ := reads.emptyQuoted free
      rw [splitLoop_next turn, splitLoop_stop stop, Scan.Ends, if_neg (by simpa [Nat.succ_le_iff] using free)]
      exact ⟨s', rfl, quotes, texts⟩
    · have count : ¬ s.fields.length < limit := by
        simpa [reads.started] using full
      have turn : splitStep limit s string = .error .assertion := by
        simp [reads.turn_close, Splitter.newField, count, Except.bind]
      rw [splitLoop_error turn]
      exact Scan.ends_assertion (by simpa [Nat.lt_succ_iff] using full)
  | case4 rest text blank ih =>
    obtain ⟨ordinary, clean⟩ := clean_cons clean
    obtain ⟨s', ended, next⟩ := reads.endField
    have turn : splitStep limit s string = .ok (some ({ s' with inQuotes := false }, string + 1)) := by
      simp only [splitStep, reads.here, reads.quotes, if_neg ordinary, if_neg blank]
      simp [reads.inField, ended, Except.map, Except.bind]
    rw [Scan.ends_after, splitLoop_next turn]
    exact ih next.closeQuotes clean (by simpa using room)
  | case5 current inQuotes rest unquoted blank ih =>
    obtain ⟨ordinary, clean⟩ := clean_cons clean
    have turn : splitStep limit s string = .ok (some ({ s with inQuotes := true }, string + 1)) := by
      simp only [splitStep, reads.here, reads.quotes, if_neg ordinary, if_neg blank, if_neg unquoted, if_true]
    rw [splitLoop_next turn]
    exact ih reads.skip clean room
  | case6 current inQuotes c blank other escaped =>
    obtain ⟨ordinary, clean⟩ := clean_cons clean
    have behind : s.buffer[string + 1]? = some NUL := by simpa using reads.behind 0
    have turn : splitStep limit s string = .error (.parseError backslashMessage) := by
      simp only [splitStep, reads.here, reads.quotes, if_neg ordinary, if_neg blank, if_neg other,
        if_pos escaped, behind, if_true]
    rw [splitLoop_error turn, Scan.Ends, if_neg (not_lt.mpr room)]
  | case7 current inQuotes c blank other escaped next rest ih =>
    obtain ⟨ordinary, clean⟩ := clean_cons clean
    obtain ⟨unescaped, clean⟩ := clean_cons clean
    obtain rfl : inQuotes = true := (Bool.and_eq_true_iff.mp escaped).2
    have behind : s.buffer[string + 1]? = some next := by simpa using reads.behind 0
    have same : { s with inQuotes := true } = s := by rw [← reads.quotes]
    have skipped := same ▸ reads.skip
    refine skipped.addChar_ends unescaped room ?_ fun s' later free => ih later clean (by simpa using free)
    simp only [splitStep, reads.here, reads.quotes, if_neg ordinary, if_neg blank, if_neg other,
      if_pos escaped, behind, if_neg unescaped]
  | case8 current inQuotes c rest blank other plain ih =>
    obtain ⟨ordinary, clean⟩ := clean_cons clean
    refine reads.addChar_ends ordinary room ?_ fun s' next free => ih next clean (by simpa using free)
    simp only [splitStep, reads.here, reads.quotes, if_neg ordinary, if_neg blank, if_neg other,
      if_neg plain]

theorem estimate_terminated (inField : Bool) (line : List Char) :
    estimate inField (line ++ [NUL]) = estimate inField line := by
  induction line generalizing inField with
  | nil => rfl
  | cons c rest ih => simp [estimate, ih]

theorem cmdSplit_eq (clean : NUL ∉ line) :
    cmdSplit line =
      if estimate false line < (scan none false line).fields.length then .error .assertion
      else match (scan none false line).stop with
        | .finished => .ok (scan none false line).fields
        | .unterminated => .error (.parseError unterminatedMessage)
        | .backslash => .error (.parseError backslashMessage) := by
  have start : Reads ⟨line ++ [NUL], none, false, false, []⟩ 0 [] none false line :=
    ⟨by simp, rfl, rfl, fun _ => .nil, nofun⟩
  have ends : (scan none false line).Ends (estimate false line) []
      (splitLoop (estimate false line) ⟨line ++ [NUL], none, false, false, []⟩ 0) :=
    start.loop clean (Nat.zero_le _)
  unfold cmdSplit
  simp only [estimate_terminated]
  simp only [Scan.Ends, length_nil, Nat.zero_add, nil_append] at ends
  split at ends
  · rename_i exceeds
    rw [ends, if_pos exceeds]
    rfl
  · rename_i within
    rw [if_neg within]
    split at ends
    · rename_i stop
      rw [ends, stop]
      rfl
    · rename_i stop
      obtain ⟨s, result, quotes⟩ := ends
      rw [result, stop]
      simp [Except.bind, quotes]
    · rename_i stop
      obtain ⟨s, result, quotes, texts⟩ := ends
      have count : s.fields.length < estimate false line + 1 := by
        have same := congrArg length texts
        rw [length_map] at same
        omega
      rw [result, stop]
      simp [Except.bind, quotes, count, texts]

end NCollectd.Cmds
