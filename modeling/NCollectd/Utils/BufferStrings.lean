import NCollectd.Utils.Strunescape

namespace NCollectd.Common

open Cmds (NUL isspace)
open List

/-- A write behind the end of the buffer is `none`. -/
def poke (buf : List Char) (offset : Nat) (bytes : List Char) : Option (List Char) :=
  if offset + bytes.length ≤ buf.length then
    some (buf.take offset ++ bytes ++ buf.drop (offset + bytes.length))
  else none

/-- `sstrncpy` in memory, where `strncpy` fills up with NULs. -/
def sstrncpyAt (buf : List Char) (offset : Nat) (src : CString) (n : Nat) : Option (List Char) :=
  poke buf offset ((src.take (n - 1)).rightpad n NUL)

theorem poke_append (front bytes room : List Char) (fits : bytes.length ≤ room.length) :
    poke (front ++ room) front.length bytes = some (front ++ bytes ++ room.drop bytes.length) := by
  rw [poke, if_pos (by rw [length_append]; omega), take_left, ← drop_drop, drop_left]

theorem sstrncpyAt_append (front src room : List Char) (short : n ≤ src.length) (fits : n < room.length) :
    sstrncpyAt (front ++ room) front.length src (n + 1) =
      some (front ++ src.take n ++ NUL :: room.drop (n + 1)) := by
  have bytes : (src.take (n + 1 - 1)).rightpad (n + 1) NUL = src.take n ++ [NUL] := by
    rw [rightpad, Nat.add_sub_cancel, length_take, Nat.min_eq_left short, Nat.add_sub_cancel_left]
    rfl
  rw [sstrncpyAt, bytes, poke_append front _ room (by simp; omega)]
  simp [Nat.min_eq_left short]

/-- The lengths of the three copies and the new `buflen`. -/
def substLengths (buflen front replacement back : Nat) : Nat × Nat × Nat × Nat :=
  if buflen ≤ front then (buflen - 1, 0, 0, buflen)
  else if buflen ≤ front + replacement then (front, buflen - (front + 1), 0, buflen)
  else if buflen ≤ front + replacement + back then
    (front, replacement, buflen - (front + replacement + 1), buflen)
  else (front, replacement, back, front + replacement + back + 1)

def substCopy (buf : List Char) (out : Nat) (src : CString) (len : Nat) : Option (List Char) :=
  if len ≠ 0 then sstrncpyAt buf out src (len + 1) else some buf

/-- A failed assertion is `none`, and NULL is `none` inside. -/
def subst (buf : List Char) (string : CString) (off1 off2 : Nat) (replacement : CString) :
    Option (Option (List Char)) :=
  if buf.length = 0 ∨ string.length < off1 ∨ string.length < off2 ∨ off2 < off1 then some none
  else
    let back := string.drop off2
    let (frontLen, replacementLen, backLen, buflen) :=
      substLengths buf.length off1 replacement.length back.length
    if frontLen + replacementLen + backLen ≠ buflen - 1 then none
    else do
      let buf ← substCopy buf 0 string frontLen
      let buf ← substCopy buf frontLen replacement replacementLen
      let buf ← substCopy buf (frontLen + replacementLen) back backLen
      let buf ← poke buf (frontLen + replacementLen + backLen) [NUL]
      return some buf

theorem substLengths_spec (first second third : CString) (positive : 0 < buflen)
    (chosen : substLengths buflen first.length second.length third.length = (a, b, c, len)) :
    a + b + c = len - 1 ∧ a + b + c < buflen ∧ a ≤ first.length ∧ b ≤ second.length ∧ c ≤ third.length ∧
      first.take a ++ second.take b ++ third.take c = (first ++ second ++ third).take (buflen - 1) := by
  unfold substLengths at chosen
  split_ifs at chosen <;> obtain ⟨rfl, rfl, rfl, rfl⟩ := by simpa using chosen
  all_goals
    refine ⟨by omega, by omega, by omega, by omega, by omega, ?_⟩
    simp only [take_append, length_append]
    congr 1
    · congr 1 <;> (rw [take_eq_take_iff]; omega)
    · rw [take_eq_take_iff]
      omega

theorem substCopy_append (front src room : List Char) (short : len ≤ src.length) (fits : len < room.length) :
    ∃ room', substCopy (front ++ room) front.length src len = some (front ++ src.take len ++ room') ∧
      room'.length + len = room.length ∧ ∀ k, room'.drop (k + 1) = room.drop (len + k + 1) := by
  unfold substCopy
  split
  · refine ⟨NUL :: room.drop (len + 1), sstrncpyAt_append front src room short fits, by simp; omega, fun k => ?_⟩
    rw [drop_succ_cons, drop_drop, Nat.add_right_comm]
  · rename_i zero
    obtain rfl : len = 0 := by simpa using zero
    exact ⟨room, by simp, rfl, fun k => by rw [Nat.zero_add]⟩

/-- The splice, cut to the size of the buffer; behind its NUL the buffer is as it was. -/
theorem subst_splices (buf : List Char) (string : CString) (off1 off2 : Nat) (replacement : CString) :
    subst buf string off1 off2 replacement = some (
      if buf ≠ [] ∧ off1 ≤ off2 ∧ off2 ≤ string.length then
        let text := (string.take off1 ++ replacement ++ string.drop off2).take (buf.length - 1)
        some (text ++ NUL :: buf.drop (text.length + 1))
      else none) := by
  unfold subst
  by_cases inside : buf ≠ [] ∧ off1 ≤ off2 ∧ off2 ≤ string.length
  · obtain ⟨filled, ordered, within⟩ := inside
    have positive := length_pos_iff.mpr filled
    have length : (string.take off1).length = off1 := by simp; omega
    rw [if_neg (by omega), if_pos ⟨filled, ordered, within⟩]
    cases chosen : substLengths buf.length off1 replacement.length (string.drop off2).length with
    | mk a rest =>
      obtain ⟨b, c, len⟩ := rest
      obtain ⟨asserted, fits, shortFront, shortReplacement, shortBack, text⟩ :=
        substLengths_spec (string.take off1) replacement (string.drop off2) positive (length ▸ chosen)
      have front : string.take a = (string.take off1).take a := by
        rw [take_take, Nat.min_eq_left (length ▸ shortFront)]
      have frontLength : (string.take a).length = a := by simp; omega
      have bothLength : (string.take a ++ replacement.take b).length = a + b := by simp; omega
      obtain ⟨room₁, first, size₁, behind₁⟩ :=
        substCopy_append [] string buf (by omega : a ≤ _) (by omega)
      obtain ⟨room₂, second, size₂, behind₂⟩ :=
        substCopy_append (string.take a) replacement room₁ shortReplacement (by omega)
      obtain ⟨room₃, third, size₃, behind₃⟩ :=
        substCopy_append (string.take a ++ replacement.take b) (string.drop off2) room₂ shortBack (by omega)
      rw [frontLength] at second
      rw [bothLength] at third
      have allLength : (string.take a ++ replacement.take b ++ (string.drop off2).take c).length = a + b + c := by
        rw [length_append, bothLength, length_take_of_le shortBack]
      have last := poke_append (string.take a ++ replacement.take b ++ (string.drop off2).take c) [NUL] room₃
        (by simp; omega)
      rw [allLength] at last
      rw [nil_append, length_nil, nil_append] at first
      simp only [chosen, if_neg (not_not.mpr asserted), first, second, third, last, Option.bind_eq_bind,
        Option.bind_some]
      rw [front, text] at allLength ⊢
      rw [length_singleton, behind₃ 0, behind₂, behind₁, allLength, append_assoc, singleton_append, Nat.add_zero,
        ← Nat.add_assoc]
      rfl
  · rw [if_neg inside, if_pos]
    rw [← length_pos_iff] at inside
    omega

/-- The variables of the loop of `strjoin`. -/
structure Joining where
  buffer : List Char
  ptr : Nat
  avail : Nat
  bufferReq : Nat

/-- There is no separator in front of the first field. -/
def glue (sep : CString) (i : Nat) : CString := if i ≠ 0 then sep else []

/-- The body of the loop; without room for the separator nothing more is written. -/
def joinField (sep : CString) (s : Joining) (i : Nat) (field : CString) : Option Joining :=
  let sep := glue sep i
  let bufferReq := s.bufferReq + (sep.length + field.length)
  if s.buffer.length = 0 then some { s with bufferReq }
  else if 0 < sep.length ∧ s.avail ≤ sep.length then some { s with avail := 0, bufferReq }
  else do
    let buffer ← poke s.buffer s.ptr sep
    let avail := s.avail - sep.length
    let fieldLen := min field.length avail
    let buffer ← poke buffer (s.ptr + sep.length) (field.take fieldLen)
    let buffer ← poke buffer (s.ptr + sep.length + fieldLen) [NUL]
    return ⟨buffer, s.ptr + sep.length + fieldLen, avail - fieldLen, bufferReq⟩

def joinLoop (sep : CString) : Nat → List CString → Joining → Option Joining
  | _, [], s => some s
  | i, field :: fields, s => (joinField sep s i field).bind (joinLoop sep (i + 1) fields)

/-- The buffer is NULL or has `buffer_size` bytes; the length is converted to `int`. -/
def strjoin (buffer : Option (List Char)) (fields : List CString) (sep : Option CString) :
    Option (Int × List Char) := do
  let buf ← buffer.elim (some []) (poke · 0 [NUL])
  let s ← joinLoop (sep.getD []) 0 fields ⟨buf, 0, buf.length - 1, 0⟩
  return ((s.bufferReq : Int).bmod (2 ^ 32), s.buffer)

/-- The length of the joined text is returned, and the buffer has the text, or the part of it that has room. -/
def Joins (buffer : Option (List Char)) (fields : List CString) (sep : Option CString) : Prop :=
  let joined := (sep.getD []).intercalate fields
  ∃ after, strjoin buffer fields sep = some ((joined.length : Int), after) ∧ ∀ buf, buffer = some buf →
    after.length = buf.length ∧ ∃ text rest, after = text ++ NUL :: rest ∧ text <+: joined ∧
      (joined.length < buf.length → text = joined)

/-- What the fields from number `i` on add to the joined text. -/
def joinedFrom (sep : CString) : Nat → List CString → CString
  | _, [] => []
  | i, field :: fields => glue sep i ++ field ++ joinedFrom sep (i + 1) fields

theorem joinedFrom_succ (sep : CString) (i : Nat) (fields : List CString) :
    joinedFrom sep (i + 1) fields = fields.flatMap (sep ++ ·) := by
  induction fields generalizing i with
  | nil => rfl
  | cons field fields ih => rw [joinedFrom, ih, flatMap_cons, glue, if_pos (Nat.succ_ne_zero i)]

theorem joinedFrom_zero (sep : CString) (fields : List CString) :
    joinedFrom sep 0 fields = sep.intercalate fields := by
  cases fields with
  | nil => rfl
  | cons field fields =>
    rw [joinedFrom, joinedFrom_succ]
    induction fields generalizing field with
    | nil => simp [glue, intercalate]
    | cons other fields ih =>
      have later := ih other
      simp only [glue, intercalate, ne_eq, not_true_eq_false, if_false, nil_append] at later ⊢
      simp [← later]

theorem joinField_idle (field : CString) (s : Joining)
    (idle : s.buffer = [] ∨ glue sep i ≠ [] ∧ s.avail ≤ (glue sep i).length) :
    ∃ avail, (s.buffer ≠ [] → avail = 0) ∧ joinField sep s i field =
      some { s with avail, bufferReq := s.bufferReq + ((glue sep i).length + field.length) } := by
  unfold joinField
  by_cases empty : s.buffer = []
  · exact ⟨s.avail, fun filled => absurd empty filled, by simp [empty]⟩
  · obtain ⟨filled, full⟩ := idle.resolve_left empty
    refine ⟨0, fun _ => rfl, ?_⟩
    rw [if_neg (mt length_eq_zero_iff.mp empty), if_pos ⟨length_pos_iff.mpr filled, full⟩]

/-- Nothing is written without a buffer and after a separator did not fit. -/
theorem joinLoop_idle (fields : List CString) (s : Joining)
    (idle : s.buffer = [] ∨ i ≠ 0 ∧ sep ≠ [] ∧ s.avail = 0) :
    ∃ s', joinLoop sep i fields s = some s' ∧ s'.buffer = s.buffer ∧
      s'.bufferReq = s.bufferReq + (joinedFrom sep i fields).length := by
  induction fields generalizing i s with
  | nil => exact ⟨s, rfl, rfl, rfl⟩
  | cons field fields ih =>
    obtain ⟨avail, spent, step⟩ := @joinField_idle sep i field s
      (idle.imp_right fun ⟨later, filled, zero⟩ => by simp [glue, later, filled, zero])
    obtain ⟨s', rest, unchanged, total⟩ := @ih (i + 1)
      { s with avail, bufferReq := s.bufferReq + ((glue sep i).length + field.length) }
      ((em (s.buffer = [])).imp_right fun filled =>
        ⟨Nat.succ_ne_zero i, (idle.resolve_left filled).2.1, spent filled⟩)
    refine ⟨s', by rw [joinLoop, step, Option.bind_some, rest], unchanged, ?_⟩
    rw [total, joinedFrom, length_append, length_append, Nat.add_assoc]

theorem joinField_append (text room field : CString) (i req : Nat)
    (go : glue sep i = [] ∨ (glue sep i).length < room.length) :
    ∃ room' : CString, room'.length = room.length - (glue sep i).length - field.length ∧
      joinField sep ⟨text ++ NUL :: room, text.length, room.length, req⟩ i field =
        some ⟨text ++ glue sep i ++ field.take (room.length - (glue sep i).length) ++ NUL :: room',
          (text ++ glue sep i ++ field.take (room.length - (glue sep i).length)).length, room'.length,
          req + ((glue sep i).length + field.length)⟩ := by
  generalize defined : glue sep i = sep' at go ⊢
  have fits : sep'.length ≤ room.length := by
    rcases go with rfl | less
    · exact Nat.zero_le _
    · exact less.le
  have idle : ¬ (0 < sep'.length ∧ room.length ≤ sep'.length) := by
    rintro ⟨positive, full⟩
    rcases go with rfl | less
    · exact absurd positive (Nat.lt_irrefl 0)
    · omega
  have taken : field.take (min field.length (room.length - sep'.length)) =
      field.take (room.length - sep'.length) := by
    rw [take_eq_take_iff]
    omega
  have length : (field.take (room.length - sep'.length)).length = min field.length (room.length - sep'.length) := by
    rw [length_take, Nat.min_comm]
  refine ⟨(((NUL :: room).drop sep'.length).drop (min field.length (room.length - sep'.length))).drop 1,
    by simp; omega, ?_⟩
  simp only [joinField, defined]
  rw [if_neg (by simp), if_neg idle, poke_append _ _ _ (by simp; omega)]
  simp only [Option.bind_eq_bind, Option.bind_some, ← length_append, taken]
  rw [poke_append _ _ _ (by simp; omega), Option.bind_some, ← length, ← length_append,
    poke_append _ _ _ (by simp; omega)]
  have left : room.length - sep'.length - (field.take (room.length - sep'.length)).length =
      ((((NUL :: room).drop sep'.length).drop (field.take (room.length - sep'.length)).length).drop 1).length := by
    simp only [length_drop, length_cons]
    omega
  rw [Option.bind_some, append_assoc _ [NUL], left]
  rfl

theorem glue_eq_sep (filled : glue sep i ≠ []) : i ≠ 0 ∧ glue sep i = sep := by
  unfold glue at filled ⊢
  split at filled
  · rename_i later
    exact ⟨later, if_pos later⟩
  · exact absurd rfl filled

/-- A last separator that just fits is left out if the field behind it is empty. -/
def SeparatorLost (sep : CString) (i : Nat) (fields : List CString) (room : Nat) : Prop :=
  sep ≠ [] ∧ fields.getLast? = some [] ∧ (i ≠ 0 ∨ 2 ≤ fields.length) ∧ (joinedFrom sep i fields).length = room

theorem joinLoop_append (fields : List CString) (text room : CString) (i req : Nat) :
    ∃ s', joinLoop sep i fields ⟨text ++ NUL :: room, text.length, room.length, req⟩ = some s' ∧
      s'.bufferReq = req + (joinedFrom sep i fields).length ∧
      ∃ more rest, s'.buffer = text ++ more ++ NUL :: rest ∧ more.length + rest.length = room.length ∧
        more <+: joinedFrom sep i fields ∧ ((joinedFrom sep i fields).length ≤ room.length →
          (more = joinedFrom sep i fields ↔ ¬ SeparatorLost sep i fields room.length)) := by
  induction fields generalizing text room i req with
  | nil => exact ⟨_, rfl, rfl, [], room, by simp, by simp, nil_prefix, fun _ => by simp [joinedFrom, SeparatorLost]⟩
  | cons field fields ih =>
    by_cases go : glue sep i = [] ∨ (glue sep i).length < room.length
    · have small : (glue sep i).length ≤ room.length := by
        rcases go with none | less
        · simp [none]
        · exact less.le
      obtain ⟨room', size, step⟩ := joinField_append text room field i req go
      obtain ⟨s', loop, required, more, rest, buffer, length, within, whole⟩ :=
        ih (text ++ glue sep i ++ field.take (room.length - (glue sep i).length)) room' (i + 1)
          (req + ((glue sep i).length + field.length))
      refine ⟨s', by rw [joinLoop, step, Option.bind_some, loop], ?_,
        glue sep i ++ field.take (room.length - (glue sep i).length) ++ more, rest, ?_, ?_, ?_, ?_⟩
      · rw [required, joinedFrom, length_append, length_append, Nat.add_assoc]
      · rw [buffer]
        simp
      · simp only [length_append, length_take]
        omega
      · rw [joinedFrom]
        by_cases short : field.length ≤ room.length - (glue sep i).length
        · rw [take_of_length_le short]
          exact (prefix_append_right_inj _).mpr within
        · obtain rfl : more = [] := length_eq_zero_iff.mp (by omega)
          rw [append_nil, append_assoc]
          exact (prefix_append_right_inj _).mpr (( take_prefix _ _).trans (prefix_append _ _))
      · intro fits
        rw [joinedFrom, length_append, length_append] at fits
        rw [take_of_length_le (by omega), joinedFrom, append_cancel_left_eq, whole (by omega), not_iff_not]
        simp only [SeparatorLost, joinedFrom, length_append]
        cases fields with
        | nil =>
          refine iff_of_false (by simp) ?_
          rintro ⟨filled, last, later, full⟩
          have same : glue sep i = sep := if_pos (later.resolve_right (by simp))
          obtain rfl : field = [] := by simpa using last
          rw [same] at go full
          exact absurd (go.resolve_left filled) (by simpa [joinedFrom] using full.ge)
        | cons other fields =>
          rw [getLast?_cons_cons]
          simp
          omega
    · rw [not_or, Nat.not_lt] at go
      obtain ⟨later, same⟩ := glue_eq_sep go.1
      obtain ⟨avail, spent, step⟩ :=
        joinField_idle field ⟨text ++ NUL :: room, text.length, room.length, req⟩ (.inr go)
      obtain ⟨s', loop, unchanged, required⟩ := @joinLoop_idle (i + 1) sep fields
        ⟨text ++ NUL :: room, text.length, avail, req + ((glue sep i).length + field.length)⟩
        (.inr ⟨Nat.succ_ne_zero i, same ▸ go.1, spent (by simp)⟩)
      refine ⟨s', by rw [joinLoop, step, Option.bind_some, loop], ?_, [], room, by simp [unchanged], by simp,
        nil_prefix, ?_⟩
      · rw [required, joinedFrom, length_append, length_append, Nat.add_assoc]
      · intro fits
        have filled : sep ≠ [] := same ▸ go.1
        rw [joinedFrom, length_append, length_append] at fits
        obtain rfl : field = [] := length_eq_zero_iff.mp (by omega)
        obtain rfl : fields = [] := by
          cases fields with
          | nil => rfl
          | cons other fields =>
            have positive := length_pos_iff.mpr filled
            rw [same] at go fits
            simp [joinedFrom_succ] at fits
            omega
        refine iff_of_false (by simp [joinedFrom, go.1]) (not_not.mpr ⟨filled, rfl, .inl later, ?_⟩)
        simp [joinedFrom] at fits ⊢
        omega

/-- The buffer may only be empty as NULL, the length has to be an `int`, and no separator may be lost. -/
theorem strjoin_joins_iff (buffer : Option (List Char)) (fields : List CString) (sep : Option CString)
    (clean : NUL ∉ (sep.getD []).intercalate fields) :
    Joins buffer fields sep ↔ buffer ≠ some [] ∧ ((sep.getD []).intercalate fields).length < 2 ^ 31 ∧
      ∀ buf, buffer = some buf → ¬ (sep.getD [] ≠ [] ∧ fields.getLast? = some [] ∧ 2 ≤ fields.length ∧
        ((sep.getD []).intercalate fields).length + 1 = buf.length) := by
  unfold Joins strjoin
  generalize sep.getD [] = sep at clean ⊢
  have number (n : Nat) : (n : Int).bmod (2 ^ 32) = n ↔ n < 2 ^ 31 := by
    rw [Int.bmod]
    split <;> omega
  rcases buffer with _ | _ | ⟨c, room⟩
  · obtain ⟨s, loop, _, required⟩ := @joinLoop_idle 0 sep fields ⟨[], 0, 0, 0⟩ (.inl rfl)
    simpa [loop, required, joinedFrom_zero] using number _
  · simp [poke]
  · obtain ⟨s, loop, required, text, rest, buffer, length, within, whole⟩ := @joinLoop_append sep fields [] room 0 0
    rw [SeparatorLost, joinedFrom_zero] at whole
    rw [joinedFrom_zero] at required within
    have start : poke (c :: room) 0 [NUL] = some (NUL :: room) := rfl
    have run : joinLoop sep 0 fields ⟨NUL :: room, 0, (NUL :: room).length - 1, 0⟩ = some s := loop
    simp only [Option.elim_some, start, run, required, Nat.zero_add, Option.bind_eq_bind, Option.bind_some]
    constructor
    · rintro ⟨after, returned, held⟩
      obtain ⟨value, rfl⟩ := Prod.mk.inj (Option.some.inj returned)
      refine ⟨by simp, (number _).mp value, ?_⟩
      rintro _ ⟨⟩ ⟨filled, last, two, full⟩
      rw [length_cons, Nat.add_right_cancel_iff] at full
      obtain ⟨-, text', rest', again, within', all⟩ := held _ rfl
      have same : text = text' := by
        rw [← stringIn_append (mt (within.subset ·) clean) rest, ← stringIn_append (mt (within'.subset ·) clean) rest',
          ← again, buffer, nil_append]
      refine (whole full.le).mp ?_ ⟨filled, last, .inr two, full⟩
      rw [same, all (by rw [length_cons]; omega)]
    · rintro ⟨_, small, kept⟩
      refine ⟨s.buffer, by rw [(number _).mpr small]; rfl, ?_⟩
      rintro _ ⟨⟩
      refine ⟨by rw [buffer]; simp; omega, text, rest, by rw [buffer]; rfl, within, fun fits => ?_⟩
      refine (whole (Nat.lt_succ_iff.mp fits)).mpr ?_
      rintro ⟨filled, last, later, full⟩
      exact kept _ rfl ⟨filled, last, later.resolve_left (not_not.mpr rfl), by rw [full, length_cons]⟩

theorem strjoin_joins_two :
    strjoin (some ['x', 'x', 'x', 'x']) [['a'], ['b']] (some [',']) = some (3, ['a', ',', 'b', NUL]) ∧
      Joins (some ['x', 'x', 'x', 'x']) [['a'], ['b']] (some [',']) :=
  ⟨by decide, (strjoin_joins_iff (some ['x', 'x', 'x', 'x']) [['a'], ['b']] (some [',']) (by decide)).mpr (by simp)⟩

/-- The separator fits into three bytes, but only `a` is written. -/
theorem last_separator_lost :
    strjoin (some ['x', 'x', 'x']) [['a'], []] (some [',']) = some (2, ['a', NUL, 'x']) ∧
      ¬ Joins (some ['x', 'x', 'x']) [['a'], []] (some [',']) := by
  have call : strjoin (some ['x', 'x', 'x']) [['a'], []] (some [',']) = some (2, ['a', NUL, 'x']) := by decide
  refine ⟨call, ?_⟩
  rintro ⟨after, returned, held⟩
  obtain ⟨-, rfl⟩ := Prod.mk.inj (Option.some.inj (call.symm.trans returned))
  obtain ⟨-, text, rest, split, -, whole⟩ := held _ rfl
  rw [whole (by decide)] at split
  exact absurd split (by simp [NUL, intercalate])

/-- The subtraction of the type `size_t`. -/
def sizeSub (a b : Nat) : Nat := if b ≤ a then a - b else 2 ^ 64 + a - b

/-- What the loop writes for a character. -/
def escaped (c : Char) : List Char := if c = '"' ∨ c = '\\' then ['\\', c] else [c]

/-- The copy as far as it is written. The loop ends with `j > buffer_size - 4` at a character that gets a backslash
and with `j > buffer_size - 3` at any other; a write behind the `n` bytes of the copy is `none`. -/
def escapeLoop (n : Nat) (temp : CString) : List Char → Option CString
  | [] => some temp
  | c :: rest =>
    if c = NUL ∨ sizeSub n ((escaped c).length + 2) < temp.length then some temp
    else if temp.length + (escaped c).length ≤ n then escapeLoop n (temp ++ escaped c) rest
    else none

/-- A failed assertion is `none`, and so is a search behind the end of the buffer. -/
def escapeString (buffer : List Char) : Option (Status × List Char) :=
  if ∃ c ∈ stringIn buffer, c ∈ [' ', '\t', '"', '\\'] then
    if buffer.length < 3 then some (EINVAL, buffer)
    else do
      let temp ← escapeLoop buffer.length ['"'] buffer
      if temp.length + 1 < buffer.length then
        return (0, ← sstrncpyAt buffer 0 (temp ++ ['"']) buffer.length)
      else none
  else if NUL ∈ buffer then some (0, buffer) else none

/-- The flag says that a backslash stands in front. -/
def unquote : Bool → CString → Option (CString × CString)
  | _, [] => none
  | true, c :: rest => (unquote false rest).map (Prod.map (c :: ·) id)
  | false, c :: rest =>
    if c = '"' then some ([], rest)
    else if c = '\\' then unquote true rest
    else (unquote false rest).map (Prod.map (c :: ·) id)

/-- The string and what is left of the buffer, or the status. -/
def parseString (buffer : CString) : Except Status (CString × CString) :=
  match buffer.dropWhile isspace with
  | [] | ['"'] => .error 1
  | '"' :: quoted =>
    match unquote false quoted with
    | none => .error (-1)
    | some (string, rest) =>
      if rest.head?.all isspace then .ok (string, rest.dropWhile isspace) else .error (-1)
  | string => .ok (string.takeWhile (!isspace ·), (string.dropWhile (!isspace ·)).dropWhile isspace)

/-- A string with a special character is put in quotation marks, and read back as much as has room. -/
def Escapes (buffer : List Char) : Prop :=
  ∀ text rest, buffer = text ++ NUL :: rest → NUL ∉ text → (∃ c ∈ text, c ∈ [' ', '\t', '"', '\\']) →
    3 ≤ buffer.length → ∃ kept behind,
      escapeString buffer = some (0, '"' :: kept.flatMap escaped ++ '"' :: NUL :: behind) ∧
      (kept.flatMap escaped).length + 3 + behind.length = buffer.length ∧ kept <+: text ∧
      ((text.flatMap escaped).length + 3 ≤ buffer.length → kept = text) ∧
      parseString ('"' :: kept.flatMap escaped ++ ['"']) = .ok (kept, [])

theorem unquote_escaped (text rest : CString) :
    unquote false (text.flatMap escaped ++ '"' :: rest) = some (text, rest) := by
  induction text with
  | nil => rfl
  | cons c text ih =>
    rw [flatMap_cons, escaped]
    split
    · simp [unquote, ih]
    · rename_i plain
      rw [not_or] at plain
      simp [unquote, plain, ih]

theorem escapeLoop_spec (temp text rest : List Char) (clean : NUL ∉ text) (started : 0 < temp.length)
    (room : temp.length + 2 ≤ n) (safe : n = 3 → ∀ c ∈ text.head?, (escaped c).length = 1) :
    ∃ kept, escapeLoop n temp (text ++ NUL :: rest) = some (temp ++ kept.flatMap escaped) ∧ kept <+: text ∧
      temp.length + (kept.flatMap escaped).length + 2 ≤ n ∧
      (temp.length + (text.flatMap escaped).length + 2 ≤ n → kept = text) := by
  induction text generalizing temp with
  | nil => exact ⟨[], by simp [escapeLoop], prefix_rfl, room, fun _ => rfl⟩
  | cons c text ih =>
    obtain ⟨different, clean⟩ := not_or.mp (mem_cons.not.mp clean)
    have short : (escaped c).length = 1 ∨ (escaped c).length = 2 := by
      unfold escaped
      split <;> simp
    have alone : n = 3 → (escaped c).length = 1 := fun three => safe three c rfl
    rw [cons_append, escapeLoop]
    by_cases stops : n < temp.length + (escaped c).length + 2
    · refine ⟨[], ?_, nil_prefix, room, fun whole => ?_⟩
      · rw [sizeSub, if_pos (by omega : _ ≤ n), if_pos (by omega), flatMap_nil, append_nil]
      · rw [flatMap_cons, length_append] at whole
        omega
    · obtain ⟨kept, looped, before, fits, whole⟩ := ih (temp ++ escaped c) clean
        (by rw [length_append]; omega) (by rw [length_append]; omega) (by omega)
      rw [length_append] at fits whole
      refine ⟨c :: kept, ?_, cons_prefix_cons.mpr ⟨rfl, before⟩, ?_, fun all => ?_⟩
      · rw [if_neg, if_pos (by omega), looped, flatMap_cons, append_assoc]
        rw [sizeSub, if_pos (by omega), not_or]
        exact ⟨Ne.symm different, by omega⟩
      · rw [flatMap_cons, length_append]
        omega
      · rw [flatMap_cons, length_append] at all
        rw [whole (by omega)]

/-- In a buffer of three bytes the subtraction `buffer_size - 4` wraps. -/
theorem escapeString_three (special : c = '"' ∨ c = '\\') : escapeString [c, x, y] = none := by
  have found : ∃ d ∈ stringIn [c, x, y], d ∈ [' ', '\t', '"', '\\'] := by
    rcases special with rfl | rfl <;> simp [stringIn, NUL]
  have twice : escapeLoop 3 ['"'] [c, x, y] = escapeLoop 3 ['"', '\\', c] [x, y] := by
    rcases special with rfl | rfl <;> rfl
  have more : escapeLoop 3 ['"', '\\', c] [x, y] = some ['"', '\\', c] ∨
      escapeLoop 3 ['"', '\\', c] [x, y] = none := by
    unfold escapeLoop
    split
    · exact .inl rfl
    · rw [if_neg]
      · exact .inr rfl
      · unfold escaped
        split <;> simp
  rw [escapeString, if_pos found]
  rcases more with ended | failed
  · simp [twice, ended]
  · simp [twice, failed]

theorem sstrncpyAt_whole (src buf : List Char) (fits : src.length < buf.length) :
    ∃ behind, sstrncpyAt buf 0 src buf.length = some (src ++ NUL :: behind) ∧
      src.length + 1 + behind.length = buf.length := by
  have bytes : (src.take (buf.length - 1)).rightpad buf.length NUL =
      src ++ NUL :: replicate (buf.length - src.length - 1) NUL := by
    rw [take_of_length_le (by omega), rightpad, ← replicate_succ, Nat.sub_add_cancel (by omega)]
  refine ⟨replicate (buf.length - src.length - 1) NUL, ?_, by rw [length_replicate]; omega⟩
  rw [sstrncpyAt, bytes, poke, if_pos, take_zero, nil_append, drop_eq_nil_of_le, append_nil]
  all_goals
    simp
    omega

/-- The string of one quotation mark in three bytes fails the assertion. -/
theorem one_quote_aborts : stringIn ['"', NUL, NUL] = ['"'] ∧ escapeString ['"', NUL, NUL] = none :=
  ⟨rfl, escapeString_three (.inl rfl)⟩

/-- The escaped string is read back, except in a buffer of three bytes that begins with a special character. -/
theorem escape_string_reverses_iff (buffer : List Char) :
    Escapes buffer ↔ ¬ (buffer.length = 3 ∧ NUL ∈ buffer ∧ ∃ c ∈ buffer.head?, c = '"' ∨ c = '\\') := by
  constructor
  · rintro escapes ⟨three, terminated, c, first, special⟩
    obtain ⟨text, rest, shape, clean⟩ := eq_append_cons_of_mem terminated
    have inside : c ∈ text := by
      cases text with
      | nil =>
        rw [shape] at first
        obtain rfl := Option.some.inj first
        rcases special with same | same <;> cases same
      | cons d text =>
        rw [shape] at first
        obtain rfl := Option.some.inj first
        exact mem_cons_self
    obtain ⟨kept, behind, returned, _⟩ :=
      escapes text rest shape clean ⟨c, inside, by rcases special with rfl | rfl <;> decide⟩ three.ge
    obtain ⟨d, x, y, rfl⟩ := length_eq_three.mp three
    obtain rfl := Option.some.inj first
    rw [escapeString_three special] at returned
    cases returned
  · rintro safe text rest rfl clean found enough
    have alone : (text ++ NUL :: rest).length = 3 → ∀ c ∈ text.head?, (escaped c).length = 1 := by
      intro three c first
      unfold escaped
      split
      · rename_i special
        exact absurd ⟨three, by simp, c, by rw [head?_append, Option.mem_def.mp first]; rfl, special⟩ safe
      · rfl
    obtain ⟨kept, looped, before, fits, whole⟩ := escapeLoop_spec ['"'] text rest clean Nat.one_pos enough alone
    obtain ⟨behind, copied, size⟩ :=
      sstrncpyAt_whole (['"'] ++ kept.flatMap escaped ++ ['"']) (text ++ NUL :: rest) (by
        rw [length_append, length_append]
        exact fits)
    rw [length_append, length_append] at size
    refine ⟨kept, behind, ?_, ?_, before, fun all => whole (by rw [length_singleton]; omega), ?_⟩
    · rw [escapeString, if_pos (by rwa [stringIn_append clean]), if_neg (Nat.not_lt.mpr enough), looped]
      simp only [Option.bind_eq_bind, Option.bind_some, copied]
      rw [if_pos (by rw [length_append]; omega)]
      simp
    · rw [← size, length_singleton]
      omega
    · simp [parseString, isspace, unquote_escaped]

end NCollectd.Common
