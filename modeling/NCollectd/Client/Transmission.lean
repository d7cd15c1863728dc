import NCollectd.Client.CommandLine
import NCollectd.Cmds.PutvalOptions

namespace NCollectd.Client

open Network Cmds Common List

/-- A value list of counters and derives, without a time. -/
structure IntegerList extends LccValueList where
  filled : values ≠ []
  integers : ∀ value ∈ values, value.type = typeCounter ∨ value.type = typeDerive
  untimed : time = .fin 0

def sourceType (value : LccValue) : Nat := if value.type = typeCounter then DS_TYPE_COUNTER else DS_TYPE_DERIVE

def signed (bits : UInt64) : Int := if bits.toNat < 2 ^ 63 then bits.toNat else (bits.toNat : Int) - 2 ^ 64

def integerOf (value : LccValue) : Value :=
  if value.type = typeCounter then .counter value.bits else .derive (signed value.bits)

def receivedValues (platform : Platform) (now : CdTime) (line : CString) (ds : DataSet) :
    List (Except Status (CdTime × List Value)) :=
  match cmdSplit line with
  | .error _ => []
  | .ok fields => ((fields.drop 2).filter isValues).map fun field => Common.parseValues platform now field ds

/-- `lcc_putval` fails without sending, or the line it sends has exactly the integers. -/
def Transmits (printf : Printf) (platform : Platform) (c : Connection) (now : CdTime) (vl : LccValueList) : Prop :=
  ∃ status sent, lccPutval printf c vl = some (status, sent) ∧
    ((status ≠ 0 ∧ sent = none) ∨
      ∃ line, sent = some line ∧
        receivedValues platform now line ⟨vl.values.map sourceType⟩ = [.ok (now, vl.values.map integerOf)])

def cutOff (printf : Printf) (room : Nat) : List LccValue → List LccValue
  | [] => []
  | value :: values =>
    if (valueText printf value).length ≤ room then cutOff printf (room - (valueText printf value).length) values
    else value :: values

/-- No derive value is negative, and every value cut off is zero. -/
def Transmittable (printf : Printf) (vl : LccValueList) : Prop :=
  (∀ value ∈ vl.values, value.type = typeDerive → value.bits.toNat < 2 ^ 63) ∧
    ∀ value ∈ cutOff printf (room printf vl) vl.values, value.bits = 0

section Values

variable {value : LccValue} {values : List LccValue}

theorem valueText_integer (integer : value.type = typeCounter ∨ value.type = typeDerive) :
    valueText printf value = ':' :: printUnsigned value.bits.toNat := by
  have notGauge : typeDerive ≠ typeCounter ∧ typeDerive ≠ typeGauge := by decide
  rcases integer with counter | derive
  · simp [valueText, counter]
  · simp [valueText, derive, notGauge]

theorem printUnsigned_long (long : 1 < (printUnsigned n).length) : 0 < n := by
  apply pos_of_ne_zero
  intro zero
  rw [zero, printUnsigned_zero] at long
  exact absurd long (by decide)

theorem isInteger_take (bits : UInt64) (started : 0 < k) : IsInteger ((printUnsigned bits.toNat).take k) := by
  have small := bits.toNat_lt
  refine ⟨fun c member => isDigit_printUnsigned (mem_of_mem_take member), ?_⟩
  rcases lt_or_ge k (printUnsigned bits.toNat).length with cut | whole
  · obtain ⟨less, count⟩ := readNumeral_cut (printUnsigned_long (by omega)) started cut
    exact ⟨by omega, by omega⟩
  · have length : 0 < (printUnsigned bits.toNat).length := length_pos_of_ne_nil printUnsigned_ne_nil
    rw [take_of_length_le whole, readNumeral_printUnsigned]
    exact ⟨ne_of_gt length, small⟩

theorem mem_cutTexts
    (member : token ∈ cutTexts space (values.map fun value => printUnsigned value.bits.toNat)) : IsInteger token := by
  induction values generalizing space with
  | nil => cases member
  | cons value values ih =>
    rw [map_cons, cutTexts] at member
    have length : 0 < (printUnsigned value.bits.toNat).length := length_pos_of_ne_nil printUnsigned_ne_nil
    split at member
    · rcases mem_cons.mp member with whole | later
      · have full : (printUnsigned value.bits.toNat).take _ = printUnsigned value.bits.toNat := take_length
        rw [whole, ← full]
        exact isInteger_take value.bits length
      · exact ih later
    · split at member
      · cases member
      · rw [mem_singleton.mp member]
        exact isInteger_take value.bits (by omega)

theorem length_cutTexts_le (room : Nat) (texts : List CString) : (cutTexts room texts).length ≤ texts.length := by
  induction texts generalizing room with
  | nil => exact le_refl _
  | cons text texts ih =>
    unfold cutTexts
    split
    · exact Nat.succ_le_succ (ih _)
    · split
      · exact Nat.zero_le _
      · simp

section

variable (integer : value.type = typeCounter ∨ value.type = typeDerive)
include integer

theorem stored_eq_iff : storedInteger (sourceType value) value.bits.toNat = integerOf value ↔
      (value.type = typeDerive → value.bits.toNat < 2 ^ 63) := by
  have different : typeDerive ≠ typeCounter ∧ DS_TYPE_DERIVE ≠ DS_TYPE_COUNTER := by decide
  have small := value.bits.toNat_lt
  rcases integer with counter | derive
  · simp [storedInteger, sourceType, integerOf, counter, different.1.symm]
  · simp only [storedInteger, sourceType, integerOf, derive, if_neg different.1, if_neg different.2,
      Value.derive.injEq, signed, forall_const]
    split <;> omega

theorem stored_cut_ne
    (less : n < value.bits.toNat) : storedInteger (sourceType value) n ≠ integerOf value := by
  have different : typeDerive ≠ typeCounter ∧ DS_TYPE_DERIVE ≠ DS_TYPE_COUNTER := by decide
  have small := value.bits.toNat_lt
  rcases integer with counter | derive
  · simp only [storedInteger, sourceType, integerOf, counter, ↓reduceIte, ne_eq, Value.counter.injEq]
    intro same
    have number := congrArg UInt64.toNat same
    rw [UInt64.toNat_ofNat_of_lt' (lt_trans less small)] at number
    omega
  · simp only [storedInteger, sourceType, integerOf, derive, if_neg different.1, if_neg different.2, ne_eq,
      Value.derive.injEq, signed]
    split <;> omega

theorem zero_eq_iff : zeroValue (sourceType value) = integerOf value ↔ value.bits = 0 := by
  have counterType : DS_TYPE_COUNTER ≠ DS_TYPE_GAUGE ∧ DS_TYPE_COUNTER ≠ DS_TYPE_DERIVE := by decide
  have deriveType : DS_TYPE_DERIVE ≠ DS_TYPE_GAUGE ∧ typeDerive ≠ typeCounter := by decide
  have small := value.bits.toNat_lt
  rcases integer with counter | derive
  · simp [zeroValue, sourceType, integerOf, counter, counterType, eq_comm]
  · simp only [zeroValue, sourceType, integerOf, derive, if_neg deriveType.1, if_neg deriveType.2, ↓reduceIte,
      Value.derive.injEq, signed, ← UInt64.toNat_inj, UInt64.toNat_zero]
    split <;> omega

end

theorem zeros_eq_iff (integers : ∀ value ∈ values, value.type = typeCounter ∨ value.type = typeDerive) :
    (values.map sourceType).map zeroValue = values.map integerOf ↔ ∀ value ∈ values, value.bits = 0 := by
  rw [map_map, map_inj_left]
  exact forall₂_congr fun value member => zero_eq_iff (integers value member)

theorem nonnegative_of_zero (zero : value.bits = 0) : value.bits.toNat < 2 ^ 63 := by
  rw [zero]
  decide

theorem stored_cut_iff (printf : Printf)
    (integers : ∀ value ∈ values, value.type = typeCounter ∨ value.type = typeDerive) (room : Nat) :
    storedIntegers (values.map sourceType) (cutTexts room (values.map fun value => printUnsigned value.bits.toNat)) =
        values.map integerOf ↔
      (∀ value ∈ values, value.type = typeDerive → value.bits.toNat < 2 ^ 63) ∧
        ∀ value ∈ cutOff printf room values, value.bits = 0 := by
  induction values generalizing room with
  | nil => simp [storedIntegers, cutTexts, cutOff]
  | cons value values ih =>
    have integer := integers value mem_cons_self
    have others := fun later member => integers later (mem_cons_of_mem value member)
    have text : (valueText printf value).length = (printUnsigned value.bits.toNat).length + 1 := by
      rw [valueText_integer integer, length_cons]
    simp only [map_cons, cutTexts, cutOff, text]
    by_cases whole : (printUnsigned value.bits.toNat).length + 1 ≤ room
    · rw [if_pos whole, if_pos whole, storedIntegers, readNumeral_printUnsigned, cons.injEq, ih others,
        stored_eq_iff integer, forall_mem_cons, and_assoc]
    · rw [if_neg whole, if_neg whole]
      have bounded : (∀ later ∈ value :: values, later.bits = 0) →
          ∀ later ∈ value :: values, later.type = typeDerive → later.bits.toNat < 2 ^ 63 :=
        fun zero later member _ => nonnegative_of_zero (zero later member)
      rw [and_iff_right_of_imp bounded]
      by_cases none : room ≤ 1
      · rw [if_pos none]
        exact zeros_eq_iff integers
      · rw [if_neg none]
        have positive : 0 < value.bits.toNat := printUnsigned_long (by omega)
        obtain ⟨less, -⟩ := readNumeral_cut positive (show 0 < room - 1 by omega) (by omega)
        refine iff_of_false ?_ ?_
        · intro same
          exact stored_cut_ne integer less (cons.inj same).1
        · intro zero
          rw [zero value mem_cons_self] at positive
          exact absurd positive (by decide)

end Values

section Line

variable (printf : Printf) (vl : IntegerList)

def valuesField : CString := 'N' :: (vl.values.flatMap (valueText printf)).take (room printf vl.toLccValueList)

theorem mem_valuesField (member : c ∈ valuesField printf vl) : c = 'N' ∨ c = ':' ∨ c.isDigit = true := by
  rcases mem_cons.mp member with first | later
  · exact .inl first
  · obtain ⟨value, inside, found⟩ := mem_flatMap.mp (mem_of_mem_take later)
    rw [valueText_integer (vl.integers value inside)] at found
    rcases mem_cons.mp found with colon | digit
    · exact .inr (.inl colon)
    · exact .inr (.inr (isDigit_printUnsigned digit))

theorem isPlain_valuesField (member : c ∈ valuesField printf vl) : isPlain c = true := by
  rcases mem_valuesField printf vl member with rfl | rfl | digit
  · decide
  · decide
  · exact isPlain_digit digit

theorem isKeyChar_valuesField (member : c ∈ valuesField printf vl) : isKeyChar c = true := by
  rcases mem_valuesField printf vl member with rfl | rfl | digit
  · decide
  · decide
  · simp [isKeyChar, Char.isAlphanum, digit]

theorem isValues_valuesField : isValues (valuesField printf vl) = true := by
  have word := cmdParseOption_word fun c => isKeyChar_valuesField printf vl
  simp only [isValues, word]

private def commandPiece : Piece := .word "PUTVAL" (by decide) (all_eq_true.mp (by decide))

private def identifierPiece (ident : LccIdentifier) : Piece :=
  .quoted (Cmds.escapeText (identifierText ident)) (identifierText ident) (quoted_escapeText _)
    (fun member => nul_notMem_quoteText (nul_notMem_identifierText ident) (by simp [quoteText, member]))
    (identifierText_ne_nil ident)

theorem isPlain_interval (value : Double) :
    ∀ c ∈ "interval=".toList ++ printf.fixed3 value, isPlain c = true := by
  have option : "interval=".toList.all isPlain = true := by decide
  intro c member
  rcases mem_append.mp member with front | back
  · exact all_eq_true.mp option c front
  · exact printf.plain value c back

private def intervalPieces (interval : Double) : List Piece :=
  if Double.less (.fin 0) interval then
    [.word ("interval=" ++ printf.fixed3 interval) (by simp) (isPlain_interval printf interval)]
  else []

private def valuesPiece : Piece :=
  .word (valuesField printf vl) (cons_ne_nil _ _) fun _ => isPlain_valuesField printf vl

theorem isValues_interval (text : CString) : isValues ("interval=" ++ text) = false := by
  have option : cmdParseOption ("interval" ++ '=' :: text) = .ok ("interval", text) :=
    cmdParseOption_option (all_eq_true.mp (by decide)) (by decide) text
  have split : "interval=" = "interval" ++ ['='] := by decide
  have shape : "interval=" ++ text = "interval" ++ '=' :: text := by
    rw [split, append_assoc]
    rfl
  simp only [isValues, shape, option]

theorem filter_intervalPieces (interval : Double) :
    ((intervalPieces printf interval).map Piece.text).filter isValues = [] := by
  unfold intervalPieces
  split
  · simp only [Piece.word, map_cons, map_nil, filter_cons, isValues_interval, Bool.false_eq_true,
      ↓reduceIte, filter_nil]
  · rfl

theorem spaced_intervalPieces :
    spacedPieces (intervalPieces printf vl.interval) = intervalText printf vl.toLccValueList := by
  have split : " interval=" = ' ' :: "interval=" := by decide
  unfold intervalPieces intervalText
  split
  · simp [spacedPieces, Piece.word, split]
  · rfl

theorem lineOf_shape (first second last : Piece) (pieces : List Piece) (ending : CString) :
    lineOf first (second :: pieces ++ [last]) ending =
      first.raw ++ ' ' :: (second.raw ++ (spacedPieces pieces ++ ' ' :: last.raw)) ++ ending := by
  simp [lineOf, spacedPieces]

theorem command_shape (first : start = word ++ [' '])
    (last : stop = [' ', 'N']) :
    start ++ quoted ++ option ++ stop ++ values ++ ending =
      word ++ ' ' :: (quoted ++ (option ++ ' ' :: 'N' :: values)) ++ ending := by
  subst first last
  simp

theorem putvalCommand_pieces (ending : CString) :
    putvalCommand printf (quoteText (identifierText vl.identifier)) vl.toLccValueList ++ ending =
      lineOf commandPiece
        (identifierPiece vl.identifier :: intervalPieces printf vl.interval ++ [valuesPiece printf vl]) ending := by
  rw [putvalCommand_eq printf vl.toLccValueList vl.untimed, lineOf_shape, spaced_intervalPieces]
  exact command_shape (by decide) (by decide)

theorem receivedValues_eq (platform : Platform) (now : CdTime) (ds : DataSet)
    (blank : ∀ c ∈ ending, isspace c = true) :
    receivedValues platform now
        (putvalCommand printf (quoteText (identifierText vl.identifier)) vl.toLccValueList ++ ending) ds =
      [Common.parseValues platform now (valuesField printf vl) ds] := by
  have last : isValues (valuesPiece printf vl).text = true := isValues_valuesField printf vl
  rw [putvalCommand_pieces, receivedValues, cmdSplit_lineOf _ _ blank]
  simp only [cons_append, map_cons, map_append, drop_succ_cons, drop_zero, map_nil,
    filter_append, filter_intervalPieces, nil_append, filter_cons, last, ↓reduceIte, filter_nil]
  rfl

private def numberTexts (values : List LccValue) : List CString :=
  values.map fun value => printUnsigned value.bits.toNat

theorem flatMap_valueText
    (integers : ∀ value ∈ values, value.type = typeCounter ∨ value.type = typeDerive) :
    values.flatMap (valueText printf) = (numberTexts values).flatMap (':' :: ·) := by
  induction values with
  | nil => rfl
  | cons value values ih =>
    have first : valueText printf value = ':' :: printUnsigned value.bits.toNat :=
      valueText_integer (integers value mem_cons_self)
    have later := ih fun other member => integers other (mem_cons_of_mem value member)
    rw [flatMap_cons, first, later]
    rfl

theorem numberTexts_words (member : text ∈ numberTexts values) : text ≠ [] ∧ ':' ∉ text := by
  obtain ⟨value, -, rfl⟩ := mem_map.mp member
  refine ⟨printUnsigned_ne_nil, ?_⟩
  intro colon
  exact absurd (isDigit_printUnsigned colon) (by decide)

theorem strtok_valuesField :
    strtok ':' (valuesField printf vl) =
      ['N'] :: cutTexts (room printf vl.toLccValueList) (numberTexts vl.values) := by
  rw [valuesField, flatMap_valueText printf vl.integers]
  have word : ['N'] ≠ [] ∧ ':' ∉ ['N'] := by decide
  exact strtok_cut word.1 word.2 (fun text => numberTexts_words) _

theorem cutTexts_started : cutTexts (room printf vl.toLccValueList) (numberTexts vl.values) ≠ [] := by
  obtain ⟨value, values, shape⟩ := exists_cons_of_ne_nil vl.filled
  have digits : (printUnsigned value.bits.toNat).length ≤ 20 :=
    (Nat.length_toDigits_le_iff (by decide) (by decide)).mpr (lt_trans value.bits.toNat_lt (by decide))
  have short := length_headText_le printf vl.toLccValueList
  have enough : (printUnsigned value.bits.toNat).length + 1 ≤ room printf vl.toLccValueList := by
    simp only [room, commandSize]
    omega
  rw [numberTexts, shape, map_cons, cutTexts, if_pos enough]
  exact cons_ne_nil _ _

theorem parseValues_valuesField (platform : Platform) (running : now ≠ 0) :
    Common.parseValues platform now (valuesField printf vl) ⟨vl.values.map sourceType⟩ =
      .ok (now, storedIntegers (vl.values.map sourceType)
        (cutTexts (room printf vl.toLccValueList) (numberTexts vl.values))) := by
  have sources : ∀ dsType ∈ vl.values.map sourceType, dsType = DS_TYPE_COUNTER ∨ dsType = DS_TYPE_DERIVE := by
    intro dsType member
    obtain ⟨value, -, rfl⟩ := mem_map.mp member
    unfold sourceType
    split
    · exact .inl rfl
    · exact .inr rfl
  have fewer := length_cutTexts_le (room printf vl.toLccValueList) (numberTexts vl.values)
  have values : parseTokens platform now [] (vl.values.map sourceType) now
      (cutTexts (room printf vl.toLccValueList) (numberTexts vl.values)) = .ok (now, [] ++ storedIntegers _ _) :=
    parseTokens_integers platform now running (fun token => mem_cutTexts) sources
      (by simpa [numberTexts] using fewer) (.inr (cutTexts_started printf vl))
  have timed : Common.parseTime platform now ['N'] = .ok now := rfl
  rw [Common.parseValues, strtok_valuesField]
  cases types : vl.values.map sourceType with
  | nil => exact absurd (map_eq_nil_iff.mp types) vl.filled
  | cons dsType later =>
    rw [types] at values
    rw [parseTokens, if_pos rfl, timed]
    exact values

def sentLine : CString :=
  putvalCommand printf (quoteText (identifierText vl.identifier)) vl.toLccValueList ++ ['\r', '\n']

theorem lccPutval_eq (c : Connection) :
    lccPutval printf c vl.toLccValueList =
      some (match lccSendreceive c
            (putvalCommand printf (quoteText (identifierText vl.identifier)) vl.toLccValueList) with
        | (.error status, sent) => (status, sent)
        | (.ok status, sent) => (if status ≠ 0 then -1 else 0, sent)) := by
  rw [lccPutval, if_neg vl.filled, lccIdentifierToString_eq]
  exact congrArg (Option.map _) (lccStrescape_identifier vl.identifier)

theorem transmits_unsent (platform : Platform) (now : CdTime)
    (unsent : (c.fh && c.fprintf (sentLine printf vl)) = false) :
    Transmits printf platform c now vl.toLccValueList := by
  have failed : lccSendreceive c
      (putvalCommand printf (quoteText (identifierText vl.identifier)) vl.toLccValueList) = (.error (-1), none) := by
    unfold lccSendreceive
    cases opened : c.fh with
    | false => rfl
    | true =>
      rw [opened, Bool.true_and] at unsent
      unfold sentLine at unsent
      simp [unsent, ↓reduceIte]
  refine ⟨-1, none, ?_, .inl ⟨by decide, rfl⟩⟩
  rw [lccPutval_eq, failed]

theorem transmits_sent_iff (platform : Platform) (running : now ≠ 0)
    (sent : (c.fh && c.fprintf (sentLine printf vl)) = true) :
    Transmits printf platform c now vl.toLccValueList ↔ Transmittable printf vl.toLccValueList := by
  obtain ⟨opened, printed⟩ := Bool.and_eq_true_iff.mp sent
  unfold sentLine at printed
  have received := receivedValues_eq printf vl platform now ⟨vl.values.map sourceType⟩
    (all_eq_true.mp (show ['\r', '\n'].all isspace = true by decide))
  rw [parseValues_valuesField printf vl platform running] at received
  have done : lccSendreceive c
      (putvalCommand printf (quoteText (identifierText vl.identifier)) vl.toLccValueList) =
        (c.lccReceive (sentLine printf vl), some (sentLine printf vl)) := by
    simp [lccSendreceive, opened, printed, ↓reduceIte, sentLine]
  have ended : ∃ status, lccPutval printf c vl.toLccValueList = some (status, some (sentLine printf vl)) := by
    rw [lccPutval_eq, done]
    cases c.lccReceive (sentLine printf vl) with
    | error status | ok status => exact ⟨_, rfl⟩
  obtain ⟨status, ended⟩ := ended
  rw [Transmittable, ← stored_cut_iff printf vl.integers]
  constructor
  · rintro ⟨status', sent', same, outcome⟩
    rw [ended] at same
    cases same
    rcases outcome with ⟨-, unsent⟩ | ⟨line, sameLine, read⟩
    · cases unsent
    · cases sameLine
      rw [sentLine, received] at read
      exact congrArg Prod.snd (Except.ok.inj (cons.inj read).1)
  · intro same
    refine ⟨status, some (sentLine printf vl), ended, .inr ⟨_, rfl, ?_⟩⟩
    rw [sentLine, received]
    exact congrArg (fun values => [Except.ok (now, values)]) same

end Line

/-- The server gets the integers exactly if none is negative and those that do not fit are zero. -/
theorem lcc_putval_transmits_iff (printf : Printf) (platform : Platform) (vl : IntegerList) :
    (∀ c now, now ≠ 0 → Transmits printf platform c now vl.toLccValueList) ↔
      Transmittable printf vl.toLccValueList := by
  constructor
  · intro always
    exact (transmits_sent_iff printf vl platform (show (1 : CdTime) ≠ 0 by decide) rfl).mp
      (always ⟨true, fun _ => true, fun _ => .ok 0⟩ 1 (by decide))
  · intro transmittable c now running
    cases sent : c.fh && c.fprintf (sentLine printf vl) with
    | false => exact transmits_unsent printf vl platform now sent
    | true => exact (transmits_sent_iff printf vl platform running sent).mpr transmittable

def silentPrintf : Printf := ⟨fun _ => [], fun _ => [], nofun, fun _ _ => Nat.zero_le _⟩

def integerPlatform : Platform := ⟨fun _ => ⟨.fin 0, 0, false⟩, fun _ => 0, fun _ => []⟩

def negativeList : LccValueList := ⟨.zero, [⟨typeDerive, 0xffffffffffffffff⟩]⟩

/-- One counter at no particular time. -/
def counterList : IntegerList :=
  { negativeList with
    values := [⟨typeCounter, 5⟩]
    filled := by simp
    integers := by simp
    untimed := rfl }

theorem lcc_putval_transmits_counter :
    ∀ c now, now ≠ 0 → Transmits silentPrintf integerPlatform c now counterList.toLccValueList :=
  (lcc_putval_transmits_iff silentPrintf integerPlatform counterList).mpr ⟨by decide +kernel, by decide +kernel⟩

theorem lcc_putval_sends_negative :
    ¬ Transmits silentPrintf integerPlatform ⟨true, fun _ => true, fun _ => .ok 0⟩ 1 negativeList := by
  have differs : ((lccPutval silentPrintf ⟨true, fun _ => true, fun _ => .ok 0⟩ negativeList).any fun result =>
      result.2.any fun line =>
        receivedValues integerPlatform 1 line ⟨negativeList.values.map sourceType⟩ =
          [.ok (1, [.derive (2 ^ 63 - 1)])]) =
      true := by
    decide +kernel
  rintro ⟨status, sent, ended, outcome⟩
  obtain ⟨result, same, some⟩ := (Option.any_eq_true _ _).mp differs
  obtain ⟨line, sentSame, read⟩ := (Option.any_eq_true _ _).mp some
  cases same.symm.trans ended
  rcases outcome with ⟨-, unsent⟩ | ⟨line', sameLine, right⟩
  · rw [unsent] at sentSame
    cases sentSame
  · cases sentSame.symm.trans sameLine
    exact absurd ((of_decide_eq_true read).symm.trans right) (by decide)

end NCollectd.Client
