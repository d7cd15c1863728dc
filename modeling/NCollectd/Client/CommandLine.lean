import NCollectd.Client.Putval

namespace NCollectd.Client

open Network Cmds List

theorem sstrcatf_eq (size : Nat) (dest text : CString) :
    sstrcatf size dest text = (dest ++ text).take (size - 1) := by
  simp only [sstrcatf, sstrcat, take_append, take_take]
  congr 2
  omega

theorem sstrcatf_fits (fits : (dest ++ text).length ≤ size - 1) : sstrcatf size dest text = dest ++ text := by
  rw [sstrcatf_eq, take_of_length_le fits]

theorem sstrcatf_after_cut (size : Nat) (front text : CString) :
    sstrcatf size (front.take (size - 1)) text = (front ++ text).take (size - 1) := by
  simp only [sstrcatf_eq, take_append, take_take, length_take, Nat.min_self]
  congr 2
  omega

theorem foldl_sstrcatf (size : Nat) (render : α → CString) (items : List α) (front : CString) :
    items.foldl (fun dest item => sstrcatf size dest (render item)) (front.take (size - 1)) =
      (front ++ items.flatMap render).take (size - 1) := by
  induction items generalizing front with
  | nil => simp
  | cons item items ih =>
    rw [foldl_cons, sstrcatf_after_cut, ih, flatMap_cons, append_assoc]

theorem ofNat_byte (byte : UInt8) : (Char.ofNat byte.toNat).toNat = byte.toNat := by
  have valid : byte.toNat.isValidChar := Or.inl (by have small := byte.toNat_lt; omega)
  simp only [Char.ofNat, valid, ↓reduceDIte, Char.ofNatAux, Char.toNat]
  exact UInt32.toNat_ofNatLT ..

theorem nul_notMem_nameText (name : LccName) : NUL ∉ nameText name := by
  intro member
  obtain ⟨byte, inside, zero⟩ := mem_map.mp member
  have same : byte.toNat = 0 := by
    rw [← ofNat_byte, zero]
    rfl
  have empty : byte = 0 := UInt8.toNat_inj.mp same
  exact name.clean (empty ▸ inside)

theorem length_nameText_le (name : LccName) : (nameText name).length ≤ 63 := by
  rw [nameText, length_map]
  exact Nat.le_of_lt_succ name.short

def joined (name part : LccName) : CString :=
  if nameText part = [] then nameText name else nameText name ++ '-' :: nameText part

theorem nul_notMem_joined (name part : LccName) : NUL ∉ joined name part := by
  have different : NUL ≠ '-' := by decide
  unfold joined
  split
  · exact nul_notMem_nameText name
  · simp [nul_notMem_nameText, different]

theorem length_joined_le (name part : LccName) : (joined name part).length ≤ 127 := by
  have first := length_nameText_le name
  have second := length_nameText_le part
  unfold joined
  split
  · omega
  · simp only [length_append, length_cons]
    omega

def identifierText (ident : LccIdentifier) : CString :=
  nameText ident.host ++ '/' :: joined ident.plugin ident.pluginInstance ++
    '/' :: joined ident.type ident.typeInstance

section

variable (ident : LccIdentifier)

theorem length_identifierText_le : (identifierText ident).length ≤ 319 := by
  have host := length_nameText_le ident.host
  have plugin := length_joined_le ident.plugin ident.pluginInstance
  have type := length_joined_le ident.type ident.typeInstance
  simp only [identifierText, length_append, length_cons]
  omega

theorem identifierText_ne_nil : identifierText ident ≠ [] := by
  simp [identifierText]

theorem nul_notMem_identifierText : NUL ∉ identifierText ident := by
  have different : NUL ≠ '/' := by decide
  simp [identifierText, nul_notMem_nameText, nul_notMem_joined, different]

theorem lccIdentifierToString_eq : lccIdentifierToString (6 * LCC_NAME_LEN) ident = .ok (identifierText ident) := by
  have short := length_identifierText_le ident
  have whole : (identifierText ident).take (6 * LCC_NAME_LEN - 1) = identifierText ident := by
    apply take_of_length_le
    simp only [LCC_NAME_LEN]
    omega
  exact congrArg Except.ok whole

end

theorem length_escapeText_le (s : CString) : (Cmds.escapeText s).length ≤ 2 * s.length := by
  induction s with
  | nil => exact le_refl _
  | cons c s ih =>
    have split : Cmds.escapeText (c :: s) =
        (if c = '"' || c = '\\' then ['\\', c] else [c]) ++ Cmds.escapeText s := rfl
    have pair : (if (c = '"' || c = '\\') = true then ['\\', c] else [c]).length ≤ 2 := by
      split <;> simp
    rw [split, length_append, length_cons]
    omega

theorem lccStrescape_identifier (ident : LccIdentifier) :
    lccStrescape (identifierText ident) (12 * LCC_NAME_LEN) = some (quoteText (identifierText ident)) := by
  apply lccStrescape_eq
  have short := length_identifierText_le ident
  have doubled := length_escapeText_le (identifierText ident)
  simp only [Fits, LCC_NAME_LEN]
  omega

theorem length_quoted_le (ident : LccIdentifier) : (quoteText (identifierText ident)).length ≤ 640 := by
  have short := length_identifierText_le ident
  have doubled := length_escapeText_le (identifierText ident)
  simp only [quoteText, length_append, length_cons, length_nil]
  omega

variable (printf : Printf) (vl : LccValueList)

def intervalText : CString :=
  if Double.less (.fin 0) vl.interval then " interval=" ++ printf.fixed3 vl.interval else []

def headText : CString :=
  "PUTVAL " ++ quoteText (identifierText vl.identifier) ++ intervalText printf vl ++ " N"

theorem length_intervalText_le : (intervalText printf vl).length ≤ 323 := by
  have option : " interval=".toList.length = 10 := by decide
  unfold intervalText
  split
  · rename_i positive
    have short := printf.short vl.interval positive
    rw [length_append, option]
    omega
  · exact Nat.zero_le _

theorem length_parts_le {word quoted option ending : CString} (first : word.length = 7)
    (second : quoted.length ≤ 640) (third : option.length ≤ 323) (last : ending.length = 2) :
    (word ++ quoted).length ≤ 647 ∧ (word ++ quoted ++ option).length ≤ 970 ∧
      (word ++ quoted ++ option ++ ending).length ≤ 972 := by
  simp only [length_append]
  omega

theorem length_headText_parts :
    ("PUTVAL " ++ quoteText (identifierText vl.identifier)).length ≤ 647 ∧
      ("PUTVAL " ++ quoteText (identifierText vl.identifier) ++ intervalText printf vl).length ≤ 970 ∧
      (headText printf vl).length ≤ 972 :=
  length_parts_le (by decide) (length_quoted_le vl.identifier) (length_intervalText_le printf vl) (by decide)

theorem length_headText_le : (headText printf vl).length ≤ 972 := (length_headText_parts printf vl).2.2

theorem commandHead_eq (untimed : vl.time = .fin 0) :
    commandHead printf (quoteText (identifierText vl.identifier)) vl = headText printf vl := by
  obtain ⟨first, second, third⟩ := length_headText_parts printf vl
  have opened : sstrcatf commandSize [] ("PUTVAL " ++ quoteText (identifierText vl.identifier)) =
      "PUTVAL " ++ quoteText (identifierText vl.identifier) :=
    sstrcatf_fits (le_trans first (by decide))
  have option : (if Double.less (.fin 0) vl.interval then
        sstrcatf commandSize ("PUTVAL " ++ quoteText (identifierText vl.identifier))
          (" interval=" ++ printf.fixed3 vl.interval)
      else "PUTVAL " ++ quoteText (identifierText vl.identifier)) =
      "PUTVAL " ++ quoteText (identifierText vl.identifier) ++ intervalText printf vl := by
    unfold intervalText at second ⊢
    split
    · rename_i positive
      rw [if_pos positive] at second
      exact sstrcatf_fits (le_trans second (by decide))
    · rw [append_nil]
  have zero : Double.less (.fin 0) (.fin 0) = false := by decide
  simp only [commandHead, opened, option, untimed, zero, Bool.false_eq_true, ↓reduceIte]
  exact take_of_length_le (le_trans third (by decide))

def room : Nat := commandSize - 1 - (headText printf vl).length

theorem putvalCommand_eq (untimed : vl.time = .fin 0) :
    putvalCommand printf (quoteText (identifierText vl.identifier)) vl =
      headText printf vl ++ (vl.values.flatMap (valueText printf)).take (room printf vl) := by
  have short := length_headText_le printf vl
  have whole : (headText printf vl).take (commandSize - 1) = headText printf vl := by
    exact take_of_length_le (le_trans short (by decide))
  have folded := foldl_sstrcatf commandSize (valueText printf) vl.values (headText printf vl)
  rw [whole] at folded
  rw [putvalCommand, commandHead_eq printf vl untimed, folded, take_append, whole]
  rfl

end NCollectd.Client
