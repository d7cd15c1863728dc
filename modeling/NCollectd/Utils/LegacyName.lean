import NCollectd.Utils.ParseValues

namespace NCollectd.Common

open List

def appendName (written : CString × Nat) (str : CString) : Except Status (CString × Nat) :=
  if written.2 ≤ str.length then .error ENOBUFS else .ok (written.1 ++ str, written.2 - str.length)

def instancePieces (name : Option CString) : List CString :=
  match name with
  | none | some [] => []
  | some name => [['-'], name]

def formatName (retLen : Nat) (hostname plugin : CString) (pluginInstance : Option CString) (type : CString)
    (typeInstance : Option CString) : Option (Except Status CString) :=
  match ([hostname, ['/'], plugin] ++ instancePieces pluginInstance ++ [['/'], type] ++
      instancePieces typeInstance).foldlM appendName ([], retLen) with
  | .error status => some (.error status)
  | .ok (text, bufferSize) => if 0 < bufferSize then some (.ok text) else none

/-- The components of an identifier that can be told apart in its text. -/
structure LegacyName where
  host : CString
  plugin : CString
  pluginInstance : Option CString
  type : CString
  typeInstance : Option CString
  short : ∀ name ∈ [host, plugin, pluginInstance.getD [], type, typeInstance.getD []],
    name.length < dataMaxNameLen ∧ '/' ∉ name
  whole : '-' ∉ plugin ∧ '-' ∉ type

def withInstance (name : CString) (inst : Option CString) : CString := name ++ (instancePieces inst).flatten

def LegacyName.text (name : LegacyName) : CString :=
  name.host ++ '/' :: (withInstance name.plugin name.pluginInstance ++
    '/' :: withInstance name.type name.typeInstance)

theorem foldlM_appendName (pieces : List CString) (text : CString) (size : Nat) (room : 0 < size ∨ pieces ≠ []) :
    pieces.foldlM appendName (text, size) =
      if pieces.flatten.length < size then .ok (text ++ pieces.flatten, size - pieces.flatten.length)
      else .error ENOBUFS := by
  induction pieces generalizing text size with
  | nil => simp_all [pure, Except.pure]
  | cons piece pieces ih =>
    rw [foldlM_cons, appendName]
    split
    · rename_i full
      have beyond : ¬(piece :: pieces).flatten.length < size := by
        simp at full ⊢
        omega
      rw [if_neg beyond]
      rfl
    · rename_i fits
      have step := ih (text ++ piece) (size - piece.length) (.inl (by omega))
      rw [show (Except.ok (text ++ piece, size - piece.length) >>= fun next => pieces.foldlM appendName next) =
        pieces.foldlM appendName (text ++ piece, size - piece.length) from rfl, step]
      have same : pieces.flatten.length < size - piece.length ↔ (piece :: pieces).flatten.length < size := by
        simp
        omega
      simp only [same, flatten_cons, append_assoc, length_append, Nat.sub_sub]

theorem splitInstance_withInstance (whole : '-' ∉ name) (inst : Option CString) :
    ∃ found, splitInstance (withInstance name inst) = (name, found) ∧ found.getD [] = inst.getD [] := by
  have keep : ∀ c ∈ name, decide (c ≠ '-') = true := by
    rintro c member
    exact decide_eq_true fun same => whole (same ▸ member)
  match inst with
  | none | some [] =>
    have dropped : name.dropWhile (· ≠ '-') = [] := dropWhile_eq_nil_iff.mpr keep
    refine ⟨none, ?_, rfl⟩
    change splitInstance (name ++ []) = _
    rw [append_nil, splitInstance, dropped]
  | some (c :: rest) =>
    have text : withInstance name (some (c :: rest)) = name ++ '-' :: c :: rest := by
      simp [withInstance, instancePieces]
    refine ⟨some (c :: rest), ?_, rfl⟩
    rw [text, splitInstance, dropWhile_append_of_pos keep, takeWhile_append_of_pos keep]
    simp

theorem slash_notMem_withInstance (inName : '/' ∉ name) (inInstance : '/' ∉ inst.getD []) :
    '/' ∉ withInstance name inst := by
  match inst with
  | none | some [] => simpa [withInstance, instancePieces] using inName
  | some (c :: rest) => simpa [withInstance, instancePieces, inName] using inInstance

theorem length_withInstance (name : CString) (inst : Option CString) :
    (withInstance name inst).length ≤ name.length + 1 + (inst.getD []).length := by
  match inst with
  | none | some [] => simp [withInstance, instancePieces]
  | some (c :: rest) => simp [withInstance, instancePieces, Nat.add_assoc, Nat.add_comm 1]

/-- `format_name` fails exactly where the text and its terminator do not fit, and the text is read back. -/
theorem formatName_reads_back (name : LegacyName) (retLen : Nat) :
    formatName retLen name.host name.plugin name.pluginInstance name.type name.typeInstance =
        some (if name.text.length + 1 ≤ retLen then .ok name.text else .error ENOBUFS) ∧
      parseIdentifierVl name.text .init = .ok { ValueList.init with
        host := name.host
        plugin := name.plugin
        pluginInstance := name.pluginInstance.getD []
        type := name.type
        typeInstance := name.typeInstance.getD [] } := by
  have pieces : ([name.host, ['/'], name.plugin] ++ instancePieces name.pluginInstance ++ [['/'], name.type] ++
      instancePieces name.typeInstance).flatten = name.text := by
    simp [LegacyName.text, withInstance]
  constructor
  · rw [formatName, foldlM_appendName _ _ _ (.inr (by simp)), pieces]
    by_cases fits : name.text.length < retLen
    · simp [fits, Nat.succ_le_of_lt fits]
    · simp [fits, mt Nat.lt_of_succ_le fits]
  · have short := name.short
    simp only [forall_mem_cons] at short
    obtain ⟨host, plugin, pluginInstance, type, typeInstance, -⟩ := short
    have copied : sstrncpy name.text (6 * dataMaxNameLen) = name.text := by
      have first := length_withInstance name.plugin name.pluginInstance
      have second := length_withInstance name.type name.typeInstance
      apply take_of_length_le
      simp only [LegacyName.text, length_append, length_cons, dataMaxNameLen] at *
      omega
    have fields : name.text.splitOn '/' =
        [name.host, withInstance name.plugin name.pluginInstance, withInstance name.type name.typeInstance] := by
      rw [LegacyName.text, splitOn_append_cons_self_of_not_mem host.2,
        splitOn_append_cons_self_of_not_mem (slash_notMem_withInstance plugin.2 pluginInstance.2),
        splitOn_eq_singleton (slash_notMem_withInstance type.2 typeInstance.2)]
    obtain ⟨foundPlugin, splitPlugin, samePlugin⟩ := splitInstance_withInstance name.whole.1 name.pluginInstance
    obtain ⟨foundType, splitType, sameType⟩ := splitInstance_withInstance name.whole.2 name.typeInstance
    have kept : ∀ {text : CString}, text.length < dataMaxNameLen → sstrncpy text dataMaxNameLen = text :=
      fun below => take_of_length_le (Nat.le_sub_one_of_lt below)
    have instance_kept : ∀ {found : Option CString}, (found.getD []).length < dataMaxNameLen →
        (found.map (sstrncpy · dataMaxNameLen)).getD [] = found.getD [] := by
      rintro (_ | found) below
      · rfl
      · exact kept below
    simp only [parseIdentifierVl, copied, parseIdentifier, fields, splitPlugin, splitType, kept host.1, kept plugin.1,
      kept type.1, ValueList.init, instance_kept (samePlugin ▸ pluginInstance.1),
      instance_kept (sameType ▸ typeInstance.1), samePlugin, sameType]

def interfaceName : LegacyName where
  host := "h"
  plugin := "interface"
  pluginInstance := some "eth0"
  type := "if_octets"
  typeInstance := none
  short := by decide
  whole := by decide

theorem formatName_reads_back_interface :
    formatName 128 "h" "interface" (some "eth0".toList) "if_octets" none =
        some (.ok "h/interface-eth0/if_octets".toList) ∧
      parseIdentifierVl "h/interface-eth0/if_octets" .init = .ok { ValueList.init with
        host := "h"
        plugin := "interface"
        pluginInstance := "eth0"
        type := "if_octets"
        typeInstance := [] } :=
  formatName_reads_back interfaceName 128

end NCollectd.Common
