import NCollectd.Base.Numerals
import NCollectd.Cmds.Split
import NCollectd.Cache.Model

/-! `parse_identifier_vl`, `parse_value` and `parse_values` of `common.c`. -/

namespace NCollectd.Common

open Cmds (isspace)

/-- The value, the number of characters up to `endptr`, and whether `errno` was set. -/
structure Conversion (α : Type) where
  value : α
  consumed : Nat
  failed : Bool
deriving DecidableEq

/-- The floating point side of the C library and the machine. -/
structure Platform where
  strtod : CString → Conversion Double
  /-- `DOUBLE_TO_CDTIME_T`, with whatever the machine makes of a number out of range. -/
  doubleToCdtime : Double → CdTime
  strerror : Status → CString

/-- An integer after blanks and a sign. -/
structure Numeral where
  negative : Bool
  magnitude : Nat
  consumed : Nat
deriving DecidableEq

def scanNumeral (text : CString) : Numeral :=
  let blanks := (text.takeWhile isspace).length
  let rest := text.drop blanks
  let signs := if rest.head? = some '-' || rest.head? = some '+' then 1 else 0
  let read := readNumeral (rest.drop signs)
  ⟨rest.head? = some '-', read.1, if read.2 = 0 then 0 else blanks + signs + read.2⟩

def strtoull (text : CString) : Conversion UInt64 :=
  let numeral := scanNumeral text
  if numeral.consumed = 0 then ⟨0, 0, false⟩
  else if 2 ^ 64 ≤ numeral.magnitude then ⟨UInt64.ofNat (2 ^ 64 - 1), numeral.consumed, true⟩
  else if numeral.negative then ⟨0 - UInt64.ofNat numeral.magnitude, numeral.consumed, false⟩
  else ⟨UInt64.ofNat numeral.magnitude, numeral.consumed, false⟩

def strtoll (text : CString) : Conversion Int :=
  let numeral := scanNumeral text
  if numeral.consumed = 0 then ⟨0, 0, false⟩
  else if numeral.negative then
    if 2 ^ 63 < numeral.magnitude then ⟨-2 ^ 63, numeral.consumed, true⟩
    else ⟨-(numeral.magnitude : Int), numeral.consumed, false⟩
  else if 2 ^ 63 ≤ numeral.magnitude then ⟨2 ^ 63 - 1, numeral.consumed, true⟩
  else ⟨numeral.magnitude, numeral.consumed, false⟩

/-- `data_set_t`: the types of the data sources. -/
structure DataSet where
  ds : List Nat
deriving DecidableEq

def trimEnd (text : CString) : CString := (text.reverse.dropWhile isspace).reverse

/-- The end of `parse_value`: nothing read is an error, trailing garbage is not. -/
def Conversion.accept (conversion : Conversion α) (make : α → Value) : Except Status Value :=
  if conversion.consumed = 0 then .error (-1) else .ok (make conversion.value)

def parseValue (platform : Platform) (valueOrig : CString) (dsType : Nat) : Except Status Value :=
  let value := trimEnd valueOrig
  if dsType = DS_TYPE_COUNTER then (strtoull value).accept .counter
  else if dsType = DS_TYPE_GAUGE then (platform.strtod value).accept .gauge
  else if dsType = DS_TYPE_DERIVE then (strtoll value).accept .derive
  else .error (-1)

def zeroValue (dsType : Nat) : Value :=
  if dsType = DS_TYPE_GAUGE then .gauge (.fin 0)
  else if dsType = DS_TYPE_DERIVE then .derive 0
  else .counter 0

def strtok (delimiter : Char) (text : CString) : List CString := (text.splitOn delimiter).filter (· ≠ [])

def parseTime (platform : Platform) (now : CdTime) (token : CString) : Except Status CdTime :=
  if token = "N" then .ok now
  else
    let tmp := platform.strtod token
    if tmp.failed || tmp.consumed = 0 || tmp.consumed ≠ token.length then .error (-1)
    else .ok (platform.doubleToCdtime tmp.value)

def parseToken (platform : Platform) (dsType : Nat) (token : CString) : Except Status Value :=
  if token = "U" && dsType = DS_TYPE_GAUGE then .ok (.gauge .nan)
  else parseValue platform token dsType

def parseTokens (platform : Platform) (now : CdTime) (read : List Value) :
    List Nat → CdTime → List CString → Except Status (CdTime × List Value)
  | later, time, [] => if read = [] then .error (-1) else .ok (time, read ++ later.map zeroValue)
  | [], _, _ :: _ => .error (-1)
  | dsType :: later, time, token :: tokens =>
    if time = 0 then
      match parseTime platform now token with
      | .error status => .error status
      | .ok time => parseTokens platform now read (dsType :: later) time tokens
    else
      match parseToken platform dsType token with
      | .error status => .error status
      | .ok value => parseTokens platform now (read ++ [value]) later time tokens
termination_by _ _ tokens => tokens.length

def parseValues (platform : Platform) (now : CdTime) (buffer : CString) (ds : DataSet) :
    Except Status (CdTime × List Value) :=
  parseTokens platform now [] ds.ds 0 (strtok ':' buffer)

def parseIdentifier (str : CString) (defaultHost : Option CString) :
    Except Status (CString × CString × CString × Option CString) :=
  match str.splitOn '/' with
  | [host, plugin, type, dataSource] => .ok (host, plugin, type, some dataSource)
  | [host, plugin, type] => .ok (host, plugin, type, none)
  | [plugin, type] =>
    match defaultHost with
    | none => .error EINVAL
    | some host => if host = [] then .error EINVAL else .ok (host, plugin, type, none)
  | _ => .error EINVAL

/-- `value_list_t`; `metaData` is the pointer `meta`. -/
structure ValueList where
  values : List Value
  time : CdTime
  interval : CdTime
  host : CString
  plugin : CString
  pluginInstance : CString
  type : CString
  typeInstance : CString
  metaData : Option Block
deriving DecidableEq

def ValueList.init : ValueList := ⟨[], 0, 0, [], [], [], [], [], none⟩

def splitInstance (name : CString) : CString × Option CString :=
  match name.dropWhile (· ≠ '-') with
  | [] => (name, none)
  | _ :: after => (name.takeWhile (· ≠ '-'), some after)

def parseIdentifierVl (str : CString) (vl : ValueList) : Except Status ValueList :=
  let strCopy := sstrncpy str (6 * dataMaxNameLen)
  let defaultHost := if vl.host = [] then none else some vl.host
  match parseIdentifier strCopy defaultHost with
  | .error status => .error status
  | .ok (_, _, _, some _) => .error EINVAL
  | .ok (host, pluginField, typeField, none) =>
    let (plugin, pluginInstance) := splitInstance pluginField
    let (type, typeInstance) := splitInstance typeField
    .ok { vl with
      host := sstrncpy host dataMaxNameLen
      plugin := sstrncpy plugin dataMaxNameLen
      pluginInstance := (pluginInstance.map (sstrncpy · dataMaxNameLen)).getD vl.pluginInstance
      type := sstrncpy type dataMaxNameLen
      typeInstance := (typeInstance.map (sstrncpy · dataMaxNameLen)).getD vl.typeInstance }

theorem parseIdentifierVl_frame (parsed : parseIdentifierVl str vl = .ok vl') :
    vl'.interval = vl.interval ∧ vl'.metaData = vl.metaData := by
  unfold parseIdentifierVl at parsed
  grind

end NCollectd.Common
