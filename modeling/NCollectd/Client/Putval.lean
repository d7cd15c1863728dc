import NCollectd.Cmds.Lines
import NCollectd.Network.Protocol

/-! `lcc_putval` of the client library, which fills a buffer of fixed size. -/

namespace NCollectd.Client

open Network Cmds

/-- `printf` with `%.3f`, whose longest positive number has 309 digits before the point, and with `%g`. -/
structure Printf where
  fixed3 : Double → CString
  general : UInt64 → CString
  plain : ∀ value, ∀ c ∈ fixed3 value, isPlain c = true
  short : ∀ value, Double.less (.fin 0) value = true → (fixed3 value).length ≤ 313

def LCC_NAME_LEN : Nat := 64

def commandSize : Nat := 1024

def sstrcat (size : Nat) (dest src : CString) : CString := (dest ++ src).take (size - 1)

def sstrcatf (size : Nat) (dest formatted : CString) : CString := sstrcat size dest (formatted.take (size - 1))

def nameText (name : LccName) : CString := name.text.map fun byte => Char.ofNat byte.toNat

def lccIdentifierToString (stringSize : Nat) (ident : LccIdentifier) : Except Status CString :=
  if stringSize < 6 then .error (-1)
  else
    let plugin :=
      if nameText ident.pluginInstance = [] then nameText ident.plugin
      else nameText ident.plugin ++ '-' :: nameText ident.pluginInstance
    let type :=
      if nameText ident.typeInstance = [] then nameText ident.type
      else nameText ident.type ++ '-' :: nameText ident.typeInstance
    .ok ((nameText ident.host ++ '/' :: plugin ++ '/' :: type).take (stringSize - 1))

def valueText (printf : Printf) (value : LccValue) : CString :=
  if value.type = typeCounter then ':' :: printUnsigned value.bits.toNat
  else if value.type = typeGauge then
    if isNan value.bits then ":U" else ':' :: printf.general value.bits
  else if value.type = typeDerive then ':' :: printUnsigned value.bits.toNat
  else if value.type = typeAbsolute then ':' :: printUnsigned value.bits.toNat
  else []

def commandHead (printf : Printf) (identEsc : CString) (vl : LccValueList) : CString :=
  let command := sstrcatf commandSize [] ("PUTVAL " ++ identEsc)
  let command :=
    if Double.less (.fin 0) vl.interval then
      sstrcatf commandSize command (" interval=" ++ printf.fixed3 vl.interval)
    else command
  if Double.less (.fin 0) vl.time then sstrcatf commandSize command (' ' :: printf.fixed3 vl.time)
  else sstrcat commandSize command " N"

def putvalCommand (printf : Printf) (identEsc : CString) (vl : LccValueList) : CString :=
  vl.values.foldl (fun command value => sstrcatf commandSize command (valueText printf value))
    (commandHead printf identEsc vl)

/-- Whether there is a file, whether `fprintf` succeeds, and the status in the answer if it can be read. -/
structure Connection where
  fh : Bool
  fprintf : CString → Bool
  lccReceive : CString → Except Status Int

def lccSendreceive (c : Connection) (command : CString) : Except Status Int × Option CString :=
  let line := command ++ ['\r', '\n']
  if !c.fh then (.error (-1), none)
  else if !c.fprintf line then (.error (-1), none)
  else (c.lccReceive line, some line)

def lccPutval (printf : Printf) (c : Connection) (vl : LccValueList) : Option (Status × Option CString) :=
  if vl.values = [] then some (-1, none)
  else
    match lccIdentifierToString (6 * LCC_NAME_LEN) vl.identifier with
    | .error status => some (status, none)
    | .ok identStr =>
      (lccStrescape identStr (12 * LCC_NAME_LEN)).map fun identEsc =>
        match lccSendreceive c (putvalCommand printf identEsc vl) with
        | (.error status, sent) => (status, sent)
        | (.ok status, sent) => (if status ≠ 0 then -1 else 0, sent)

end NCollectd.Client
