import NCollectd.Cmds.Options
import NCollectd.Utils.MetaData
import NCollectd.Utils.ParseValues

/-! `cmd_parse_putval` and `cmd_destroy_putval` of `putval.c`. -/

namespace NCollectd.Cmds

open Common

/-- `cmd_putval_t`. -/
structure CmdPutval where
  rawIdentifier : Option CString
  vl : List ValueList
deriving DecidableEq

def CmdPutval.zero : CmdPutval := ⟨none, []⟩

/-- The variables of the loop: the meta data allocated so far, the scratch value list and the result. -/
structure PutvalState where
  heap : Heap MetaData
  scratch : ValueList
  putval : CmdPutval
deriving DecidableEq

/-- What `cmd_parse_putval` leaves behind: its status, its message, the structure and the meta data. -/
structure PutvalResult where
  status : CmdStatus
  message : Option CString
  putval : CmdPutval
  heap : Heap MetaData
deriving DecidableEq

/-- The daemon around the parser: the platform and the data sets of `plugin_get_ds`. -/
structure Daemon where
  platform : Platform
  pluginGetDs : CString → Option DataSet

variable (daemon : Daemon)

def intervalOption (value : CString) : Option CdTime :=
  let tmp := daemon.platform.strtod value
  if !tmp.failed && tmp.consumed ≠ 0 && Double.less (.fin 0) tmp.value then
    some (daemon.platform.doubleToCdtime tmp.value)
  else none

def isIntervalKey (key : CString) : Bool := strcasecmp "interval" key = 0

def isMetaKey (key : CString) : Bool := strncasecmp "meta:" key 5 = 0

def setOption (heap : Heap MetaData) (vl : ValueList) (key value : CString) :
    Option (CmdStatus × Heap MetaData × ValueList) :=
  if isIntervalKey key then
    some (.ok, heap, { vl with interval := (intervalOption daemon value).getD vl.interval })
  else if isMetaKey key then
    match vl.metaData with
    | some md => (metaDataAddString heap md (key.drop 5) value).map fun heap => (.ok, heap, vl)
    | none =>
      let (heap, md) := metaDataCreate heap
      (metaDataAddString heap md (key.drop 5) value).map fun heap => (.ok, heap, { vl with metaData := some md })
  else some (.error, heap, vl)

def valuesMessage : CString := "Parsing the values string failed."

def putvalStep (ds : DataSet) (s : PutvalState) (argument : CString × CdTime) :
    Option (CmdStatus × Option CString × PutvalState) :=
  match cmdParseOption argument.1 with
  | .ok (key, value) =>
    (setOption daemon s.heap s.scratch key value).map fun (status, heap, vl) =>
      (status, none, { s with heap := heap, scratch := vl })
  | .error .noOption =>
    match parseValues daemon.platform argument.2 argument.1 ds with
    | .error _ => some (.parseError, some valuesMessage, s)
    | .ok (time, values) =>
      let scratch := { s.scratch with time := time }
      some (.ok, none,
        { s with
          scratch := scratch
          putval := { s.putval with vl := s.putval.vl ++ [{ scratch with values := values }] } })
  | .error status => some (status, none, s)

def putvalLoop (ds : DataSet) (s : PutvalState) :
    List (CString × CdTime) → Option (CmdStatus × Option CString × PutvalState)
  | [] => some (.ok, none, s)
  | argument :: rest =>
    match putvalStep daemon ds s argument with
    | none => none
    | some (.ok, _, s) => putvalLoop ds s rest
    | some failed => some failed

def destroyMetaData (heap : Heap MetaData) : List ValueList → Option (Heap MetaData)
  | [] => some heap
  | vl :: rest => (metaDataDestroy heap vl.metaData).bind fun heap => destroyMetaData heap rest

/-- Destroying an object twice is undefined. -/
def cmdDestroyPutval (putval : CmdPutval) (heap : Heap MetaData) : Option (CmdPutval × Heap MetaData) :=
  (destroyMetaData heap putval.vl).map fun heap => (.zero, heap)

def missingMessage : CString := "Missing identifier and/or value-list."

def identifierMessage (identifier : CString) (status : Status) : CString :=
  "parse_identifier_vl(\"" ++ identifier ++ "\"): " ++ daemon.platform.strerror status

def typeMessage (type : CString) : CString := "1 Type `" ++ type ++ "' isn't defined."

def initialScratch (opts : CmdOptions) : ValueList :=
  match opts.identifierDefaultHost with
  | none => .init
  | some host => { ValueList.init with host := sstrncpy host dataMaxNameLen }

def openPutval (opts : CmdOptions) (argv : List CString) : Except CString (CString × ValueList × DataSet) :=
  match argv with
  | identifier :: _ :: _ =>
    match parseIdentifierVl identifier (initialScratch opts) with
    | .error status => .error (identifierMessage daemon identifier status)
    | .ok vl =>
      match daemon.pluginGetDs vl.type with
      | none => .error (typeMessage vl.type)
      | some ds => .ok (identifier, vl, ds)
  | _ => .error missingMessage

def cmdParsePutval (opts : CmdOptions) (argv : List (CString × CdTime)) : Option PutvalResult :=
  match openPutval daemon opts (argv.map Prod.fst) with
  | .error message => some ⟨.parseError, some message, .zero, .empty⟩
  | .ok (identifier, vl, ds) =>
    match putvalLoop daemon ds ⟨.empty, vl, ⟨some identifier, []⟩⟩ argv.tail with
    | none => none
    | some (.ok, message, s) => some ⟨.ok, message, s.putval, s.heap⟩
    | some (status, message, s) =>
      (cmdDestroyPutval s.putval s.heap).map fun (putval, heap) => ⟨status, message, putval, heap⟩

end NCollectd.Cmds
