import NCollectd.Cmds.Options
import NCollectd.Utils.ParseValues

/-! `putmetric.c`: a metric as a command line, and back. -/

namespace NCollectd.Cmds

open Common LabelSet

/-- The conversions of `printf` for floating point numbers: `%.3f` and `GAUGE_FORMAT`. -/
structure MetricPrintf where
  fixed3 : Double → CString
  gaugeFormat : Double → CString

def valueMarshalText (page : PageSize) (printf : MetricPrintf) (buf : Strbuf) (value : Value) (type : MetricType) :
    Option (Status × Strbuf) :=
  match type with
  | .gauge | .untyped => value.gauge?.map fun gauge => strbufPrint page buf (printf.gaugeFormat gauge)
  | .counter => value.counter?.map fun counter => strbufPrint page buf (printUnsigned counter.toNat)
  | .distribution => some (EINVAL, buf)

def typeOption : MetricType → Option CString
  | .untyped => some []
  | .counter => some " type=COUNTER"
  | .gauge => some " type=GAUGE"
  | .distribution => none

def putmetricEscape : CString := ['\\', '"', '\n', '\r', '\t']

def formatLabel (page : PageSize) (labels : LabelArray) (i : Nat) (buf : Strbuf) : Option Strbuf :=
  match pairName labels i, pairValue labels i with
  | some name, some value =>
    let buf := (strbufPrint page buf (" label:" ++ name ++ ['=', '"'])).2
    let buf := (strbufPrintEscaped page buf value putmetricEscape '\\').2
    some (strbufPrint page buf ['"']).2
  | _, _ => none

def formatLabels (page : PageSize) (labels : LabelArray) (buf : Strbuf) : Nat → Option Strbuf
  | 0 => some buf
  | i + 1 => (formatLabels page labels buf i).bind (formatLabel page labels i)

def cmdFormatPutmetric (page : PageSize) (printf : MetricPrintf) (buf : Strbuf) (m : Metric) :
    Option (Status × Strbuf) :=
  let buf := (strbufPrint page buf "PUTMETRIC ").2
  let buf := (strbufPrint page buf m.family.name).2
  match typeOption m.family.type with
  | none => some (EINVAL, buf)
  | some option =>
    let buf := if option = [] then buf else (strbufPrint page buf option).2
    let buf :=
      if m.time ≠ 0 then (strbufPrint page buf (" time=" ++ printf.fixed3 (cdtimeToDouble m.time))).2 else buf
    let buf :=
      if m.interval ≠ 0 then
        (strbufPrint page buf (" interval=" ++ printf.fixed3 (cdtimeToDouble m.interval))).2
      else buf
    (formatLabels page m.label buf m.label.num).bind fun buf =>
      valueMarshalText page printf (strbufPrint page buf [' ']).2 m.value m.family.type

def timeOption (platform : Platform) (value : CString) : Except CmdStatus CdTime :=
  let d := platform.strtod value
  if d.failed || d.consumed ≠ value.length || Double.less d.value (.fin 0) then .error .error
  else .ok (platform.doubleToCdtime d.value)

def typeNamed (value : CString) : Option MetricType :=
  if strcasecmp "GAUGE" value = 0 then some .gauge
  else if strcasecmp "COUNTER" value = 0 then some .counter
  else if strcasecmp "UNTYPED" value = 0 then some .untyped
  else none

def labelName (key value : CString) : CString := if key.length = 5 then value else key.drop 6

def setMetricOption (platform : Platform) (m : Metric) (key value : CString) : Option (CmdStatus × Metric) :=
  if strcasecmp "type" key = 0 then
    match typeNamed value with
    | none => some (.error, m)
    | some type => some (.ok, { m with family.type := type })
  else if strcasecmp "interval" key = 0 then
    match timeOption platform value with
    | .error status => some (status, m)
    | .ok interval => some (.ok, { m with interval := interval })
  else if strcasecmp "time" key = 0 then
    match timeOption platform value with
    | .error status => some (status, m)
    | .ok time => some (.ok, { m with time := time })
  else if strncasecmp "label:" key 5 = 0 then
    (metricLabelSet m (labelName key value) (some value)).map fun (status, m) =>
      (if status ≠ 0 then .error else .ok, m)
  else some (.error, m)

/-- The variables of the loop: the metric with its family, and `next_pos`. -/
structure PutmetricState where
  metric : Metric
  nextPos : Nat
deriving DecidableEq

def putmetricStep (platform : Platform) (s : PutmetricState) (argument : CString) :
    Option (CmdStatus × PutmetricState) :=
  match cmdParseOption argument with
  | .ok (key, value) =>
    (setMetricOption platform s.metric key value).map fun (status, m) => (status, { s with metric := m })
  | .error .noOption =>
    if s.nextPos = 0 then some (.ok, ⟨{ s.metric with family.name := argument }, s.nextPos + 1⟩)
    else if s.nextPos = 1 then
      match parseValue platform argument s.metric.family.type.number with
      | .error _ => some (.error, s)
      | .ok value => some (.ok, ⟨{ s.metric with value := value }, s.nextPos + 1⟩)
    else some (.ok, { s with nextPos := s.nextPos + 1 })
  | .error status => some (status, s)

def putmetricLoop (platform : Platform) (s : PutmetricState) : List CString → Option (CmdStatus × PutmetricState)
  | [] => some (.ok, s)
  | argument :: rest =>
    match putmetricStep platform s argument with
    | none => none
    | some (.ok, s) => putmetricLoop platform s rest
    | some failed => some failed

def PutmetricState.initial : PutmetricState := ⟨⟨⟨[], .untyped⟩, .empty, .gauge (.fin 0), 0, 0⟩, 0⟩

def cmdParsePutmetric (platform : Platform) (argv : List CString) : Option (Except CmdStatus Metric) :=
  if argv.length < 2 then some (.error .error)
  else
    (putmetricLoop platform .initial argv).map fun (result, s) =>
      if result = .ok then (if s.nextPos ≠ 2 then .error .error else .ok s.metric) else .error result

/-- `cmd_type_t`. -/
inductive CmdType where
  | flush
  | getval
  | listval
  | putval
  | putmetric
deriving DecidableEq

def commandNames : List (CString × CmdType) :=
  [("FLUSH", .flush), ("GETVAL", .getval), ("LISTVAL", .listval), ("PUTVAL", .putval),
    ("PUTMETRIC", .putmetric)]

def cmdParsev (argv : List CString) : Except CmdStatus (CmdType × List CString) :=
  match argv with
  | [] => .error .error
  | command :: rest =>
    match commandNames.find? fun named => strcasecmp named.1 command = 0 with
    | none => .error .unknownCommand
    | some (_, type) => .ok (type, rest)

def cmdParseMetric (platform : Platform) (line : CString) : Option (Except CmdStatus Metric) :=
  match cmdSplit line with
  | .error (.parseError _) => some (.error .parseError)
  | .error _ => none
  | .ok fields =>
    match cmdParsev fields with
    | .error status => some (.error status)
    | .ok (.putmetric, argv) => cmdParsePutmetric platform argv
    | .ok _ => none

end NCollectd.Cmds
