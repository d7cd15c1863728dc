import NCollectd.Base.Libc

/-! The groups of processes of `plugins/processes/processes.c` on Linux. -/

namespace NCollectd.Processes

open Function

/-- The `derive_t` fields of the records. -/
inductive Counter where
  | vmemMinflt
  | vmemMajflt
  | cpuUser
  | cpuSystem
  | ioRchar
  | ioWchar
  | ioSyscr
  | ioSyscw
  | ioDiskr
  | ioDiskw
  | cswitchVol
  | cswitchInvol
deriving DecidableEq, Repr

/-- The `unsigned long` fields of the records. -/
inductive Size where
  | numProc
  | numLwp
  | numFd
  | numMaps
  | vmemSize
  | vmemRss
  | vmemData
  | vmemCode
  | stackSize
deriving DecidableEq, Repr

def ulongRange : Nat := 2 ^ 64

/-- `process_entry_t`. -/
structure ProcessEntry where
  id : Nat
  name : CString
  sizes : Size → Nat
  counters : Counter → Int
  hasIo : Bool
  hasCswitch : Bool
  hasFd : Bool
  hasMaps : Bool

/-- `procstat_entry_t`: what is remembered of a process. -/
structure ProcstatEntry where
  id : Nat
  age : Nat
  counters : Counter → Int

/-- `procstat_t`: a group, with its regular expression as a predicate. -/
structure Procstat where
  name : CString
  re : Option (CString → Bool)
  sizes : Size → Nat
  counters : Counter → Int
  reportFdNum : Bool
  reportMapsNum : Bool
  reportCtxSwitch : Bool
  instances : List ProcstatEntry

def procstatNameLen : Nat := 256

def Procstat.registered (name : CString) (re : Option (CString → Bool))
    (reportFdNum reportMapsNum reportCtxSwitch : Bool) : Procstat where
  name := sstrncpy name procstatNameLen
  re := re
  sizes := fun _ => 0
  counters
    | .vmemMinflt | .vmemMajflt | .cpuUser | .cpuSystem => 0
    | _ => -1
  reportFdNum := reportFdNum
  reportMapsNum := reportMapsNum
  reportCtxSwitch := reportCtxSwitch
  instances := []

/-- The fields of `/proc/<pid>/stat` that are read. -/
structure StatFields where
  comm : CString
  state : Char
  minflt : Int
  majflt : Int
  utime : Int
  stime : Int
  numThreads : Nat
  vsize : Nat
  rss : Nat
  startstack : Nat
  kstkesp : Nat

/-- The lines of `/proc/<pid>/status` that are read, zero if missing. -/
structure StatusFields where
  vmData : Nat
  vmLib : Nat
  vmExe : Nat
  threads : Nat

/-- The files of a process; `none` cannot be read. A line of the file `io` may be missing. -/
structure ProcessFiles where
  stat : Option StatFields
  status : Option StatusFields
  io : Option (Counter → Option Int)
  cswitch : Option (Int × Int)
  maps : Int
  fd : Int
  cmdline : Option CString

/-- A process in `/proc`; `start` tells those that had its number one after the other apart. -/
structure Process where
  pid : Nat
  start : Nat
  files : ProcessFiles

def configHz : Int := 100

def ProcessEntry.zero (id : Nat) : ProcessEntry where
  id := id
  name := []
  sizes := fun _ => 0
  counters := fun _ => 0
  hasIo := false
  hasCswitch := false
  hasFd := false
  hasMaps := false

def readStatus (stat : StatFields) (status : Option StatusFields) (sizes : Size → Nat) : Size → Nat :=
  let sizes := update sizes .numLwp (stat.numThreads % ulongRange)
  let sizes :=
    match status with
    | none => update (update sizes .vmemData (ulongRange - 1)) .vmemCode (ulongRange - 1)
    | some status =>
      let sizes := update sizes .vmemData (status.vmData * 1024 % ulongRange)
      let sizes := update sizes .vmemCode ((status.vmExe + status.vmLib) * 1024 % ulongRange)
      if status.threads ≠ 0 then update sizes .numLwp (status.threads % ulongRange) else sizes
  let sizes := if sizes .numLwp = 0 then update sizes .numLwp 1 else sizes
  update sizes .numProc 1

def cpuTime (jiffies : Int) : Int := (jiffies * 1000000).tdiv configHz

def readCounters (stat : StatFields) : Counter → Int
  | .vmemMinflt => stat.minflt
  | .vmemMajflt => stat.majflt
  | .cpuUser => cpuTime stat.utime
  | .cpuSystem => cpuTime stat.stime
  | _ => -1

def psReadProcess (pagesize : Nat) (process : Process) : Option ProcessEntry := do
  let stat ← process.files.stat
  let entry := { ProcessEntry.zero process.pid with name := sstrncpy stat.comm procstatNameLen }
  if stat.state = 'Z' then some entry
  else
    let sizes := readStatus stat process.files.status entry.sizes
    let stackSize := if stat.kstkesp < stat.startstack then stat.startstack - stat.kstkesp
      else stat.kstkesp - stat.startstack
    let sizes := update sizes .vmemSize (stat.vsize % ulongRange)
    let sizes := update sizes .vmemRss (stat.rss * pagesize % ulongRange)
    let sizes := update sizes .stackSize (stackSize % ulongRange)
    some { entry with sizes := sizes, counters := readCounters stat }

def psListMatch (name : CString) (cmdline : Option CString) (ps : Procstat) : Bool :=
  match ps.re with
  | some re =>
    match cmdline with
    | some (c :: rest) => re (c :: rest)
    | _ => re name
  | none => strcmp ps.name name = 0

def psUpdateCounter (wantInit : Bool) (groupCounter currCounter newCounter : Int) : Int × Int :=
  if wantInit then (groupCounter, newCounter)
  else
    let currValue :=
      if newCounter < currCounter then (newCounter + (ulongRange - 1 - currCounter)) % ulongRange
      else (newCounter - currCounter) % ulongRange
    let groupCounter := if groupCounter = -1 then 0 else groupCounter
    (Int.bmod (groupCounter + currValue) ulongRange, newCounter)

def Counter.isIo : Counter → Bool
  | .ioRchar | .ioWchar | .ioSyscr | .ioSyscw | .ioDiskr | .ioDiskw => true
  | _ => false

def psReadIo (files : ProcessFiles) (entry : ProcessEntry) : ProcessEntry :=
  match files.io with
  | none => entry
  | some line =>
    { entry with
      counters := fun counter =>
        if counter.isIo then (line counter).getD (entry.counters counter) else entry.counters counter }

def psFillDetails (ps : Procstat) (files : ProcessFiles) (entry : ProcessEntry) : ProcessEntry :=
  let entry := if entry.hasIo then entry else { psReadIo files entry with hasIo := true }
  let entry :=
    if ps.reportCtxSwitch ∧ ¬ entry.hasCswitch then
      match files.cswitch with
      | none => { entry with hasCswitch := true }
      | some (vol, invol) =>
        { entry with
          counters := update (update entry.counters .cswitchVol vol) .cswitchInvol invol
          hasCswitch := true }
    else entry
  let entry :=
    if ps.reportMapsNum then
      { entry with
        sizes := if ¬ entry.hasMaps ∧ 0 < files.maps then update entry.sizes .numMaps files.maps.toNat
          else entry.sizes
        hasMaps := true }
    else entry
  if ps.reportFdNum then
    { entry with
      sizes := if ¬ entry.hasFd ∧ 0 < files.fd then update entry.sizes .numFd files.fd.toNat
        else entry.sizes
      hasFd := true }
  else entry

def counterKnown (entry : ProcessEntry) : Counter → Bool
  | .ioRchar | .ioWchar => entry.counters .ioRchar ≠ -1 ∧ entry.counters .ioWchar ≠ -1
  | .ioSyscr | .ioSyscw => entry.counters .ioSyscr ≠ -1 ∧ entry.counters .ioSyscw ≠ -1
  | .ioDiskr | .ioDiskw => entry.counters .ioDiskr ≠ -1 ∧ entry.counters .ioDiskw ≠ -1
  | .cswitchVol | .cswitchInvol => entry.counters .cswitchVol ≠ -1 ∧ entry.counters .cswitchInvol ≠ -1
  | _ => true

def findInstance (instances : List ProcstatEntry) (id : Nat) : ProcstatEntry :=
  (instances.find? fun pse => pse.id = id).getD ⟨id, 0, fun _ => 0⟩

def putInstance (pse : ProcstatEntry) : List ProcstatEntry → List ProcstatEntry
  | [] => [pse]
  | first :: rest => if first.id = pse.id then pse :: rest else first :: putInstance pse rest

def addToGroup (wantInit : Bool) (ps : Procstat) (entry : ProcessEntry) : Procstat :=
  let pse := findInstance ps.instances entry.id
  let updated (counter : Counter) : Int × Int :=
    if counterKnown entry counter then
      psUpdateCounter wantInit (ps.counters counter) (pse.counters counter) (entry.counters counter)
    else (ps.counters counter, pse.counters counter)
  { ps with
    sizes := fun size => (ps.sizes size + entry.sizes size) % ulongRange
    counters := fun counter => (updated counter).1
    instances := putInstance ⟨entry.id, 0, fun counter => (updated counter).2⟩ ps.instances }

def listAdd (wantInit : Bool) (cmdline : Option CString) (files : ProcessFiles) :
    ProcessEntry → List Procstat → List Procstat
  | _, [] => []
  | entry, ps :: rest =>
    if psListMatch entry.name cmdline ps then
      let entry := psFillDetails ps files entry
      addToGroup wantInit ps entry :: listAdd wantInit cmdline files entry rest
    else ps :: listAdd wantInit cmdline files entry rest

def psListAdd (wantInit : Bool) (files : ProcessFiles) (entry : ProcessEntry) (list : List Procstat) : List Procstat :=
  if entry.id = 0 then list else listAdd wantInit files.cmdline files entry list

def resetGroup (ps : Procstat) : Procstat :=
  { ps with
    sizes := fun _ => 0
    instances := (ps.instances.filter fun pse => pse.age = 0).map fun pse => { pse with age := 1 } }

structure PluginState where
  wantInit : Bool
  listHead : List Procstat

def psRead (pagesize : Nat) (state : PluginState) (proc : Option (List Process)) : PluginState :=
  let listHead := state.listHead.map resetGroup
  match proc with
  | none => { state with listHead := listHead }
  | some table =>
    { wantInit := false
      listHead := table.foldl
        (fun list process =>
          if process.pid < 1 then list
          else
            match psReadProcess pagesize process with
            | none => list
            | some entry => psListAdd state.wantInit process.files entry list) listHead }

end NCollectd.Processes
