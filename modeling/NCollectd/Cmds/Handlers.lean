import NCollectd.Cmds.Putmetric
import NCollectd.Cmds.PutvalOwnership

/-! The handlers of the text commands in `utils/cmds`. -/

namespace NCollectd.Cmds

open Common List

/-- `cmd_flush_t`. -/
structure CmdFlush where
  timeout : Double
  plugins : List CString
  identifiers : List CString

def CmdFlush.zero : CmdFlush := ⟨.fin 0, [], []⟩

/-- The member of the union that a parser has filled in; `LISTVAL` leaves it zeroed. -/
inductive CmdMember where
  | flush (flush : CmdFlush)
  | getval (metric : Metric)
  | listval
  | putval (putval : CmdPutval) (heap : Heap MetaData)
  | putmetric (metric : Metric)

/-- `cmd_t`: the tag and the union are set apart from each other. -/
structure Cmd where
  type : CmdType
  member : CmdMember

def CmdMember.type : CmdMember → CmdType
  | flush _ => .flush
  | getval _ => .getval
  | listval => .listval
  | putval .. => .putval
  | putmetric _ => .putmetric

/-- The daemon around the commands: its clock, its other functions and the statuses that they answer. -/
structure Service extends Daemon where
  clock : Nat → CdTime
  parseLegacyIdentifier : CString → Option Metric
  ucGetRate : Metric → Status
  ucGetNames : Status
  dispatchMetricFamily : Metric → Status

/-- The text `host/plugin/type` that the handler prints for an identifier. -/
def identifierText (host plugin type : CString) : CString := host ++ '/' :: (plugin ++ '/' :: type)

def flushOption (platform : Platform) (opts : CmdOptions) (flush : CmdFlush) (key value : CString) :
    Except CmdStatus CmdFlush :=
  if strcasecmp "plugin" key = 0 then .ok { flush with plugins := flush.plugins ++ [value] }
  else if strcasecmp "identifier" key = 0 then
    match parseIdentifier value opts.identifierDefaultHost with
    | .error _ => .error .parseError
    | .ok (host, plugin, type, _) =>
      .ok { flush with identifiers := flush.identifiers ++ [identifierText host plugin type] }
  else if strcasecmp "timeout" key = 0 then
    let timeout := platform.strtod value
    match timeout.value with
    | .fin number =>
      if timeout.consumed = 0 ∨ timeout.failed then .error .parseError
      else .ok { flush with timeout := .fin (max number 0) }
    | _ => .error .parseError
  else .error .parseError

def cmdParseFlush (platform : Platform) (opts : CmdOptions) (flush : CmdFlush) :
    List CString → Except CmdStatus CmdFlush
  | [] => .ok flush
  | argument :: rest =>
    match cmdParseOption argument with
    | .error _ => .error .parseError
    | .ok (key, value) =>
      match flushOption platform opts flush key value with
      | .error status => .error status
      | .ok flush => cmdParseFlush platform opts flush rest

def cmdParseGetval (service : Service) : List CString → Except CmdStatus Metric
  | [identifier] => (service.parseLegacyIdentifier identifier).elim (.error .parseError) .ok
  | _ => .error .parseError

def cmdParseListval (argv : List CString) : CmdStatus := if argv = [] then .ok else .parseError

/-- The parser of a command, called with the default options. -/
def parseMember (service : Service) (type : CmdType) (argv : List CString) : Option (Except CmdStatus CmdMember) :=
  match type with
  | .flush => some ((cmdParseFlush service.platform ⟨none⟩ .zero argv).map .flush)
  | .getval => some ((cmdParseGetval service argv).map .getval)
  | .listval => some (if cmdParseListval argv = .ok then .ok .listval else .error (cmdParseListval argv))
  | .putval =>
    (cmdParsePutval service.toDaemon ⟨none⟩ (argv.mapIdx fun i text => (text, service.clock i))).map fun result =>
      if result.status = .ok then .ok (.putval result.putval result.heap) else .error result.status
  | .putmetric => (cmdParsePutmetric service.platform argv).map (·.map .putmetric)

/-- Without a result if the line makes `cmd_split` or a parser fail an assertion or leave its memory. -/
def cmdParse (service : Service) (line : CString) : Option (Except CmdStatus Cmd) :=
  match cmdSplit line with
  | .error (.parseError _) => some (.error .parseError)
  | .error _ => none
  | .ok fields =>
    match cmdParsev fields with
    | .error status => some (.error status)
    | .ok (type, argv) => (parseMember service type argv).map (·.map (⟨type, ·⟩))

/-- `cmd_destroy` goes by the tag. It has no result if the union holds another member or memory is freed twice. -/
def cmdDestroy (cmd : Cmd) : Option Unit :=
  match cmd.type, cmd.member with
  | .flush, .flush _ | .getval, .getval _ | .listval, _ | .putmetric, .putmetric _ => some ()
  | .putval, .putval putval heap => (cmdDestroyPutval putval heap).map fun _ => ()
  | _, _ => none

/-- The calls of a handler into the daemon; what it writes to the client is not among them. -/
inductive Effect where
  | pluginFlush (plugin : Option CString) (timeout : CdTime) (identifier : Option CString)
  | ucGetRate (metric : Metric)
  | ucGetNames
  | dispatchValues (vl : ValueList)
  | dispatchMetricFamily (metric : Metric)

abbrev Handled := CmdStatus × List Effect

def orNull (items : List CString) : List (Option CString) := if items = [] then [none] else items.map some

/-- An identifier of more than 1024 characters is left out, one of 1024 is cut. -/
def flushIdentifiers (identifiers : List CString) : List (Option CString) :=
  (orNull identifiers).filterMap fun
    | none => some none
    | some text => if 1024 < text.length then none else some (some (text.take 1023))

def flushBody (platform : Platform) : CmdMember → Option Handled
  | .flush flush => some (.ok, (orNull flush.plugins).flatMap fun plugin =>
      (flushIdentifiers flush.identifiers).map (.pluginFlush plugin (platform.doubleToCdtime flush.timeout)))
  | _ => none

def answered (effect : Effect) (status : Status) : Handled := (if status = 0 then .ok else .error, [effect])

def getvalBody (service : Service) : CmdMember → Option Handled
  | .getval metric => some (answered (.ucGetRate metric) (service.ucGetRate metric))
  | _ => none

def listvalBody (service : Service) (_ : CmdMember) : Option Handled := some (answered .ucGetNames service.ucGetNames)

def putvalBody : CmdMember → Option Handled
  | .putval putval _ => some (.ok, putval.vl.map .dispatchValues)
  | _ => none

def putmetricBody (service : Service) : CmdMember → Option Handled
  | .putmetric metric => some (answered (.dispatchMetricFamily metric) (service.dispatchMetricFamily metric))
  | _ => none

/-- A handler: the line is parsed, the tag compared, the union read and the command destroyed. -/
def handleTested (tested : CmdType) (body : CmdMember → Option Handled) (destroy : Cmd → Option Unit)
    (service : Service) (line : CString) : Option Handled :=
  (cmdParse service line).bind fun
    | .error status => some (status, [])
    | .ok cmd =>
      if cmd.type ≠ tested then (destroy cmd).map fun _ => (.unknownCommand, [])
      else (body cmd.member).bind fun handled => (destroy cmd).map fun _ => handled

def cmdHandleFlush (service : Service) : CString → Option Handled :=
  handleTested .flush (flushBody service.platform) cmdDestroy service

def cmdHandleGetval (service : Service) : CString → Option Handled :=
  handleTested .getval (getvalBody service) cmdDestroy service

/-- It does not call `cmd_destroy`. -/
def cmdHandleListval (service : Service) : CString → Option Handled :=
  handleTested .listval (listvalBody service) (fun _ => some ()) service

def cmdHandlePutval (service : Service) : CString → Option Handled :=
  handleTested .putval putvalBody cmdDestroy service

/-- It tests for the type of the other command. -/
def cmdHandlePutmetric (service : Service) : CString → Option Handled :=
  handleTested .putval (putmetricBody service) cmdDestroy service

def cmdHandle (service : Service) : CmdType → CString → Option Handled
  | .flush => cmdHandleFlush service
  | .getval => cmdHandleGetval service
  | .listval => cmdHandleListval service
  | .putval => cmdHandlePutval service
  | .putmetric => cmdHandlePutmetric service

/-- What a command asks for: every plugin is flushed for every identifier, every value list is dispatched. -/
def requested (platform : Platform) : CmdMember → List Effect
  | .flush flush => (orNull flush.plugins).flatMap fun plugin =>
      (orNull flush.identifiers).map (.pluginFlush plugin (platform.doubleToCdtime flush.timeout))
  | .getval metric => [.ucGetRate metric]
  | .listval => [.ucGetNames]
  | .putval putval _ => putval.vl.map .dispatchValues
  | .putmetric metric => [.dispatchMetricFamily metric]

/-- The handler does what its own command asks for, and answers any other line with an error and nothing else. -/
def ActsOnOwn (service : Service) (type : CmdType) (line : CString) : Prop :=
  (∃ cmd, cmdParse service line = some (.ok cmd) ∧ cmd.type = type ∧
      ∃ status, cmdHandle service type line = some (status, requested service.platform cmd.member)) ∨
    (¬∃ cmd, cmdParse service line = some (.ok cmd) ∧ cmd.type = type) ∧
      ∃ status ≠ .ok, cmdHandle service type line = some (status, [])

/-- No identifier is too long for the buffer of `FLUSH`, no two value lists of `PUTVAL` share their meta data, and the
handler of `PUTMETRIC` gets neither of the two commands that it takes for each other. -/
@[mk_iff]
structure Handleable (type : CmdType) (member : CmdMember) : Prop where
  tested : type = .putmetric → member.type ≠ .putval ∧ member.type ≠ .putmetric
  short : type = .flush → ∀ flush, member = .flush flush → ∀ text ∈ flush.identifiers, text.length < 1024
  single : type ≠ .listval → ∀ putval heap, member = .putval putval heap →
    (putval.vl.filterMap (·.metaData)).Nodup

/-- Once a value list has meta data, the options keep them. -/
theorem isSome_of_carried (member : given ∈ carried daemon options arguments)
    (present : given.metaMap.isSome = true) : (announce daemon options arguments).metaMap.isSome = true := by
  induction arguments generalizing options with
  | nil => cases member
  | cons argument rest ih =>
    rw [carried] at member
    rw [announce, foldl_cons, ← announce]
    split at member
    · rename_i values
      rw [apply_of_isValues values]
      rcases mem_cons.mp member with rfl | member
      · exact isSome_announce present rest
      · exact ih member
    · exact ih member

theorem cmdParsePutval_live (parsed : cmdParsePutval daemon opts argv = some result) (success : result.status = .ok) :
    ∀ block ∈ result.putval.vl.filterMap (·.metaData), (result.heap.deref block).isSome = true := by
  unfold cmdParsePutval at parsed
  split at parsed
  · cases parsed
    cases success
  · rename_i identifier vl ds opened
    obtain ⟨status, message, s, looped, ended, follows⟩ := (follows_start opened).run daemon ds argv.tail
    rw [looped] at parsed
    have done : status = .ok := by
      cases status with
      | ok => rfl
      | _ =>
        obtain ⟨_, _, rfl⟩ := Option.map_eq_some_iff.mp parsed
        exact success
    subst done
    cases parsed
    intro block member
    rw [nil_append] at follows
    rw [follows.pointers] at member
    obtain ⟨some_given, rfl⟩ := mem_replicate.mp member
    obtain ⟨given, inside, present⟩ := countP_pos_iff.mp (Nat.pos_of_ne_zero some_given)
    rw [follows.deref]
    exact isSome_of_carried inside present

theorem cmdDestroyPutval_iff (live : ∀ block ∈ putval.vl.filterMap (·.metaData), (heap.deref block).isSome = true) :
    (cmdDestroyPutval putval heap).isSome = true ↔ (putval.vl.filterMap (·.metaData)).Nodup := by
  rw [cmdDestroyPutval, Option.isSome_map, destroyMetaData_eq, Heap.foldlM_free_isSome_iff]
  exact ⟨And.left, fun distinct => ⟨distinct, live⟩⟩

/-- What a parser fills in: its own member of the union, and value lists whose meta data are live. -/
theorem parseMember_ok (parsed : parseMember service type argv = some (.ok member)) :
    member.type = type ∧ ∀ putval heap, member = .putval putval heap →
      ((cmdDestroyPutval putval heap).isSome = true ↔ (putval.vl.filterMap (·.metaData)).Nodup) := by
  cases type with
  | putval =>
    obtain ⟨result, ran, same⟩ := Option.map_eq_some_iff.mp parsed
    split at same
    · rename_i success
      cases same
      refine ⟨rfl, ?_⟩
      rintro _ _ ⟨⟩
      exact cmdDestroyPutval_iff (cmdParsePutval_live ran success)
    · cases same
  | putmetric =>
    obtain ⟨result, _, same⟩ := Option.map_eq_some_iff.mp parsed
    cases result <;> cases same
    exact ⟨rfl, by simp⟩
  | flush =>
    cases flush : cmdParseFlush service.platform ⟨none⟩ .zero argv <;> simp [parseMember, flush, Except.map] at parsed
    subst parsed
    exact ⟨rfl, by simp⟩
  | getval =>
    cases getval : cmdParseGetval service argv <;> simp [parseMember, getval, Except.map] at parsed
    subst parsed
    exact ⟨rfl, by simp⟩
  | listval =>
    simp only [parseMember] at parsed
    split at parsed <;> cases parsed
    exact ⟨rfl, by simp⟩

theorem flushOption_error (failed : flushOption platform opts flush key value = .error status) :
    status = .parseError := by
  unfold flushOption at failed
  split at failed
  · cases failed
  · split at failed
    · split at failed <;> cases failed
      rfl
    · split at failed
      · dsimp only at failed
        split at failed
        · split at failed <;> cases failed
          rfl
        · cases failed
          rfl
      · cases failed
        rfl

theorem cmdParseFlush_error (failed : cmdParseFlush platform opts flush argv = .error status) : status ≠ .ok := by
  induction argv generalizing flush with
  | nil => cases failed
  | cons argument rest ih =>
    rw [cmdParseFlush] at failed
    split at failed
    · cases failed
      decide
    · split at failed
      · rename_i refused
        cases failed
        simp [flushOption_error refused]
      · exact ih failed

theorem parseMember_error (parsed : parseMember service type argv = some (.error status)) : status ≠ .ok := by
  cases type with
  | putval =>
    obtain ⟨result, _, same⟩ := Option.map_eq_some_iff.mp parsed
    split at same <;> cases same
    assumption
  | putmetric =>
    obtain ⟨result, ran, same⟩ := Option.map_eq_some_iff.mp parsed
    cases result <;> cases same
    unfold cmdParsePutmetric at ran
    split at ran
    · cases ran
      decide
    · obtain ⟨⟨ended, s⟩, _, same⟩ := Option.map_eq_some_iff.mp ran
      dsimp only at same
      split at same
      · split at same <;> cases same
        decide
      · cases same
        assumption
  | flush =>
    cases flush : cmdParseFlush service.platform ⟨none⟩ .zero argv <;> simp [parseMember, flush, Except.map] at parsed
    exact parsed ▸ cmdParseFlush_error flush
  | getval =>
    cases getval : cmdParseGetval service argv <;> simp [parseMember, getval, Except.map] at parsed
    subst parsed
    unfold cmdParseGetval at getval
    split at getval
    · rename_i identifier
      cases found : service.parseLegacyIdentifier identifier <;> simp [found] at getval
      simp [← getval]
    · cases getval
      decide
  | listval =>
    simp only [parseMember] at parsed
    split at parsed <;> cases parsed
    assumption

theorem cmdParse_ok (parsed : cmdParse service line = some (.ok cmd)) :
    cmd.member.type = cmd.type ∧ ∀ putval heap, cmd.member = .putval putval heap →
      ((cmdDestroyPutval putval heap).isSome = true ↔ (putval.vl.filterMap (·.metaData)).Nodup) := by
  unfold cmdParse at parsed
  split at parsed
  · cases parsed
  · cases parsed
  · split at parsed
    · cases parsed
    · obtain ⟨result, ran, same⟩ := Option.map_eq_some_iff.mp parsed
      cases result <;> cases same
      exact parseMember_ok ran

theorem cmdParse_error (parsed : cmdParse service line = some (.error status)) : status ≠ .ok := by
  unfold cmdParse cmdParsev at parsed
  split at parsed
  · cases parsed
    decide
  · cases parsed
  · split at parsed
    · rename_i fields split failed
      cases parsed
      split at failed
      · cases failed
        decide
      · split at failed <;> cases failed
        decide
    · obtain ⟨result, ran, same⟩ := Option.map_eq_some_iff.mp parsed
      cases result <;> cases same
      exact parseMember_error ran

/-- All identifiers are flushed as they are written iff they fit into the buffer with their end. -/
theorem flushIdentifiers_eq_iff (identifiers : List CString) :
    flushIdentifiers identifiers = orNull identifiers ↔ ∀ text ∈ identifiers, text.length < 1024 := by
  have printed (texts : List CString) : ((texts.map some).filterMap fun
      | none => some none
      | some text => if 1024 < text.length then none else some (some (text.take 1023))) = texts.map some ↔
      ∀ text ∈ texts, text.length < 1024 := by
    induction texts with
    | nil => simp
    | cons text texts ih =>
      rw [map_cons, filterMap_cons, forall_mem_cons]
      by_cases long : 1024 < text.length
      · simp only [long, if_true]
        refine iff_of_false (fun same => ?_) fun all => by omega
        have lengths := congrArg length same
        have fewer := length_filterMap_le (fun
          | none => some none
          | some text => if 1024 < text.length then none else some (some (text.take 1023))) (texts.map some)
        simp only [length_cons] at lengths
        omega
      · simp only [long, if_false, cons.injEq, ih, Option.some.injEq, take_eq_self_iff]
        exact and_congr_left' (by omega)
  unfold flushIdentifiers orNull
  split
  · rename_i empty
    simp [empty]
  · exact printed identifiers

theorem flush_requested_iff (plugins identifiers : List CString) (timeout : CdTime) :
    ((orNull plugins).flatMap fun plugin => (flushIdentifiers identifiers).map (Effect.pluginFlush plugin timeout)) =
        ((orNull plugins).flatMap fun plugin => (orNull identifiers).map (.pluginFlush plugin timeout)) ↔
      ∀ text ∈ identifiers, text.length < 1024 := by
  rw [← flushIdentifiers_eq_iff]
  constructor
  · intro same
    obtain ⟨plugin, rest, plugins_eq⟩ : ∃ plugin rest, orNull plugins = plugin :: rest := by
      unfold orNull
      split
      · exact ⟨none, [], rfl⟩
      · rename_i some_plugin
        obtain ⟨first, others, rfl⟩ := exists_cons_of_ne_nil some_plugin
        exact ⟨some first, others.map some, rfl⟩
    have lengths := congrArg length same
    simp only [length_flatMap, length_map, map_const', sum_replicate, plugins_eq, length_cons, smul_eq_mul] at lengths
    have equal := Nat.eq_of_mul_eq_mul_left (Nat.succ_pos rest.length) lengths
    rw [plugins_eq, flatMap_cons, flatMap_cons] at same
    have first := (append_inj same (by simp [equal])).1
    exact map_injective_iff.mpr (fun _ _ same => (Effect.pluginFlush.inj same).2.2) first
  · intro same
    rw [same]

section

variable {service : Service} {line : CString} (type : CmdType)

theorem cmdHandle_none (parsed : cmdParse service line = none) : cmdHandle service type line = none := by
  have tested (tested : CmdType) (body : CmdMember → Option Handled) (destroy : Cmd → Option Unit) :
      handleTested tested body destroy service line = none := by
    rw [handleTested, parsed, Option.bind_none]
  cases type <;> exact tested ..

theorem cmdHandle_error (parsed : cmdParse service line = some (.error status)) :
    cmdHandle service type line = some (status, []) := by
  have tested (tested : CmdType) (body : CmdMember → Option Handled) (destroy : Cmd → Option Unit) :
      handleTested tested body destroy service line = some (status, []) := by
    rw [handleTested, parsed, Option.bind_some]
  cases type <;> exact tested ..

theorem actsOnOwn_ok_iff (parsed : cmdParse service line = some (.ok cmd)) :
    ActsOnOwn service type line ↔ Handleable type cmd.member := by
  obtain ⟨own, destroyed⟩ := cmdParse_ok parsed
  obtain ⟨tag, member⟩ := cmd
  obtain rfl : member.type = tag := own
  rw [handleable_iff]
  -- The handler that compares the right tag, in each case, is left with what its body does to the member.
  cases member with
  | putval putval heap =>
    have single := destroyed putval heap rfl
    cases freed : cmdDestroyPutval putval heap <;> rw [freed] at single <;> cases type <;>
      simp_all [ActsOnOwn, cmdHandle, cmdHandleFlush, cmdHandleGetval, cmdHandleListval, cmdHandlePutval,
        cmdHandlePutmetric, handleTested, CmdMember.type, cmdDestroy, requested, putvalBody, putmetricBody]
  | flush flush =>
    cases type with
    | flush =>
      simp [ActsOnOwn, cmdHandle, cmdHandleFlush, handleTested, parsed, CmdMember.type, cmdDestroy, requested,
        flushBody, flush_requested_iff]
    | _ =>
      simp [ActsOnOwn, cmdHandle, cmdHandleGetval, cmdHandleListval, cmdHandlePutval, cmdHandlePutmetric,
        handleTested, parsed, CmdMember.type, cmdDestroy]
  | getval metric | listval | putmetric metric =>
    cases type <;>
      simp [ActsOnOwn, cmdHandle, cmdHandleFlush, cmdHandleGetval, cmdHandleListval, cmdHandlePutval,
        cmdHandlePutmetric, handleTested, parsed, CmdMember.type, cmdDestroy, requested, getvalBody, listvalBody,
        answered]

end

/-- The handlers act on their own commands as far as these are handleable: that of `PUTMETRIC` never does. -/
theorem handlers_act_on_own_iff (service : Service) (type : CmdType) (line : CString) :
    ActsOnOwn service type line ↔
      ∃ parsed, cmdParse service line = some parsed ∧ ∀ cmd, parsed = .ok cmd → Handleable type cmd.member := by
  cases parsed : cmdParse service line with
  | none => simp [ActsOnOwn, parsed, cmdHandle_none type parsed]
  | some result =>
    cases result with
    | error status => simp [ActsOnOwn, parsed, cmdHandle_error type parsed, cmdParse_error parsed]
    | ok cmd => simpa using actsOnOwn_ok_iff type parsed

def counterService : Service where
  toDaemon := counterDaemon
  clock _ := 1
  parseLegacyIdentifier _ := none
  ucGetRate _ := 0
  ucGetNames := 0
  dispatchMetricFamily _ := 0

theorem cmdHandlePutmetric_own (parsed : cmdParse service line = some (.ok ⟨.putmetric, .putmetric metric⟩)) :
    cmdHandle service .putmetric line = some (.unknownCommand, []) := by
  simp [cmdHandle, cmdHandlePutmetric, handleTested, parsed, cmdDestroy]

theorem cmdHandlePutmetric_putval (parsed : cmdParse service line = some (.ok ⟨.putval, .putval putval heap⟩)) :
    cmdHandle service .putmetric line = none := by
  simp [cmdHandle, cmdHandlePutmetric, handleTested, parsed, putmetricBody]

theorem putmetric_handler_foreign :
    (∃ metric, cmdParse counterService "PUTMETRIC m 1" = some (.ok ⟨.putmetric, .putmetric metric⟩)) ∧
      cmdHandle counterService .putmetric "PUTMETRIC m 1" = some (.unknownCommand, []) ∧
      (∃ putval heap, cmdParse counterService "PUTVAL h/p/t N:1" = some (.ok ⟨.putval, .putval putval heap⟩)) ∧
      cmdHandle counterService .putmetric "PUTVAL h/p/t N:1" = none := by
  have metric : cmdSplit "PUTMETRIC m 1" = .ok ["PUTMETRIC", "m", "1"] := by decide +kernel
  have value : cmdSplit "PUTVAL h/p/t N:1" = .ok ["PUTVAL", "h/p/t", "N:1"] := by decide +kernel
  have accepted : (cmdParsePutval counterDaemon ⟨none⟩ [("h/p/t", 1), ("N:1", 1)]).map (·.status) = some .ok := by
    decide +kernel
  have parsed : ∃ metric, cmdParse counterService "PUTMETRIC m 1" =
      some (.ok ⟨.putmetric, .putmetric metric⟩) := by
    rw [cmdParse, metric]
    exact ⟨_, rfl⟩
  have foreign : ∃ putval heap, cmdParse counterService "PUTVAL h/p/t N:1" =
      some (.ok ⟨.putval, .putval putval heap⟩) := by
    obtain ⟨result, ran, success⟩ := Option.map_eq_some_iff.mp accepted
    have member : parseMember counterService .putval ["h/p/t", "N:1"] =
        some (.ok (.putval result.putval result.heap)) := by
      change (cmdParsePutval counterDaemon ⟨none⟩ [("h/p/t", 1), ("N:1", 1)]).map _ = _
      rw [ran, Option.map_some, if_pos success]
    rw [cmdParse, value]
    exact ⟨_, _, congrArg (Option.map (Except.map (Cmd.mk .putval))) member⟩
  refine ⟨parsed, ?_, foreign, ?_⟩
  · exact cmdHandlePutmetric_own parsed.choose_spec
  · exact cmdHandlePutmetric_putval foreign.choose_spec.choose_spec

end NCollectd.Cmds
