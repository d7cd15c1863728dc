import NCollectd.Utils.ParseValues

namespace NCollectd.Lookup

structure Parts (α : Type) where
  host : α
  plugin : α
  pluginInstance : α
  type : α
  typeInstance : α

/-- `part_match_t`; a compiled expression is what `regexec` finds with it. -/
structure PartMatch where
  str : CString
  regex : Option (CString → Bool)

abbrev Regcomp := CString → Option (CString → Bool)

structure UserClass (γ ω : Type) where
  userClass : γ
  pattern : Parts PartMatch
  groupBy : Parts Bool
  userObjList : List (Parts CString × ω)

structure ByType (γ ω : Type) where
  byPluginTree : AvlTree (List (UserClass γ ω))
  wildcardPluginList : List (UserClass γ ω)

abbrev LookupTree (γ ω : Type) := AvlTree (ByType γ ω)

def luPartMatches (pattern : PartMatch) (str : CString) : Bool :=
  match pattern.regex with
  | some regexec => pattern.str = ['.', '*'] || regexec str
  | none => pattern.str = str

def isExpression (part : CString) : Bool := 3 ≤ part.length && part.head? = some '/' && part.getLast? = some '/'

def expressionOf (part : CString) : CString := (part.drop 1).take (part.length - 2)

/-- A failed assertion is `none`. -/
def luCopyIdentToMatchPart (regcomp : Regcomp) (part : CString) : Option (Status × PartMatch) :=
  if isExpression part = false then some (0, ⟨sstrncpy part dataMaxNameLen, none⟩)
  else if dataMaxNameLen ≤ part.length then none
  else
    match regcomp (expressionOf part) with
    | none => some (EINVAL, ⟨expressionOf part, none⟩)
    | some regexec => some (0, ⟨expressionOf part, some regexec⟩)

/-- The parts behind one that cannot be compiled stay zeroed. -/
def luCopyIdentToMatch (regcomp : Regcomp) (ident : Parts CString) :
    Option (Status × Parts PartMatch) := do
  let zero : PartMatch := ⟨[], none⟩
  let (status, host) ← luCopyIdentToMatchPart regcomp ident.host
  if status ≠ 0 then return (status, ⟨host, zero, zero, zero, zero⟩)
  let (status, plugin) ← luCopyIdentToMatchPart regcomp ident.plugin
  if status ≠ 0 then return (status, ⟨host, plugin, zero, zero, zero⟩)
  let (status, pluginInstance) ← luCopyIdentToMatchPart regcomp ident.pluginInstance
  if status ≠ 0 then return (status, ⟨host, plugin, pluginInstance, zero, zero⟩)
  let (status, type) ← luCopyIdentToMatchPart regcomp ident.type
  if status ≠ 0 then return (status, ⟨host, plugin, pluginInstance, type, zero⟩)
  let (status, typeInstance) ← luCopyIdentToMatchPart regcomp ident.typeInstance
  return (status, ⟨host, plugin, pluginInstance, type, typeInstance⟩)

def luAddByPlugin (byType : ByType γ ω) (new : UserClass γ ω) : ByType γ ω :=
  if new.pattern.plugin.regex.isSome then { byType with wildcardPluginList := byType.wildcardPluginList ++ [new] }
  else
    let plugin := new.pattern.plugin.str
    { byType with byPluginTree := byType.byPluginTree.insert plugin (byType.byPluginTree[plugin]?.getD [] ++ [new]) }

def lookupAdd (regcomp : Regcomp) (obj : LookupTree γ ω) (ident : Parts CString)
    (groupBy : Parts Bool) (userClass : γ) : Option (Status × LookupTree γ ω) :=
  (luCopyIdentToMatch regcomp ident).map fun (_, pattern) =>
    (0, obj.insert ident.type (luAddByPlugin (obj[ident.type]?.getD ⟨∅, []⟩) ⟨userClass, pattern, groupBy, []⟩))

/-- The callbacks for a class and for an object, with what they leave behind. -/
structure Callbacks (γ ω σ : Type) where
  userClass : Parts CString → γ → σ → Option ω × σ
  userObj : Parts CString → γ → ω → σ → Status × σ

def objIdent (uc : UserClass γ ω) (vl : Parts CString) : Parts CString :=
  let field (pattern : PartMatch) (grouped : Bool) (value : CString) : CString :=
    sstrncpy (if pattern.regex.isSome && !grouped then "/.*/" else value) dataMaxNameLen
  ⟨field uc.pattern.host uc.groupBy.host vl.host, field uc.pattern.plugin uc.groupBy.plugin vl.plugin,
    field uc.pattern.pluginInstance uc.groupBy.pluginInstance vl.pluginInstance,
    field uc.pattern.type false vl.type, field uc.pattern.typeInstance uc.groupBy.typeInstance vl.typeInstance⟩

def luFindUserObj (uc : UserClass γ ω) (vl : Parts CString) : Option ω :=
  let differs (pattern : PartMatch) (grouped : Bool) (value known : CString) : Bool :=
    pattern.regex.isSome && grouped && value != known
  (uc.userObjList.find? fun (ident, _) =>
    !(differs uc.pattern.host uc.groupBy.host vl.host ident.host ||
      differs uc.pattern.plugin uc.groupBy.plugin vl.plugin ident.plugin ||
      differs uc.pattern.pluginInstance uc.groupBy.pluginInstance vl.pluginInstance ident.pluginInstance ||
      differs uc.pattern.typeInstance uc.groupBy.typeInstance vl.typeInstance ident.typeInstance)).map (·.2)

def luHandleUserClass (callbacks : Callbacks γ ω σ) (vl : Parts CString) (uc : UserClass γ ω) (s : σ) :
    Option (Int × UserClass γ ω × σ) :=
  if vl.type ≠ uc.pattern.type.str ∨ uc.pattern.plugin.regex = none ∧ vl.plugin ≠ uc.pattern.plugin.str then none
  else if !luPartMatches uc.pattern.typeInstance vl.typeInstance ||
      !luPartMatches uc.pattern.pluginInstance vl.pluginInstance ||
      !luPartMatches uc.pattern.plugin vl.plugin || !luPartMatches uc.pattern.host vl.host then some (1, uc, s)
  else
    let answer (uc : UserClass γ ω) (object : ω) (s : σ) : Int × UserClass γ ω × σ :=
      let (status, s) := callbacks.userObj vl uc.userClass object s
      (if 0 < status then 1 else status, uc, s)
    match luFindUserObj uc vl with
    | some object => some (answer uc object s)
    | none =>
      match callbacks.userClass vl uc.userClass s with
      | (none, s) => some (-1, uc, s)
      | (some object, s) =>
        some (answer { uc with userObjList := uc.userObjList ++ [(objIdent uc vl, object)] } object s)

def luHandleUserClassList (callbacks : Callbacks γ ω σ) (vl : Parts CString) :
    List (UserClass γ ω) → σ → Option (Int × List (UserClass γ ω) × σ)
  | [], s => some (0, [], s)
  | uc :: ucs, s => do
    let (status, uc, s) ← luHandleUserClass callbacks vl uc s
    if status < 0 then return (status, uc :: ucs, s)
    let (retval, ucs, s) ← luHandleUserClassList callbacks vl ucs s
    return (if retval < 0 then retval else if status = 0 then retval + 1 else retval, uc :: ucs, s)

def lookupSearch (callbacks : Callbacks γ ω σ) (obj : LookupTree γ ω) (vl : Parts CString) (s : σ) :
    Option (Int × LookupTree γ ω × σ) :=
  match obj[vl.type]? with
  | none => some (0, obj, s)
  | some byType => do
    let (named, list, s) ← luHandleUserClassList callbacks vl (byType.byPluginTree[vl.plugin]?.getD []) s
    let byType := if (byType.byPluginTree[vl.plugin]?).isSome then
      { byType with byPluginTree := byType.byPluginTree.insert vl.plugin list } else byType
    if named < 0 then return (named, obj.insert vl.type byType, s)
    let (wild, list, s) ← luHandleUserClassList callbacks vl byType.wildcardPluginList s
    return (if wild < 0 then wild else named + wild, obj.insert vl.type { byType with wildcardPluginList := list }, s)

def searchAll (callbacks : Callbacks γ ω σ) : LookupTree γ ω → List (Parts CString) → σ → Option (List Int × σ)
  | _, [], s => some ([], s)
  | obj, vl :: vls, s => do
    let (status, obj, s) ← lookupSearch callbacks obj vl s
    let (statuses, s) ← searchAll callbacks obj vls s
    return (status :: statuses, s)

def Rejected (regcomp : Regcomp) (ident : Parts CString) : Prop :=
  ∃ part ∈ [ident.host, ident.plugin, ident.pluginInstance, ident.type, ident.typeInstance],
    isExpression part = true ∧ regcomp (expressionOf part) = none

/-- An identifier with a part that cannot be compiled is refused without any effect. -/
def RefusesBad (regcomp : Regcomp) (obj : LookupTree γ ω) (ident : Parts CString)
    (groupBy : Parts Bool) (userClass : γ) : Prop :=
  Rejected regcomp ident → ∃ status next, lookupAdd regcomp obj ident groupBy userClass = some (status, next) ∧
    status ≠ 0 ∧ ∀ (σ : Type) (callbacks : Callbacks γ ω σ) vls s,
      searchAll callbacks next vls s = searchAll callbacks obj vls s

/-- The status of the copy is ignored, so there is no identifier that `lookup_add` refuses. -/
theorem lookup_add_refuses_iff (regcomp : Regcomp) (obj : LookupTree γ ω)
    (ident : Parts CString) (groupBy : Parts Bool) (userClass : γ) :
    RefusesBad regcomp obj ident groupBy userClass ↔ ¬ Rejected regcomp ident := by
  constructor
  · intro refuses rejected
    obtain ⟨status, next, added, failed, _⟩ := refuses rejected
    obtain ⟨_, _, same⟩ := Option.map_eq_some_iff.mp added
    exact failed (congrArg Prod.fst same).symm
  · exact fun accepted rejected => absurd rejected accepted

/-- The type of the class stays empty, and the first search that reaches it fails an assertion. -/
theorem bad_host_accepted : ∃ next,
    lookupAdd (fun _ => none) (∅ : LookupTree Unit Unit) ⟨"/(/", [], [], ['t'], []⟩
      ⟨false, false, false, false, false⟩ () = some (0, next) ∧
    ∀ callbacks : Callbacks Unit Unit Unit, searchAll callbacks next [⟨[], [], [], ['t'], []⟩] () = none ∧
      searchAll callbacks ∅ [⟨[], [], [], ['t'], []⟩] () = some ([0], ()) := by
  refine ⟨_, rfl, fun callbacks => ⟨?_, ?_⟩⟩
  · simp [searchAll, lookupSearch, luAddByPlugin, luHandleUserClassList, luHandleUserClass]
  · simp [searchAll, lookupSearch]

end NCollectd.Lookup
