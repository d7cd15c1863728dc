import NCollectd.Base.Double
import NCollectd.Filter.Chain

/-! The configuration of the filter chains, and the tables of matches and targets. -/

namespace NCollectd.Filter

/-- `oconfig_value_t`. -/
inductive ConfigValue where
  | string (text : CString)
  | number (value : Double)
  | boolean (value : Bool)

/-- `oconfig_item_t`. -/
structure ConfigItem where
  key : CString
  values : List ConfigValue
  children : List ConfigItem

/-- An entry of `match_list_head`. -/
structure MatchEntry (α : Type) where
  name : CString
  create : ConfigItem → Except Status α

/-- What `target->proc.create` is. -/
inductive TargetCreate (α : Type) where
  | bitJump
  | bitStop
  | bitReturn
  | bitWrite
  | plugin (create : ConfigItem → Except Status α)

/-- An entry of `target_list_head`. -/
structure TargetEntry (α : Type) where
  name : CString
  create : TargetCreate α

structure Registry (α : Type) where
  matchEntries : List (MatchEntry α)
  targetEntries : List (TargetEntry α)

/-- The option `AutoLoadPlugin` and what loading a plugin returns and registers. -/
structure Loader (α : Type) where
  autoLoadPlugin : Bool
  pluginLoad : CString → Registry α → Status × Registry α

variable {α β : Type}

def fcRegisterTarget (registry : Registry α) (name : CString) (create : TargetCreate α) : Registry α :=
  { registry with targetEntries := registry.targetEntries ++ [⟨sstrncpy name dataMaxNameLen, create⟩] }

def fcInitOnce (registry : Registry α) : Registry α :=
  fcRegisterTarget (fcRegisterTarget (fcRegisterTarget (fcRegisterTarget registry "jump" .bitJump)
    "stop" .bitStop) "return" .bitReturn) "write" .bitWrite

def fcBitJumpCreate (ci : ConfigItem) : Except Status CString :=
  match ci.children with
  | [child] =>
    if strcasecmp "Chain" child.key ≠ 0 then .error (-1)
    else
      match child.values with
      | [.string chainName] => .ok chainName
      | _ => .error (-1)
  | _ => .error (-1)

def fcBitWriteCreate (ci : ConfigItem) : List CString :=
  ci.children.flatMap fun child =>
    if strcasecmp "Plugin" child.key ≠ 0 then []
    else child.values.filterMap fun
      | .string plugin => some plugin
      | _ => none

def TargetCreate.run (create : TargetCreate α) (ci : ConfigItem) : Except Status (TargetProc α) :=
  match create with
  | .bitJump => (fcBitJumpCreate ci).map .bitJump
  | .bitStop => .ok .bitStop
  | .bitReturn => .ok .bitReturn
  | .bitWrite => .ok (.bitWrite (fcBitWriteCreate ci))
  | .plugin create => (create ci).map .plugin

def findOrLoad (loader : Loader α) (find : Registry α → Option β) (kind name : CString) (registry : Registry α) :
    Registry α × Except Status β :=
  match find registry with
  | some entry => (registry, .ok entry)
  | none =>
    if loader.autoLoadPlugin then
      if dataMaxNameLen ≤ (kind ++ name).length then (registry, .error (-1))
      else
        let loaded := loader.pluginLoad (kind ++ name) registry
        if loaded.1 ≠ 0 then (loaded.2, .error loaded.1)
        else
          match find loaded.2 with
          | some entry => (loaded.2, .ok entry)
          | none => (loaded.2, .error (-1))
    else (registry, .error (-1))

def fcConfigAddMatch (loader : Loader α) (registry : Registry α) (matchList : List (FcMatch α)) (ci : ConfigItem) :
    Status × Registry α × List (FcMatch α) :=
  match ci.values with
  | [.string name] =>
    let found := findOrLoad loader (fun registry => registry.matchEntries.find?
      fun entry => strcasecmp entry.name name == 0)
      "match_" name registry
    match found.2 with
    | .error status => (status, found.1, matchList)
    | .ok entry =>
      match entry.create ci with
      | .error _ => (-1, found.1, matchList)
      | .ok userData => (0, found.1, matchList ++ [⟨sstrncpy entry.name dataMaxNameLen, userData⟩])
  | _ => (-1, registry, matchList)

def fcConfigAddTarget (loader : Loader α) (registry : Registry α) (targets : List (FcTarget α)) (ci : ConfigItem) :
    Status × Registry α × List (FcTarget α) :=
  match ci.values with
  | [.string name] =>
    let found := findOrLoad loader (fun registry => registry.targetEntries.find?
      fun entry => strcasecmp entry.name name == 0)
      "target_" name registry
    match found.2 with
    | .error status => (status, found.1, targets)
    | .ok entry =>
      match entry.create.run ci with
      | .error _ => (-1, found.1, targets)
      | .ok proc => (0, found.1, targets ++ [⟨sstrncpy entry.name dataMaxNameLen, proc⟩])
  | _ => (-1, registry, targets)

def ruleOptions (loader : Loader α) :
    Registry α → List (FcMatch α) → List (FcTarget α) → List ConfigItem →
      Status × Registry α × List (FcMatch α) × List (FcTarget α)
  | registry, matchList, targets, [] => (0, registry, matchList, targets)
  | registry, matchList, targets, option :: rest =>
    if strcasecmp "Match" option.key = 0 then
      let added := fcConfigAddMatch loader registry matchList option
      if added.1 ≠ 0 then (added.1, added.2.1, added.2.2, targets)
      else ruleOptions loader added.2.1 added.2.2 targets rest
    else if strcasecmp "Target" option.key = 0 then
      let added := fcConfigAddTarget loader registry targets option
      if added.1 ≠ 0 then (added.1, added.2.1, matchList, added.2.2)
      else ruleOptions loader added.2.1 matchList added.2.2 rest
    else (-1, registry, matchList, targets)

def fcConfigAddRule (loader : Loader α) (registry : Registry α) (chain : FcChain α) (ci : ConfigItem) :
    Status × Registry α × FcChain α :=
  let named : Option CString := match ci.values with
    | [] => some []
    | [.string name] => some (sstrncpy name dataMaxNameLen)
    | _ => none
  match named with
  | none => (-1, registry, chain)
  | some name =>
    let read := ruleOptions loader registry [] [] ci.children
    if read.1 ≠ 0 then (-1, read.2.1, chain)
    else if targeted : read.2.2.2 ≠ [] then
      (0, read.2.1, { chain with rules := chain.rules ++ [⟨name, read.2.2.1, read.2.2.2, targeted⟩] })
    else (-1, read.2.1, chain)

def chainOptions (loader : Loader α) : Registry α → FcChain α → List ConfigItem → Status × Registry α × FcChain α
  | registry, chain, [] => (0, registry, chain)
  | registry, chain, option :: rest =>
    if strcasecmp "Rule" option.key = 0 then
      let added := fcConfigAddRule loader registry chain option
      if added.1 ≠ 0 then added else chainOptions loader added.2.1 added.2.2 rest
    else if strcasecmp "Target" option.key = 0 then
      let added := fcConfigAddTarget loader registry chain.targets option
      if added.1 ≠ 0 then (added.1, added.2.1, { chain with targets := added.2.2 })
      else chainOptions loader added.2.1 { chain with targets := added.2.2 } rest
    else (-1, registry, chain)

def fcConfigAddChain (loader : Loader α) (registry : Registry α) (chains : List (FcChain α)) (ci : ConfigItem) :
    Status × Registry α × Option (List (FcChain α)) :=
  match ci.values with
  | [.string name] =>
    match chains.findIdx? fun chain => strcasecmp name chain.name == 0, fcChainGetByName chains (some name) with
    | some place, some chain =>
      let read := chainOptions loader registry chain ci.children
      if read.1 ≠ 0 then (-1, read.2.1, none) else (0, read.2.1, some (chains.set place read.2.2))
    | _, _ =>
      let read := chainOptions loader registry ⟨sstrncpy name dataMaxNameLen, [], []⟩ ci.children
      if read.1 ≠ 0 then (-1, read.2.1, some chains) else (0, read.2.1, some (chains ++ [read.2.2]))
  | _ => (-1, registry, some chains)

def acceptedChains (loader : Loader α) : Registry α → List (FcChain α) → List ConfigItem → Option (List (FcChain α))
  | _, chains, [] => some chains
  | registry, chains, ci :: rest =>
    match fcConfigAddChain loader registry chains ci with
    | (0, registry, some chains) => acceptedChains loader registry chains rest
    | _ => none

end NCollectd.Filter
