import NCollectd.Base.LinkedList
import NCollectd.Filter.Config

/-! The chains of the filter subsystem as they are linked in memory. -/

namespace NCollectd.Filter

open List

variable {α : Type}

/-- `fc_chain_t` with its pointer to the next chain. -/
structure ChainNode (α : Type) where
  chain : FcChain α
  next : Option Block

def ChainNode.view (node : ChainNode α) : FcChain α × Option Block := (node.chain, node.next)

/-- The memory of the chains and the variable `chain_list_head`. -/
structure ChainList (α : Type) where
  heap : Heap (ChainNode α)
  chainListHead : Option Block

def fcFreeChains : Nat → Heap (ChainNode α) → Block → Option (Heap (ChainNode α))
  | 0, _, _ => none
  | steps + 1, heap, block => do
    let node ← heap.deref block
    let heap ← (match node.next with
      | none => some heap
      | some next => fcFreeChains steps heap next)
    heap.free block

def findChain (heap : Heap (ChainNode α)) (name : CString) : Nat → Option Block → Option (Option Block)
  | _, none => some none
  | 0, some _ => none
  | steps + 1, some block => do
    let node ← heap.deref block
    if strcasecmp name node.chain.name == 0 then some (some block) else findChain heap name steps node.next

def lastChain (heap : Heap (ChainNode α)) : Nat → Block → Option Block
  | 0, _ => none
  | steps + 1, block => do
    let node ← heap.deref block
    match node.next with
    | none => some block
    | some next => lastChain heap steps next

def ChainList.steps (list : ChainList α) : Nat := list.heap.blocks.length + 1

def ChainList.fcChainGetByName (list : ChainList α) (name : CString) : Option (Option Block) :=
  findChain list.heap name list.steps list.chainListHead

def ChainList.fcConfigAddChain (loader : Loader α) (registry : Registry α) (list : ChainList α) (ci : ConfigItem) :
    Option (Status × Registry α × ChainList α) :=
  match ci.values with
  | [.string name] => do
    let found ← list.fcChainGetByName name
    match found with
    | some block =>
      let node ← list.heap.deref block
      let read := chainOptions loader registry node.chain ci.children
      let heap ← list.heap.store block { node with chain := read.2.2 }
      if read.1 ≠ 0 then
        let heap ← fcFreeChains list.steps heap block
        some (-1, read.2.1, { list with heap })
      else some (0, read.2.1, { list with heap })
    | none =>
      let read := chainOptions loader registry ⟨sstrncpy name dataMaxNameLen, [], []⟩ ci.children
      let made := list.heap.alloc ⟨read.2.2, none⟩
      if read.1 ≠ 0 then
        let heap ← fcFreeChains list.steps made.1 made.2
        some (-1, read.2.1, { list with heap })
      else
        match list.chainListHead with
        | none => some (0, read.2.1, ⟨made.1, some made.2⟩)
        | some head =>
          let last ← lastChain made.1 list.steps head
          let node ← made.1.deref last
          let heap ← made.1.store last { node with next := some made.2 }
          some (0, read.2.1, { list with heap })
  | _ => some (-1, registry, list)

/-- The chains that are listed, with the blocks they are in. -/
def ChainList.Lists (list : ChainList α) (cells : List (Block × FcChain α)) : Prop :=
  Linked list.heap ChainNode.view list.chainListHead cells

section

variable {heap heap' : Heap (ChainNode α)} {cells later : List (Block × FcChain α)}

theorem findChain_linked (linked : Linked heap ChainNode.view pointer cells) (name : CString) (steps : Nat)
    (enough : cells.length ≤ steps) :
    findChain heap name steps pointer =
      some ((cells.find? fun cell => strcasecmp name cell.2.name == 0).map Prod.fst) := by
  induction linked generalizing steps with
  | nil => cases steps <;> rfl
  | @cons block node chain rest live content tail ih =>
    cases steps with
    | zero => cases enough
    | succ steps =>
      have same : node.chain = chain := content
      rw [findChain, live, ← same]
      simp only [Option.bind_eq_bind, Option.bind_some, find?_cons]
      cases strcasecmp name node.chain.name == 0 with
      | true => rfl
      | false => exact ih steps (Nat.le_of_succ_le_succ enough)

section

variable (linked : Linked heap ChainNode.view (some first) cells) (steps : Nat) (enough : cells.length ≤ steps)
include linked enough

theorem lastChain_linked : lastChain heap steps first = lastBlock cells := by
  induction steps generalizing first cells with
  | zero =>
    cases linked
    cases enough
  | succ steps ih =>
    cases linked with
    | @cons _ node chain rest live content tail =>
      rw [lastChain, live, lastBlock_cons]
      simp only [Option.bind_eq_bind, Option.bind_some]
      have next : (ChainNode.view node).2 = node.next := rfl
      rw [next] at tail
      cases follows : node.next with
      | none =>
        rw [follows] at tail
        cases tail
        rfl
      | some block =>
        rw [follows] at tail
        have found := ih tail (Nat.le_of_succ_le_succ enough)
        cases tail with
        | cons alive same further => simpa using found

theorem fcFreeChains_linked :
    ∃ freed, fcFreeChains steps heap first = some freed ∧ (∀ block ∈ blocksOf cells, freed.deref block = none) ∧
      ∀ block, block ∉ blocksOf cells → freed.deref block = heap.deref block := by
  induction steps generalizing first cells with
  | zero =>
    cases linked
    cases enough
  | succ steps ih =>
    have distinct := linked.nodup
    cases linked with
    | @cons _ node chain rest live content tail =>
      have apart := (nodup_cons.mp distinct).1
      have behind : ∃ middle, (match node.next with
          | none => some heap
          | some next => fcFreeChains steps heap next) = some middle ∧
          (∀ block ∈ blocksOf rest, middle.deref block = none) ∧
          ∀ block, block ∉ blocksOf rest → middle.deref block = heap.deref block := by
        have next : (ChainNode.view node).2 = node.next := rfl
        rw [next] at tail
        cases follows : node.next with
        | none =>
          rw [follows] at tail
          cases tail
          exact ⟨heap, rfl, forall_mem_nil _, fun _ _ => rfl⟩
        | some block =>
          rw [follows] at tail
          exact ih tail (Nat.le_of_succ_le_succ enough)
      obtain ⟨middle, freed, dead, kept⟩ := behind
      have alive : middle.deref first = some node := (kept first apart).trans live
      have last : middle.free first = some ⟨middle.blocks.set first none⟩ := Heap.free_live alive
      refine ⟨⟨middle.blocks.set first none⟩, ?_, ?_, ?_⟩
      · rw [fcFreeChains, live]
        simp only [Option.bind_eq_bind, Option.bind_some]
        rw [freed, Option.bind_some]
        exact last
      · intro block member
        by_cases same : block = first
        · subst same
          exact Heap.deref_free_self last
        · rw [Heap.deref_free last same]
          exact dead block ((mem_cons.mp member).resolve_left same)
      · intro block outside
        have other : block ≠ first := fun same => outside (same ▸ mem_cons_self ..)
        rw [Heap.deref_free last other]
        exact kept block fun member => outside (mem_cons_of_mem _ member)

end

end

/-- A chain that kept its rules and default targets, and may have got more. -/
structure Grown (before after : FcChain α) : Prop where
  name : after.name = before.name
  rules : before.rules <+: after.rules
  targets : before.targets <+: after.targets

theorem Grown.refl (chain : FcChain α) : Grown chain chain := ⟨rfl, prefix_refl _, prefix_refl _⟩

/-- Every listed chain stays in its place and block, and is found by the names it was found by. -/
structure KeepsChains (before : ChainList α) (cells : List (Block × FcChain α)) (after : ChainList α) : Prop where
  lists : ∃ kept more, after.Lists (kept ++ more) ∧
    List.Forall₂ (fun old new => new.1 = old.1 ∧ Grown old.2 new.2) cells kept
  found : ∀ name block, before.fcChainGetByName name = some (some block) →
    after.fcChainGetByName name = some (some block)

variable {list after : ChainList α}

theorem ChainList.Lists.enough (lists : list.Lists cells) : cells.length ≤ list.steps :=
  Nat.le_succ_of_le (Linked.length_le lists)

theorem ChainList.Lists.get_eq (lists : list.Lists cells) (name : CString) :
    list.fcChainGetByName name = some ((cells.find? fun cell => strcasecmp name cell.2.name == 0).map Prod.fst) :=
  findChain_linked lists name list.steps lists.enough

theorem KeepsChains.of_same (lists : list.Lists cells) (kept : after.Lists cells) : KeepsChains list cells after where
  lists := by
    refine ⟨cells, [], by simpa using kept, ?_⟩
    exact forall₂_same.mpr fun cell _ => ⟨rfl, .refl cell.2⟩
  found name block got := by
    rw [kept.get_eq, ← lists.get_eq]
    exact got

section Block

variable {loader : Loader α}

def replaceChain (block : Block) (chain : FcChain α) (cells : List (Block × FcChain α)) : List (Block × FcChain α) :=
  cells.map fun entry => if entry.1 = block then (block, chain) else entry

theorem blocksOf_replaceChain (block : Block) (chain : FcChain α) (cells : List (Block × FcChain α)) :
    blocksOf (replaceChain block chain cells) = blocksOf cells := by
  rw [blocksOf, replaceChain, map_map]
  refine map_congr_left fun entry _ => ?_
  by_cases same : entry.1 = block <;> simp [same]

theorem ChainList.Lists.addListed (lists : list.Lists cells) (named : ci.values = [.string name])
    (found : cells.find? (fun cell => strcasecmp name cell.2.name == 0) = some (block, chain))
    (read : chainOptions loader registry chain ci.children = (status, registry', chain')) :
    ∃ list', list.fcConfigAddChain loader registry ci = some (if status ≠ 0 then -1 else 0, registry', list') ∧
      if status ≠ 0 then ∀ cells', ¬ list'.Lists cells' else list'.Lists (replaceChain block chain' cells) := by
  have got := lists.get_eq name
  rw [found] at got
  have member := mem_of_find?_eq_some found
  obtain ⟨node, live, same⟩ := Linked.live_of_entry lists member
  obtain rfl : node.chain = chain := same
  obtain ⟨heap, stored, -, -⟩ := Heap.exists_store live { node with chain := chain' }
  have linked : Linked heap ChainNode.view list.chainListHead (replaceChain block chain' cells) :=
    Linked.store lists live stored rfl
  rw [ChainList.fcConfigAddChain, named]
  simp only [got, Option.bind_eq_bind, Option.bind_some, Option.map_some, live, read, stored]
  by_cases fails : status ≠ 0
  · have inside : block ∈ blocksOf (replaceChain block chain' cells) := by
      rw [blocksOf_replaceChain]
      exact mem_map_of_mem member
    obtain ⟨later, suffix, shorter⟩ := Linked.suffix linked inside
    have enough : later.length ≤ list.steps := by
      rw [replaceChain, length_map] at shorter
      exact shorter.trans lists.enough
    obtain ⟨freed, called, dead, kept⟩ := fcFreeChains_linked suffix list.steps enough
    have gone : freed.deref block = none := by
      apply dead
      cases suffix
      exact mem_cons_self ..
    simp only [if_pos fails, called]
    refine ⟨{ list with heap := freed }, rfl, fun cells' => Linked.not_of_dead linked inside ?_ gone⟩
    intro other _
    by_cases behind : other ∈ blocksOf later
    · exact .inl (dead other behind)
    · exact .inr (kept other behind)
  · simp only [if_neg fails]
    exact ⟨{ list with heap }, rfl, linked⟩

theorem ChainList.Lists.alloc (lists : list.Lists cells) (node : ChainNode α) :
    Linked (list.heap.alloc node).1 ChainNode.view list.chainListHead cells ∧
      (list.heap.alloc node).2 ∉ blocksOf cells := by
  have apart (block : Block) (member : block ∈ blocksOf cells) : block ≠ (list.heap.alloc node).2 := by
    obtain ⟨cell, live⟩ := Linked.live_of_mem lists member
    exact Heap.ne_alloc live node
  refine ⟨Linked.frame lists fun block member => ?_, fun member => apart _ member rfl⟩
  exact Heap.deref_alloc_ne node (apart block member)

theorem ChainList.Lists.addNew (lists : list.Lists cells) (named : ci.values = [.string name])
    (missing : cells.find? (fun cell => strcasecmp name cell.2.name == 0) = none)
    (read : chainOptions loader registry ⟨sstrncpy name dataMaxNameLen, [], []⟩ ci.children =
      (status, registry', chain)) :
    ∃ list', list.fcConfigAddChain loader registry ci = some (if status ≠ 0 then -1 else 0, registry', list') ∧
      if status ≠ 0 then list'.Lists cells else ∃ block, list'.Lists (cells ++ [(block, chain)]) := by
  have got := lists.get_eq name
  rw [missing] at got
  obtain ⟨linked, outside⟩ := lists.alloc ⟨chain, none⟩
  have alone : Linked (list.heap.alloc ⟨chain, none⟩).1 ChainNode.view (some (list.heap.alloc ⟨chain, none⟩).2)
      [((list.heap.alloc ⟨chain, none⟩).2, chain)] := .cons Heap.deref_alloc_self rfl .nil
  rw [ChainList.fcConfigAddChain, named]
  simp only [got, Option.bind_eq_bind, Option.bind_some, Option.map_none, read]
  by_cases fails : status ≠ 0
  · obtain ⟨freed, called, -, kept⟩ := fcFreeChains_linked alone list.steps (Nat.le_add_left ..)
    simp only [if_pos fails, called]
    refine ⟨{ list with heap := freed }, rfl, Linked.frame linked fun block member => kept block fun same => ?_⟩
    have equal : block = (list.heap.alloc ⟨chain, none⟩).2 := mem_singleton.mp same
    exact outside (equal ▸ member)
  · simp only [if_neg fails]
    cases first : list.chainListHead with
    | none =>
      have empty : cells = [] := by
        have nothing := lists
        rw [ChainList.Lists, first] at nothing
        cases nothing
        rfl
      subst empty
      exact ⟨_, rfl, _, alone⟩
    | some head =>
      rw [first] at linked
      obtain ⟨last, final⟩ : ∃ last, lastBlock cells = some last := by
        cases linked
        simp
      have walked := lastChain_linked linked list.steps lists.enough
      have member := mem_of_lastBlock final
      obtain ⟨node, live⟩ := Linked.live_of_mem linked member
      obtain ⟨heap, stored, -, -⟩ :=
        Heap.exists_store live { node with next := some (list.heap.alloc ⟨chain, none⟩).2 }
      have apart : last ∉ blocksOf [((list.heap.alloc ⟨chain, none⟩).2, chain)] := by
        intro same
        have equal : last = (list.heap.alloc ⟨chain, none⟩).2 := mem_singleton.mp same
        exact outside (equal ▸ member)
      simp only [walked, final, Option.bind_some, live, stored]
      exact ⟨_, rfl, _, Linked.append linked final live stored rfl alone apart⟩

theorem ChainList.addOther (list : ChainList α) (loader : Loader α) (registry : Registry α)
    (unnamed : ∀ name, ci.values ≠ [.string name]) :
    list.fcConfigAddChain loader registry ci = some (-1, registry, list) := by
  rw [ChainList.fcConfigAddChain]
  split
  · rename_i name named
    exact absurd named (unnamed name)
  · rfl

/-- A chain in its block is a chain of the list. -/
theorem find?_chains (cells : List (Block × FcChain α)) (name : CString) :
    Filter.fcChainGetByName (cells.map Prod.snd) (some name) =
      (cells.find? fun cell => strcasecmp name cell.2.name == 0).map Prod.snd := by
  rw [Filter.fcChainGetByName, find?_map]
  rfl

end Block

theorem ne_zero_of_failed {status : Status} (failed : (if status ≠ 0 then -1 else 0 : Status) = -1) : status ≠ 0 := by
  intro succeeds
  simp [succeeds] at failed

/-- A block that fails is harmless exactly if it is not for a listed chain. -/
theorem failed_chain_leaves_others_iff (list : ChainList α) (cells : List (Block × FcChain α))
    (lists : list.Lists cells)
    (loader : Loader α) (registry : Registry α) (ci : ConfigItem) :
    ∃ status registry' list', list.fcConfigAddChain loader registry ci = some (status, registry', list') ∧
      (status = -1 → (KeepsChains list cells list' ↔
        ∀ name, ci.values = [.string name] → fcChainGetByName (cells.map Prod.snd) (some name) = none)) := by
  by_cases named : ∃ name, ci.values = [.string name]
  · obtain ⟨name, named⟩ := named
    have same := find?_chains cells name
    cases found : cells.find? fun cell => strcasecmp name cell.2.name == 0 with
    | none =>
      rw [found] at same
      rcases read : chainOptions loader registry ⟨sstrncpy name dataMaxNameLen, [], []⟩ ci.children with
        ⟨status, registry', chain⟩
      obtain ⟨list', called, listed⟩ := lists.addNew named found read
      refine ⟨_, registry', list', called, fun failed => ?_⟩
      rw [if_pos (ne_zero_of_failed failed)] at listed
      refine iff_of_true (.of_same lists listed) fun other again => ?_
      rw [named] at again
      cases again
      exact same
    | some cell =>
      rw [found] at same
      rcases read : chainOptions loader registry cell.2 ci.children with ⟨status, registry', chain⟩
      obtain ⟨list', called, listed⟩ := lists.addListed named found read
      refine ⟨_, registry', list', called, fun failed => ?_⟩
      rw [if_pos (ne_zero_of_failed failed)] at listed
      refine iff_of_false (fun keeps => ?_) fun free => ?_
      · obtain ⟨kept, more, remaining, -⟩ := keeps.lists
        exact listed _ remaining
      · have absent := free name named
        rw [same] at absent
        cases absent
  · have unnamed : ∀ name, ci.values ≠ [.string name] := fun name same => named ⟨name, same⟩
    refine ⟨_, _, _, list.addOther loader registry unnamed, fun _ => ?_⟩
    exact iff_of_true (.of_same lists lists) fun name same => absurd same (unnamed name)

def twoChains : ChainList Unit where
  heap := ⟨[some ⟨⟨"A", [], []⟩, some 1⟩, some ⟨⟨"B", [], []⟩, none⟩]⟩
  chainListHead := some 0

def twoCells : List (Block × FcChain Unit) := [(0, ⟨"A", [], []⟩), (1, ⟨"B", [], []⟩)]

theorem twoChains_lists : twoChains.Lists twoCells := .cons rfl rfl (.cons rfl rfl .nil)

def badBlock (name : String) : ConfigItem := ⟨"Chain", [.string name.toList], [⟨"Bogus", [], []⟩]⟩

def noLoader : Loader Unit := ⟨false, fun _ registry => (-1, registry)⟩

theorem failed_chain_leaves_others_new :
    ∃ list', twoChains.fcConfigAddChain noLoader ⟨[], []⟩ (badBlock "C") = some (-1, ⟨[], []⟩, list') ∧
      KeepsChains twoChains twoCells list' := by
  obtain ⟨status, registry, list', called, keeps⟩ :=
    failed_chain_leaves_others_iff twoChains twoCells twoChains_lists noLoader ⟨[], []⟩ (badBlock "C")
  obtain ⟨freed, computed⟩ : ∃ freed, twoChains.fcConfigAddChain noLoader ⟨[], []⟩ (badBlock "C") =
      some (-1, ⟨[], []⟩, freed) := ⟨_, rfl⟩
  cases called.symm.trans computed
  refine ⟨list', computed, (keeps rfl).mpr fun name named => ?_⟩
  cases named
  rfl

theorem failed_chain_frees_listed :
    ∃ list', twoChains.fcConfigAddChain noLoader ⟨[], []⟩ (badBlock "A") = some (-1, ⟨[], []⟩, list') ∧
      list'.heap.deref 0 = none ∧ list'.heap.deref 1 = none ∧ list'.chainListHead = some 0 ∧
      ¬ KeepsChains twoChains twoCells list' := by
  refine ⟨⟨⟨[none, none]⟩, some 0⟩, rfl, rfl, rfl, rfl, fun keeps => ?_⟩
  obtain ⟨kept, more, remaining, -⟩ := keeps.lists
  generalize kept ++ more = cells at remaining
  cases remaining with
  | cons live _ _ => cases live

end NCollectd.Filter
