import NCollectd.Utils.AvlUpdate
import NCollectd.Utils.HeapRuns

namespace NCollectd.Avl

open HeightTree HTree KeyOrder

variable {κ ν : Type} {compare : κ → κ → Int} {t : CAvl κ ν} {tree : HTree (Block × κ × ν)}

/-- The memory of a tree: a balanced search tree with the entries in order, and their number. -/
structure Represents (compare : κ → κ → Int) (t : CAvl κ ν) (tree : HTree (Block × κ × ν)) : Prop where
  layout : At t [] tree
  balanced : tree.Balanced
  increasing : Ascending compare (entriesOf tree)
  size : t.size = (entriesOf tree).length
  small : t.size ≤ intMax

theorem entries_plug (x : Block × κ × ν) (height : Int)
    (left right : HTree (Block × κ × ν)) : entriesOf (plug path (node x height left right)) =
      ((before path).map Prod.snd ++ entriesOf left) ++ x.2 :: (entriesOf right ++ (after path).map Prod.snd) := by
  simp [entriesOf, toList_plug, toList]

def entryOutput (wantKey wantValue : Bool) (entry : κ × ν) : Output κ ν :=
  ⟨if wantKey then some entry.1 else none, if wantValue then some entry.2 else none⟩

theorem represents_shrunk (represents : Represents compare t tree)
    (split : entriesOf tree = earlier ++ entry :: later) (layout : At t' [] tree') (balanced : tree'.Balanced)
    (size : t'.size = t.size - 1) (entries : entriesOf tree' = earlier ++ later) : Represents compare t' tree' := by
  have counted := represents.size
  have small := represents.small
  refine ⟨layout, balanced, ?_, ?_, by omega⟩
  · rw [entries]
    exact (ascending_insert_iff.mp (split ▸ represents.increasing)).1
  · rw [size, counted, split, entries]
    simp only [List.length_append, List.length_cons]
    omega

theorem resize_down {t' : CAvl κ ν} (represents : Represents compare t tree) (size : t'.size = t.size) :
    t'.resize (-1) = some { t' with size := t.size - 1 } := by
  have counted := represents.size
  have small := represents.small
  unfold intMax at small
  unfold CAvl.resize intMax
  rw [size, if_pos (by omega)]
  rfl

theorem Represents.congr (represents : Represents compare t tree) (root : t'.root = t.root)
    (size : t'.size = t.size) (same : ∀ block ∈ blocks tree, t'.heap.deref block = t.heap.deref block) :
    Represents compare t' tree := by
  refine ⟨represents.layout.congr root fun block member => same block ?_, represents.balanced, represents.increasing,
    size ▸ represents.size, size ▸ represents.small⟩
  rwa [pathBlocks, add_zero] at member

section

variable (order : Comparison compare) (represents : Represents compare t tree)
include order represents

theorem insertLoop_result
    (child : rootOf tree = some nptr) (atNew : t.heap.deref new = some (newNode key value))
    (fresh : new ∉ blocks tree) :
    ((∃ entry ∈ entriesOf tree, compare key entry.1 = 0) ∧
        ∃ t', insertLoop compare t key new t.turns nptr = some (EEXIST, t') ∧ t'.root = t.root ∧ t'.size = t.size ∧
          t'.heap.deref new = none ∧ ∀ block, block ≠ new → t'.heap.deref block = t.heap.deref block) ∨
      (∀ entry ∈ entriesOf tree, compare key entry.1 ≠ 0) ∧
        (t.size = intMax → insertLoop compare t key new t.turns nptr = none) ∧
        (t.size ≠ intMax → ∃ t' tree' earlier later, insertLoop compare t key new t.turns nptr = some (0, t') ∧
          Represents compare t' tree' ∧ entriesOf tree = earlier ++ later ∧
          entriesOf tree' = earlier ++ (key, value) :: later) := by
  have layout := represents.layout
  have enough : tree.depth ≤ t.turns := Nat.le_succ_of_le layout.depth_add_length_le
  rcases insertLoop_spec new order layout.stored represents.increasing child enough with
    ⟨ended, entry, member, equal⟩ | ⟨frame, path, place, ended, smaller, larger⟩
  · obtain ⟨t', freed, root', size', gone, others⟩ := freeNode_leaf atNew rfl rfl
    exact .inl ⟨⟨entry, member, order.eq_comm.mp equal⟩, t', by rw [ended, freed]; rfl, root', size', gone, others⟩
  subst place
  have entries : entriesOf (plug (frame :: path) nil) =
      (before (frame :: path)).map Prod.snd ++ (after (frame :: path)).map Prod.snd := by
    rw [entriesOf, toList_plug]
    simp [toList]
  have below : ∀ entry ∈ (before (frame :: path)).map Prod.snd, compare entry.1 key < 0 := by
    intro entry member
    obtain ⟨x, inside, rfl⟩ := List.mem_map.mp member
    exact smaller x inside
  have above : ∀ entry ∈ (after (frame :: path)).map Prod.snd, compare key entry.1 < 0 := by
    intro entry member
    obtain ⟨x, inside, rfl⟩ := List.mem_map.mp member
    exact larger x inside
  rw [blocks_plug, blocks, zero_add] at fresh
  obtain ⟨t', tree', attached, layout', balanced', size', list'⟩ :=
    attachNode_spec (at_root_iff.mpr layout) represents.balanced atNew fresh
  have counted := represents.size
  have small := represents.small
  rw [ended, attached]
  refine .inr ⟨fun entry member equal => ?_, fun full => ?_, fun room => ?_⟩
  · rw [entries] at member
    rcases List.mem_append.mp member with first | second
    · have less := (order.swap entry.1 key).mp (below entry first)
      omega
    · have less := above entry second
      omega
  · rw [CAvl.resize, if_neg (by omega), Option.map_none]
  · have grown : t'.resize 1 = some { t' with size := t'.size + 1 } := by
      rw [CAvl.resize, if_pos]
      unfold intMax at *
      omega
    have inserted : entriesOf tree' =
        (before (frame :: path)).map Prod.snd ++ (key, value) :: (after (frame :: path)).map Prod.snd := by
      rw [entriesOf, list', List.map_append, List.map_cons]
    refine ⟨{ t' with size := t'.size + 1 }, tree', _, _, by rw [grown]; rfl,
      ⟨layout'.congr rfl fun block member => rfl, balanced', ?_, ?_, ?_⟩, entries, inserted⟩
    · rw [inserted]
      exact ascending_insert_iff.mpr ⟨entries ▸ represents.increasing, below, above⟩
    · change t'.size + 1 = _
      rw [size', inserted, counted, entries]
      simp only [List.length_append, List.length_cons]
      omega
    · change t'.size + 1 ≤ intMax
      omega

theorem cAvlInsert_spec (key : κ) (value : ν) :
    ((∃ entry ∈ entriesOf tree, compare key entry.1 = 0) ∧ ∃ t', cAvlInsert compare t key value = some (EEXIST, t') ∧
        t'.root = t.root ∧ t'.size = t.size ∧ ∀ block, t'.heap.deref block = t.heap.deref block) ∨
      (∀ entry ∈ entriesOf tree, compare key entry.1 ≠ 0) ∧
        (t.size = intMax → cAvlInsert compare t key value = none) ∧
        (t.size ≠ intMax → ∃ t' tree' earlier later, cAvlInsert compare t key value = some (0, t') ∧
          Represents compare t' tree' ∧ entriesOf tree = earlier ++ later ∧
          entriesOf tree' = earlier ++ (key, value) :: later) := by
  have root : t.root = rootOf tree := represents.layout.around
  have counted := represents.size
  cases child : rootOf tree with
  | none =>
    have step : cAvlInsert compare t key value =
        some (0, ⟨(t.heap.alloc (newNode key value)).1, some (t.heap.alloc (newNode key value)).2, 1⟩) := by
      rw [cAvlInsert, root, child]
    rw [step]
    obtain rfl := eq_nil_of_rootOf child
    have empty : t.size = 0 := counted
    refine .inr ⟨nofun, fun full => ?_, fun _ => ?_⟩
    · rw [empty] at full
      cases full
    · refine ⟨⟨(t.heap.alloc (newNode key value)).1, some (t.heap.alloc (newNode key value)).2, 1⟩,
        node ((t.heap.alloc (newNode key value)).2, key, value) 1 nil nil, [], [], rfl, ?_, rfl, rfl⟩
      refine ⟨⟨⟨Heap.deref_alloc_self, trivial, trivial⟩, rfl, Multiset.nodup_singleton _⟩, ?_, ?_, rfl, ?_⟩
      · simp [HTree.Balanced, stored]
      · exact List.pairwise_singleton _ _
      · change (1 : Int) ≤ 2147483647
        omega
  | some nptr =>
    have step : cAvlInsert compare t key value =
        insertLoop compare { t with heap := (t.heap.alloc (newNode key value)).1 } key
          (t.heap.alloc (newNode key value)).2
          (CAvl.turns { t with heap := (t.heap.alloc (newNode key value)).1 }) nptr := by
      rw [child] at root
      obtain ⟨heap, _, size⟩ := t
      subst root
      rfl
    rw [step]
    have outside : (t.heap.alloc (newNode key value)).2 ∉ blocks tree := by
      intro member
      obtain ⟨entry, live⟩ := represents.layout.stored.live member
      exact Heap.ne_alloc live _ rfl
    have represents₁ : Represents compare { t with heap := (t.heap.alloc (newNode key value)).1 } tree :=
      represents.congr rfl rfl fun block member => Heap.deref_alloc_ne _ fun same => outside (same ▸ member)
    rcases insertLoop_result order represents₁ child Heap.deref_alloc_self outside with
      ⟨present, t', returned, root', size', gone, others⟩ | result
    · refine .inl ⟨present, t', returned, root', size', fun block => ?_⟩
      by_cases same : block = (t.heap.alloc (newNode key value)).2
      · rw [same, gone, Heap.deref_fresh]
      · rw [others block same]
        exact Heap.deref_alloc_ne _ same
    · exact .inr result

theorem cAvlRemove_spec (key : κ) (wantKey wantValue : Bool) :
    ((∀ entry ∈ entriesOf tree, compare key entry.1 ≠ 0) ∧
        cAvlRemove compare t (some key) wantKey wantValue = some (ENOENT, ⟨none, none⟩, t)) ∨
      ∃ entry t' tree' earlier later, compare key entry.1 = 0 ∧
        cAvlRemove compare t (some key) wantKey wantValue = some (0, entryOutput wantKey wantValue entry, t') ∧
        Represents compare t' tree' ∧ entriesOf tree = earlier ++ entry :: later ∧
        entriesOf tree' = earlier ++ later := by
  rcases search_spec order represents.layout represents.increasing key with
    ⟨missing, absent⟩ | ⟨path, x, height, left, right, rfl, found, equal⟩
  · exact .inl ⟨absent, by simp [cAvlRemove, missing]⟩
  · have layout : At t path (node x height left right) := at_root_iff.mpr represents.layout
    obtain ⟨t', tree', removed, layout', balanced', size', entries'⟩ := removeNode_spec layout represents.balanced
    have here := layout.stored.1
    have shrunk := resize_down represents size'
    refine .inr ⟨x.2, { t' with size := t.size - 1 }, tree', (before path).map Prod.snd ++ entriesOf left,
      entriesOf right ++ (after path).map Prod.snd, equal, ?_, ?_, entries_plug .., ?_⟩
    · simp [cAvlRemove, found, here, removed, shrunk, nodeOf, entryOutput]
    · refine represents_shrunk represents (entries_plug ..) (layout'.congr rfl fun block member => rfl)
        balanced' rfl ?_
      rw [entries']
      simp
    · rw [entries']
      simp

end

theorem cAvlPick_spec (represents : Represents compare t tree) (wanted : ¬ (wantKey = false ∧ wantValue = false)) :
    (entriesOf tree = [] ∧ cAvlPick t wantKey wantValue = some (EOF, ⟨none, none⟩, t)) ∨
      ∃ entry t' tree' earlier later,
        cAvlPick t wantKey wantValue = some (0, entryOutput wantKey wantValue entry, t') ∧
        Represents compare t' tree' ∧ entriesOf tree = earlier ++ entry :: later ∧
        entriesOf tree' = earlier ++ later := by
  have root : t.root = rootOf tree := represents.layout.around
  cases child : rootOf tree with
  | none =>
    obtain rfl := eq_nil_of_rootOf child
    exact .inl ⟨rfl, by rw [cAvlPick, if_neg wanted, root, child]⟩
  | some n =>
    have enough : tree.depth ≤ t.turns := Nat.le_succ_of_le represents.layout.depth_add_length_le
    obtain ⟨path, x, height, rfl, ended⟩ := leafLoop_spec represents.layout.stored child enough
    have layout : At t path (orient .left x height nil nil) := at_root_iff.mpr represents.layout
    obtain ⟨sub, fits⟩ := plug_balanced_iff.mp represents.balanced
    have low : height = 1 := sub.2.2.1
    have here := layout.stored.1
    obtain ⟨absent, t₁, t₂, step₁, step₂, layout₂, size₂, same₂⟩ := unlink_spec layout
    obtain rfl : t₁ = t₂ := Option.some.inj step₂
    obtain ⟨t₃, step₃, root₃, size₃, _, mem₃⟩ := freeNode_leaf (same₂.trans here) rfl rfl
    have shrunk := resize_down represents (size₃.trans size₂)
    have layout₃ : At { t₃ with size := t.size - 1 } path nil := by
      refine layout₂.congr root₃ fun block member => mem₃ block ?_
      rintro rfl
      exact absent member
    obtain ⟨t₄, tree', step₄, layout₄, balanced₄, list₄, kept₄⟩ :=
      rebalance_place layout₃ trivial fits (by simp [stored, low]) (by simp [stored, low])
    have entries' : entriesOf tree' = ((before path).map Prod.snd ++ entriesOf nil) ++
        (entriesOf nil ++ (after path).map Prod.snd) := by
      rw [entriesOf, list₄, toList_plug]
      simp [toList]
    refine .inr ⟨x.2, t₄, tree', _, _, ?_, ?_, entries_plug .., entries'⟩
    · simp only [rootOf] at step₁
      rw [cAvlPick, if_neg wanted, root, child]
      simp [ended, here, nodeOf, step₁, step₃, shrunk, step₄, entryOutput]
    · exact represents_shrunk represents (entries_plug ..) layout₄ balanced₄ kept₄.size entries'

/-- What `c_avl_get` finds. -/
theorem cAvlGet_spec (order : Comparison compare) (represents : Represents compare t tree) (key : κ)
    (wantValue : Bool) :
    ((∀ entry ∈ entriesOf tree, compare key entry.1 ≠ 0) ∧ cAvlGet compare t key wantValue = some (ENOENT, none)) ∨
      ∃ entry ∈ entriesOf tree, compare key entry.1 = 0 ∧
        cAvlGet compare t key wantValue = some (0, if wantValue then some entry.2 else none) := by
  rcases search_spec order represents.layout represents.increasing key with
    ⟨missing, absent⟩ | ⟨path, x, height, left, right, rfl, found, equal⟩
  · exact .inl ⟨absent, by simp [cAvlGet, missing]⟩
  · have layout : At t path (node x height left right) := at_root_iff.mpr represents.layout
    have here := layout.stored.1
    refine .inr ⟨x.2, ?_, equal, ?_⟩
    · rw [entries_plug]
      simp
    · simp [cAvlGet, found, here, nodeOf]

inductive AvlCall (κ ν : Type) where
  | insert (key : κ) (value : ν)
  | remove (key : Option κ) (wantKey wantValue : Bool)
  | pick (wantKey wantValue : Bool)

/-- What a call returns, and what it writes through its pointers. -/
structure AvlAnswer (κ ν : Type) where
  status : Status
  output : Output κ ν

def avlCall (compare : κ → κ → Int) (t : CAvl κ ν) : AvlCall κ ν → Option (AvlAnswer κ ν × CAvl κ ν)
  | .insert key value => (cAvlInsert compare t key value).map fun result => (⟨result.1, none, none⟩, result.2)
  | .remove key wantKey wantValue =>
    (cAvlRemove compare t key wantKey wantValue).map fun result => (⟨result.1, result.2.1⟩, result.2.2)
  | .pick wantKey wantValue =>
    (cAvlPick t wantKey wantValue).map fun result => (⟨result.1, result.2.1⟩, result.2.2)

def avlRun (compare : κ → κ → Int) (t : CAvl κ ν) : List (AvlCall κ ν) → Option (List (AvlAnswer κ ν) × CAvl κ ν)
  | [] => some ([], t)
  | call :: calls =>
    (avlCall compare t call).bind fun result =>
      (avlRun compare result.2 calls).map fun results => (result.1 :: results.1, results.2)

/-- A call on a finite map, which is given by its entries. -/
inductive MapCall (compare : κ → κ → Int) :
    Multiset (κ × ν) → AvlCall κ ν → AvlAnswer κ ν → Multiset (κ × ν) → Prop where
  | inserted : (∀ entry ∈ map, compare key entry.1 ≠ 0) →
      MapCall compare map (.insert key value) ⟨0, none, none⟩ ((key, value) ::ₘ map)
  | present : entry ∈ map → compare key entry.1 = 0 →
      MapCall compare map (.insert key value) ⟨EEXIST, none, none⟩ map
  | invalidKey : MapCall compare map (.remove none wantKey wantValue) ⟨EINVAL, none, none⟩ map
  | missing : (∀ entry ∈ map, compare key entry.1 ≠ 0) →
      MapCall compare map (.remove (some key) wantKey wantValue) ⟨ENOENT, none, none⟩ map
  | removed : compare key entry.1 = 0 → MapCall compare (entry ::ₘ map) (.remove (some key) wantKey wantValue)
      ⟨0, entryOutput wantKey wantValue entry⟩ map
  | nothingWanted : MapCall compare map (.pick false false) ⟨EINVAL, none, none⟩ map
  | empty : ¬ (wantKey = false ∧ wantValue = false) →
      MapCall compare 0 (.pick wantKey wantValue) ⟨EOF, none, none⟩ 0
  | picked : ¬ (wantKey = false ∧ wantValue = false) →
      MapCall compare (entry ::ₘ map) (.pick wantKey wantValue) ⟨0, entryOutput wantKey wantValue entry⟩ map

inductive MapRun (compare : κ → κ → Int) :
    Multiset (κ × ν) → List (AvlCall κ ν) → List (AvlAnswer κ ν) → Multiset (κ × ν) → Prop where
  | nil : MapRun compare map [] [] map
  | cons : MapCall compare map call answer map' → MapRun compare map' calls answers map'' →
      MapRun compare map (call :: calls) (answer :: answers) map''

/-- The call inserts a new key into a map that has `INT_MAX` entries. -/
def Overflows (compare : κ → κ → Int) (map : Multiset (κ × ν)) (call : AvlCall κ ν) : Prop :=
  (map.card : Int) = intMax ∧ ∃ key value, call = .insert key value ∧ ∀ entry ∈ map, compare key entry.1 ≠ 0

theorem mem_coe_of_split (split : entries = earlier ++ entry :: later) :
    (entries : Multiset (κ × ν)) = entry ::ₘ ((earlier ++ later : List (κ × ν)) : Multiset (κ × ν)) := by
  rw [split, Multiset.cons_coe, Multiset.coe_eq_coe]
  exact List.perm_middle

theorem avlCall_refines (order : Comparison compare) (represents : Represents compare t tree) (call : AvlCall κ ν) :
    (Overflows compare (entriesOf tree : Multiset (κ × ν)) call ∧ avlCall compare t call = none) ∨
      ∃ answer t' tree', avlCall compare t call = some (answer, t') ∧ Represents compare t' tree' ∧
        MapCall compare (entriesOf tree : Multiset (κ × ν)) call answer (entriesOf tree' : Multiset (κ × ν)) := by
  cases call with
  | insert key value =>
    rcases cAvlInsert_spec order represents key value with
      ⟨⟨entry, member, equal⟩, t', returned, root, size, same⟩ | ⟨absent, full, room⟩
    · refine .inr ⟨_, t', tree, by rw [avlCall, returned]; rfl,
        represents.congr root size fun block _ => same block, ?_⟩
      exact .present (Multiset.mem_coe.mpr member) equal
    · by_cases size : t.size = intMax
      · refine .inl ⟨⟨?_, key, value, rfl, absent⟩, by rw [avlCall, full size]; rfl⟩
        rw [Multiset.coe_card, ← represents.size, size]
      · obtain ⟨t', tree', earlier, later, returned, represents', split, entries'⟩ := room size
        refine .inr ⟨_, t', tree', by rw [avlCall, returned]; rfl, represents', ?_⟩
        rw [mem_coe_of_split entries', ← split]
        exact .inserted absent
  | remove key wantKey wantValue =>
    cases key with
    | none => exact .inr ⟨_, t, tree, rfl, represents, .invalidKey⟩
    | some key =>
      rcases cAvlRemove_spec order represents key wantKey wantValue with
        ⟨absent, returned⟩ | ⟨entry, t', tree', earlier, later, equal, returned, represents', split, entries'⟩
      · exact .inr ⟨_, t, tree, by rw [avlCall, returned]; rfl, represents, .missing absent⟩
      · refine .inr ⟨_, t', tree', by rw [avlCall, returned]; rfl, represents', ?_⟩
        rw [mem_coe_of_split split, ← entries']
        exact .removed equal
  | pick wantKey wantValue =>
    by_cases unwanted : wantKey = false ∧ wantValue = false
    · obtain ⟨rfl, rfl⟩ := unwanted
      exact .inr ⟨_, t, tree, rfl, represents, .nothingWanted⟩
    · rcases cAvlPick_spec represents unwanted with
        ⟨none, returned⟩ | ⟨entry, t', tree', earlier, later, returned, represents', split, entries'⟩
      · refine .inr ⟨_, t, tree, by rw [avlCall, returned]; rfl, represents, ?_⟩
        rw [none]
        exact .empty unwanted
      · refine .inr ⟨_, t', tree', by rw [avlCall, returned]; rfl, represents', ?_⟩
        rw [mem_coe_of_split split, ← entries']
        exact .picked unwanted

/-- A run is one of the map, up to a call that overflows. -/
theorem avlRun_refines (order : Comparison compare) (represents : Represents compare t tree)
    (calls : List (AvlCall κ ν)) :
    (∃ answers t' tree', avlRun compare t calls = some (answers, t') ∧ Represents compare t' tree' ∧
        MapRun compare (entriesOf tree : Multiset (κ × ν)) calls answers (entriesOf tree' : Multiset (κ × ν))) ∨
      avlRun compare t calls = none ∧ ∃ earlier call later answers map, calls = earlier ++ call :: later ∧
        MapRun compare (entriesOf tree : Multiset (κ × ν)) earlier answers map ∧ Overflows compare map call := by
  induction calls generalizing t tree with
  | nil => exact .inl ⟨[], t, tree, rfl, represents, .nil⟩
  | cons call calls ih =>
    rcases avlCall_refines order represents call with
      ⟨overflows, undefined⟩ | ⟨answer, next, middle, returned, valid, step⟩
    · refine .inr ⟨by rw [avlRun, undefined]; rfl, [], call, calls, [], _, rfl, .nil, overflows⟩
    · rcases ih valid with ⟨answers, last, tree', rest, valid', run⟩ |
        ⟨undefined, earlier, over', later, answers, map, rfl, run, overflows⟩
      · refine .inl ⟨answer :: answers, last, tree', ?_, valid', .cons step run⟩
        rw [avlRun, returned, Option.bind_some, rest]
        rfl
      · refine .inr ⟨?_, call :: earlier, over', later, answer :: answers, map, rfl, .cons step run, overflows⟩
        rw [avlRun, returned, Option.bind_some, undefined]
        rfl

theorem represents_create : Represents compare (cAvlCreate : CAvl κ ν) nil :=
  ⟨⟨trivial, rfl, Multiset.nodup_zero⟩, trivial, List.Pairwise.nil, rfl, Int.zero_le_ofNat 2147483647⟩

/-- Every node with its children, parent and height; balanced, with the keys in order. -/
structure SearchTree (compare : κ → κ → Int) (t : CAvl κ ν) (tree : HTree (Block × κ × ν)) : Prop where
  root : t.root = rootOf tree
  distinct : (blocks tree).Nodup
  nodes : ∀ path x height left right, tree = plug path (node x height left right) →
    t.heap.deref x.1 = some ⟨x.2.1, x.2.2, height, rootOf left, rootOf right, lowest path⟩
  heights : ∀ path x height left right, tree = plug path (node x height left right) →
    height = (node x height left right).depth ∧ -1 ≤ (left.depth : Int) - right.depth ∧
      (left.depth : Int) - right.depth ≤ 1
  increasing : Ascending compare (entriesOf tree)
  size : t.size = (entriesOf tree).length

theorem Represents.searchTree (represents : Represents compare t tree) : SearchTree compare t tree := by
  refine ⟨represents.layout.around, ?_, ?_, ?_, represents.increasing, represents.size⟩
  · have distinct := represents.layout.distinct
    rwa [pathBlocks, add_zero] at distinct
  · rintro path x height left right rfl
    exact (at_root_iff.mpr represents.layout).stored.1
  · rintro path x height left right rfl
    obtain ⟨sub, _⟩ := plug_balanced_iff.mp represents.balanced
    have height := sub.stored_eq
    obtain ⟨onLeft, onRight, _, less, more⟩ := sub
    rw [onLeft.stored_eq, onRight.stored_eq] at less more
    exact ⟨height, by omega, by omega⟩

/-- Every sequence of calls answers as the finite map does, up to `INT_MAX` entries. -/
theorem c_avl_refines_finite_map (order : Comparison compare) (calls : List (AvlCall κ ν)) :
    (∃ answers t tree map, avlRun compare cAvlCreate calls = some (answers, t) ∧ MapRun compare 0 calls answers map ∧
        (entriesOf tree : Multiset (κ × ν)) = map ∧ SearchTree compare t tree ∧
        (∀ key wantValue,
          (∀ entry ∈ map, compare key entry.1 ≠ 0) ∧ cAvlGet compare t key wantValue = some (ENOENT, none) ∨
          ∃ entry ∈ map, compare key entry.1 = 0 ∧
            cAvlGet compare t key wantValue = some (0, if wantValue then some entry.2 else none)) ∧
        (∀ key value, ∀ entry ∈ map, compare key entry.1 = 0 →
          ∃ t', cAvlInsert compare t key value = some (EEXIST, t') ∧
          t'.root = t.root ∧ t'.size = t.size ∧ ∀ block, t'.heap.deref block = t.heap.deref block)) ∨
      avlRun compare cAvlCreate calls = none ∧ ∃ earlier call later answers map, calls = earlier ++ call :: later ∧
        MapRun compare 0 earlier answers map ∧ Overflows compare map call := by
  rcases avlRun_refines order represents_create calls with
    ⟨answers, t, tree, returned, represents, run⟩ | beyond
  · refine .inl ⟨answers, t, tree, _, returned, run, rfl, represents.searchTree, fun key wantValue => ?_, ?_⟩
    · exact cAvlGet_spec order represents key wantValue
    · intro key value entry member equal
      rcases cAvlInsert_spec order represents key value with ⟨_, unchanged⟩ | ⟨absent, _⟩
      · exact unchanged
      · exact absurd equal (absent entry member)
  · exact .inr beyond

theorem compareNat_order : Comparison compareNat where
  swap a b := by
    unfold compareNat
    grind
  trans first second := by
    unfold compareNat at *
    grind

theorem c_avl_refines_finite_map_rotating : ∃ answers t tree map, avlRun compareNat cAvlCreate
    [.insert 3 "c", .insert 2 "b", .insert 1 "a", .insert 2 "d", .remove (some 2) true true, .pick true false] =
      some (answers, t) ∧ SearchTree compareNat t tree ∧ (entriesOf tree : Multiset (Nat × String)) = map := by
  rcases c_avl_refines_finite_map compareNat_order
    [.insert 3 "c", .insert 2 "b", .insert 1 "a", .insert 2 "d", .remove (some 2) true true, .pick true false] with
    ⟨answers, t, tree, map, returned, _, same, valid, _⟩ | ⟨undefined, _⟩
  · exact ⟨answers, t, tree, map, returned, valid, same⟩
  · cases undefined

theorem mapRun_append
    (run : MapRun compare map (first ++ second) answers map'') :
    ∃ map' earlier later, MapRun compare map first earlier map' ∧ MapRun compare map' second later map'' := by
  induction first generalizing map answers with
  | nil => exact ⟨map, [], answers, .nil, run⟩
  | cons call calls ih =>
    cases run with
    | cons step rest =>
      obtain ⟨map', earlier, later, begun, ended⟩ := ih rest
      exact ⟨map', _ :: earlier, later, .cons step begun, ended⟩

def insertions (n : Nat) : List (AvlCall Nat Unit) := (List.range n).map fun key => .insert key ()

theorem mapRun_insertions (run : MapRun compareNat 0 (insertions n) answers map) :
    map.card = n ∧ ∀ entry ∈ map, entry.1 < n := by
  induction n generalizing answers map with
  | zero =>
    cases run
    exact ⟨rfl, nofun⟩
  | succ n ih =>
    rw [insertions, List.range_succ, List.map_append] at run
    obtain ⟨map', earlier, later, begun, ended⟩ := mapRun_append run
    obtain ⟨count, less⟩ := ih begun
    cases ended with
    | cons step rest =>
      cases rest
      cases step with
      | inserted =>
        refine ⟨by rw [Multiset.card_cons, count], fun entry member => ?_⟩
        rcases Multiset.mem_cons.mp member with rfl | inside
        · exact Nat.lt_succ_self n
        · exact Nat.lt_succ_of_lt (less entry inside)
      | present member equal =>
        unfold compareNat at equal
        grind

/-- The number of entries is an `int`: one entry more than `INT_MAX` overflows. -/
theorem insert_beyond_int_max_undefined :
    avlRun compareNat (cAvlCreate : CAvl Nat Unit) (insertions 2147483648) = none := by
  rcases avlRun_refines compareNat_order represents_create (insertions 2147483648) with
    ⟨answers, t, tree, _, represents, run⟩ | ⟨undefined, _⟩
  · have count := (mapRun_insertions run).1
    have small := represents.small
    rw [Multiset.coe_card] at count
    rw [represents.size, count] at small
    exact absurd small (by decide)
  · exact undefined

/-- A search takes at most about 1.44 log₂ size turns. -/
theorem c_avl_search_logarithmic (order : Comparison compare) {calls : List (AvlCall κ ν)}
    {answers : List (AvlAnswer κ ν)} (ran : avlRun compare cAvlCreate calls = some (answers, t)) (key : κ)
    (enough : t.size + 1 < Nat.fib (turns + 3)) : (searchLoop compare t key turns t.root).isSome := by
  rcases avlRun_refines order represents_create calls with ⟨_, _, tree, returned, represents, _⟩ | ⟨beyond, _⟩
  · cases ran.symm.trans returned
    have shallow : tree.depth ≤ turns := by
      by_contra deep
      have grown := Nat.fib_mono (show turns + 3 ≤ tree.depth + 2 by omega)
      have bound := represents.balanced.fib_le
      have size := represents.size
      rw [entriesOf, List.length_map] at size
      omega
    rw [represents.layout.around]
    rcases searchLoop_spec order represents.layout.stored represents.increasing shallow with
      ⟨ended, _⟩ | ⟨_, _, _, _, _, _, ended, _⟩
    all_goals rw [ended, Option.isSome_some]
  · cases ran.symm.trans beyond

theorem c_avl_search_logarithmic_three : ∃ (answers : List (AvlAnswer Nat Unit)) (t : CAvl Nat Unit),
    avlRun compareNat cAvlCreate (insertions 3) = some (answers, t) ∧ (searchLoop compareNat t 5 2 t.root).isSome := by
  rcases ran : avlRun compareNat cAvlCreate (insertions 3) with _ | ⟨answers, t⟩
  · cases ran
  · exact ⟨answers, t, rfl, c_avl_search_logarithmic compareNat_order ran 5 (by cases ran; decide)⟩

end NCollectd.Avl
