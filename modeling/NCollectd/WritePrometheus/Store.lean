import NCollectd.WritePrometheus.Model

namespace NCollectd.Prometheus

open LabelSet Locked

def metricKey (m : FamilyMetric) : ℕ ×ₗ List CString :=
  toLex (m.labels.pairs.length, m.labels.pairs.map LabelPair.value)

theorem compareValues_orders (length : first.length = second.length) :
    (compareValues first second < 0 ↔ first.map LabelPair.value < second.map LabelPair.value) ∧
      (compareValues first second = 0 ↔ first.map LabelPair.value = second.map LabelPair.value) := by
  induction first generalizing second with
  | nil =>
    obtain rfl := List.length_eq_zero_iff.mp length.symm
    simp [compareValues]
  | cons pair rest ih =>
    cases second with
    | nil => cases length
    | cons pair' rest' =>
      obtain ⟨less, equal⟩ := ih (Nat.succ.inj length)
      rw [compareValues, List.map_cons, List.map_cons, List.cons_lt_cons_iff, List.cons_eq_cons, ← strcmp_neg_iff,
        ← strcmp_eq_zero_iff, ← less, ← equal]
      by_cases same : strcmp pair.value pair'.value = 0
      all_goals simp [same]

theorem promMetricCmp_orders : ComparesBy promMetricCmp metricKey where
  less first second := by
    rw [metricKey, metricKey, Prod.Lex.toLex_lt_toLex, promMetricCmp]
    rcases Nat.lt_trichotomy first.labels.pairs.length second.labels.pairs.length with less | same | greater
    · simp [less]
    · simp [same, (compareValues_orders same).1]
    · simp [greater, greater.not_gt, greater.ne']
  same first second := by
    rw [metricKey, metricKey, toLex_inj, Prod.mk.injEq, promMetricCmp]
    rcases Nat.lt_trichotomy first.labels.pairs.length second.labels.pairs.length with less | same | greater
    · simp [less, less.ne]
    · simp [same, (compareValues_orders same).2]
    · simp [greater, greater.not_gt, greater.ne']

/-- Sorted as `bsearch` needs it. -/
def Sorted (metrics : List FamilyMetric) : Prop :=
  metrics.Pairwise fun first second => promMetricCmp first second ≤ 0

theorem sorted_iff : Sorted metrics ↔ (metrics.map metricKey).Pairwise (· ≤ ·) := by
  unfold Sorted
  simp only [promMetricCmp_orders.nonpos, List.pairwise_map]

theorem map_modify_of_eq {g : α → β} (same : ∀ x, g (f x) = g x) (list : List α) (i : Nat) :
    (list.modify i f).map g = list.map g := by
  apply List.ext_getElem?
  intro j
  rw [List.getElem?_map, List.getElem?_map, List.getElem?_modify]
  split
  · cases list[j]? <;> simp [same]
  · simp

section Metrics

variable {env : Environment}

theorem putMetric_sorted (sorted : Sorted metrics) : Sorted (putMetric env metrics m) := by
  unfold putMetric
  split
  · exact env.table.qsort_sorted _
  · rw [sorted_iff, map_modify_of_eq]
    · exact sorted_iff.mp sorted
    · exact fun _ => rfl

def dropMetric (metrics : List FamilyMetric) (m : FamilyMetric) : List FamilyMetric :=
  metrics.eraseP fun stored => promMetricCmp m stored = 0

theorem dropMetric_sorted (sorted : Sorted metrics) : Sorted (dropMetric metrics m) :=
  sorted.sublist List.eraseP_sublist

theorem dropMetric_of_miss (sorted : Sorted metrics) (missed : env.table.bsearch m metrics = none) :
    dropMetric metrics m = metrics := by
  apply List.eraseP_of_forall_not
  simpa using env.table.bsearch_miss m metrics sorted missed

theorem promMetricFamilyMetricDelete_of_hit (found : env.table.bsearch m metrics = some i) :
    metrics ≠ [] ∧ promMetricFamilyMetricDelete metrics m = (0, dropMetric metrics m) := by
  obtain ⟨element, inside, equal⟩ := env.table.bsearch_hit m metrics i found
  have member := List.mem_of_getElem? inside
  refine ⟨List.ne_nil_of_mem member, ?_⟩
  unfold promMetricFamilyMetricDelete dropMetric
  rw [List.eraseP_eq_eraseIdx]
  cases index : metrics.findIdx? fun stored => promMetricCmp m stored = 0 with
  | none =>
    have unequal := List.findIdx?_eq_none_iff.mp index element member
    simp [equal] at unequal
  | some i => rfl

def keysOf (metrics : List FamilyMetric) : Multiset (ℕ ×ₗ List CString) := ↑(metrics.map metricKey)

theorem keysOf_cons : keysOf (m :: metrics) = metricKey m ::ₘ keysOf metrics := rfl

theorem keysOf_dropMetric : keysOf (dropMetric metrics m) = (keysOf metrics).erase (metricKey m) := by
  induction metrics with
  | nil => rfl
  | cons stored rest ih =>
    rw [keysOf_cons]
    by_cases same : promMetricCmp m stored = 0
    · have dropped : dropMetric (stored :: rest) m = rest := List.eraseP_cons_of_pos (by simpa using same)
      rw [dropped, (promMetricCmp_orders.same _ _).mp same, Multiset.erase_cons_head]
    · have passed : dropMetric (stored :: rest) m = stored :: dropMetric rest m :=
        List.eraseP_cons_of_neg (by simpa using same)
      have different : metricKey stored ≠ metricKey m :=
        fun equal => same ((promMetricCmp_orders.same _ _).mpr equal.symm)
      rw [passed, keysOf_cons, Multiset.erase_cons_tail _ different, ih]

theorem keysOf_eq_zero_iff : keysOf metrics = 0 ↔ metrics = [] := by
  simp [keysOf]

end Metrics

namespace Prom

/-- Every name in the tree leads to a live family of that name with sorted metrics. -/
def Sound (prom : Prom) : Prop :=
  ∀ name promFam, prom.tree[name]? = some promFam →
    ∃ fam, prom.families.deref promFam = some fam ∧ fam.name = name ∧ Sorted fam.metrics

def family (prom : Prom) (name : CString) : Option Family := (prom.tree[name]?).bind prom.families.deref

/-- The pointer to a family in the tree. -/
structure Stored (prom : Prom) (name : CString) (promFam : Block) (fam : Family) : Prop where
  located : prom.tree[name]? = some promFam
  held : prom.families.deref promFam = some fam

theorem sound_empty : Sound empty := by
  intro name promFam located
  simp [empty] at located

variable {prom : Prom} {name : CString}

theorem Stored.family_eq (stored : prom.Stored name promFam fam) : prom.family name = some fam := by
  rw [family, stored.located]
  exact stored.held

theorem family_eq_none (absent : prom.tree[name]? = none) : prom.family name = none := by
  rw [family, absent]
  rfl

theorem Sound.stored (sound : prom.Sound) (located : prom.tree[name]? = some promFam) :
    ∃ fam, prom.Stored name promFam fam ∧ fam.name = name ∧ Sorted fam.metrics := by
  obtain ⟨fam, held, named, sorted⟩ := sound name promFam located
  exact ⟨fam, ⟨located, held⟩, named, sorted⟩

theorem Sound.stored_of_family (sound : prom.Sound) (known : prom.family name = some fam) :
    ∃ promFam, prom.Stored name promFam fam ∧ fam.name = name ∧ Sorted fam.metrics := by
  obtain ⟨promFam, located, held⟩ := Option.bind_eq_some_iff.mp known
  obtain ⟨fam', held', named, sorted⟩ := sound name promFam located
  cases held.symm.trans held'
  exact ⟨promFam, ⟨located, held⟩, named, sorted⟩

theorem Sound.family_none_iff (sound : prom.Sound) : prom.family name = none ↔ prom.tree[name]? = none := by
  constructor
  · intro unknown
    cases located : prom.tree[name]? with
    | none => rfl
    | some promFam =>
      obtain ⟨fam, stored, -⟩ := sound.stored located
      rw [stored.family_eq] at unknown
      cases unknown
  · exact family_eq_none

theorem Sound.block_ne (sound : prom.Sound) (located : prom.tree[name]? = some promFam)
    (located' : prom.tree[other]? = some promFam') (different : other ≠ name) : promFam' ≠ promFam := by
  rintro rfl
  obtain ⟨fam, held, named, -⟩ := sound name promFam' located
  obtain ⟨fam', held', named', -⟩ := sound other promFam' located'
  cases held.symm.trans held'
  exact different (named'.symm.trans named)

/-- The family of one name was changed. -/
structure Updated (before after : Prom) (name : CString) (promFam : Block) (fam : Family) : Prop where
  sound : after.Sound
  stored : after.Stored name promFam fam
  elsewhere : ∀ other, other ≠ name → after.family other = before.family other

/-- The family of one name was removed and freed. -/
structure Removed (before after : Prom) (name : CString) (promFam : Block) : Prop where
  sound : after.Sound
  absent : after.tree[name]? = none
  dead : after.families.deref promFam = none
  elsewhere : ∀ other, other ≠ name → after.family other = before.family other

theorem Updated.refl (sound : prom.Sound) (stored : prom.Stored name promFam fam) :
    Updated prom prom name promFam fam := ⟨sound, stored, fun _ _ => rfl⟩

theorem Updated.trans (first : Updated before middle name promFam fam)
    (second : Updated middle after name promFam fam') :
    Updated before after name promFam fam' :=
  ⟨second.sound, second.stored, fun other different =>
    (second.elsewhere other different).trans (first.elsewhere other different)⟩

theorem Updated.removed (first : Updated before middle name promFam fam) (second : Removed middle after name promFam) :
    Removed before after name promFam :=
  ⟨second.sound, second.absent, second.dead, fun other different =>
    (second.elsewhere other different).trans (first.elsewhere other different)⟩

end Prom

section Rounds

variable {prom : Prom}

theorem load_held (held : prom.families.deref promFam = some fam) :
    load promFam prom = ⟨[], some (fam, prom)⟩ := by
  unfold load
  rw [bind_ended read_eq, held]
  rfl

theorem load_dead (dead : prom.families.deref promFam = none) : load promFam prom = ⟨[], none⟩ := by
  unfold load
  rw [bind_ended read_eq, dead]
  rfl

theorem assign_stored (next : Family) (sound : prom.Sound) (stored : prom.Stored name promFam fam)
    (named : next.name = name) (sorted : Sorted next.metrics) :
    ∃ after, assign promFam next prom = ⟨[], some ((), after)⟩ ∧ Prom.Updated prom after name promFam next := by
  have overwritten : prom.families.store promFam next = _ := Heap.store_live stored.held
  have lookup := Heap.deref_store overwritten
  refine ⟨{ prom with families := ⟨prom.families.blocks.set promFam (some next)⟩ }, ?_, ?_, ?_, ?_⟩
  · unfold assign
    rw [bind_ended read_eq, overwritten]
    rfl
  · intro other promFam' located
    rw [lookup]
    split
    · rename_i same
      subst same
      refine ⟨next, rfl, ?_, sorted⟩
      by_contra different
      exact sound.block_ne stored.located located (fun same => different (named.trans same.symm)) rfl
    · exact sound other promFam' located
  · exact ⟨stored.located, (lookup promFam).trans (if_pos rfl)⟩
  · intro other different
    unfold Prom.family
    cases located : prom.tree[other]? with
    | none => rfl
    | some promFam' =>
      rw [Option.bind_some, Option.bind_some, lookup,
        if_neg (sound.block_ne stored.located located different)]

theorem writeMetrics_stored (sound : prom.Sound) (stored : prom.Stored name promFam fam) (named : fam.name = name)
    (sorted : Sorted fam.metrics) (ms : List FamilyMetric) :
    ∃ after, writeMetrics env promFam ms prom = ⟨[], some ((), after)⟩ ∧
      Prom.Updated prom after name promFam { fam with metrics := ms.foldl (putMetric env) fam.metrics } ∧
      Sorted (ms.foldl (putMetric env) fam.metrics) := by
  induction ms generalizing prom fam with
  | nil => exact ⟨prom, rfl, .refl sound stored, sorted⟩
  | cons m rest ih =>
    have next : Sorted (putMetric env fam.metrics m) := putMetric_sorted sorted
    obtain ⟨middle, assigned, updated⟩ :=
      assign_stored { fam with metrics := putMetric env fam.metrics m } sound stored named next
    obtain ⟨after, ended, last, final⟩ := ih updated.sound updated.stored named next
    refine ⟨after, ?_, updated.trans last, final⟩
    rw [writeMetrics, bind_ended (load_held stored.held), bind_ended assigned, ended]
    rfl

theorem metricFamilyFree_held (held : prom.families.deref promFam = some fam) :
    metricFamilyFree promFam prom =
      ⟨[], some ((), { prom with families := ⟨prom.families.blocks.set promFam none⟩ })⟩ := by
  unfold metricFamilyFree
  rw [bind_ended read_eq, Heap.free_live held]
  rfl

section

variable (sound : prom.Sound) (stored : prom.Stored name promFam fam) (named : fam.name = name)
include sound stored named

theorem dropEmpty_stored (empty : fam.metrics = []) :
    ∃ after, dropEmpty promFam fam prom = ⟨[], some ((), after)⟩ ∧ Prom.Removed prom after name promFam := by
  have freed := Heap.free_live stored.held
  have elsewhere : ∀ other promFam', prom.tree[other]? = some promFam' → other ≠ name →
      (⟨prom.families.blocks.set promFam none⟩ : Heap Family).deref promFam' = prom.families.deref promFam' :=
    fun other promFam' located different => Heap.deref_free freed (sound.block_ne stored.located located different)
  refine ⟨⟨prom.tree.erase name, ⟨prom.families.blocks.set promFam none⟩⟩, ?_, ?_, ?_, ?_, ?_⟩
  · have located := stored.located
    rw [← named] at located
    have freeing : metricFamilyFree promFam ⟨prom.tree.erase fam.name, prom.families⟩ =
        ⟨[], some ((), ⟨prom.tree.erase fam.name, ⟨prom.families.blocks.set promFam none⟩⟩)⟩ :=
      metricFamilyFree_held stored.held
    unfold dropEmpty
    rw [if_pos (List.length_eq_zero_iff.mpr empty), bind_ended read_eq, located]
    simp only []
    rw [bind_ended (write_eq _), freeing, named]
    rfl
  · intro other promFam' located
    rw [AvlTree.getElem?_erase] at located
    split at located
    · cases located
    · rename_i different
      rw [elsewhere other promFam' located (Ne.symm different)]
      exact sound other promFam' located
  · exact (AvlTree.getElem?_erase _ _ _).trans (if_pos rfl)
  · exact Heap.deref_free_self freed
  · intro other different
    unfold Prom.family
    rw [AvlTree.getElem?_erase, if_neg (Ne.symm different)]
    cases located : prom.tree[other]? with
    | none => rfl
    | some promFam' => exact elsewhere other promFam' located different

theorem missingMetric_stored
    (sorted : Sorted fam.metrics) (kept : fam.metrics = [] ∨ dropMetric fam.metrics m ≠ []) :
    ∃ after, missingMetric env promFam m prom = ⟨[], some ((), after)⟩ ∧
      Prom.Updated prom after name promFam { fam with metrics := dropMetric fam.metrics m } := by
  unfold missingMetric
  rw [bind_ended (load_held stored.held)]
  cases found : env.table.bsearch m fam.metrics with
  | none =>
    rw [dropMetric_of_miss sorted found]
    exact ⟨prom, rfl, .refl sound stored⟩
  | some i =>
    obtain ⟨filled, deleted⟩ := promMetricFamilyMetricDelete_of_hit found
    obtain ⟨after, assigned, updated⟩ :=
      assign_stored { fam with metrics := dropMetric fam.metrics m } sound stored named (dropMetric_sorted sorted)
    refine ⟨after, ?_, updated⟩
    simp only [deleted, ne_eq, not_true_eq_false, if_false]
    rw [bind_ended assigned, dropEmpty, if_neg (mt List.length_eq_zero_iff.mp (kept.resolve_left filled))]
    rfl

theorem missingMetric_removes
    (sorted : Sorted fam.metrics) (filled : fam.metrics ≠ []) (emptied : dropMetric fam.metrics m = []) :
    ∃ after, missingMetric env promFam m prom = ⟨[], some ((), after)⟩ ∧ Prom.Removed prom after name promFam := by
  unfold missingMetric
  rw [bind_ended (load_held stored.held)]
  cases found : env.table.bsearch m fam.metrics with
  | none => exact absurd ((dropMetric_of_miss sorted found).symm.trans emptied) filled
  | some i =>
    obtain ⟨-, deleted⟩ := promMetricFamilyMetricDelete_of_hit found
    obtain ⟨middle, assigned, updated⟩ :=
      assign_stored { fam with metrics := dropMetric fam.metrics m } sound stored named (dropMetric_sorted sorted)
    obtain ⟨after, dropped, removed⟩ := dropEmpty_stored updated.sound updated.stored named emptied
    refine ⟨after, ?_, updated.removed removed⟩
    simp only [deleted, ne_eq, not_true_eq_false, if_false]
    rw [bind_ended assigned, dropped]
    rfl

end

end Rounds

end NCollectd.Prometheus
