import NCollectd.LabelSet.Content

/-! What is left of the invariant of a label array when a label in the middle was deleted. -/

namespace NCollectd.LabelSet

/-- The pointers at the places of names lead to names, those at the places of values to values. -/
def Slotted (named : Block → Bool) (limit : Nat) (bytes : List MemVal) : Prop :=
  ∀ position block index, bytes[position]? = some (.fragment block index) →
    named block = decide (position % sizeofPair < sizeofPtr) ∧ block < limit

theorem Slotted.nil : Slotted named limit [] := nofun

theorem Slotted.append (front : Slotted named limit bytes) (back : Slotted named limit more)
    (aligned : bytes.length % sizeofPair = 0) : Slotted named limit (bytes ++ more) := by
  intro position block index found
  rcases lt_or_ge position bytes.length with before | after
  · rw [List.getElem?_append_left before] at found
    exact front position block index found
  · rw [List.getElem?_append_right after] at found
    obtain ⟨kind, bound⟩ := back _ block index found
    have place : (position - bytes.length) % sizeofPair = position % sizeofPair := by
      simp only [sizeofPair, sizeofPtr] at aligned ⊢
      omega
    rw [place] at kind
    exact ⟨kind, bound⟩

section

variable (slots : Slotted named limit bytes)
include slots

theorem Slotted.take (count : Nat) : Slotted named limit (bytes.take count) := by
  intro position block index found
  rw [List.getElem?_take] at found
  split at found
  · exact slots position block index found
  · cases found

theorem Slotted.realloc (size : Nat) : Slotted named limit (realloc bytes size) := by
  intro position block index found
  rcases lt_or_ge position (bytes.take size).length with before | after
  · rw [NCollectd.realloc, List.getElem?_append_left before] at found
    exact slots.take size position block index found
  · rw [NCollectd.realloc, List.getElem?_append_right after] at found
    cases List.eq_of_mem_replicate (List.mem_of_getElem? found)

theorem Slotted.drop (aligned : count % sizeofPair = 0) : Slotted named limit (bytes.drop count) := by
  intro position block index found
  rw [List.getElem?_drop] at found
  obtain ⟨kind, bound⟩ := slots _ block index found
  have place : (count + position) % sizeofPair = position % sizeofPair := by
    simp only [sizeofPair, sizeofPtr] at aligned ⊢
    omega
  rw [place] at kind
  exact ⟨kind, bound⟩

theorem Slotted.fresh (kind : Bool) : Slotted (Function.update named limit kind) (limit + 1) bytes := by
  intro position block index found
  obtain ⟨same, bound⟩ := slots position block index found
  rw [Function.update_of_ne (ne_of_lt bound)]
  exact ⟨same, Nat.lt_succ_of_lt bound⟩

end

theorem Slotted.pair (name : named nameAt = true) (nameBound : nameAt < limit) (value : named valueAt = false)
    (valueBound : valueAt < limit) : Slotted named limit (pairBytes nameAt valueAt) := by
  intro position block index found
  rw [pairBytes] at found
  rcases lt_or_ge position sizeofPtr with before | after
  · rw [List.getElem?_append_left (by rwa [ptrBytes_length])] at found
    obtain ⟨i, -, same⟩ := List.mem_map.mp (List.mem_of_getElem? found)
    cases same
    have place : position % sizeofPair < sizeofPtr := by
      simp only [sizeofPair, sizeofPtr] at before ⊢
      omega
    exact ⟨by simp [name, place], nameBound⟩
  · rw [List.getElem?_append_right (by rwa [ptrBytes_length])] at found
    obtain ⟨i, -, same⟩ := List.mem_map.mp (List.mem_of_getElem? found)
    have inside := (List.getElem?_eq_some_iff.mp found).1
    cases same
    rw [ptrBytes_length, ptrBytes_length] at inside
    have place : ¬ position % sizeofPair < sizeofPtr := by
      simp only [sizeofPair, sizeofPtr] at inside after ⊢
      omega
    exact ⟨by simp [value, place], valueBound⟩

theorem Slotted.flatMap {records : List (CString × List MemVal)}
    (whole : ∀ record ∈ records, record.2.length = sizeofPair ∧ Slotted named limit record.2) :
    Slotted named limit (records.flatMap Prod.snd) := by
  induction records with
  | nil => exact .nil
  | cons record records ih =>
    obtain ⟨length, slots⟩ := whole record List.mem_cons_self
    have later := ih fun other member => whole other (List.mem_cons_of_mem record member)
    exact slots.append later (by rw [length]; decide)

/-- What a block of either kind holds: a valid name, or a value that is not empty. -/
def OfKind (isName : Bool) (text : CString) : Prop := if isName then validLabelName text = true else text ≠ []

/-- The array has all its records, the pointers in it are at their places, and what they lead to is of their kind. -/
structure Typed (named : Block → Bool) (labels : LabelArray) : Prop where
  slots : Slotted named labels.heap.blocks.length labels.ptr
  room : sizeofPair * labels.num ≤ labels.ptr.length
  texts : ∀ block text, labels.heap.deref block = some text → OfKind (named block) text

theorem Typed.empty : Typed (fun _ => true) .empty where
  slots := .nil
  room := le_refl _
  texts := by
    intro block text live
    exact absurd (Heap.lt_of_deref live) (Nat.not_lt_zero block)

theorem slotted_loadPtr (slots : Slotted named limit bytes) (loaded : loadPtr bytes offset = some block) :
    named block = decide (offset % sizeofPair < sizeofPtr) := by
  have same := loadPtr_eq_some_iff.mp loaded
  have first : bytes[offset]? = some (.fragment block 0) := by
    have head := congrArg (·[0]?) same
    simpa [ptrBytes, sizeofPtr, List.getElem?_take, List.range_succ] using head
  exact (slots offset block 0 first).1

theorem Typed.readPair (typed : Typed named labels) (read : readPair labels i = some pair) :
    pair.value ≠ [] ∧ validLabelName pair.name = true := by
  unfold LabelSet.readPair at read
  split at read
  · rename_i name value nameRead valueRead
    cases read
    obtain ⟨nameAt, nameLoaded, nameLive⟩ := Option.bind_eq_some_iff.mp nameRead
    obtain ⟨valueAt, valueLoaded, valueLive⟩ := Option.bind_eq_some_iff.mp valueRead
    have namePlace : sizeofPair * i % sizeofPair < sizeofPtr := by
      simp only [sizeofPair, sizeofPtr]
      omega
    have valuePlace : ¬ (sizeofPair * i + sizeofPtr) % sizeofPair < sizeofPtr := by
      simp only [sizeofPair, sizeofPtr]
      omega
    have nameKind := (slotted_loadPtr typed.slots nameLoaded).trans (decide_eq_true namePlace)
    have valueKind := (slotted_loadPtr typed.slots valueLoaded).trans (decide_eq_false valuePlace)
    have nameText := typed.texts nameAt name nameLive
    have valueText := typed.texts valueAt value valueLive
    rw [nameKind] at nameText
    rw [valueKind] at valueText
    exact ⟨valueText, nameText⟩
  · cases read

theorem Typed.readPairs (typed : Typed named labels) (read : readPairs labels = some pairs) :
    ∀ pair ∈ pairs, pair.value ≠ [] ∧ validLabelName pair.name = true := by
  intro pair member
  obtain ⟨i, bound, here⟩ := List.getElem_of_mem member
  obtain ⟨length, cells⟩ := readAll_eq_some_iff.mp read
  have found := cells i (length ▸ bound)
  rw [List.getElem?_eq_getElem bound, here] at found
  exact typed.readPair found

theorem length_alloc (heap : Heap CString) (text : CString) :
    (heap.alloc text).1.blocks.length = heap.blocks.length + 1 := by
  simp [Heap.alloc]

theorem Typed.alloc (typed : Typed named labels) (kind : Bool) (fits : OfKind kind text) :
    Typed (Function.update named labels.heap.blocks.length kind)
      { labels with heap := (labels.heap.alloc text).1 } where
  slots := by
    rw [length_alloc]
    exact typed.slots.fresh kind
  room := typed.room
  texts := by
    intro block stored live
    by_cases same : block = labels.heap.blocks.length
    · subst same
      have new : (labels.heap.alloc text).1.deref labels.heap.blocks.length = some text := Heap.deref_alloc_self
      cases new.symm.trans live
      rw [Function.update_self]
      exact fits
    · rw [Function.update_of_ne same]
      exact typed.texts block stored ((Heap.deref_alloc_ne text same).symm.trans live)

theorem Typed.free (typed : Typed named labels) (freed : labels.heap.free gone = some heap) :
    Typed named { labels with heap := heap } := by
  refine ⟨?_, typed.room, ?_⟩
  · rw [Heap.length_free freed]
    exact typed.slots
  · intro block text live
    by_cases same : block = gone
    · subst same
      rw [Heap.deref_free_self freed] at live
      cases live
    · rw [Heap.deref_free freed same] at live
      exact typed.texts block text live

theorem Typed.rewrite (typed : Typed named labels) (slots : Slotted named labels.heap.blocks.length bytes)
    (room : sizeofPair * num ≤ bytes.length) : Typed named ⟨labels.heap, bytes, num⟩ :=
  ⟨slots, room, typed.texts⟩

theorem length_records {records : List (CString × List MemVal)}
    (lengths : ∀ record ∈ records, record.2.length = sizeofPair) :
    (records.flatMap Prod.snd).length = sizeofPair * records.length := by
  induction records with
  | nil => rfl
  | cons record records ih =>
    rw [List.flatMap_cons, List.length_append, lengths record List.mem_cons_self,
      ih fun other member => lengths other (List.mem_cons_of_mem record member), List.length_cons, Nat.mul_succ,
      Nat.add_comm]

theorem Typed.sort (typed : Typed named labels) (sorted : sortPairs labels = some next) : Typed named next := by
  unfold sortPairs at sorted
  split at sorted
  · cases sorted
  · rename_i records read
    cases sorted
    obtain ⟨length, cells⟩ := readAll_eq_some_iff.mp read
    have whole : ∀ record ∈ records,
        record.2.length = sizeofPair ∧ Slotted named labels.heap.blocks.length record.2 := by
      intro record member
      obtain ⟨i, bound, here⟩ := List.getElem_of_mem member
      have found := cells i (length ▸ bound)
      rw [List.getElem?_eq_getElem bound, here] at found
      obtain ⟨name, -, same⟩ := Option.map_eq_some_iff.mp found
      subst same
      refine ⟨?_, (typed.slots.drop (Nat.mul_mod_right _ _)).take _⟩
      have room := typed.room
      simp only [recordBytes, List.length_take, List.length_drop, sizeofPair, sizeofPtr] at room ⊢
      omega
    have order : (qsortByName records).Perm records := List.perm_insertionSort _ _
    have sortedWhole := fun record member => whole record (order.mem_iff.mp member)
    refine typed.rewrite (.flatMap sortedWhole) ?_
    rw [length_records fun record member => (sortedWhole record member).1, order.length_eq, length]

theorem Typed.create (typed : Typed named labels) (given : value ≠ [])
    (created : labelSetCreate labels name value = some (status, next)) : ∃ named, Typed named next := by
  unfold labelSetCreate at created
  split at created
  · cases created
    exact ⟨named, typed⟩
  · rename_i valid
    have validName : validLabelName name = true := by simpa using valid
    split at created
    · cases created
    · cases created
      exact ⟨named, typed⟩
    · split at created
      · cases created
        exact ⟨named, typed⟩
      · obtain ⟨sorted, done, same⟩ := Option.map_eq_some_iff.mp created
        cases same
        have first := typed.alloc true validName
        have second := first.alloc false given
        have front : ((realloc labels.ptr (sizeofPair * (labels.num + 1))).take (sizeofPair * labels.num)).length =
            sizeofPair * labels.num := by
          simp only [realloc, List.length_take, List.length_append, List.length_replicate, sizeofPair, sizeofPtr]
          omega
        have nameBound := length_alloc labels.heap name
        have valueBound := length_alloc (labels.heap.alloc name).1 value
        refine ⟨_, Typed.sort (second.rewrite (Slotted.append ?_ ?_ ?_) ?_) done⟩
        · exact (second.slots.realloc _).take _
        · apply Slotted.pair
          · have different : labels.heap.blocks.length ≠ (labels.heap.alloc name).1.blocks.length := by omega
            exact (Function.update_of_ne different ..).trans (Function.update_self ..)
          · show labels.heap.blocks.length < ((labels.heap.alloc name).1.alloc value).1.blocks.length
            omega
          · exact Function.update_self ..
          · show (labels.heap.alloc name).1.blocks.length < ((labels.heap.alloc name).1.alloc value).1.blocks.length
            omega
        · rw [front, Nat.mul_mod_right]
        · rw [List.length_append, front, pairBytes, List.length_append, ptrBytes_length, ptrBytes_length]
          simp only [sizeofPair, sizeofPtr]
          omega

theorem slotted_memmove (slots : Slotted named limit bytes)
    (inside : sizeofPair * (i + 1) + count ≤ bytes.length) :
    Slotted named limit (memmove bytes (sizeofPair * i) (sizeofPair * (i + 1)) count) := by
  have forward : sizeofPair * i ≤ sizeofPair * (i + 1) := Nat.mul_le_mul_left _ (Nat.le_succ i)
  intro position block index found
  rcases lt_or_ge position (sizeofPair * i) with before | low
  · have kept : (bytes.take (sizeofPair * i)).length = sizeofPair * i := by
      rw [List.length_take]
      omega
    rw [memmove, List.append_assoc, List.getElem?_append_left (by omega), List.getElem?_take_of_lt before] at found
    exact slots position block index found
  · rcases lt_or_ge position (sizeofPair * i + count) with high | after
    · rw [getElem?_memmove_within inside forward low high] at found
      obtain ⟨kind, bound⟩ := slots _ block index found
      have place : (position - sizeofPair * i + sizeofPair * (i + 1)) % sizeofPair = position % sizeofPair := by
        simp only [sizeofPair, sizeofPtr] at low ⊢
        omega
      rw [place] at kind
      exact ⟨kind, bound⟩
    · rw [getElem?_memmove_after inside forward after] at found
      exact slots position block index found

theorem length_memmove (inside : src + count ≤ bytes.length) (forward : dst ≤ src) :
    (memmove bytes dst src count).length = bytes.length := by
  simp only [memmove, List.length_append, List.length_take, List.length_drop]
  omega

theorem Typed.delete (typed : Typed named labels) (deleted : labelSetDelete labels index = some (status, next)) :
    Typed named next := by
  unfold labelSetDelete at deleted
  split at deleted
  · cases deleted
    exact typed
  · rename_i bound
    split at deleted
    · split at deleted
      · cases deleted
      · rename_i nameFreed
        split at deleted
        · cases deleted
        · rename_i valueFreed
          cases deleted
          have freed := (typed.free nameFreed).free valueFreed
          have room := typed.room
          have inside : sizeofPair * (index + 1) + (labels.num - (index + 1)) ≤ labels.ptr.length := by
            simp only [sizeofPair, sizeofPtr] at room ⊢
            omega
          have forward : sizeofPair * index ≤ sizeofPair * (index + 1) := Nat.mul_le_mul_left _ (Nat.le_succ index)
          have fewer : sizeofPair * (labels.num - 1) ≤ labels.ptr.length :=
            (Nat.mul_le_mul_left _ (Nat.sub_le _ _)).trans room
          split
          · rename_i none
            refine freed.rewrite .nil ?_
            rw [none]
            exact Nat.zero_le _
          · split
            · refine freed.rewrite (slotted_memmove freed.slots inside) ?_
              rw [length_memmove inside forward]
              exact fewer
            · exact freed.rewrite freed.slots fewer
    · cases deleted

theorem slotted_overwrite (slots : Slotted named limit bytes) (value : named block = false)
    (bound : block < limit) (enough : sizeofPair * i + sizeofPtr + sizeofPtr ≤ bytes.length) :
    Slotted named limit (bytes.take (sizeofPair * i + sizeofPtr) ++ ptrBytes block ++
      bytes.drop (sizeofPair * i + sizeofPtr + sizeofPtr)) := by
  have front : (bytes.take (sizeofPair * i + sizeofPtr)).length = sizeofPair * i + sizeofPtr := by
    rw [List.length_take]
    omega
  have middle : (bytes.take (sizeofPair * i + sizeofPtr) ++ ptrBytes block).length =
      sizeofPair * i + sizeofPtr + sizeofPtr := by
    rw [List.length_append, front, ptrBytes_length]
  intro position other index found
  rcases lt_or_ge position (sizeofPair * i + sizeofPtr + sizeofPtr) with before | after
  · rw [List.getElem?_append_left (by rwa [middle])] at found
    rcases lt_or_ge position (sizeofPair * i + sizeofPtr) with first | second
    · rw [List.getElem?_append_left (by rwa [front]), List.getElem?_take_of_lt first] at found
      exact slots position other index found
    · rw [List.getElem?_append_right (by rwa [front])] at found
      obtain ⟨j, -, same⟩ := List.mem_map.mp (List.mem_of_getElem? found)
      cases same
      have place : ¬ position % sizeofPair < sizeofPtr := by
        simp only [sizeofPair, sizeofPtr] at before second ⊢
        omega
      exact ⟨value.trans (decide_eq_false place).symm, bound⟩
  · rw [List.getElem?_append_right (by rwa [middle]), middle, List.getElem?_drop, Nat.add_sub_of_le after] at found
    exact slots position other index found

theorem Typed.overwrite (typed : Typed named labels) (given : value ≠ [])
    (written : overwriteValue labels index value = some (status, next)) : ∃ named, Typed named next := by
  unfold overwriteValue at written
  dsimp only at written
  split at written
  · cases written
  · rename_i old loaded
    split at written
    · cases written
    · rename_i heap freed
      cases written
      have first := typed.alloc false given
      have second := first.free freed
      have stored := loadPtr_eq_some_iff.mp loaded
      have enough : sizeofPair * index + sizeofPtr + sizeofPtr ≤ labels.ptr.length := by
        have length := congrArg List.length stored
        rw [ptrBytes_length, List.length_take, List.length_drop] at length
        simp only [sizeofPtr] at length ⊢
        omega
      refine ⟨_, second.rewrite ?_ ?_⟩
      · refine slotted_overwrite second.slots (Function.update_self ..) ?_ enough
        rw [Heap.length_free freed, length_alloc]
        exact Nat.lt_succ_self _
      · simp only [List.length_append, List.length_take, List.length_drop, ptrBytes_length]
        have room := typed.room
        omega

theorem Typed.add (typed : Typed named labels) (added : labelSetAdd labels name value = some (status, next)) :
    ∃ named, Typed named next := by
  unfold labelSetAdd at added
  split at added
  · cases added
  · cases added
    exact ⟨named, typed⟩
  · rename_i given
    exact typed.create (given_ne_nil given) added
  · exact ⟨named, typed.delete added⟩
  · rename_i given
    exact typed.overwrite (given_ne_nil given) added

theorem Typed.run (typed : Typed named labels) (ran : runCalls labels calls = some next) :
    ∃ named, Typed named next := by
  induction calls generalizing named labels with
  | nil =>
    cases ran
    exact ⟨named, typed⟩
  | cons call calls ih =>
    obtain ⟨result, added, later⟩ := Option.bind_eq_some_iff.mp ran
    obtain ⟨named', after⟩ := typed.add added
    exact ih after later

/-- However a label array was built, the pairs that can be read are valid. -/
theorem runCalls_valid (built : runCalls .empty calls = some labels) (read : readPairs labels = some pairs) :
    ∀ pair ∈ pairs, pair.value ≠ [] ∧ validLabelName pair.name = true := by
  obtain ⟨named, typed⟩ := Typed.empty.run built
  exact typed.readPairs read

end NCollectd.LabelSet
