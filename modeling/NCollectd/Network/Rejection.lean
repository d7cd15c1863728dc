import NCollectd.Network.RoundTrip

namespace NCollectd.Network

open BigEndian List Option

def DeltaField.partLength (vl : DeltaState) : DeltaField → Nat
  | .name field => 5 + (vl.identifier.get field).text.length
  | .time => 12
  | .interval => 12

/-- There is no room for the first field that differs from the state; or no field differs. -/
def FailsFirst (nb : LccNetworkBuffer) (vl : LccValueList) : Prop :=
  ∀ field ∈ deltaFields.find? (DeltaField.differs nb.state vl.toDeltaState),
    nb.free < field.partLength vl.toDeltaState

instance : Decidable (FailsFirst nb vl) := inferInstanceAs (Decidable (∀ _ ∈ _, _))

section Fields

variable {a a' : Adding room} {field : DeltaField}

theorem addFields_skip (same : ∀ field ∈ before, field.differs a.state vl = false) (fields : List DeltaField) :
    addFields vl a (before ++ fields) = addFields vl a fields := by
  induction before with
  | nil => rfl
  | cons field before ih =>
    obtain ⟨here, behind⟩ := forall_mem_cons.mp same
    have kept : addField vl a field = some (.ok a) := by
      rw [addField, here]
      rfl
    rw [cons_append, addFields, kept]
    exact ih behind

theorem addField_error (failed : addField vl a field = some (.error state)) : state = a.state := by
  unfold addField at failed
  split at failed
  · split at failed <;> cases failed
    rfl
  · cases failed

theorem addFields_error_agrees (failed : addFields vl a fields = some (.error state)) (other : DeltaField)
    (agrees : other.Agrees a.state vl) : other.Agrees state vl := by
  induction fields generalizing a with
  | nil => cases failed
  | cons field fields ih =>
    rw [addFields] at failed
    split at failed
    · cases failed
    · rename_i state' first
      cases failed
      rwa [addField_error first]
    · rename_i middle first
      exact ih failed ((addField_agrees first).2 other agrees)

theorem addPart_error_iff :
    (∃ status, addPart c type payload = .error status) ↔ c.free < 4 + payload.length := by
  unfold addPart
  split
  · rename_i short
    exact ⟨fun _ => short, fun _ => ⟨_, rfl⟩⟩
  · rename_i enough
    refine ⟨?_, fun short => absurd short enough⟩
    rintro ⟨status, failed⟩
    cases failed

theorem DeltaField.add_error_iff (stored : field.add c vl = some result) :
    (∃ status, result = .error status) ↔ c.free < field.partLength vl := by
  cases field with
  | name field =>
    cases stored
    rw [nbAddString, addPart_error_iff, length_append, length_singleton, DeltaField.partLength]
    omega
  | time | interval =>
    obtain ⟨n, -, rfl⟩ := map_eq_some_iff.mp stored
    rw [nbAddNumber, addPart_error_iff, length_beBytes]
    rfl

theorem cdtimeValue_ne_nan (converted : cdtimeValue time = some n) : time ≠ .nan := by
  rintro rfl
  cases converted

theorem DeltaField.not_agrees (differs : field.differs state vl = true)
    (stored : field.add c vl = some result) : ¬field.Agrees state vl := by
  intro agrees
  cases field with
  | name field => simp_all [DeltaField.differs, DeltaField.Agrees]
  | time | interval =>
    obtain ⟨n, converted, -⟩ := map_eq_some_iff.mp stored
    have number := cdtimeValue_ne_nan converted
    simp_all [DeltaField.differs, DeltaField.Agrees, Double.same]

end Fields

theorem addValue_failed (tried : lccNetworkBufferAddValue nb vl = some (status, nb')) (failed : status ≠ 0) :
    ∃ state, nb' = { nb with state } ∧
      (addFields vl.toDeltaState ⟨nb.cursor, nb.state⟩ deltaFields = some (.error state) ∨
        ∃ a, addFields vl.toDeltaState ⟨nb.cursor, nb.state⟩ deltaFields = some (.ok a) ∧ a.state = state) := by
  unfold lccNetworkBufferAddValue nbAddValueList at tried
  grind

theorem addValue_unchanged_iff (tried : lccNetworkBufferAddValue nb vl = some (status, nb'))
    (failed : status ≠ 0) : nb' = nb ↔ FailsFirst nb vl := by
  obtain ⟨state, rfl, outcome⟩ := addValue_failed tried failed
  have restored : { nb with state } = nb ↔ state = nb.state :=
    ⟨fun same => congrArg LccNetworkBuffer.state same, fun same => by rw [same]⟩
  rw [restored]
  unfold FailsFirst
  cases first : deltaFields.find? (DeltaField.differs nb.state vl.toDeltaState) with
  | none =>
    have same := fun field found => Bool.eq_false_iff.mpr (find?_eq_none.mp first field found)
    have skipped := addFields_skip (a := ⟨nb.cursor, nb.state⟩) same []
    rw [append_nil] at skipped
    refine ⟨fun _ field found => (nomatch found), fun _ => ?_⟩
    rcases outcome with fields | ⟨a, fields, rfl⟩
    · cases skipped.symm.trans fields
    · cases skipped.symm.trans fields
      rfl
  | some field =>
    obtain ⟨differs, before, behind, split, same⟩ := find?_eq_some_iff_append.mp first
    have skipped := addFields_skip (a := ⟨nb.cursor, nb.state⟩)
      (fun other found => Bool.not_eq_true' _ |>.mp (same other found)) (field :: behind)
    rw [← split, addFields, addField, differs, if_pos rfl] at skipped
    have room : (∀ other ∈ some field, nb.free < other.partLength vl.toDeltaState) ↔
        nb.free < field.partLength vl.toDeltaState :=
      ⟨fun short => short field rfl, fun short other same => some.inj same ▸ short⟩
    rw [room]
    cases stored : field.add nb.cursor vl.toDeltaState with
    | none =>
      simp only [stored] at skipped
      rcases outcome with fields | ⟨a, fields, -⟩ <;> cases skipped.symm.trans fields
    | some result =>
      have short := DeltaField.add_error_iff stored
      cases result with
      | error status =>
        simp only [stored] at skipped
        refine ⟨fun _ => short.mp ⟨status, rfl⟩, fun _ => ?_⟩
        rcases outcome with fields | ⟨a, fields, -⟩ <;> cases skipped.symm.trans fields
        rfl
      | ok cursor =>
        simp only [stored] at skipped
        have enough : ¬nb.free < field.partLength vl.toDeltaState := by
          intro free
          obtain ⟨status, wrong⟩ := short.mpr free
          cases wrong
        refine ⟨fun kept => ?_, fun free => absurd free enough⟩
        apply absurd _ (DeltaField.not_agrees differs stored)
        have copied := field.agrees_copy nb.state vl.toDeltaState
        rw [← kept]
        rcases outcome with fields | ⟨a, fields, rfl⟩
        · exact addFields_error_agrees (skipped.symm.trans fields) field copied
        · exact (addFields_agrees (skipped.symm.trans fields)).2 field copied

/-- One call of `lcc_network_buffer_add_value`. -/
structure Attempt where
  before : LccNetworkBuffer
  vl : LccValueList
  status : Status
  after : LccNetworkBuffer

def attempts (nb : LccNetworkBuffer) : List LccValueList → Option (List Attempt × LccNetworkBuffer)
  | [] => some ([], nb)
  | vl :: vls =>
    match lccNetworkBufferAddValue nb vl with
    | none => none
    | some (status, nb') =>
      match attempts nb' vls with
      | none => none
      | some (trace, last) => some (⟨nb, vl, status, nb'⟩ :: trace, last)

def accepted (trace : List Attempt) : List LccValueList :=
  (trace.filter fun attempt => attempt.status = 0).map Attempt.vl

theorem attempts_tried (tried : attempts nb vls = some (trace, last)) :
    ∀ attempt ∈ trace,
      lccNetworkBufferAddValue attempt.before attempt.vl = some (attempt.status, attempt.after) := by
  induction vls generalizing nb trace with
  | nil =>
    cases tried
    exact fun _ found => absurd found not_mem_nil
  | cons vl vls ih =>
    rw [attempts] at tried
    split at tried
    · cases tried
    · rename_i status nb' first
      split at tried
      · cases tried
      · rename_i trace' last' rest
        cases tried
        exact forall_mem_cons.mpr ⟨first, ih rest⟩

/-- Failures that leave the buffer alone might as well not have happened. -/
theorem addValues_accepted (tried : attempts nb vls = some (trace, last))
    (unchanged : ∀ attempt ∈ trace, attempt.status ≠ 0 → attempt.after = attempt.before) :
    addValues nb (accepted trace) = some last := by
  induction vls generalizing nb trace with
  | nil =>
    cases tried
    rfl
  | cons vl vls ih =>
    rw [attempts] at tried
    split at tried
    · cases tried
    · rename_i status nb' first
      split at tried
      · cases tried
      · rename_i trace' last' rest
        cases tried
        obtain ⟨here, behind⟩ := forall_mem_cons.mp unchanged
        by_cases succeeded : status = 0
        · subst succeeded
          have head : accepted (⟨nb, vl, 0, nb'⟩ :: trace') = vl :: accepted trace' := rfl
          rw [head, addValues, first]
          exact ih rest behind
        · have same : nb' = nb := here succeeded
          have head : accepted (⟨nb, vl, status, nb'⟩ :: trace') = accepted trace' := by
            rw [accepted, filter_cons_of_neg (by simpa using succeeded)]
            rfl
          rw [head, ← same]
          exact ih rest behind

theorem mem_accepted : vl ∈ accepted trace ↔ ∃ attempt ∈ trace, attempt.status = 0 ∧ attempt.vl = vl := by
  simp [accepted, and_assoc]

def LccNetworkBuffer.content (nb : LccNetworkBuffer) : Bytes :=
  nb.data.drop (headerBytes nb.seclevel nb.username nb.encrIv).length

theorem content_of_initialized (initialized : Initialized nb iv nb') (settings : SameSettings nb' last)
    (data : last.data = nb'.data ++ bytes) : last.content = bytes := by
  have header : headerBytes last.seclevel last.username last.encrIv = nb'.data := by
    rw [settings.seclevel, settings.username, settings.encrIv, initialized.data, initialized.seclevel,
      initialized.username]
    cases level : nb.seclevel with
    | none | sign => rfl
    | encrypt => rw [(initialized.encrypt level).2]
  rw [LccNetworkBuffer.content, header, data, drop_left]

/-- A rejection is harmless exactly at the first field to be sent or behind the last. -/
theorem lcc_network_buffer_rejections_iff (nb nb' last : LccNetworkBuffer) (iv : Bytes) (vls : List LccValueList)
    (trace : List Attempt) (initialized : lccNetworkBufferInitialize nb iv = some nb')
    (tried : attempts nb' vls = some (trace, last)) (gc : Gcrypt) (opts : LccNetworkParseOptions)
    (sl : SecurityLevel) (level : opts.securityLevel.rank ≤ sl.rank) (accepts : ∀ log vl, opts.writer log vl = 0) :
    ((∀ attempt ∈ trace, attempt.status ≠ 0 → attempt.after = attempt.before) ∧
        networkParse gc opts sl .zero [] last.content = (0, (accepted trace).map LccValueList.normal)) ↔
      (∀ attempt ∈ trace, attempt.status ≠ 0 → FailsFirst attempt.before attempt.vl) ∧
        ∀ attempt ∈ trace, attempt.status = 0 → Transmittable attempt.vl := by
  have start := initialize_eq_some initialized
  have each : (∀ attempt ∈ trace, attempt.status ≠ 0 → attempt.after = attempt.before) ↔
      ∀ attempt ∈ trace, attempt.status ≠ 0 → FailsFirst attempt.before attempt.vl := by
    apply forall₂_congr
    intro attempt found
    apply forall_congr'
    intro failed
    exact addValue_unchanged_iff (attempts_tried tried attempt found) failed
  rw [← each]
  apply and_congr_right
  intro unchanged
  have added := addValues_accepted tried unchanged
  obtain ⟨bytes, data, -⟩ := addValues_received added
  rw [content_of_initialized start (addValues_settings added) data,
    addValues_received_iff added data start.state gc level accepts]
  constructor
  · intro sent attempt found succeeded
    exact sent attempt.vl (mem_accepted.mpr ⟨attempt, found, succeeded, rfl⟩)
  · intro sent vl found
    obtain ⟨attempt, inside, succeeded, rfl⟩ := mem_accepted.mp found
    exact sent attempt inside succeeded

def strangeList : LccValueList := { sampleList with values := sampleList.values ++ [⟨17, 0⟩] }

def smallRun (vls : List LccValueList) : Option (List Attempt × LccNetworkBuffer) :=
  (lccNetworkBufferInitialize (smallBuffer .none [] [] (by decide)) []).bind fun nb => attempts nb vls

theorem rejected_list_takes_host : ∃ trace last,
    smallRun [strangeList, sampleList] = some (trace, last) ∧ trace.map Attempt.status = [-1, 0] ∧
      lccNetworkParse (.repeating 0) (openOptions .none) last.data =
        (0, [{ DeltaState.zero with values := sampleList.normal.values }]) ∧
      sampleList.identifier.host.text = [104] := by
  have done : (smallRun [strangeList, sampleList]).any fun run =>
      run.1.map Attempt.status = [-1, 0] ∧ lccNetworkParse (.repeating 0) (openOptions .none) run.2.data =
        (0, [{ DeltaState.zero with values := sampleList.normal.values }]) := by decide +kernel
  obtain ⟨⟨trace, last⟩, run, facts⟩ := (any_eq_true _ _).mp done
  obtain ⟨statuses, parsed⟩ := of_decide_eq_true facts
  exact ⟨trace, last, run, statuses, parsed, rfl⟩

theorem lcc_network_buffer_rejections_iff_behind : ∃ trace last,
    smallRun [sampleList, strangeList] = some (trace, last) ∧ trace.map Attempt.status = [0, -1] ∧
      (∀ attempt ∈ trace, attempt.status ≠ 0 → attempt.after = attempt.before) ∧
      networkParse (.repeating 0) (openOptions .none) .none .zero [] last.content =
        (0, (accepted trace).map LccValueList.normal) := by
  have done : (smallRun [sampleList, strangeList]).any fun run =>
      run.1.map Attempt.status = [0, -1] ∧
        (∀ attempt ∈ run.1, attempt.status ≠ 0 → FailsFirst attempt.before attempt.vl) ∧
        ∀ attempt ∈ run.1, attempt.status = 0 → attempt.vl = sampleList := by decide +kernel
  obtain ⟨⟨trace, last⟩, run, facts⟩ := (any_eq_true _ _).mp done
  obtain ⟨statuses, first, same⟩ := of_decide_eq_true facts
  obtain ⟨nb', initialized, tried⟩ := bind_eq_some_iff.mp run
  refine ⟨trace, last, run, statuses, ?_⟩
  apply (lcc_network_buffer_rejections_iff _ nb' last [] _ trace initialized tried _ _ .none (by decide)
    fun _ _ => rfl).mpr
  exact ⟨first, fun attempt found succeeded => same attempt found succeeded ▸ sampleList_transmittable⟩

end NCollectd.Network
