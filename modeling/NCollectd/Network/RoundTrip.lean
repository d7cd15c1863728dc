import NCollectd.Network.Sections

namespace NCollectd.Network

open BigEndian List Option

def receivedTime : Double → Double
  | .fin seconds => (Double.ofNat ⌊seconds * ticks⌋.toNat).div (.fin ticks)
  | _ => .fin 0

def DeltaState.received (state : DeltaState) : DeltaState :=
  ⟨state.identifier, receivedTime state.time, receivedTime state.interval⟩

def LccValue.received (value : LccValue) : LccValue :=
  if value.type = typeGauge then ⟨value.type, ntohd (htond value.bits)⟩ else value

def LccValueList.received (vl : LccValueList) : LccValueList :=
  { vl.toDeltaState.received with values := vl.values.map LccValue.received }

theorem addPart_ok (added : addPart c type payload = .ok c') :
    c'.written = c.written ++ partBytes type payload ∧ c'.free = c.free - (4 + payload.length) ∧
      4 + payload.length ≤ c.free := by
  unfold addPart at added
  grind

theorem parseString_text (name : LccName) : parseString (name.text ++ [0]) = some name := by
  have short := name.short
  have accepted : (name.text ++ [0]).getLast? = some 0 ∧ (name.text ++ [0]).length ≤ 64 := by
    refine ⟨getLast?_concat, ?_⟩
    rw [length_append, length_singleton]
    omega
  unfold parseString
  rw [dif_pos accepted]
  congr 1
  obtain ⟨text, clean, _⟩ := name
  congr 1
  exact cText_append clean []

theorem cdtimeValue_lt (converted : cdtimeValue time = some n) : n < 2 ^ 64 := by
  unfold cdtimeValue at converted
  split at converted
  · split at converted
    · rename_i seconds inside
      cases converted
      have below : ⌊seconds * ticks⌋ < 2 ^ 64 := Int.floor_lt.mpr (by exact_mod_cast inside.2)
      omega
    · cases converted
  · cases converted

theorem receivedTime_eq (converted : cdtimeValue time = some n) :
    (Double.ofNat n).div (.fin ticks) = receivedTime time := by
  unfold cdtimeValue at converted
  split at converted
  · split at converted
    · cases converted
      rfl
    · cases converted
  · cases converted

/-- The bytes take the receiver from one state to another, whatever follows. -/
def Carries (bytes : Bytes) (state state' : DeltaState) : Prop :=
  ∀ gc opts sl log rest,
    networkParse gc opts sl state log (bytes ++ rest) = networkParse gc opts sl state' log rest

theorem Carries.nil : Carries [] state state := fun _ _ _ _ _ => rfl

theorem Carries.append (first : Carries bytes state state') (second : Carries bytes' state' state'') :
    Carries (bytes ++ bytes') state state'' := by
  intro gc opts sl log rest
  rw [append_assoc, first, second]

theorem carries_partBytes (plain : type ≠ .values ∧ type ≠ .signSha256 ∧ type ≠ .encrAes256)
    (filled : payload ≠ []) (small : payload.length < 65532)
    (parsed : parseField type payload state = some state') : Carries (partBytes type payload) state state' := by
  intro gc opts sl log rest
  rw [networkParse_field (readPart_partBytes type filled small rest) (PartType.ofCode_code type) plain, parsed]
  rfl

theorem carries_name (field : NameField) (name : LccName) (state : DeltaState) :
    Carries (partBytes (.name field) (name.text ++ [0])) state
      { state with identifier := state.identifier.set field name } := by
  have short := name.short
  apply carries_partBytes
  · exact ⟨PartType.noConfusion, PartType.noConfusion, PartType.noConfusion⟩
  · exact append_ne_nil_of_right_ne_nil _ (cons_ne_nil 0 [])
  · rw [length_append, length_singleton]
    omega
  · rw [parseField, parseIdentifier, parseString_text]
    rfl

theorem parseInt_beBytes (small : n < 2 ^ 64) : parseInt (beBytes 8 n) = some n := by
  rw [parseInt, if_neg (fun wrong => wrong (length_beBytes 8 n)), beNat_beBytes_of_lt (by simpa using small)]

theorem carries_time (store : Double → DeltaState) (converted : cdtimeValue time = some n)
    (plain : part ≠ .values ∧ part ≠ .signSha256 ∧ part ≠ .encrAes256)
    (parsed : parseField part (beBytes 8 n) state =
      (parseInt (beBytes 8 n)).map fun t => store ((Double.ofNat t).div (.fin ticks))) :
    Carries (partBytes part (beBytes 8 n)) state (store (receivedTime time)) := by
  apply carries_partBytes plain
  · exact ne_nil_of_length_pos (by rw [length_beBytes]; decide)
  · rw [length_beBytes]
    decide
  · rw [parsed, parseInt_beBytes (cdtimeValue_lt converted), map_some, receivedTime_eq converted]

theorem addField_carries (added : addField vl a field = some (.ok a')) :
    ∃ bytes, a'.cursor.written = a.cursor.written ++ bytes ∧ Carries bytes a.state.received a'.state.received := by
  unfold addField at added
  split at added
  · split at added
    · cases added
    · cases added
    · rename_i cursor stored
      cases added
      cases field with
      | name field =>
        refine ⟨_, (addPart_ok (some.inj stored)).1, ?_⟩
        exact carries_name field _ _
      | time =>
        obtain ⟨n, converted, stored⟩ := map_eq_some_iff.mp stored
        refine ⟨_, (addPart_ok stored).1, ?_⟩
        apply carries_time (fun time => { a.state.received with time }) converted
        · exact ⟨PartType.noConfusion, PartType.noConfusion, PartType.noConfusion⟩
        · simp only [parseField, parseTime]
          cases parseInt (beBytes 8 n) <;> rfl
      | interval =>
        obtain ⟨n, converted, stored⟩ := map_eq_some_iff.mp stored
        refine ⟨_, (addPart_ok stored).1, ?_⟩
        apply carries_time (fun interval => { a.state.received with interval }) converted
        · exact ⟨PartType.noConfusion, PartType.noConfusion, PartType.noConfusion⟩
        · simp only [parseField, parseTime]
          cases parseInt (beBytes 8 n) <;> rfl
  · cases added
    exact ⟨[], (append_nil _).symm, .nil⟩

theorem addFields_carries (added : addFields vl a fields = some (.ok a')) :
    ∃ bytes, a'.cursor.written = a.cursor.written ++ bytes ∧ Carries bytes a.state.received a'.state.received := by
  induction fields generalizing a with
  | nil =>
    cases added
    exact ⟨[], (append_nil _).symm, .nil⟩
  | cons field fields ih =>
    rw [addFields] at added
    split at added
    · cases added
    · cases added
    · rename_i middle first
      obtain ⟨bytes, written, carried⟩ := addField_carries first
      obtain ⟨bytes', written', carried'⟩ := ih added
      refine ⟨bytes ++ bytes', ?_, carried.append carried'⟩
      rw [written', written, append_assoc]

/-- A field of the state is that of the value list. -/
def DeltaField.Agrees (state vl : DeltaState) : DeltaField → Prop
  | .name field => state.identifier.get field = vl.identifier.get field
  | .time => state.time = vl.time
  | .interval => state.interval = vl.interval

theorem DeltaField.Agrees.of_same {field : DeltaField} (same : field.differs state vl = false) :
    field.Agrees state vl := by
  cases field <;> simp_all [differs, Agrees, Double.same]

theorem DeltaField.agrees_copy (field : DeltaField) (state vl : DeltaState) :
    field.Agrees (field.copy state vl) vl := by
  cases field with
  | name field => exact (LccIdentifier.get_set _ field field _).trans (if_pos rfl)
  | time | interval => rfl

theorem DeltaField.Agrees.copy {field : DeltaField} (agrees : field.Agrees state vl) (other : DeltaField) :
    field.Agrees (other.copy state vl) vl := by
  cases other with
  | name other =>
    cases field with
    | name field =>
      refine (LccIdentifier.get_set _ other field _).trans ?_
      split
      · rename_i same
        rw [same]
      · exact agrees
    | time | interval => exact agrees
  | time => cases field with
    | time => rfl
    | name field | interval => exact agrees
  | interval => cases field with
    | interval => rfl
    | name field | time => exact agrees

theorem DeltaState.eq_of_agrees (agrees : ∀ field ∈ deltaFields, field.Agrees state vl) : state = vl := by
  have names : ∀ field, state.identifier.get field = vl.identifier.get field := by
    intro field
    apply agrees (.name field)
    cases field <;> decide
  have identifier := LccIdentifier.ext_get names
  have time : state.time = vl.time := agrees .time (by decide)
  have interval : state.interval = vl.interval := agrees .interval (by decide)
  obtain ⟨_, _, _⟩ := state
  obtain ⟨_, _, _⟩ := vl
  subst identifier time interval
  rfl

theorem addField_agrees {a a' : Adding room} (added : addField vl a field = some (.ok a')) :
    field.Agrees a'.state vl ∧ ∀ other : DeltaField, other.Agrees a.state vl → other.Agrees a'.state vl := by
  unfold addField at added
  split at added
  · split at added
    · cases added
    · cases added
    · cases added
      exact ⟨field.agrees_copy _ _, fun other agrees => agrees.copy field⟩
  · rename_i same
    cases added
    exact ⟨.of_same (Bool.eq_false_iff.mpr same), fun _ agrees => agrees⟩

theorem addFields_agrees (added : addFields vl a fields = some (.ok a')) :
    (∀ field ∈ fields, field.Agrees a'.state vl) ∧
      ∀ other : DeltaField, other.Agrees a.state vl → other.Agrees a'.state vl := by
  induction fields generalizing a with
  | nil =>
    cases added
    exact ⟨fun _ found => absurd found not_mem_nil, fun _ agrees => agrees⟩
  | cons field fields ih =>
    rw [addFields] at added
    split at added
    · cases added
    · cases added
    · rename_i middle first
      obtain ⟨here, kept⟩ := addField_agrees first
      obtain ⟨behind, kept'⟩ := ih added
      refine ⟨?_, fun other agrees => kept' other (kept other agrees)⟩
      intro other found
      rcases mem_cons.mp found with rfl | found
      · exact kept' other here
      · exact behind other found

theorem wireValue_read (wired : wireValue value = some word) :
    word.length = 8 ∧ parseValue (typeByte value) word = some value.received := by
  obtain ⟨type, bits⟩ := value
  have word64 : ∀ bits : UInt64, UInt64.ofNat (beNat (beBytes 8 bits.toNat)) = bits := by
    intro bits
    rw [beNat_beBytes_of_lt (by simpa using bits.toNat_lt), UInt64.ofNat_toNat]
  have integer : ∀ type, (type = typeCounter ∨ type = typeDerive ∨ type = typeAbsolute) →
      parseValue (typeByte ⟨type, bits⟩) (beBytes 8 bits.toNat) = some (LccValue.received ⟨type, bits⟩) := by
    intro type known
    rcases known with rfl | rfl | rfl <;>
      exact congrArg (fun word => some (LccValue.mk _ word)) (word64 bits)
  unfold wireValue at wired
  split at wired
  · rename_i gauge
    cases wired
    refine ⟨?_, ?_⟩
    · unfold htond
      split
      · rfl
      · exact length_beBytes 8 _
    · cases gauge
      rfl
  · split at wired
    · rename_i known
      cases wired
      exact ⟨length_beBytes 8 _, integer type known⟩
    · cases wired

section

variable {values : List LccValue} (wired : values.mapM wireValue = some words)
include wired

theorem parseWords_flatten :
    parseWords (values.map typeByte) words.flatten = some (values.map LccValue.received) := by
  induction values generalizing words with
  | nil => rfl
  | cons value values ih =>
    rw [mapM_cons] at wired
    obtain ⟨word, first, wired⟩ := bind_eq_some_iff.mp wired
    obtain ⟨others, behind, wired⟩ := bind_eq_some_iff.mp wired
    cases wired
    obtain ⟨length, parsed⟩ := wireValue_read first
    rw [map_cons, flatten_cons, parseWords, bufferNext_append length, bind_eq_bind,
      bind_some]
    simp [parsed, ih behind]

theorem length_flatten : words.flatten.length = 8 * values.length := by
  induction values generalizing words with
  | nil =>
    cases wired
    rfl
  | cons value values ih =>
    rw [mapM_cons] at wired
    obtain ⟨word, first, wired⟩ := bind_eq_some_iff.mp wired
    obtain ⟨others, behind, wired⟩ := bind_eq_some_iff.mp wired
    cases wired
    rw [flatten_cons, length_append, (wireValue_read first).1, ih behind, length_cons]
    omega

theorem length_valuesPayload : (valuesPayload values words).length = 2 + 9 * values.length := by
  rw [valuesPayload, length_append, length_append, length_beBytes, length_map, length_flatten wired]
  omega

theorem parseValues_valuesPayload (small : values.length < 65536) :
    parseValues (valuesPayload values words) = some (values.map LccValue.received) := by
  have nine : ¬values.length * 9 ≠ (values.map typeByte ++ words.flatten).length := by
    rw [length_append, length_map, length_flatten wired]
    omega
  rw [parseValues, valuesPayload, append_assoc, bufferUint16_append small, bind_eq_bind,
    bind_some]
  simp only [if_neg nine, bufferNext_append (length_map typeByte), bind_eq_bind, bind_some]
  exact parseWords_flatten wired

end

def maxValues : Nat := 7281

/-- The bytes make the receiver hand a value list to its writer, whatever follows. -/
def Delivers (bytes : Bytes) (state : DeltaState) (vl : LccValueList) (state' : DeltaState) : Prop :=
  ∀ gc opts sl log rest, opts.securityLevel.rank ≤ sl.rank → opts.writer log vl = 0 →
    networkParse gc opts sl state log (bytes ++ rest) = networkParse gc opts sl state' (log ++ [vl]) rest

theorem delivers_values (wired : values.mapM wireValue = some words) (short : values.length ≤ maxValues)
    (state : DeltaState) :
    Delivers (partBytes .values (valuesPayload values words)) state
      { state with values := values.map LccValue.received } state := by
  intro gc opts sl log rest level written
  have length := length_valuesPayload wired
  have short : values.length ≤ 7281 := short
  have filled : valuesPayload values words ≠ [] := ne_nil_of_length_pos (by omega)
  rw [networkParse_values (readPart_partBytes .values filled (by omega) rest) (PartType.ofCode_code .values),
    parseValues_valuesPayload wired (by omega), elim_some, if_pos level, if_neg (fun failed => failed written)]

theorem Carries.delivers (carried : Carries bytes state state') (delivered : Delivers bytes' state' vl state'') :
    Delivers (bytes ++ bytes') state vl state'' := by
  intro gc opts sl log rest level written
  rw [append_assoc, carried, delivered gc opts sl log rest level written]

/-- What an addition leaves alone. -/
structure SameSettings (nb nb' : LccNetworkBuffer) : Prop where
  size : nb'.size = nb.size
  seclevel : nb'.seclevel = nb.seclevel
  username : nb'.username = nb.username
  password : nb'.password = nb.password
  encrCypher : nb'.encrCypher = nb.encrCypher
  encrHeaderLen : nb'.encrHeaderLen = nb.encrHeaderLen
  encrIv : nb'.encrIv = nb.encrIv

theorem SameSettings.refl (nb : LccNetworkBuffer) : SameSettings nb nb := ⟨rfl, rfl, rfl, rfl, rfl, rfl, rfl⟩

theorem SameSettings.trans (first : SameSettings nb nb') (second : SameSettings nb' nb'') : SameSettings nb nb'' :=
  ⟨second.size.trans first.size, second.seclevel.trans first.seclevel, second.username.trans first.username,
    second.password.trans first.password, second.encrCypher.trans first.encrCypher,
    second.encrHeaderLen.trans first.encrHeaderLen, second.encrIv.trans first.encrIv⟩

theorem nbAddValues_ok (added : nbAddValues c values = .ok c') :
    ∃ words, values.mapM wireValue = some words ∧ addPart c .values (valuesPayload values words) = .ok c' := by
  unfold nbAddValues at added
  grind

theorem addValue_delivers (added : lccNetworkBufferAddValue nb vl = some (0, nb')) :
    SameSettings nb nb' ∧ nb'.state = vl.toDeltaState ∧ 6 + 9 * vl.values.length ≤ nb.size ∧
      ∃ bytes, nb'.data = nb.data ++ bytes ∧
        (vl.values.length ≤ maxValues → Delivers bytes nb.state.received vl.received nb'.state.received) := by
  unfold lccNetworkBufferAddValue nbAddValueList at added
  split at added
  · cases added
  · cases added
  · rename_i a fields
    split at added
    · cases added
    · rename_i cursor values
      cases added
      have copied : a.state = vl.toDeltaState := DeltaState.eq_of_agrees (addFields_agrees fields).1
      obtain ⟨bytes, written, carried⟩ := addFields_carries fields
      obtain ⟨words, wired, stored⟩ := nbAddValues_ok values
      refine ⟨⟨rfl, rfl, rfl, rfl, rfl, rfl, rfl⟩, copied, ?_,
        bytes ++ partBytes .values (valuesPayload vl.values words), ?_, ?_⟩
      · have room := (addPart_ok stored).2.2
        have inside := a.cursor.fits
        have whole := nb.fits
        rw [length_valuesPayload wired] at room
        omega
      · change nb.data ++ cursor.written = _
        rw [(addPart_ok stored).1, written]
        rfl
      · intro short
        have last := delivers_values wired short a.state.received
        rw [copied] at carried last
        rw [copied]
        exact carried.delivers last

def addValues (nb : LccNetworkBuffer) : List LccValueList → Option LccNetworkBuffer
  | [] => some nb
  | vl :: vls =>
    match lccNetworkBufferAddValue nb vl with
    | some (0, nb) => addValues nb vls
    | _ => none

section

variable (added : addValues nb vls = some nb')
include added

theorem addValues_settings : SameSettings nb nb' := by
  induction vls generalizing nb with
  | nil =>
    cases added
    exact .refl _
  | cons vl vls ih =>
    rw [addValues] at added
    split at added
    · rename_i middle first
      exact (addValue_delivers first).1.trans (ih added)
    · cases added

theorem addValues_length_le : ∀ vl ∈ vls, 6 + 9 * vl.values.length ≤ nb.size := by
  induction vls generalizing nb with
  | nil => exact fun _ found => absurd found not_mem_nil
  | cons vl vls ih =>
    rw [addValues] at added
    split at added
    · rename_i middle first
      obtain ⟨settings, -, fits, -⟩ := addValue_delivers first
      refine forall_mem_cons.mpr ⟨fits, ?_⟩
      intro other found
      rw [← settings.size]
      exact ih added other found
    · cases added

/-- The bytes of a run without failures, read from its first state on. -/
theorem addValues_received : ∃ bytes, nb'.data = nb.data ++ bytes ∧
      ((∀ vl ∈ vls, vl.values.length ≤ maxValues) →
        ∀ gc opts sl log, opts.securityLevel.rank ≤ sl.rank → (∀ log vl, opts.writer log vl = 0) →
          networkParse gc opts sl nb.state.received log bytes = (0, log ++ vls.map LccValueList.received)) := by
  induction vls generalizing nb with
  | nil =>
    cases added
    refine ⟨[], (append_nil _).symm, ?_⟩
    intro _ gc opts sl log _ _
    rw [networkParse_nil, map_nil, append_nil]
  | cons vl vls ih =>
    rw [addValues] at added
    split at added
    · rename_i middle first
      obtain ⟨-, -, -, bytes, data, delivered⟩ := addValue_delivers first
      obtain ⟨bytes', data', received⟩ := ih added
      refine ⟨bytes ++ bytes', by rw [data', data, append_assoc], ?_⟩
      intro short gc opts sl log level accepts
      obtain ⟨shortHead, shortTail⟩ := forall_mem_cons.mp short
      rw [delivered shortHead gc opts sl log bytes' level (accepts _ _), received shortTail gc opts sl _ level accepts,
        map_cons, append_assoc]
      rfl
    · cases added

end

theorem parseWords_length (parsed : parseWords types b = some values) : values.length = types.length := by
  induction types generalizing b values with
  | nil =>
    cases parsed
    rfl
  | cons type types ih =>
    rw [parseWords] at parsed
    obtain ⟨⟨word, b'⟩, -, parsed⟩ := bind_eq_some_iff.mp parsed
    obtain ⟨value, -, parsed⟩ := bind_eq_some_iff.mp parsed
    obtain ⟨values', behind, parsed⟩ := bind_eq_some_iff.mp parsed
    cases parsed
    rw [length_cons, length_cons, ih behind]

theorem parseValues_length (parsed : parseValues payload = some values) :
    payload.length = 2 + 9 * values.length := by
  unfold parseValues at parsed
  obtain ⟨⟨n, b⟩, first, parsed⟩ := bind_eq_some_iff.mp parsed
  have front := bufferUint16_eq_some first
  simp only at parsed
  split at parsed
  · cases parsed
  rename_i nine
  obtain ⟨⟨types, b'⟩, second, parsed⟩ := bind_eq_some_iff.mp parsed
  have length := parseWords_length parsed
  have types_length := (bufferNext_eq_some second).2
  simp only at length types_length
  omega

theorem readPart_payload_lt (read : readPart b = some part) : part.payload.length < 65532 := by
  unfold readPart at read
  obtain ⟨⟨type, b'⟩, -, read⟩ := bind_eq_some_iff.mp read
  obtain ⟨⟨sz, b''⟩, second, read⟩ := bind_eq_some_iff.mp read
  obtain ⟨⟨bytes, rest⟩, next, same⟩ := map_eq_some_iff.mp second
  have bound := beNat_lt bytes
  rw [(bufferNext_eq_some next).2] at bound
  cases same
  simp only at read bound
  split at read
  · cases read
  obtain ⟨⟨payload, rest'⟩, third, read⟩ := bind_eq_some_iff.mp read
  cases read
  have length := (bufferNext_eq_some third).2
  simp only at length ⊢
  omega

theorem assemble_values_le (state : DeltaState) (b : Bytes) :
    ∀ vl ∈ assemble state b, vl.values.length ≤ maxValues := by
  intro vl found
  fun_induction assemble state b with
  | case1 | case2 | case4 | case6 | case8 => cases found
  | case3 state b part read _ _ values parsed ih =>
    rcases mem_cons.mp found with rfl | found
    · have length := parseValues_length parsed
      have short := readPart_payload_lt read
      change values.length ≤ 7281
      omega
    · exact ih found
  | case5 state b part read _ _ ih | case7 state b part read _ type _ _ _ _ state' parsed ih => exact ih found

theorem networkParse_values_le (gc : Gcrypt) (opts : LccNetworkParseOptions) (sl : SecurityLevel)
    (state : DeltaState) (b : Bytes) :
    ∀ vl ∈ (networkParse gc opts sl state [] b).2, vl.values.length ≤ maxValues := by
  intro vl written
  rcases networkParse_authorised gc opts sl state [] b vl written with before | plain | authorised
  · cases before
  · exact assemble_values_le state b vl plain.2
  · obtain ⟨-, content, -, -, found⟩ := authorised
    exact assemble_values_le .zero content vl found

def LccValue.normal (value : LccValue) : LccValue :=
  if value.type = typeGauge ∧ isNan value.bits then ⟨value.type, nanBits⟩ else value

def LccValueList.normal (vl : LccValueList) : LccValueList := { vl with values := vl.values.map LccValue.normal }

def nanTwin : UInt64 := 0xf87f

/-- What the format can express: times in whole ticks, not too many values, and not that number. -/
structure Transmittable (vl : LccValueList) : Prop where
  time : ∃ n : Nat, vl.time = .fin (n / ticks)
  interval : ∃ n : Nat, vl.interval = .fin (n / ticks)
  values : ∀ value ∈ vl.values, value.type = typeGauge → value.bits ≠ nanTwin
  short : vl.values.length ≤ maxValues

theorem ticks_pos : 0 < ticks := by
  unfold ticks
  norm_num

theorem ofNat_div_ticks (n : Nat) : (Double.ofNat n).div (.fin ticks) = .fin (n / ticks) := by
  simp only [Double.ofNat, Double.div, if_neg ticks_pos.ne']

theorem receivedTime_eq_self_iff : receivedTime time = time ↔ ∃ n : Nat, time = .fin (n / ticks) := by
  constructor
  · intro same
    cases time with
    | fin seconds =>
      rw [receivedTime, ofNat_div_ticks] at same
      exact ⟨_, same.symm⟩
    | _ => cases same
  · rintro ⟨n, rfl⟩
    have whole : (n / ticks * ticks : ℚ) = n := div_mul_cancel₀ _ ticks_pos.ne'
    rw [receivedTime, whole, Int.floor_natCast, Int.toNat_natCast, ofNat_div_ticks]

theorem beBytes_eq_nanBytes : beBytes 8 bits.toNat = nanBytes ↔ bits = nanTwin := by
  constructor
  · intro same
    have number := congrArg beNat same
    rw [beNat_beBytes_of_lt (by simpa using bits.toNat_lt)] at number
    apply UInt64.toNat_inj.mp
    exact number.trans (by decide)
  · rintro rfl
    decide

theorem ntohd_htond (bits : UInt64) :
    ntohd (htond bits) = if isNan bits ∨ bits = nanTwin then nanBits else bits := by
  unfold htond
  split
  · rename_i nan
    rw [if_pos (.inl nan)]
    rfl
  · rename_i number
    by_cases twin : bits = nanTwin
    · rw [if_pos (.inr twin), twin]
      decide
    · rw [if_neg (not_or_intro number twin), ntohd, if_neg (mt beBytes_eq_nanBytes.mp twin),
        beNat_beBytes_of_lt (by simpa using bits.toNat_lt), UInt64.ofNat_toNat]

theorem LccValue.received_eq_normal_iff (value : LccValue) :
    value.received = value.normal ↔ (value.type = typeGauge → value.bits ≠ nanTwin) := by
  obtain ⟨type, bits⟩ := value
  unfold received normal
  by_cases gauge : type = typeGauge
  · by_cases twin : bits = nanTwin
    · subst gauge twin
      decide
    · by_cases nan : isNan bits <;> simp [gauge, nan, twin, ntohd_htond]
  · simp [gauge]

theorem LccValueList.received_eq_normal_iff (short : vl.values.length ≤ maxValues) :
    vl.received = vl.normal ↔ Transmittable vl := by
  obtain ⟨⟨identifier, time, interval⟩, values⟩ := vl
  have same : LccValueList.received ⟨⟨identifier, time, interval⟩, values⟩ =
      LccValueList.normal ⟨⟨identifier, time, interval⟩, values⟩ ↔
        receivedTime time = time ∧ receivedTime interval = interval ∧
          values.map LccValue.received = values.map LccValue.normal := by
    simp [LccValueList.received, LccValueList.normal, DeltaState.received, and_assoc]
  rw [same, receivedTime_eq_self_iff, receivedTime_eq_self_iff, map_inj_left]
  simp only [LccValue.received_eq_normal_iff]
  exact ⟨fun ⟨time, interval, values⟩ => ⟨time, interval, values, short⟩,
    fun sent => ⟨sent.time, sent.interval, sent.values⟩⟩

@[simp] theorem DeltaState.received_zero : DeltaState.zero.received = .zero := by
  have whole : receivedTime (.fin 0) = .fin 0 := receivedTime_eq_self_iff.mpr ⟨0, by simp⟩
  simp only [DeltaState.received, DeltaState.zero, whole]

theorem addValues_received_iff (added : addValues nb vls = some nb')
    (data : nb'.data = nb.data ++ bytes) (empty : nb.state = .zero) (gc : Gcrypt)
    (level : opts.securityLevel.rank ≤ sl.rank) (accepts : ∀ log vl, opts.writer log vl = 0) :
    networkParse gc opts sl .zero [] bytes = (0, vls.map LccValueList.normal) ↔ ∀ vl ∈ vls, Transmittable vl := by
  obtain ⟨bytes', data', received⟩ := addValues_received added
  cases append_cancel_left (data.symm.trans data')
  rw [empty, DeltaState.received_zero] at received
  constructor
  · intro parsed
    have short : ∀ vl ∈ vls, vl.values.length ≤ maxValues := by
      intro vl found
      have written : vl.normal ∈ (networkParse gc opts sl .zero [] bytes).2 := by
        rw [parsed]
        exact mem_map_of_mem found
      have bound := networkParse_values_le gc opts sl .zero bytes vl.normal written
      rwa [LccValueList.normal, length_map] at bound
    rw [received short gc opts sl [] level accepts] at parsed
    have same := map_inj_left.mp (congrArg Prod.snd parsed)
    intro vl found
    exact (LccValueList.received_eq_normal_iff (short vl found)).mp (same vl found)
  · intro sent
    rw [received (fun vl found => (sent vl found).short) gc opts sl [] level accepts, nil_append]
    congr 1
    apply map_congr_left
    intro vl found
    exact (LccValueList.received_eq_normal_iff (sent vl found).short).mpr (sent vl found)

/-- A time in whole ticks that fits into 64 bits. -/
def WholeTicks (time : Double) : Prop := ∃ n : Nat, n < 2 ^ 64 ∧ time = .fin (n / ticks)

/-- A NaN, zero, an infinity or a normal number: everything but the denormal numbers. -/
def OrdinaryGauge (bits : UInt64) : Prop :=
  isNan bits ∨ bits.toNat % 2 ^ 63 = 0 ∨ bits.toNat % 2 ^ 63 = 2047 * 2 ^ 52 ∨
    (0 < bits.toNat / 2 ^ 52 % 2048 ∧ bits.toNat / 2 ^ 52 % 2048 < 2047)

theorem OrdinaryGauge.ne_nanTwin (ordinary : OrdinaryGauge bits) : bits ≠ nanTwin := by
  rintro rfl
  revert ordinary
  unfold OrdinaryGauge
  decide

/-- What was added to a buffer without security since it was initialised arrives as it was added. -/
theorem lcc_network_round_trip (nb nb' nb'' : LccNetworkBuffer) (iv : Bytes) (vls : List LccValueList)
    (plain : nb.seclevel = .none) (large : nb.size ≤ 65535)
    (initialized : lccNetworkBufferInitialize nb iv = some nb') (added : addValues nb' vls = some nb'')
    (times : ∀ vl ∈ vls, WholeTicks vl.time ∧ WholeTicks vl.interval)
    (gauges : ∀ vl ∈ vls, ∀ value ∈ vl.values, value.type = typeGauge → OrdinaryGauge value.bits)
    (gc : Gcrypt) (opts : LccNetworkParseOptions) (level : opts.securityLevel = .none)
    (ready : opts.passwordLookup.isSome → gc.initStatus = 0) (accepts : ∀ log vl, opts.writer log vl = 0)
    (available : Nat) (room : (lccNetworkBufferGet nb'' available).2 ≤ available) :
    lccNetworkParse gc opts (lccNetworkBufferGet nb'' available).1 = (0, vls.map LccValueList.normal) := by
  have start := initialize_eq_some initialized
  have sent : ∀ vl ∈ vls, Transmittable vl := by
    intro vl found
    obtain ⟨⟨n, -, time⟩, ⟨m, -, interval⟩⟩ := times vl found
    refine ⟨⟨n, time⟩, ⟨m, interval⟩, ?_, ?_⟩
    · exact fun value inside gauge => (gauges vl found value inside gauge).ne_nanTwin
    · have length := addValues_length_le added vl found
      rw [start.size] at length
      change vl.values.length ≤ 7281
      omega
  have data : nb''.data = nb'.data ++ nb''.data := by
    rw [start.data, plain]
    rfl
  have whole : (lccNetworkBufferGet nb'' available).1 = nb''.data := take_of_length_le room
  rw [lccNetworkParse, if_neg (fun failed => failed.2 (ready failed.1)), whole]
  exact (addValues_received_iff added data start.state gc (by rw [level]) accepts).mpr sent

def smallBuffer (level : SecurityLevel) (username password : Bytes) (clean : 0 ∉ username) : LccNetworkBuffer where
  size := 128
  data := []
  free := 128
  fits := rfl
  state := .zero
  seclevel := level
  username
  usernameClean := clean
  password
  encrCypher := none
  encrHeaderLen := 0
  encrIv := replicate 16 0

def sampleList : LccValueList :=
  ⟨⟨⟨⟨[104], by decide, by decide⟩, .empty, .empty, .empty, .empty⟩, .fin (1 / 2), .fin 10⟩,
    [⟨typeGauge, 0xfff8000000000001⟩, ⟨typeDerive, 7⟩]⟩

theorem sampleList_transmittable : Transmittable sampleList :=
  ⟨⟨2 ^ 29, by norm_num [sampleList, ticks]⟩, ⟨10 * 2 ^ 30, by norm_num [sampleList, ticks]⟩, by decide, by decide⟩

theorem lcc_network_round_trip_twice : ∃ nb' nb'',
    lccNetworkBufferInitialize (smallBuffer .none [] [] (by decide)) [] = some nb' ∧
      addValues nb' [sampleList, sampleList] = some nb'' ∧
      lccNetworkParse (.repeating 0) (openOptions .none) (lccNetworkBufferGet nb'' nb''.data.length).1 =
        (0, [sampleList.normal, sampleList.normal]) := by
  have done : ((lccNetworkBufferInitialize (smallBuffer .none [] [] (by decide)) []).bind
      fun nb' => addValues nb' [sampleList, sampleList]).isSome := by decide +kernel
  obtain ⟨nb'', both⟩ := isSome_iff_exists.mp done
  obtain ⟨nb', initialized, added⟩ := bind_eq_some_iff.mp both
  refine ⟨nb', nb'', initialized, added, ?_⟩
  apply lcc_network_round_trip _ nb' nb'' [] [sampleList, sampleList] rfl (by decide) initialized added
  · have times : WholeTicks sampleList.time ∧ WholeTicks sampleList.interval :=
      ⟨⟨2 ^ 29, by decide, by norm_num [sampleList, ticks]⟩, ⟨10 * 2 ^ 30, by decide, by norm_num [sampleList, ticks]⟩⟩
    simp [times]
  · unfold OrdinaryGauge
    decide
  · rfl
  · exact fun _ => rfl
  · exact fun _ _ => rfl
  · exact Nat.le_refl _

end NCollectd.Network
