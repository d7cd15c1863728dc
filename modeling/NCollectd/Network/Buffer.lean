import NCollectd.Network.Protocol

/-! `network_buffer.c`: value lists as parts in a buffer that is signed or encrypted. -/

namespace NCollectd.Network

open BigEndian List

/-- `lcc_network_buffer_t`: the bytes before `ptr`, and the number of bytes behind it. -/
structure LccNetworkBuffer where
  size : Nat
  data : Bytes
  free : Nat
  fits : data.length + free = size
  state : DeltaState
  seclevel : SecurityLevel
  username : Bytes
  usernameClean : 0 ∉ username
  password : Bytes
  encrCypher : Option Bytes
  encrHeaderLen : Nat
  encrIv : Bytes

def htond (bits : UInt64) : Bytes := if isNan bits then nanBytes else beBytes 8 bits.toNat

def wireValue (value : LccValue) : Option Bytes :=
  if value.type = typeGauge then some (htond value.bits)
  else if value.type = typeCounter ∨ value.type = typeDerive ∨ value.type = typeAbsolute then
    some (beBytes 8 value.bits.toNat)
  else none

def typeByte (value : LccValue) : UInt8 := UInt8.ofNat (value.type % 256).toNat

/-- A write position: the bytes written since it was copied from the buffer, and the room left. -/
structure Cursor (room : Nat) where
  written : Bytes
  free : Nat
  fits : written.length + free = room

def partBytes (type : PartType) (payload : Bytes) : Bytes :=
  beBytes 2 type.code ++ beBytes 2 (4 + payload.length) ++ payload

@[simp] theorem length_partBytes (type : PartType) (payload : Bytes) :
    (partBytes type payload).length = 4 + payload.length := by
  rw [partBytes, length_append, length_append, length_beBytes, length_beBytes]

def addPart (c : Cursor room) (type : PartType) (payload : Bytes) : Except Status (Cursor room) :=
  if short : c.free < 4 + payload.length then .error ENOMEM
  else
    have fits : (c.written ++ partBytes type payload).length + (c.free - (4 + payload.length)) = room := by
      have whole := c.fits
      rw [length_append, length_partBytes]
      omega
    .ok ⟨c.written ++ partBytes type payload, c.free - (4 + payload.length), fits⟩

def nbAddNumber (c : Cursor room) (type : PartType) (value : Nat) : Except Status (Cursor room) :=
  addPart c type (beBytes 8 value)

def cdtimeValue : Double → Option Nat
  | .fin seconds =>
    if -1 < seconds * ticks ∧ seconds * ticks < 2 ^ 64 then some ⌊seconds * ticks⌋.toNat else none
  | _ => none

def nbAddTime (c : Cursor room) (type : PartType) (value : Double) : Option (Except Status (Cursor room)) :=
  (cdtimeValue value).map (nbAddNumber c type)

def nbAddString (c : Cursor room) (type : PartType) (str : Bytes) : Except Status (Cursor room) :=
  addPart c type (str ++ [0])

def valuesPayload (values : List LccValue) (words : List Bytes) : Bytes :=
  beBytes 2 values.length ++ values.map typeByte ++ words.flatten

def nbAddValues (c : Cursor room) (values : List LccValue) : Except Status (Cursor room) :=
  if values.length < 1 then .error EINVAL
  else if c.free < 6 + 9 * values.length then .error ENOMEM
  else
    match values.mapM wireValue with
    | none => .error EINVAL
    | some words => addPart c .values (valuesPayload values words)

/-- The fields of a value list that are only added where they change. -/
inductive DeltaField where
  | name (field : NameField)
  | time
  | interval
deriving DecidableEq

def deltaFields : List DeltaField :=
  [.name .host, .name .plugin, .name .pluginInstance, .name .type, .name .typeInstance, .time, .interval]

def DeltaField.differs (state vl : DeltaState) : DeltaField → Bool
  | .name field => state.identifier.get field ≠ vl.identifier.get field
  | .time => !state.time.same vl.time
  | .interval => !state.interval.same vl.interval

def DeltaField.add (c : Cursor room) (vl : DeltaState) : DeltaField → Option (Except Status (Cursor room))
  | .name field => some (nbAddString c (.name field) (vl.identifier.get field).text)
  | .time => nbAddTime c .timeHr vl.time
  | .interval => nbAddTime c .intervalHr vl.interval

def DeltaField.copy (state vl : DeltaState) : DeltaField → DeltaState
  | .name field => { state with identifier := state.identifier.set field (vl.identifier.get field) }
  | .time => { state with time := vl.time }
  | .interval => { state with interval := vl.interval }

/-- What `nb_add_value_list` works on. -/
structure Adding (room : Nat) where
  cursor : Cursor room
  state : DeltaState

def addField (vl : DeltaState) (a : Adding room) (field : DeltaField) :
    Option (Except DeltaState (Adding room)) :=
  if field.differs a.state vl then
    match field.add a.cursor vl with
    | none => none
    | some (.error _) => some (.error a.state)
    | some (.ok cursor) => some (.ok ⟨cursor, field.copy a.state vl⟩)
  else some (.ok a)

def addFields (vl : DeltaState) (a : Adding room) : List DeltaField → Option (Except DeltaState (Adding room))
  | [] => some (.ok a)
  | field :: fields =>
    match addField vl a field with
    | none => none
    | some (.error state) => some (.error state)
    | some (.ok a) => addFields vl a fields

def LccNetworkBuffer.cursor (nb : LccNetworkBuffer) : Cursor nb.free := ⟨[], nb.free, zero_add _⟩

def LccNetworkBuffer.commit (nb : LccNetworkBuffer) (a : Adding nb.free) : LccNetworkBuffer :=
  { nb with
    data := nb.data ++ a.cursor.written
    free := a.cursor.free
    fits := by rw [length_append, add_assoc, a.cursor.fits, nb.fits]
    state := a.state }

def nbAddValueList (nb : LccNetworkBuffer) (vl : LccValueList) : Option (Status × LccNetworkBuffer) :=
  match addFields vl.toDeltaState ⟨nb.cursor, nb.state⟩ deltaFields with
  | none => none
  | some (.error state) => some (-1, { nb with state })
  | some (.ok a) =>
    match nbAddValues a.cursor vl.values with
    | .error _ => some (-1, { nb with state := a.state })
    | .ok cursor => some (0, nb.commit ⟨cursor, a.state⟩)

def lccNetworkBufferAddValue (nb : LccNetworkBuffer) (vl : LccValueList) : Option (Status × LccNetworkBuffer) :=
  nbAddValueList nb vl

def partSignatureSha256Size : Nat := 36

def partEncryptionAes256Size : Nat := 42

def headerBytes (level : SecurityLevel) (username iv : Bytes) : Bytes :=
  match level with
  | .none => []
  | .sign =>
    beBytes 2 PartType.signSha256.code ++ beBytes 2 (partSignatureSha256Size + username.length) ++
      replicate 32 0 ++ username
  | .encrypt =>
    beBytes 2 PartType.encrAes256.code ++ beBytes 2 0 ++ beBytes 2 username.length ++ username ++ iv ++
      replicate 20 0

def lccNetworkBufferInitialize (nb : LccNetworkBuffer) (iv : Bytes) : Option LccNetworkBuffer :=
  let header := headerBytes nb.seclevel nb.username iv
  if room : header.length ≤ nb.size then
    some { nb with
      data := header
      free := nb.size - header.length
      fits := Nat.add_sub_cancel' room
      state := .zero
      encrHeaderLen :=
        if nb.seclevel = .encrypt then nb.username.length + partEncryptionAes256Size else nb.encrHeaderLen
      encrIv := if nb.seclevel = .encrypt then iv else nb.encrIv }
  else none

/-- A buffer that holds nothing but the header of its packet. -/
structure Initialized (nb : LccNetworkBuffer) (iv : Bytes) (nb' : LccNetworkBuffer) : Prop where
  data : nb'.data = headerBytes nb.seclevel nb.username iv
  state : nb'.state = .zero
  seclevel : nb'.seclevel = nb.seclevel
  username : nb'.username = nb.username
  password : nb'.password = nb.password
  encrCypher : nb'.encrCypher = nb.encrCypher
  encrypt : nb.seclevel = .encrypt →
    nb'.encrHeaderLen = nb.username.length + partEncryptionAes256Size ∧ nb'.encrIv = iv
  size : nb'.size = nb.size

theorem initialize_eq_some (initialized : lccNetworkBufferInitialize nb iv = some nb') : Initialized nb iv nb' := by
  unfold lccNetworkBufferInitialize at initialized
  simp only at initialized
  split at initialized
  · cases initialized
    exact ⟨rfl, rfl, rfl, rfl, rfl, rfl, fun encrypt => ⟨if_pos encrypt, if_pos encrypt⟩, rfl⟩
  · cases initialized

def LccNetworkBuffer.rewrite (nb : LccNetworkBuffer) (offset : Nat) (new : Bytes) : LccNetworkBuffer :=
  { nb with
    data := overwrite nb.data offset new
    fits := by rw [length_overwrite, nb.fits] }

def nbAddSignature (gc : Gcrypt) (nb : LccNetworkBuffer) : Option LccNetworkBuffer :=
  if nb.data.length < partSignatureSha256Size then none
  else some (nb.rewrite 4 (gc.hmacSha256 nb.password (nb.data.drop partSignatureSha256Size)))

def nbAddEncryption (gc : Gcrypt) (nb : LccNetworkBuffer) : Option LccNetworkBuffer :=
  let packageLength := nb.data.length
  if packageLength < nb.encrHeaderLen ∨ nb.encrHeaderLen < partEncryptionAes256Size then none
  else
    let nb := nb.rewrite 2 (beBytes 2 packageLength)
    let hashSize := packageLength - nb.encrHeaderLen
    let hash := gc.sha1 ((nb.data.drop partEncryptionAes256Size).take hashSize)
    let nb := nb.rewrite (partEncryptionAes256Size - 20) hash
    let keyPassword := nb.encrCypher.getD nb.password
    let encr := (nb.data.drop (partEncryptionAes256Size - 20)).take (hashSize + 20)
    some { nb.rewrite (partEncryptionAes256Size - 20) (gc.encrypt (gc.sha256 keyPassword) nb.encrIv encr) with
      encrCypher := some keyPassword }

def lccNetworkBufferFinalize (gc : Gcrypt) (nb : LccNetworkBuffer) : Option LccNetworkBuffer :=
  match nb.seclevel with
  | .sign => nbAddSignature gc nb
  | .encrypt => nbAddEncryption gc nb
  | .none => some nb

def lccNetworkBufferGet (nb : LccNetworkBuffer) (available : Nat) : Bytes × Nat :=
  (nb.data.take available, nb.data.length)

end NCollectd.Network
