import NCollectd.Base.BigEndian
import NCollectd.Base.Double
import NCollectd.Base.Libc

/-! What the two sides of the client library's network protocol share. -/

namespace NCollectd.Network

open BigEndian

/-- The content of a `char[LCC_NAME_LEN]` with its terminating NUL. -/
structure LccName where
  text : Bytes
  clean : 0 ∉ text
  short : text.length < 64
deriving DecidableEq

def LccName.empty : LccName := ⟨[], List.not_mem_nil, by decide⟩

/-- `lcc_identifier_t`. -/
structure LccIdentifier where
  host : LccName
  plugin : LccName
  pluginInstance : LccName
  type : LccName
  typeInstance : LccName
deriving DecidableEq

inductive NameField where
  | host
  | plugin
  | pluginInstance
  | type
  | typeInstance
deriving DecidableEq

def LccIdentifier.get (identifier : LccIdentifier) : NameField → LccName
  | .host => identifier.host
  | .plugin => identifier.plugin
  | .pluginInstance => identifier.pluginInstance
  | .type => identifier.type
  | .typeInstance => identifier.typeInstance

def LccIdentifier.set (identifier : LccIdentifier) (field : NameField) (name : LccName) : LccIdentifier :=
  match field with
  | .host => { identifier with host := name }
  | .plugin => { identifier with plugin := name }
  | .pluginInstance => { identifier with pluginInstance := name }
  | .type => { identifier with type := name }
  | .typeInstance => { identifier with typeInstance := name }

@[simp] theorem LccIdentifier.get_set (identifier : LccIdentifier) (field other : NameField) (name : LccName) :
    (identifier.set field name).get other = if other = field then name else identifier.get other := by
  cases field <;> cases other <;> rfl

theorem LccIdentifier.ext_get {a b : LccIdentifier} (same : ∀ field, a.get field = b.get field) : a = b := by
  obtain ⟨⟩ := a
  obtain ⟨⟩ := b
  congr 1
  · exact same .host
  · exact same .plugin
  · exact same .pluginInstance
  · exact same .type
  · exact same .typeInstance

/-- One value with its type, as the type's number and the bits of the union. -/
structure LccValue where
  type : Int
  bits : UInt64
deriving DecidableEq

/-- The part of a value list that is only sent where it changes. -/
structure DeltaState where
  identifier : LccIdentifier
  time : Double
  interval : Double
deriving DecidableEq

def DeltaState.zero : DeltaState :=
  ⟨⟨.empty, .empty, .empty, .empty, .empty⟩, .fin 0, .fin 0⟩

/-- `lcc_value_list_t`. -/
structure LccValueList extends DeltaState where
  values : List LccValue
deriving DecidableEq

def typeCounter : Int := 0

/-- `LCC_TYPE_GAUGE`. -/
def typeGauge : Int := 1

def typeDerive : Int := 2

def typeAbsolute : Int := 3

def isNan (bits : UInt64) : Bool := bits.toNat / 2 ^ 52 % 2048 = 2047 && bits.toNat % 2 ^ 52 != 0

def nanBits : UInt64 := 0x7ff8000000000000

def nanBytes : Bytes := [0, 0, 0, 0, 0, 0, 0xf8, 0x7f]

inductive PartType where
  | name (field : NameField)
  | time
  | timeHr
  | interval
  | intervalHr
  | values
  | signSha256
  | encrAes256
deriving DecidableEq

def PartType.code : PartType → Nat
  | .name .host => 0x0000
  | .time => 0x0001
  | .name .plugin => 0x0002
  | .name .pluginInstance => 0x0003
  | .name .type => 0x0004
  | .name .typeInstance => 0x0005
  | .values => 0x0006
  | .interval => 0x0007
  | .timeHr => 0x0008
  | .intervalHr => 0x0009
  | .signSha256 => 0x0200
  | .encrAes256 => 0x0210

def PartType.ofCode : Nat → Option PartType
  | 0x0000 => some (.name .host)
  | 0x0001 => some .time
  | 0x0002 => some (.name .plugin)
  | 0x0003 => some (.name .pluginInstance)
  | 0x0004 => some (.name .type)
  | 0x0005 => some (.name .typeInstance)
  | 0x0006 => some .values
  | 0x0007 => some .interval
  | 0x0008 => some .timeHr
  | 0x0009 => some .intervalHr
  | 0x0200 => some .signSha256
  | 0x0210 => some .encrAes256
  | _ => none

@[simp] theorem PartType.ofCode_code (type : PartType) : PartType.ofCode type.code = some type := by
  cases type with
  | name field => cases field <;> rfl
  | _ => rfl

theorem PartType.code_of_ofCode (known : PartType.ofCode n = some type) : type.code = n := by
  unfold PartType.ofCode at known
  split at known <;> cases known <;> rfl

theorem PartType.code_lt (type : PartType) : type.code < 65536 := by
  cases type with
  | name field => cases field <;> decide
  | _ => decide

/-- `lcc_security_level_t`. -/
inductive SecurityLevel where
  | none
  | sign
  | encrypt
deriving DecidableEq

def SecurityLevel.rank : SecurityLevel → Nat
  | .none => 0
  | .sign => 1
  | .encrypt => 2

def ticks : ℚ := 1073741824

/-- What is used of libgcrypt: keyed and plain hashes, and a cipher that works in place. -/
structure Gcrypt where
  initStatus : Status
  hmacSha256 : Bytes → Bytes → Bytes
  sha256 : Bytes → Bytes
  sha1 : Bytes → Bytes
  encrypt : Bytes → Bytes → Bytes → Bytes
  decrypt : Bytes → Bytes → Bytes → Bytes
  hmacSha256_length : ∀ key data, (hmacSha256 key data).length = 32
  sha1_length : ∀ data, (sha1 data).length = 20
  encrypt_length : ∀ key iv data, (encrypt key iv data).length = data.length
  decrypt_length : ∀ key iv data, (decrypt key iv data).length = data.length
  decrypt_encrypt : ∀ key iv data, decrypt key iv (encrypt key iv data) = data

end NCollectd.Network
