import NCollectd.Network.Buffer

/-! `network_parse.c`: parts are read in turn, signed and encrypted ones are opened. -/

namespace NCollectd.Network

open BigEndian Option

/-- `lcc_network_parse_options_t`. What the writer returns may depend on what it was given before. -/
structure LccNetworkParseOptions where
  writer : List LccValueList → LccValueList → Status
  securityLevel : SecurityLevel
  passwordLookup : Option (Bytes → Option Bytes)

def parseInt (payload : Bytes) : Option Nat := if payload.length ≠ 8 then none else some (beNat payload)

def cText (bytes : Bytes) : Bytes := bytes.takeWhile (· ≠ 0)

theorem zero_notMem_cText (bytes : Bytes) : 0 ∉ cText bytes := by
  intro found
  have nonzero := List.mem_takeWhile_imp (p := fun byte : UInt8 => decide (byte ≠ 0)) found
  exact of_decide_eq_true nonzero rfl

theorem cText_append (clean : 0 ∉ text) (rest : Bytes) : cText (text ++ 0 :: rest) = text := by
  have all : ∀ byte ∈ text, decide (byte ≠ 0) = true := by
    intro byte found
    exact decide_eq_true fun zero => clean (zero ▸ found)
  rw [cText, List.takeWhile_append_of_pos all, List.takeWhile_cons_of_neg (by decide), List.append_nil]

theorem cText_eq (clean : 0 ∉ text) : cText text = text := by
  apply List.takeWhile_eq_self_iff.mpr
  intro byte found
  exact decide_eq_true fun zero => clean (zero ▸ found)

theorem length_cText_le (bytes : Bytes) : (cText bytes).length ≤ bytes.length :=
  (List.takeWhile_prefix _).length_le

theorem length_cText_lt (last : payload.getLast? = some 0) :
    (cText payload).length < payload.length := by
  apply lt_of_le_of_ne (length_cText_le payload)
  intro same
  have whole : cText payload = payload := (List.takeWhile_prefix _).eq_of_length same
  apply zero_notMem_cText payload
  rw [whole]
  exact List.mem_of_getLast? last

def parseString (payload : Bytes) : Option LccName :=
  if accepted : payload.getLast? = some 0 ∧ payload.length ≤ 64 then
    some ⟨cText payload, zero_notMem_cText payload, lt_of_lt_of_le (length_cText_lt accepted.1) accepted.2⟩
  else none

def parseIdentifier (type : PartType) (payload : Bytes) (state : DeltaState) : Option DeltaState :=
  (parseString payload).bind fun name =>
    match type with
    | .name field => some { state with identifier := state.identifier.set field name }
    | _ => none

def parseTime (type : PartType) (payload : Bytes) (state : DeltaState) : Option DeltaState :=
  (parseInt payload).bind fun t =>
    match type with
    | .interval => some { state with interval := .ofNat t }
    | .intervalHr => some { state with interval := (Double.ofNat t).div (.fin ticks) }
    | .time => some { state with time := .ofNat t }
    | .timeHr => some { state with time := (Double.ofNat t).div (.fin ticks) }
    | _ => none

def ntohd (word : Bytes) : UInt64 := if word = nanBytes then nanBits else UInt64.ofNat (beNat word)

def parseValue (type : UInt8) (word : Bytes) : Option LccValue :=
  let type : Int := type.toNat
  if type = typeGauge then some ⟨type, ntohd word⟩
  else if type = typeCounter ∨ type = typeDerive ∨ type = typeAbsolute then
    some ⟨type, UInt64.ofNat (beNat word)⟩
  else none

def parseWords : Bytes → Bytes → Option (List LccValue)
  | [], _ => some []
  | type :: types, b => do
    let (word, b) ← bufferNext b 8
    let value ← parseValue type word
    let values ← parseWords types b
    some (value :: values)

def parseValues (payload : Bytes) : Option (List LccValue) := do
  let (n, b) ← bufferUint16 payload
  if n * 9 ≠ b.length then none
  else
    let (types, b) ← bufferNext b n
    parseWords types b

def openSignSha256 (gc : Gcrypt) (opts : LccNetworkParseOptions) (signature payload : Bytes) :
    Except Status SecurityLevel :=
  match opts.passwordLookup with
  | none => .ok .none
  | some passwordLookup =>
    match bufferNext signature 32 with
    | none => .error EINVAL
    | some (hash, username) =>
      match passwordLookup (cText username) with
      | none => .ok .none
      | some password =>
        if gc.hmacSha256 password (cText username ++ payload) = hash then .ok .sign else .error 1

def openEncryptAes256 (gc : Gcrypt) (opts : LccNetworkParseOptions) (data : Bytes) : Except Status Bytes :=
  match opts.passwordLookup with
  | none => .error ENOENT
  | some passwordLookup =>
    match bufferUint16 data with
    | none => .error EINVAL
    | some (usernameLen, b) =>
      if data.length < usernameLen then .error ENOMEM
      else
        match bufferNext b usernameLen with
        | none => .error EINVAL
        | some (username, b) =>
          match passwordLookup (cText username) with
          | none => .error ENOENT
          | some password =>
            match bufferNext b 16 with
            | none => .error EINVAL
            | some (iv, b) =>
              match bufferNext (gc.decrypt (gc.sha256 password) iv b) 20 with
              | none => .error (-1)
              | some (hash, content) => if gc.sha1 content = hash then .ok content else .error (-1)

/-- A part as it is cut out of a packet. -/
structure Part where
  type : Nat
  payload : Bytes
  rest : Bytes

def readPart (b : Bytes) : Option Part := do
  let (type, b) ← bufferUint16 b
  let (sz, b) ← bufferUint16 b
  if sz < 5 ∨ b.length < sz - 4 then none
  else
    let (payload, rest) ← bufferNext b (sz - 4)
    some ⟨type, payload, rest⟩

theorem readPart_header (small : type < 65536) (sz : Nat) (body : Bytes) :
    readPart (beBytes 2 type ++ (beBytes 2 sz ++ body)) =
      if sz % 65536 < 5 ∨ body.length < sz % 65536 - 4 then none
      else some ⟨type, body.take (sz % 65536 - 4), body.drop (sz % 65536 - 4)⟩ := by
  have length : bufferUint16 (beBytes 2 sz ++ body) = some (sz % 65536, body) := by
    rw [bufferUint16, bufferNext_append (length_beBytes 2 sz), map_some, beNat_beBytes]
    rfl
  rw [readPart, bufferUint16_append small, bind_eq_bind, bind_some]
  simp only [length, bind_eq_bind, bind_some]
  split
  · rfl
  · rename_i accepted
    rw [bufferNext, if_neg (fun short => accepted (.inr short)), bind_some]

theorem readPart_partBytes (type : PartType) (filled : payload ≠ []) (small : payload.length < 65532)
    (rest : Bytes) : readPart (partBytes type payload ++ rest) = some ⟨type.code, payload, rest⟩ := by
  have some_byte := List.length_pos_iff.mpr filled
  have whole : (4 + payload.length) % 65536 = 4 + payload.length := Nat.mod_eq_of_lt (by omega)
  rw [partBytes, List.append_assoc, List.append_assoc, readPart_header type.code_lt, whole,
    if_neg, Nat.add_sub_cancel_left, List.take_left, List.drop_left]
  rw [List.length_append]
  omega

theorem readPart_length (read : readPart b = some part) :
    b.length = 4 + part.payload.length + part.rest.length := by
  unfold readPart at read
  obtain ⟨⟨type, b'⟩, first, read⟩ := bind_eq_some_iff.mp read
  obtain ⟨⟨sz, b''⟩, second, read⟩ := bind_eq_some_iff.mp read
  have front := bufferUint16_eq_some first
  have next := bufferUint16_eq_some second
  simp only at read
  split at read
  · cases read
  obtain ⟨⟨payload, rest⟩, third, read⟩ := bind_eq_some_iff.mp read
  cases read
  have behind := congrArg List.length (bufferNext_eq_some third).1
  rw [List.length_append] at behind
  simp only
  omega

theorem readPart_type (two : first.length = 2) (read : readPart (first ++ b) = some part) :
    part.type = beNat first := by
  unfold readPart at read
  rw [bufferUint16, bufferNext_append two, map_some, bind_eq_bind, bind_some] at read
  obtain ⟨⟨sz, b'⟩, -, read⟩ := bind_eq_some_iff.mp read
  simp only at read
  split at read
  · cases read
  · obtain ⟨⟨payload, rest⟩, -, read⟩ := bind_eq_some_iff.mp read
    cases read
    rfl

theorem openEncryptAes256_eq_ok (opened : openEncryptAes256 gc opts data = .ok content) :
    ∃ lookup length username password iv body,
      opts.passwordLookup = some lookup ∧ lookup (cText username) = some password ∧
      data = length ++ (username ++ (iv ++ body)) ∧ length.length = 2 ∧ username.length = beNat length ∧
      iv.length = 16 ∧ gc.decrypt (gc.sha256 password) iv body = gc.sha1 content ++ content := by
  unfold openEncryptAes256 at opened
  split at opened
  · cases opened
  rename_i lookup looked
  split at opened
  · cases opened
  rename_i usernameLen b first
  split at opened
  · cases opened
  split at opened
  · cases opened
  rename_i username b' second
  split at opened
  · cases opened
  rename_i password found
  split at opened
  · cases opened
  rename_i iv body third
  split at opened
  · cases opened
  rename_i hash content' fourth
  split at opened
  · rename_i same
    cases opened
    obtain ⟨⟨length, b''⟩, next, same'⟩ := map_eq_some_iff.mp first
    cases same'
    obtain ⟨rfl, two⟩ := bufferNext_eq_some next
    obtain ⟨rfl, named⟩ := bufferNext_eq_some second
    obtain ⟨rfl, sixteen⟩ := bufferNext_eq_some third
    obtain ⟨decrypted, -⟩ := bufferNext_eq_some fourth
    refine ⟨lookup, length, username, password, iv, body, looked, found, rfl, two, named, sixteen, ?_⟩
    rw [decrypted, same]
  · cases opened

theorem openEncryptAes256_append (length username iv body : Bytes) (opts : LccNetworkParseOptions)
    (looked : opts.passwordLookup = some lookup) (found : lookup (cText username) = some password)
    (two : length.length = 2) (named : username.length = beNat length) (sixteen : iv.length = 16)
    (decrypted : gc.decrypt (gc.sha256 password) iv body = gc.sha1 content ++ content) :
    openEncryptAes256 gc opts (length ++ (username ++ (iv ++ body))) = .ok content := by
  have first : bufferUint16 (length ++ (username ++ (iv ++ body))) =
      some (username.length, username ++ (iv ++ body)) := by
    rw [bufferUint16, bufferNext_append two, map_some, named]
  have long : ¬(length ++ (username ++ (iv ++ body))).length < username.length := by
    rw [List.length_append, List.length_append]
    omega
  unfold openEncryptAes256
  simp only [looked, first, if_neg long, bufferNext_append, found, sixteen, decrypted, gc.sha1_length, if_pos]

theorem openEncryptAes256_length (opened : openEncryptAes256 gc opts data = .ok content) :
    content.length < data.length := by
  obtain ⟨-, length, username, password, iv, body, -, -, rfl, two, -, -, decrypted⟩ :=
    openEncryptAes256_eq_ok opened
  have same := congrArg List.length decrypted
  rw [gc.decrypt_length, List.length_append] at same
  simp only [List.length_append]
  omega

theorem openSignSha256_eq_sign (opened : openSignSha256 gc opts signature payload = .ok .sign) :
    ∃ lookup username password, opts.passwordLookup = some lookup ∧ lookup (cText username) = some password ∧
      signature = gc.hmacSha256 password (cText username ++ payload) ++ username := by
  unfold openSignSha256 at opened
  split at opened
  · cases opened
  rename_i lookup looked
  split at opened
  · cases opened
  rename_i hash username next
  split at opened
  · cases opened
  rename_i password found
  split at opened
  · rename_i same
    refine ⟨lookup, username, password, looked, found, ?_⟩
    rw [(bufferNext_eq_some next).1, same]
  · cases opened

theorem openSignSha256_append (gc : Gcrypt) (opts : LccNetworkParseOptions)
    (looked : opts.passwordLookup = some lookup)
    (username payload : Bytes) (found : lookup (cText username) = some password) :
    openSignSha256 gc opts (gc.hmacSha256 password (cText username ++ payload) ++ username) payload =
      .ok .sign := by
  unfold openSignSha256
  simp only [looked, bufferNext_append (gc.hmacSha256_length _ _), found, if_pos]

theorem openSignSha256_ne_encrypt : openSignSha256 gc opts signature payload ≠ .ok .encrypt := by
  unfold openSignSha256
  grind

def parseField (type : PartType) (payload : Bytes) (state : DeltaState) : Option DeltaState :=
  match type with
  | .name _ => parseIdentifier type payload state
  | _ => parseTime type payload state

def networkParse (gc : Gcrypt) (opts : LccNetworkParseOptions) (sl : SecurityLevel) (state : DeltaState)
    (log : List LccValueList) (b : Bytes) : Status × List LccValueList :=
  if b.length = 0 then (0, log)
  else
    match read : readPart b with
    | none => (EINVAL, log)
    | some part =>
      have := readPart_length read
      match PartType.ofCode part.type with
      | some .values =>
        match parseValues part.payload with
        | none => (EINVAL, log)
        | some values =>
          let vl : LccValueList := { state with values }
          if opts.securityLevel.rank ≤ sl.rank then
            let status := opts.writer log vl
            if status ≠ 0 then (status, log ++ [vl]) else networkParse gc opts sl state (log ++ [vl]) part.rest
          else networkParse gc opts sl state log part.rest
      | some .signSha256 =>
        match openSignSha256 gc opts part.payload part.rest with
        | .error _ => (-1, log)
        | .ok level =>
          let nested := networkParse gc opts level .zero log part.rest
          if nested.1 ≠ 0 then (-1, nested.2) else nested
      | some .encrAes256 =>
        match opened : openEncryptAes256 gc opts part.payload with
        | .error _ => (-1, log)
        | .ok content =>
          have := openEncryptAes256_length opened
          let nested := networkParse gc opts .encrypt .zero log content
          if nested.1 ≠ 0 then (-1, nested.2) else networkParse gc opts sl state nested.2 part.rest
      | some type =>
        match parseField type part.payload state with
        | none => (EINVAL, log)
        | some state => networkParse gc opts sl state log part.rest
      | none => (EINVAL, log)
termination_by b.length

def lccNetworkParse (gc : Gcrypt) (opts : LccNetworkParseOptions) (data : Bytes) : Status × List LccValueList :=
  if opts.passwordLookup.isSome ∧ gc.initStatus ≠ 0 then (gc.initStatus, [])
  else networkParse gc opts .none .zero [] data

@[simp] theorem networkParse_nil : networkParse gc opts sl state log [] = (0, log) := by
  rw [networkParse, if_pos List.length_nil]

theorem filled_of_read (read : readPart b = some part) : ¬b.length = 0 := by
  rw [readPart_length read]
  omega

theorem networkParse_unreadable (filled : b ≠ []) (read : readPart b = none) :
    networkParse gc opts sl state log b = (EINVAL, log) := by
  rw [networkParse, if_neg (fun empty => filled (List.length_eq_zero_iff.mp empty))]
  split
  · rfl
  · rename_i part read'
    cases read.symm.trans read'

section

variable (read : readPart b = some part)
include read

theorem networkParse_unknown (unknown : PartType.ofCode part.type = none) :
    networkParse gc opts sl state log b = (EINVAL, log) := by
  rw [networkParse, if_neg (filled_of_read read)]
  grind

theorem networkParse_field (known : PartType.ofCode part.type = some type)
    (plain : type ≠ .values ∧ type ≠ .signSha256 ∧ type ≠ .encrAes256) :
    networkParse gc opts sl state log b =
      (parseField type part.payload state).elim (EINVAL, log) fun state =>
        networkParse gc opts sl state log part.rest := by
  rw [networkParse, if_neg (filled_of_read read)]
  grind

theorem networkParse_values (known : PartType.ofCode part.type = some .values) :
    networkParse gc opts sl state log b =
      (parseValues part.payload).elim (EINVAL, log) fun values =>
        if opts.securityLevel.rank ≤ sl.rank then
          if opts.writer log { state with values } ≠ 0 then
            (opts.writer log { state with values }, log ++ [{ state with values }])
          else networkParse gc opts sl state (log ++ [{ state with values }]) part.rest
        else networkParse gc opts sl state log part.rest := by
  rw [networkParse, if_neg (filled_of_read read)]
  grind

theorem networkParse_sign_error (known : PartType.ofCode part.type = some .signSha256)
    (failed : openSignSha256 gc opts part.payload part.rest = .error status) :
    networkParse gc opts sl state log b = (-1, log) := by
  rw [networkParse, if_neg (filled_of_read read)]
  grind

theorem networkParse_sign (known : PartType.ofCode part.type = some .signSha256)
    (opened : openSignSha256 gc opts part.payload part.rest = .ok level) :
    networkParse gc opts sl state log b =
      if (networkParse gc opts level .zero log part.rest).1 ≠ 0 then
        (-1, (networkParse gc opts level .zero log part.rest).2)
      else networkParse gc opts level .zero log part.rest := by
  rw [networkParse, if_neg (filled_of_read read)]
  grind

theorem networkParse_encr_error (known : PartType.ofCode part.type = some .encrAes256)
    (failed : openEncryptAes256 gc opts part.payload = .error status) :
    networkParse gc opts sl state log b = (-1, log) := by
  rw [networkParse, if_neg (filled_of_read read)]
  grind

theorem networkParse_encr (known : PartType.ofCode part.type = some .encrAes256)
    (opened : openEncryptAes256 gc opts part.payload = .ok content) :
    networkParse gc opts sl state log b =
      if (networkParse gc opts .encrypt .zero log content).1 ≠ 0 then
        (-1, (networkParse gc opts .encrypt .zero log content).2)
      else networkParse gc opts sl state (networkParse gc opts .encrypt .zero log content).2 part.rest := by
  rw [networkParse, if_neg (filled_of_read read)]
  grind

end

end NCollectd.Network
