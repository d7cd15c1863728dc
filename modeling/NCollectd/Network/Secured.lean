import NCollectd.Network.Rejection

/-! Signed and encrypted packets, as the library's own parser opens them. -/

namespace NCollectd.Network

open BigEndian Option

/-- A library that works, and options that know the sender's password and ask for no higher level. -/
structure Receiver (nb : LccNetworkBuffer) (gc : Gcrypt) (opts : LccNetworkParseOptions) : Prop where
  ready : gc.initStatus = 0
  lookup : ∃ lookup, opts.passwordLookup = some lookup ∧ lookup nb.username = some nb.password
  level : opts.securityLevel.rank ≤ nb.seclevel.rank
  accepts : ∀ log vl, opts.writer log vl = 0

/-- Finalised, the packet is accepted, and the writer receives these value lists. -/
def ReceivedAs (gc : Gcrypt) (opts : LccNetworkParseOptions) (last : LccNetworkBuffer)
    (vls : List LccValueList) : Prop :=
  ∃ final, lccNetworkBufferFinalize gc last = some final ∧
    lccNetworkParse gc opts final.data = (0, vls.map LccValueList.normal)

theorem lccNetworkParse_eq (ready : gc.initStatus = 0) :
    lccNetworkParse gc opts data = networkParse gc opts .none .zero [] data := by
  rw [lccNetworkParse, if_neg (fun failed => failed.2 ready)]

def signedBytes (gc : Gcrypt) (password username content : Bytes) : Bytes :=
  beBytes 2 PartType.signSha256.code ++ (beBytes 2 (partSignatureSha256Size + username.length) ++
    (gc.hmacSha256 password (username ++ content) ++ (username ++ content)))

theorem finalize_sign (gc : Gcrypt) (level : last.seclevel = .sign)
    (data : last.data = headerBytes .sign username iv ++ content) :
    ∃ final, lccNetworkBufferFinalize gc last = some final ∧
      final.data = signedBytes gc last.password username content := by
  let front := beBytes 2 PartType.signSha256.code ++ beBytes 2 (partSignatureSha256Size + username.length)
  have pieces : last.data = front ++ List.replicate 32 0 ++ (username ++ content) := by
    rw [data]
    simp [headerBytes, front]
  have four : front.length = 4 := by
    rw [List.length_append, length_beBytes, length_beBytes]
  have signed : last.data.drop partSignatureSha256Size = username ++ content := by
    rw [pieces]
    apply List.drop_left'
    rw [List.length_append, four, List.length_replicate]
    rfl
  have long : ¬last.data.length < partSignatureSha256Size := by
    rw [pieces, List.length_append, List.length_append, four, List.length_replicate]
    change ¬_ < 36
    omega
  refine ⟨_, by rw [lccNetworkBufferFinalize, level]; exact if_neg long, ?_⟩
  change overwrite last.data 4 _ = _
  rw [signed, pieces, ← four, overwrite_append front]
  · simp [front, signedBytes]
  · rw [gc.hmacSha256_length, List.length_replicate]

theorem networkParse_signed (clean : 0 ∉ username) (short : username.length < 65500)
    (looked : opts.passwordLookup = some lookup) (found : lookup username = some password) :
    networkParse gc opts sl state log (signedBytes gc password username content) =
      if (networkParse gc opts .sign .zero log content).1 ≠ 0 then
        (-1, (networkParse gc opts .sign .zero log content).2)
      else networkParse gc opts .sign .zero log content := by
  have size : (partSignatureSha256Size + username.length) % 65536 = 36 + username.length :=
    Nat.mod_eq_of_lt (by change 36 + _ < _; omega)
  have cut : (gc.hmacSha256 password (username ++ content) ++ username).length = 36 + username.length - 4 := by
    rw [List.length_append, gc.hmacSha256_length]
    omega
  have read : readPart (signedBytes gc password username content) = some
      ⟨PartType.signSha256.code, gc.hmacSha256 password (username ++ content) ++ username, content⟩ := by
    rw [signedBytes, readPart_header (PartType.code_lt _), size, ← List.append_assoc (gc.hmacSha256 _ _), if_neg,
      List.take_left' cut, List.drop_left' cut]
    rw [List.length_append, cut]
    omega
  apply networkParse_sign read (PartType.ofCode_code .signSha256)
  have named := cText_eq clean
  have opened := openSignSha256_append gc opts looked username content (by rw [named]; exact found)
  rwa [named] at opened

def encryptedBytes (gc : Gcrypt) (password iv content : Bytes) : Bytes :=
  beBytes 2 PartType.encrAes256.code ++ (beBytes 2 (42 + content.length) ++ (beBytes 2 0 ++ (iv ++
    gc.encrypt (gc.sha256 password) iv (gc.sha1 content ++ content))))

theorem finalize_encrypt (gc : Gcrypt) (level : last.seclevel = .encrypt)
    (data : last.data = headerBytes .encrypt [] iv ++ content)
    (header : last.encrHeaderLen = 42) (vector : last.encrIv = iv) (sixteen : iv.length = 16) :
    ∃ final, lccNetworkBufferFinalize gc last = some final ∧
      final.data = encryptedBytes gc (last.encrCypher.getD last.password) iv content := by
  let code := beBytes 2 PartType.encrAes256.code
  let front := code ++ beBytes 2 (42 + content.length) ++ beBytes 2 0 ++ iv
  have two : code.length = 2 := length_beBytes 2 _
  have front_length : front.length = 22 := by
    simp [front, two, length_beBytes, sixteen]
  have pieces : last.data = code ++ beBytes 2 0 ++ (beBytes 2 0 ++ (iv ++ (List.replicate 20 0 ++ content))) := by
    rw [data]
    simp [headerBytes, code]
  have total : last.data.length = 42 + content.length := by
    rw [pieces]
    simp only [List.length_append, two, length_beBytes, sixteen, List.length_replicate]
    omega
  have first : overwrite last.data 2 (beBytes 2 last.data.length) = front ++ List.replicate 20 0 ++ content := by
    have filled := overwrite_append code
      ((length_beBytes 2 (42 + content.length)).trans (length_beBytes 2 0).symm)
      (beBytes 2 0 ++ (iv ++ (List.replicate 20 0 ++ content)))
    rw [two] at filled
    rw [total, pieces, filled]
    simp [front]
  have hashed : ((front ++ List.replicate 20 (0 : UInt8) ++ content).drop 42).take content.length = content := by
    rw [List.drop_left' (by rw [List.length_append, front_length, List.length_replicate]), List.take_length]
  have second : overwrite (front ++ List.replicate 20 0 ++ content) 22 (gc.sha1 content) =
      front ++ (gc.sha1 content ++ content) := by
    rw [← front_length, overwrite_append front (by rw [gc.sha1_length, List.length_replicate]), List.append_assoc]
  have size : last.data.length - last.encrHeaderLen = content.length := by omega
  have inner : ((front ++ (gc.sha1 content ++ content)).drop 22).take (content.length + 20) =
      gc.sha1 content ++ content := by
    rw [List.drop_left' front_length, List.take_of_length_le]
    rw [List.length_append, gc.sha1_length, add_comm]
  have guarded : ¬(last.data.length < last.encrHeaderLen ∨ last.encrHeaderLen < partEncryptionAes256Size) := by
    change ¬(_ ∨ _ < 42)
    omega
  refine ⟨_, by rw [lccNetworkBufferFinalize, level]; exact if_neg guarded, ?_⟩
  simp only [LccNetworkBuffer.rewrite, partEncryptionAes256Size, first, size, hashed, Nat.reduceSub, second, inner,
    vector]
  have third := overwrite_append front
    (gc.encrypt_length (gc.sha256 (last.encrCypher.getD last.password)) iv (gc.sha1 content ++ content)) []
  rw [List.append_nil, List.append_nil, front_length] at third
  rw [third]
  simp [front, code, encryptedBytes]

theorem readPart_encryptedBytes (small : 42 + content.length < 65536) (sixteen : iv.length = 16) :
    readPart (encryptedBytes gc password iv content) = some ⟨PartType.encrAes256.code,
      beBytes 2 0 ++ (iv ++ gc.encrypt (gc.sha256 password) iv (gc.sha1 content ++ content)), []⟩ := by
  have length : (beBytes 2 0 ++ (iv ++ gc.encrypt (gc.sha256 password) iv (gc.sha1 content ++ content))).length =
      42 + content.length - 4 := by
    simp only [List.length_append, length_beBytes, sixteen, gc.encrypt_length, gc.sha1_length]
    omega
  rw [encryptedBytes, readPart_header (PartType.code_lt _), Nat.mod_eq_of_lt small, if_neg (by omega),
    List.take_of_length_le (le_of_eq length), List.drop_of_length_le (le_of_eq length)]

theorem networkParse_encrypted (small : 42 + content.length < 65536) (sixteen : iv.length = 16)
    (looked : opts.passwordLookup = some lookup) (found : lookup [] = some password) :
    networkParse gc opts sl state log (encryptedBytes gc password iv content) =
      if (networkParse gc opts .encrypt .zero log content).1 ≠ 0 then
        (-1, (networkParse gc opts .encrypt .zero log content).2)
      else networkParse gc opts .encrypt .zero log content := by
  have opened : openEncryptAes256 gc opts (beBytes 2 0 ++ (iv ++
      gc.encrypt (gc.sha256 password) iv (gc.sha1 content ++ content))) = .ok content :=
    openEncryptAes256_append _ [] iv _ opts looked found (length_beBytes 2 0) rfl sixteen
      (gc.decrypt_encrypt _ _ _)
  rw [networkParse_encr (readPart_encryptedBytes small sixteen) (PartType.ofCode_code .encrAes256) opened,
    networkParse_nil]
  split
  · rfl
  · rename_i succeeded
    exact Prod.ext (Decidable.not_not.mp succeeded).symm rfl

section Refused

variable {body username password : Bytes}

def soleUser (nb : LccNetworkBuffer) : LccNetworkParseOptions :=
  ⟨fun _ _ => 0, nb.seclevel, some fun name => if name = nb.username then some nb.password else none⟩

theorem soleUser_receiver (nb : LccNetworkBuffer) (ready : gc.initStatus = 0) : Receiver nb gc (soleUser nb) :=
  ⟨ready, ⟨_, rfl, if_pos rfl⟩, le_refl _, fun _ _ => rfl⟩

theorem opened_of_accepted
    (parsed : networkParse gc opts sl state log
      (beBytes 2 PartType.encrAes256.code ++ (beBytes 2 sz ++ body)) = (0, written)) :
    ∃ content, openEncryptAes256 gc opts (body.take (sz % 65536 - 4)) = .ok content := by
  have read := readPart_header PartType.encrAes256.code_lt sz body
  split at read
  · rw [networkParse_unreadable (List.ne_nil_of_length_pos (by rw [List.length_append, length_beBytes]; omega)) read]
      at parsed
    cases parsed
  · cases opened : openEncryptAes256 gc opts (body.take (sz % 65536 - 4)) with
    | error status =>
      rw [networkParse_encr_error read (PartType.ofCode_code .encrAes256) opened] at parsed
      cases parsed
    | ok content => exact ⟨content, rfl⟩

theorem hash_of_opened (clear : ∀ iv data, gc.decrypt (gc.sha256 nb.password) iv data = data)
    (named : body.take 2 = beBytes 2 nb.username.length)
    (opened : openEncryptAes256 gc (soleUser nb) (body.take limit) = .ok content) :
    content.length + nb.username.length + 38 ≤ limit ∧
      ∀ i < 20, body[18 + nb.username.length + i]? = (gc.sha1 content)[i]? := by
  obtain ⟨lookup, length, username, password, iv, inner, looked, found, pieces, two, size, sixteen, decrypted⟩ :=
    openEncryptAes256_eq_ok opened
  cases looked
  simp only at found
  split at found
  · rename_i same
    cases found
    rw [clear] at decrypted
    have whole := congrArg List.length pieces
    simp only [decrypted, List.length_take, List.length_append, two, sixteen, gc.sha1_length] at whole
    have front : length = beBytes 2 nb.username.length := by
      have starts := congrArg (List.take 2) pieces
      rwa [List.take_take, Nat.min_eq_left (by omega), named, List.take_left' two, eq_comm] at starts
    have short := length_cText_le username
    rw [same, size, front, beNat_beBytes] at short
    have exactly : username.length = nb.username.length := by
      rw [size, front, beNat_beBytes]
      exact le_antisymm (Nat.mod_le _ _) short
    refine ⟨by omega, ?_⟩
    intro i small
    have there := congrArg (fun bytes => bytes[18 + nb.username.length + i]?) pieces
    simp only [decrypted] at there
    rw [List.getElem?_take_of_lt (by omega)] at there
    rw [there, List.getElem?_append_right (by omega), List.getElem?_append_right (by omega),
      List.getElem?_append_right (by omega), List.getElem?_append_left (by rw [gc.sha1_length]; omega)]
    congr 1
    omega
  · cases found

theorem networkParse_name (long : 65500 ≤ nb.username.length) (first : x ≠ 0) (second : y ≠ 0)
    (rest : Bytes) : (networkParse gc (soleUser nb) sl state log (x :: y :: rest)).1 ≠ 0 := by
  cases read : readPart (x :: y :: rest) with
  | none =>
    rw [networkParse_unreadable (List.cons_ne_nil _ _) read]
    change EINVAL ≠ 0
    decide
  | some part =>
    have type : part.type = x.toNat * 256 + y.toNat := by
      have number := readPart_type (show [x, y].length = 2 from rfl) read
      simpa [beNat] using number
    have positive : 0 < x.toNat ∧ 0 < y.toNat :=
      ⟨pos_of_ne_zero fun zero => first (UInt8.toNat_inj.mp zero),
        pos_of_ne_zero fun zero => second (UInt8.toNat_inj.mp zero)⟩
    have below := y.toNat_lt
    cases known : PartType.ofCode part.type with
    | none =>
      rw [networkParse_unknown read known]
      change EINVAL ≠ 0
      decide
    | some kind =>
      have code := PartType.code_of_ofCode known
      have encrypted : kind = .encrAes256 := by
        cases kind with
        | name field => cases field <;> simp only [PartType.code] at code <;> omega
        | encrAes256 => rfl
        | _ =>
          simp only [PartType.code] at code
          omega
      subst encrypted
      cases opened : openEncryptAes256 gc (soleUser nb) part.payload with
      | error status =>
        rw [networkParse_encr_error read known opened]
        change (-1 : Status) ≠ 0
        decide
      | ok content =>
        obtain ⟨lookup, length, username, password, iv, inner, looked, found, pieces, two, -, sixteen, decrypted⟩ :=
          openEncryptAes256_eq_ok opened
        have hashed := congrArg List.length decrypted
        rw [gc.decrypt_length, List.length_append, gc.sha1_length] at hashed
        cases looked
        simp only at found
        split at found
        · rename_i same
          have short := length_cText_le username
          have bound := readPart_payload_lt read
          rw [pieces] at bound
          simp only [List.length_append] at bound
          rw [same] at short
          omega
        · cases found

theorem openSignSha256_length (looked : opts.passwordLookup = some lookup)
    (opened : openSignSha256 gc opts signature payload = .ok level) : 32 ≤ signature.length := by
  unfold openSignSha256 at opened
  rw [looked] at opened
  simp only at opened
  split at opened
  · cases opened
  · rename_i hash username next
    obtain ⟨rfl, size⟩ := bufferNext_eq_some next
    rw [List.length_append]
    omega

/-- The length wraps around, and the rest of the name is taken for a part. -/
theorem networkParse_signed_long (long : 65500 ≤ nb.username.length) (content : Bytes) :
    (networkParse gc (soleUser nb) sl state log (signedBytes gc nb.password nb.username content)).1 ≠ 0 := by
  have read := readPart_header PartType.signSha256.code_lt (partSignatureSha256Size + nb.username.length)
    (gc.hmacSha256 nb.password (nb.username ++ content) ++ (nb.username ++ content))
  have wrapped : (partSignatureSha256Size + nb.username.length) % 65536 + 65536 ≤ 36 + nb.username.length := by
    change (36 + nb.username.length) % 65536 + 65536 ≤ _
    omega
  generalize (partSignatureSha256Size + nb.username.length) % 65536 = sz at read wrapped
  rw [← signedBytes] at read
  split at read
  · rw [networkParse_unreadable (List.ne_nil_of_length_pos (by
      rw [signedBytes, List.length_append, length_beBytes]; omega)) read]
    change EINVAL ≠ 0
    decide
  · cases opened : openSignSha256 gc (soleUser nb)
        ((gc.hmacSha256 nb.password (nb.username ++ content) ++ (nb.username ++ content)).take (sz - 4))
        ((gc.hmacSha256 nb.password (nb.username ++ content) ++ (nb.username ++ content)).drop (sz - 4)) with
    | error status =>
      rw [networkParse_sign_error read (PartType.ofCode_code .signSha256) opened]
      change (-1 : Status) ≠ 0
      decide
    | ok level =>
      have enough := openSignSha256_length rfl opened
      rw [List.length_take] at enough
      rw [networkParse_sign read (PartType.ofCode_code .signSha256) opened]
      have rest : (gc.hmacSha256 nb.password (nb.username ++ content) ++ (nb.username ++ content)).drop (sz - 4) =
          nb.username.drop (sz - 36) ++ content := by
        rw [List.drop_append, List.drop_of_length_le (by rw [gc.hmacSha256_length]; omega), List.nil_append,
          gc.hmacSha256_length, List.drop_append_of_le_length (by omega)]
        congr 2
      have clean : ∀ byte ∈ nb.username.drop (sz - 36), byte ≠ 0 :=
        fun byte found zero => nb.usernameClean (zero ▸ List.mem_of_mem_drop found)
      have remaining : 2 ≤ (nb.username.drop (sz - 36)).length := by
        rw [List.length_drop]
        omega
      simp only [rest]
      cases name : nb.username.drop (sz - 36) with
      | nil =>
        rw [name] at remaining
        exact absurd remaining (by decide)
      | cons x others =>
        cases others with
        | nil =>
          rw [name] at remaining
          exact absurd remaining (by simp)
        | cons y others =>
          rw [name] at clean
          have failed : (networkParse gc (soleUser nb) level .zero log (x :: y :: (others ++ content))).1 ≠ 0 :=
            networkParse_name long (clean x (by simp)) (clean y (by simp)) (others ++ content)
          simp only [List.cons_append, if_pos failed]
          decide

end Refused

def encryptionBody (username iv content : Bytes) : Bytes :=
  beBytes 2 username.length ++ (username ++ (iv ++ (List.replicate 20 0 ++ content)))

theorem finalize_named (level : last.seclevel = .encrypt)
    (data : last.data = headerBytes .encrypt username iv ++ content)
    (finalized : lccNetworkBufferFinalize (.repeating byte) last = some final) :
    final.data = beBytes 2 PartType.encrAes256.code ++ (beBytes 2 last.data.length ++
      overwrite (encryptionBody username iv content) 18 (List.replicate 20 byte)) := by
  let code := beBytes 2 PartType.encrAes256.code
  have pieces : last.data = code ++ beBytes 2 0 ++ encryptionBody username iv content := by
    rw [data]
    simp [headerBytes, encryptionBody, code]
  have first : overwrite last.data 2 (beBytes 2 last.data.length) =
      code ++ beBytes 2 last.data.length ++ encryptionBody username iv content := by
    have filled := overwrite_append code ((length_beBytes 2 last.data.length).trans (length_beBytes 2 0).symm)
      (encryptionBody username iv content)
    rwa [← pieces, length_beBytes] at filled
  have second := overwrite_append_right (code ++ beBytes 2 last.data.length) (encryptionBody username iv content) 18
    (List.replicate 20 byte)
  rw [List.length_append, length_beBytes, length_beBytes] at second
  rw [lccNetworkBufferFinalize, level] at finalized
  simp only [nbAddEncryption] at finalized
  split at finalized
  · cases finalized
  · cases finalized
    refine (overwrite_slice (overwrite (overwrite last.data 2 _) 22 (List.replicate 20 byte)) 22 _).trans ?_
    rw [first, second, List.append_assoc]

theorem length_encryptionBody (sixteen : iv.length = 16) :
    (encryptionBody username iv content).length = 38 + username.length + content.length := by
  simp only [encryptionBody, List.length_append, length_beBytes, sixteen, List.length_replicate]
  omega

theorem getElem?_encryptionBody (sixteen : iv.length = 16) (i : Nat) (small : i < 20) :
    (encryptionBody username iv content)[18 + username.length + i]? = some 0 := by
  rw [encryptionBody, List.getElem?_append_right (by rw [length_beBytes]; omega), length_beBytes,
    List.getElem?_append_right (by omega), List.getElem?_append_right (by omega),
    List.getElem?_append_left (by rw [List.length_replicate]; omega), List.getElem?_replicate, if_pos (by omega)]

def Gcrypt.keyed (clear : Bytes) : Gcrypt where
  initStatus := 0
  hmacSha256 _ _ := List.replicate 32 0
  sha256 data := data
  sha1 _ := List.replicate 20 0
  encrypt key _ data := if key = clear then data else data.map (· + 1)
  decrypt key _ data := if key = clear then data else data.map (· - 1)
  hmacSha256_length _ _ := List.length_replicate
  sha1_length _ := List.length_replicate
  encrypt_length key _ data := by split <;> simp
  decrypt_length key _ data := by split <;> simp
  decrypt_encrypt key _ data := by split <;> simp [Function.comp_def]

theorem length_plain (_ _ data : Bytes) : data.length = data.length := rfl

def Gcrypt.measuring (length : Nat) : Gcrypt where
  initStatus := 0
  hmacSha256 _ _ := List.replicate 32 0
  sha256 data := data
  sha1 data := if data.length = length then List.replicate 20 1 else List.replicate 20 0
  encrypt _ _ data := data
  decrypt _ _ data := data
  hmacSha256_length _ _ := List.length_replicate
  sha1_length _ := by split <;> exact List.length_replicate
  encrypt_length := length_plain
  decrypt_length := length_plain
  decrypt_encrypt _ _ _ := rfl

/-- A packet with these value lists, before it is finalised. -/
structure Packet (nb : LccNetworkBuffer) (iv : Bytes) (vls : List LccValueList) (last : LccNetworkBuffer)
    (content : Bytes) : Prop where
  settings : last.seclevel = nb.seclevel ∧ last.password = nb.password ∧ last.encrCypher = nb.encrCypher
  data : last.data = headerBytes nb.seclevel nb.username iv ++ content
  encrypt : nb.seclevel = .encrypt →
    last.encrHeaderLen = nb.username.length + partEncryptionAes256Size ∧ last.encrIv = iv
  content : ∀ gc opts sl, opts.securityLevel.rank ≤ sl.rank → (∀ log vl, opts.writer log vl = 0) →
    (networkParse gc opts sl .zero [] content = (0, vls.map LccValueList.normal) ↔ ∀ vl ∈ vls, Transmittable vl)

theorem packet_of_added (initialized : lccNetworkBufferInitialize nb iv = some nb')
    (added : addValues nb' vls = some last) : ∃ content, Packet nb iv vls last content := by
  have start := initialize_eq_some initialized
  have kept := addValues_settings added
  obtain ⟨bytes, data, -⟩ := addValues_received added
  refine ⟨bytes, ⟨?_, ?_, ?_⟩, ?_, ?_, ?_⟩
  · rw [kept.seclevel, start.seclevel]
  · rw [kept.password, start.password]
  · rw [kept.encrCypher, start.encrCypher]
  · rw [data, start.data]
  · intro level
    rw [kept.encrHeaderLen, kept.encrIv]
    exact start.encrypt level
  · intro gc opts sl level accepts
    exact addValues_received_iff added data start.state gc level accepts

theorem guarded_eq_iff :
    (if nested.1 ≠ 0 then (-1, nested.2) else nested) = (0, log) ↔ nested = (0, log) := by
  split
  · rename_i failed
    constructor
    · intro same
      cases same
    · intro same
      rw [same] at failed
      exact absurd rfl failed
  · rfl

theorem receivedAs_sign (packet : Packet nb iv vls last content) (level : nb.seclevel = .sign)
    (short : nb.username.length < 65500) (receiver : Receiver nb gc opts) :
    ReceivedAs gc opts last vls ↔ ∀ vl ∈ vls, Transmittable vl := by
  obtain ⟨lookup, looked, found⟩ := receiver.lookup
  have data := packet.data
  rw [level] at data
  obtain ⟨final, finalized, bytes⟩ := finalize_sign gc (packet.settings.1.trans level) data
  have enough := level ▸ receiver.level
  rw [← packet.content gc opts .sign enough receiver.accepts, ReceivedAs]
  simp only [finalized, some.injEq, exists_eq_left', bytes, lccNetworkParse_eq receiver.ready]
  rw [packet.settings.2.1, networkParse_signed nb.usernameClean short looked found, guarded_eq_iff]

theorem receivedAs_encrypt (packet : Packet nb iv vls last content) (level : nb.seclevel = .encrypt)
    (sixteen : iv.length = 16) (unnamed : nb.username = []) (key : nb.encrCypher.getD nb.password = nb.password)
    (short : last.data.length ≤ 65535) (receiver : Receiver nb gc opts) :
    ReceivedAs gc opts last vls ↔ ∀ vl ∈ vls, Transmittable vl := by
  obtain ⟨lookup, looked, found⟩ := receiver.lookup
  obtain ⟨header, vector⟩ := packet.encrypt level
  have data := packet.data
  rw [level, unnamed] at data
  rw [unnamed] at header found
  obtain ⟨final, finalized, bytes⟩ := finalize_encrypt gc (packet.settings.1.trans level) data header vector sixteen
  have size := congrArg List.length data
  simp only [headerBytes, List.length_append, length_beBytes, sixteen, List.length_replicate, List.length_nil] at size
  have enough := level ▸ receiver.level
  rw [← packet.content gc opts .encrypt enough receiver.accepts, ReceivedAs]
  simp only [finalized, some.injEq, exists_eq_left', bytes, lccNetworkParse_eq receiver.ready]
  rw [packet.settings.2.1, packet.settings.2.2, key, networkParse_encrypted (by omega) sixteen looked found,
    guarded_eq_iff]

theorem accepted_of_received (ready : gc.initStatus = 0) (received : ReceivedAs gc opts last vls)
    (finalized : lccNetworkBufferFinalize gc last = some final) :
    networkParse gc opts .none .zero [] final.data = (0, vls.map LccValueList.normal) := by
  obtain ⟨final', finalized', parsed⟩ := received
  cases finalized.symm.trans finalized'
  rwa [lccNetworkParse_eq ready] at parsed

section

variable (packet : Packet nb iv vls last content)
include packet

/-- A signature with a name that is too long is refused. -/
theorem sign_short (level : nb.seclevel = .sign)
    (received : ∀ gc opts, Receiver nb gc opts → ReceivedAs gc opts last vls) : nb.username.length < 65500 := by
  by_contra long
  have data := packet.data
  rw [level] at data
  obtain ⟨final, finalized, bytes⟩ := finalize_sign (.repeating 0) (packet.settings.1.trans level) data
  have parsed := accepted_of_received rfl (received (.repeating 0) (soleUser nb) (soleUser_receiver nb rfl)) finalized
  rw [bytes, packet.settings.2.1] at parsed
  exact networkParse_signed_long (le_of_not_gt long) content (congrArg Prod.fst parsed)

section

variable (level : nb.seclevel = .encrypt) (sixteen : iv.length = 16)
include level sixteen

theorem encrypt_unnamed (received : ∀ gc opts, Receiver nb gc opts → ReceivedAs gc opts last vls) :
    nb.username = [] := by
  by_contra named
  have length := List.length_pos_iff.mpr named
  have data := packet.data
  rw [level] at data
  have accepted := received (.repeating 1) (soleUser nb) (soleUser_receiver nb rfl)
  obtain ⟨final, finalized, -⟩ := id accepted
  have parsed := accepted_of_received rfl accepted finalized
  rw [finalize_named (packet.settings.1.trans level) data finalized] at parsed
  obtain ⟨inner, opened⟩ := opened_of_accepted parsed
  have front : (overwrite (encryptionBody nb.username iv content) 18 (List.replicate 20 1)).take 2 =
      beBytes 2 nb.username.length := by
    rw [take_overwrite _ _ (by decide) (by rw [length_encryptionBody sixteen]; omega)]
    exact List.take_left' (length_beBytes 2 _)
  have byte := (hash_of_opened (fun _ _ => rfl) front opened).2 19 (by decide)
  rw [getElem?_overwrite_of_le _ (by rw [List.length_replicate]; omega),
    getElem?_encryptionBody sixteen 19 (by decide)]
    at byte
  change some 0 = (List.replicate 20 (1 : UInt8))[19]? at byte
  exact absurd byte (by decide)

theorem first_byte (unnamed : nb.username = []) (ready : gc.initStatus = 0)
    (clear : ∀ iv data, gc.decrypt (gc.sha256 nb.password) iv data = data)
    (received : ReceivedAs gc (soleUser nb) last vls) :
    ∃ inner, inner.length + 42 ≤ (42 + content.length) % 65536 ∧
      (gc.encrypt (gc.sha256 (nb.encrCypher.getD nb.password)) iv (gc.sha1 content ++ content))[0]? =
        (gc.sha1 inner)[0]? := by
  obtain ⟨header, vector⟩ := packet.encrypt level
  have data := packet.data
  rw [level, unnamed] at data
  rw [unnamed] at header
  obtain ⟨final, finalized, bytes⟩ := finalize_encrypt gc (packet.settings.1.trans level) data header vector sixteen
  have parsed := accepted_of_received ready received finalized
  rw [bytes, encryptedBytes, packet.settings.2.1, packet.settings.2.2] at parsed
  obtain ⟨inner, opened⟩ := opened_of_accepted parsed
  have front : (beBytes 2 0 ++ (iv ++ gc.encrypt (gc.sha256 (nb.encrCypher.getD nb.password)) iv
      (gc.sha1 content ++ content))).take 2 = beBytes 2 0 := List.take_left' (length_beBytes 2 0)
  obtain ⟨room, hash⟩ := hash_of_opened clear (by rw [unnamed]; exact front) opened
  have byte := hash 0 (by decide)
  rw [unnamed] at byte room
  refine ⟨inner, by simp only [List.length_nil] at room; omega, ?_⟩
  rw [← byte, List.getElem?_append_right (by rw [length_beBytes]; decide), length_beBytes,
    List.getElem?_append_right (by rw [sixteen]; decide), sixteen]
  rfl

theorem encrypt_key (unnamed : nb.username = [])
    (received : ∀ gc opts, Receiver nb gc opts → ReceivedAs gc opts last vls) :
    nb.encrCypher.getD nb.password = nb.password := by
  by_contra other
  obtain ⟨inner, -, byte⟩ := first_byte packet level sixteen unnamed rfl (fun _ _ => if_pos rfl)
    (received (.keyed nb.password) (soleUser nb) (soleUser_receiver nb rfl))
  simp only [Gcrypt.keyed, if_neg other] at byte
  exact absurd byte (by simp)

/-- A length that does not fit is cut off, and the packet is refused. -/
theorem encrypt_short (unnamed : nb.username = [])
    (received : ∀ gc opts, Receiver nb gc opts → ReceivedAs gc opts last vls) : last.data.length ≤ 65535 := by
  by_contra long
  have size := congrArg List.length packet.data
  simp only [level, unnamed, headerBytes, List.length_append, length_beBytes, sixteen, List.length_replicate,
    List.length_nil] at size
  obtain ⟨inner, room, byte⟩ := first_byte packet level sixteen unnamed rfl (fun _ _ => rfl)
    (received (.measuring content.length) (soleUser nb) (soleUser_receiver nb rfl))
  have shorter : inner.length ≠ content.length := by omega
  simp only [Gcrypt.measuring, if_true, if_neg shorter] at byte
  exact absurd byte (by simp)

end

end

/-- A signed packet needs a short user name, an encrypted one an empty name and a fresh cipher. -/
theorem lcc_network_secured_received_iff (nb nb' last : LccNetworkBuffer) (iv : Bytes) (vls : List LccValueList)
    (secured : nb.seclevel ≠ .none) (sixteen : iv.length = 16)
    (initialized : lccNetworkBufferInitialize nb iv = some nb') (added : addValues nb' vls = some last) :
    (∀ gc opts, Receiver nb gc opts → ReceivedAs gc opts last vls) ↔
      ((nb.seclevel = .sign ∧ nb.username.length < 65500) ∨
        (nb.seclevel = .encrypt ∧ nb.username = [] ∧ nb.encrCypher.getD nb.password = nb.password ∧
          last.data.length ≤ 65535)) ∧
      ∀ vl ∈ vls, Transmittable vl := by
  obtain ⟨content, packet⟩ := packet_of_added initialized added
  have sole : Receiver nb (.repeating 0) (soleUser nb) := soleUser_receiver nb rfl
  constructor
  · intro received
    cases level : nb.seclevel with
    | none => exact absurd level secured
    | sign =>
      have short := sign_short packet level received
      exact ⟨.inl ⟨rfl, short⟩, (receivedAs_sign packet level short sole).mp (received _ _ sole)⟩
    | encrypt =>
      have unnamed := encrypt_unnamed packet level sixteen received
      have key := encrypt_key packet level sixteen unnamed received
      have short := encrypt_short packet level sixteen unnamed received
      exact ⟨.inr ⟨rfl, unnamed, key, short⟩,
        (receivedAs_encrypt packet level sixteen unnamed key short sole).mp (received _ _ sole)⟩
  · rintro ⟨⟨level, short⟩ | ⟨level, unnamed, key, short⟩, sent⟩ gc opts receiver
    · exact (receivedAs_sign packet level short receiver).mpr sent
    · exact (receivedAs_encrypt packet level sixteen unnamed key short receiver).mpr sent

def namedBuffer (level : SecurityLevel) : LccNetworkBuffer := smallBuffer level [117] [] (by decide)

def namedPacket (level : SecurityLevel) : Option LccNetworkBuffer :=
  (lccNetworkBufferInitialize (namedBuffer level) (List.replicate 16 0)).bind fun nb => addValues nb [sampleList]

theorem encrypted_packet_refused : ∃ last final,
    namedPacket .encrypt = some last ∧ lccNetworkBufferFinalize (.repeating 1) last = some final ∧
      Receiver (namedBuffer .encrypt) (.repeating 1) (openOptions .encrypt) ∧
      lccNetworkParse (.repeating 1) (openOptions .encrypt) final.data = (-1, []) := by
  have done : (namedPacket .encrypt).any fun last => (lccNetworkBufferFinalize (.repeating 1) last).any fun final =>
      lccNetworkParse (.repeating 1) (openOptions .encrypt) final.data = (-1, []) := by decide +kernel
  obtain ⟨last, made, done⟩ := (any_eq_true _ _).mp done
  obtain ⟨final, finalized, refused⟩ := (any_eq_true _ _).mp done
  exact ⟨last, final, made, finalized, ⟨rfl, ⟨_, rfl, rfl⟩, by decide, fun _ _ => rfl⟩, of_decide_eq_true refused⟩

theorem lcc_network_secured_received_iff_signed : ∃ last,
    namedPacket .sign = some last ∧
      ∀ gc opts, Receiver (namedBuffer .sign) gc opts → ReceivedAs gc opts last [sampleList] := by
  have done : (namedPacket .sign).isSome := by decide +kernel
  obtain ⟨last, made⟩ := isSome_iff_exists.mp done
  obtain ⟨nb', initialized, added⟩ := bind_eq_some_iff.mp made
  refine ⟨last, made, ?_⟩
  apply (lcc_network_secured_received_iff _ nb' last _ _ (by decide) rfl initialized added).mpr
  exact ⟨.inl ⟨rfl, by decide⟩, List.forall_mem_singleton.mpr sampleList_transmittable⟩

end NCollectd.Network
