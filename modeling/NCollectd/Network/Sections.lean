import NCollectd.Network.Parse

namespace NCollectd.Network

open BigEndian List

def assemble (state : DeltaState) (b : Bytes) : List LccValueList :=
  match read : readPart b with
  | none => []
  | some part =>
    have := readPart_length read
    match PartType.ofCode part.type with
    | some .values =>
      match parseValues part.payload with
      | none => []
      | some values => { state with values } :: assemble state part.rest
    | some .signSha256 => []
    | some .encrAes256 => assemble state part.rest
    | some type =>
      match parseField type part.payload state with
      | none => []
      | some state => assemble state part.rest
    | none => []
termination_by b.length

/-- The hash is that of a user's name and the content, under the user's password. -/
def Signed (gc : Gcrypt) (opts : LccNetworkParseOptions) (signature content : Bytes) : Prop :=
  ∃ lookup username password, opts.passwordLookup = some lookup ∧ lookup (cText username) = some password ∧
    signature = gc.hmacSha256 password (cText username ++ content) ++ username

/-- Decrypted with the user's password, an encrypted part is the content behind its hash. -/
def Decrypted (gc : Gcrypt) (opts : LccNetworkParseOptions) (payload content : Bytes) : Prop :=
  ∃ lookup length username password iv body,
    opts.passwordLookup = some lookup ∧ lookup (cText username) = some password ∧
    payload = length ++ (username ++ (iv ++ body)) ∧ length.length = 2 ∧ username.length = beNat length ∧
    iv.length = 16 ∧ gc.decrypt (gc.sha256 password) iv body = gc.sha1 content ++ content

/-- The sections in bytes, at any depth, with their levels. -/
inductive Section (gc : Gcrypt) (opts : LccNetworkParseOptions) : Bytes → SecurityLevel → Bytes → Prop where
  | later (read : readPart b = some part) (behind : Section gc opts part.rest level content) :
      Section gc opts b level content
  | unverified (read : readPart b = some part) (sign : PartType.ofCode part.type = some .signSha256) :
      Section gc opts b .none part.rest
  | signed (read : readPart b = some part) (sign : PartType.ofCode part.type = some .signSha256)
      (verified : Signed gc opts part.payload part.rest) : Section gc opts b .sign part.rest
  | encrypted (read : readPart b = some part) (encr : PartType.ofCode part.type = some .encrAes256)
      (verified : Decrypted gc opts part.payload content) : Section gc opts b .encrypt content
  | nested (read : readPart b = some part) (encr : PartType.ofCode part.type = some .encrAes256)
      (verified : Decrypted gc opts part.payload enclosing) (within : Section gc opts enclosing level content) :
      Section gc opts b level content

theorem section_of_openSign (read : readPart b = some part) (sign : PartType.ofCode part.type = some .signSha256)
    (opened : openSignSha256 gc opts part.payload part.rest = .ok level) : Section gc opts b level part.rest := by
  cases level with
  | none => exact .unverified read sign
  | sign => exact .signed read sign (openSignSha256_eq_sign opened)
  | encrypt => exact absurd opened openSignSha256_ne_encrypt

/-- A value list of a section of sufficient level. -/
def Authorised (gc : Gcrypt) (opts : LccNetworkParseOptions) (b : Bytes) (vl : LccValueList) : Prop :=
  ∃ level content, Section gc opts b level content ∧ opts.securityLevel.rank ≤ level.rank ∧
    vl ∈ assemble .zero content

theorem Authorised.later (read : readPart b = some part) (known : Authorised gc opts part.rest vl) :
    Authorised gc opts b vl := by
  obtain ⟨level, content, within, enough, found⟩ := known
  exact ⟨level, content, .later read within, enough, found⟩

theorem Authorised.nested (read : readPart b = some part) (encr : PartType.ofCode part.type = some .encrAes256)
    (opened : openEncryptAes256 gc opts part.payload = .ok content) (known : Authorised gc opts content vl) :
    Authorised gc opts b vl := by
  obtain ⟨level, inner, within, enough, found⟩ := known
  exact ⟨level, inner, .nested read encr (openEncryptAes256_eq_ok opened) within, enough, found⟩

theorem assemble_values (read : readPart b = some part) (known : PartType.ofCode part.type = some .values)
    (parsed : parseValues part.payload = some values) :
    assemble state b = { state with values } :: assemble state part.rest := by
  rw [assemble]
  grind

theorem assemble_encr (read : readPart b = some part) (known : PartType.ofCode part.type = some .encrAes256) :
    assemble state b = assemble state part.rest := by
  rw [assemble]
  grind

theorem assemble_field (read : readPart b = some part) (known : PartType.ofCode part.type = some type)
    (plain : type ≠ .values ∧ type ≠ .signSha256 ∧ type ≠ .encrAes256)
    (parsed : parseField type part.payload state = some state') :
    assemble state b = assemble state' part.rest := by
  rw [assemble]
  grind

theorem networkParse_authorised (gc : Gcrypt) (opts : LccNetworkParseOptions) (sl : SecurityLevel)
    (state : DeltaState) (log : List LccValueList) (b : Bytes) (vl : LccValueList)
    (written : vl ∈ (networkParse gc opts sl state log b).2) :
    vl ∈ log ∨ (opts.securityLevel.rank ≤ sl.rank ∧ vl ∈ assemble state b) ∨ Authorised gc opts b vl := by
  fun_induction networkParse gc opts sl state log b with
  | case1 | case2 | case3 | case7 | case10 | case13 | case15 => exact .inl written
  | case4 sl state log b _ part read _ known values parsed made level =>
    rcases mem_append.mp written with earlier | last
    · exact .inl earlier
    · refine .inr (.inl ⟨level, ?_⟩)
      rw [assemble_values read known parsed, mem_singleton.mp last]
      exact mem_cons_self
  | case5 sl state log b _ part read _ known values parsed made level _ _ ih =>
    rcases ih written with earlier | plain | authorised
    · rcases mem_append.mp earlier with earlier | last
      · exact .inl earlier
      · refine .inr (.inl ⟨level, ?_⟩)
        rw [assemble_values read known parsed, mem_singleton.mp last]
        exact mem_cons_self
    · refine .inr (.inl ⟨level, ?_⟩)
      rw [assemble_values read known parsed]
      exact mem_cons_of_mem _ plain.2
    · exact .inr (.inr (authorised.later read))
  | case6 sl state log b _ part read _ known values parsed level ih =>
    rcases ih written with earlier | plain | authorised
    · exact .inl earlier
    · exact absurd plain.1 level
    · exact .inr (.inr (authorised.later read))
  | case8 sl state log b _ part read _ known level opened nested _ ih
  | case9 sl state log b _ part read _ known level opened nested _ ih =>
    rcases ih written with earlier | plain | authorised
    · exact .inl earlier
    · exact .inr (.inr ⟨level, part.rest, section_of_openSign read known opened, plain⟩)
    · exact .inr (.inr (authorised.later read))
  | case11 sl state log b _ part read _ known content opened _ nested _ ih =>
    rcases ih written with earlier | plain | authorised
    · exact .inl earlier
    · exact .inr (.inr ⟨.encrypt, content, .encrypted read known (openEncryptAes256_eq_ok opened), plain⟩)
    · exact .inr (.inr (authorised.nested read known opened))
  | case12 sl state log b _ part read _ known content opened _ nested _ ihInner ih =>
    rcases ih written with earlier | plain | authorised
    · rcases ihInner earlier with earlier | plain | authorised
      · exact .inl earlier
      · exact .inr (.inr ⟨.encrypt, content, .encrypted read known (openEncryptAes256_eq_ok opened), plain⟩)
      · exact .inr (.inr (authorised.nested read known opened))
    · rw [assemble_encr read known]
      exact .inr (.inl plain)
    · exact .inr (.inr (authorised.later read))
  | case14 sl state log b _ part read _ type values sign encr known state' parsed ih =>
    rcases ih written with earlier | plain | authorised
    · exact .inl earlier
    · rw [assemble_field read known ⟨values, sign, encr⟩ parsed]
      exact .inr (.inl plain)
    · exact .inr (.inr (authorised.later read))

/-- What reaches the writer comes from the content of a section with the level that is required. -/
theorem lcc_network_parse_no_escalation (gc : Gcrypt) (opts : LccNetworkParseOptions) (data : Bytes) :
    (opts.securityLevel = .sign → ∀ vl ∈ (lccNetworkParse gc opts data).2,
      ∃ content, (Section gc opts data .sign content ∨ Section gc opts data .encrypt content) ∧
        vl ∈ assemble .zero content) ∧
    (opts.securityLevel = .encrypt → ∀ vl ∈ (lccNetworkParse gc opts data).2,
      ∃ content, Section gc opts data .encrypt content ∧ vl ∈ assemble .zero content) := by
  have authorised : opts.securityLevel ≠ .none → ∀ vl ∈ (lccNetworkParse gc opts data).2,
      Authorised gc opts data vl := by
    intro secured vl written
    unfold lccNetworkParse at written
    split at written
    · exact absurd written not_mem_nil
    · rcases networkParse_authorised gc opts .none .zero [] data vl written with before | plain | authorised
      · exact absurd before not_mem_nil
      · cases required : opts.securityLevel <;> simp_all [SecurityLevel.rank]
      · exact authorised
  refine ⟨?_, ?_⟩
  · intro required vl written
    obtain ⟨level, content, within, enough, found⟩ := authorised (by rw [required]; decide) vl written
    rw [required] at enough
    cases level with
    | none => exact absurd enough (by decide)
    | sign => exact ⟨content, .inl within, found⟩
    | encrypt => exact ⟨content, .inr within, found⟩
  · intro required vl written
    obtain ⟨level, content, within, enough, found⟩ := authorised (by rw [required]; decide) vl written
    rw [required] at enough
    cases level with
    | none | sign => exact absurd enough (by decide)
    | encrypt => exact ⟨content, within, found⟩

def Gcrypt.repeating (byte : UInt8) : Gcrypt where
  initStatus := 0
  hmacSha256 _ _ := replicate 32 byte
  sha256 _ := replicate 32 byte
  sha1 _ := replicate 20 byte
  encrypt _ _ data := data
  decrypt _ _ data := data
  hmacSha256_length _ _ := length_replicate
  sha1_length _ := length_replicate
  encrypt_length _ _ _ := rfl
  decrypt_length _ _ _ := rfl
  decrypt_encrypt _ _ _ := rfl

def openOptions (level : SecurityLevel) : LccNetworkParseOptions := ⟨fun _ _ => 0, level, some fun _ => some []⟩

def signedPacket : Bytes :=
  partBytes (.name .host) [104, 0] ++ (partBytes .signSha256 (replicate 32 0) ++
    partBytes .values (valuesPayload [⟨typeCounter, 5⟩] [beBytes 8 5]))

theorem lcc_network_parse_no_escalation_signed :
    (lccNetworkParse (.repeating 0) (openOptions .sign) signedPacket).2 = [⟨.zero, [⟨typeCounter, 5⟩]⟩] ∧
      ∀ vl ∈ (lccNetworkParse (.repeating 0) (openOptions .sign) signedPacket).2,
        ∃ content, (Section (.repeating 0) (openOptions .sign) signedPacket .sign content ∨
          Section (.repeating 0) (openOptions .sign) signedPacket .encrypt content) ∧
          vl ∈ assemble .zero content :=
  ⟨by decide +kernel, (lcc_network_parse_no_escalation _ _ _).1 rfl⟩

end NCollectd.Network
