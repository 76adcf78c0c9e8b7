import MetricStore.Auth.Middleware
import MetricStore.Auth.UaaClient
import MetricStore.Rules.RuleGroup

/-!
# Reading a token

Model of `UAAClient.Read`, `loadOrFetchPublicKey`, `trimBearer` and `decodeToken`
(`pkg/auth/uaa_client.go`, lines 235–350), and of `Decode` of the vendored `jose2go`
(`jose.go`, lines 254–427), which splits a token, parses its header, asks a callback for
the key and verifies the signature.

The codecs (base64, JSON) and the cryptography are parameters.

Results:
* `read_sound_iff`: `Read` does not panic, and a context that it returns is that of a
  token with a valid RS256 signature under a known key, unless the header says RS256 and
  has no `kid` that is a string.
* `read_panics_without_kid`: a token without a `kid`.
-/

namespace MetricStore.Auth

open MetricStore.Common MetricStore.Influx MetricStore.Rules

/-! ## Decoding a token -/

/-- A value of a token's header, as far as a type assertion to `string` can tell. -/
inductive HeaderValue
  | string (s : Bytes)
  | other
  deriving DecidableEq, Repr

/-- The errors of `Decode` that `Read` tells apart (lines 219–233). -/
inductive DecodeError
  | algorithm (alg : Bytes)
  | unknownTokenKey (kid : Bytes)
  | other (text : Bytes)
  deriving DecidableEq, Repr

/-- `err.Error()`. -/
def DecodeError.text : DecodeError → Bytes
  | .algorithm alg => lit "unsupported algorithm: " ++ alg
  | .unknownTokenKey kid => lit "using unknown token key: " ++ kid
  | .other text => text

/-- What the callback does: it panics, or returns an error or a key. -/
inductive KeyResult (κ : Type)
  | panicked
  | failed (err : DecodeError)
  | key (publicKey : κ)

/-- What `Decode` does: it panics, or returns an error or the payload. -/
inductive Decoded
  | panicked
  | failed (err : DecodeError)
  | payload (text : Bytes)
  deriving DecidableEq

/-- What `jose2go` calls. `verify` returns the error of the verifier that the algorithm
    names, `decrypt` is the unwrapping of an encrypted token. -/
structure JoseLibrary (κ : Type) where
  base64Decode : Bytes → Except Bytes Bytes
  base64Encode : Bytes → Bytes
  unmarshalHeader : Bytes → Except Bytes (GoMap Bytes HeaderValue)
  verify : (alg secured signature : Bytes) → κ → Option Bytes
  decrypt : List Bytes → GoMap Bytes HeaderValue → κ → Except Bytes Bytes

/-- The registered signature algorithms. -/
def jwsHashers : List Bytes :=
  ["none", "HS256", "HS384", "HS512", "RS256", "RS384", "RS512", "PS256", "PS384", "PS512",
    "ES256", "ES384", "ES512"].map lit

/-- The registered key management algorithms. -/
def jwaAlgorithms : List Bytes :=
  ["dir", "RSA1_5", "RSA-OAEP", "RSA-OAEP-256", "A128KW", "A192KW", "A256KW", "A128GCMKW",
    "A192GCMKW", "A256GCMKW", "PBES2-HS256+A128KW", "PBES2-HS384+A192KW", "PBES2-HS512+A256KW",
    "ECDH-ES", "ECDH-ES+A128KW", "ECDH-ES+A192KW", "ECDH-ES+A256KW"].map lit

/-- The registered encryptions. -/
def jweEncryptors : List Bytes :=
  ["A128CBC-HS256", "A192CBC-HS384", "A256CBC-HS512", "A128GCM", "A192GCM", "A256GCM"].map lit

def rs256 : Bytes := lit "RS256"

def missingAlg : Bytes := lit "jwt.Decode(): required 'alg' header is missing or of invalid type"

def missingEnc : Bytes := lit "jwt.Decode(): required 'enc' header is missing or of invalid type"

namespace JoseLibrary

variable {κ σ : Type} (jose : JoseLibrary κ)

/-- `compact.Parse` (`compact/compact.go`, lines 10–22). -/
def parse (token : Bytes) : Except Bytes (List Bytes) :=
  (token.splitOn 46).mapM jose.base64Decode

/-- `compact.Serialize` of two parts. -/
def secured (header payload : Bytes) : Bytes :=
  jose.base64Encode header ++ 46 :: jose.base64Encode payload

variable (callback : GoMap Bytes HeaderValue → σ → σ × KeyResult κ)

/-- `verify` (`jose.go`, lines 320–349). The callback may change the state. -/
def verifyParts (header payload signature : Bytes) (s : σ) : σ × Decoded :=
  match jose.unmarshalHeader header with
  | .error err => (s, .failed (.other err))
  | .ok headers =>
    match headers.lookup (lit "alg") with
    | some (.string alg) =>
      if alg ∈ jwsHashers then
        match callback headers s with
        | (s, .panicked) => (s, .panicked)
        | (s, .failed err) => (s, .failed err)
        | (s, .key publicKey) =>
          match jose.verify alg (jose.secured header payload) signature publicKey with
          | none => (s, .payload payload)
          | some err => (s, .failed (.other err))
      else (s, .failed (.other (lit "jwt.Decode(): Unknown algorithm: '" ++ alg ++ lit "'")))
    | _ => (s, .failed (.other missingAlg))

/-- `decrypt` (`jose.go`, lines 351–410). -/
def decryptParts (header : Bytes) (rest : List Bytes) (s : σ) : σ × Decoded :=
  match jose.unmarshalHeader header with
  | .error err => (s, .failed (.other err))
  | .ok headers =>
    match headers.lookup (lit "alg") with
    | some (.string alg) =>
      match headers.lookup (lit "enc") with
      | some (.string enc) =>
        if alg ∈ jwaAlgorithms then
          if enc ∈ jweEncryptors then
            match callback headers s with
            | (s, .panicked) => (s, .panicked)
            | (s, .failed err) => (s, .failed err)
            | (s, .key publicKey) =>
              match jose.decrypt rest headers publicKey with
              | .ok plain => (s, .payload plain)
              | .error err => (s, .failed (.other err))
          else
            (s, .failed (.other (lit "jwt.decrypt(): Unknown encryption algorithm '" ++ enc
              ++ lit "'")))
        else
          (s, .failed (.other (lit "jwt.decrypt(): Unknown key management algorithm '" ++ alg
            ++ lit "'")))
      | _ => (s, .failed (.other missingEnc))
    | _ => (s, .failed (.other missingAlg))

/-- `Decode` (`jose.go`, lines 254–285). -/
def decode (token : Bytes) (s : σ) : σ × Decoded :=
  match jose.parse token with
  | .error err => (s, .failed (.other err))
  | .ok [header, payload, signature] => jose.verifyParts callback header payload signature s
  | .ok (header :: encryptedCek :: iv :: cipherText :: authTag :: []) =>
    jose.decryptParts callback header [encryptedCek, iv, cipherText, authTag] s
  | .ok parts =>
    (s, .failed (.other (lit "jwt.DecodeBytes() expects token of 3 or 5 parts, but was given: "
      ++ decimal parts.length ++ lit " parts")))

end JoseLibrary

/-! ## Reading a token -/

/-- `decodedToken` (lines 334–339) as the JSON decoder leaves it. -/
structure DecodedToken where
  scope : List Bytes
  exp : Float64

/-- `time.Unix(sec, 0)`, in nanoseconds since 1970. The seconds are kept since the year 1,
    in an `int64`. -/
def unixTime (sec : Int64) : ℤ := ((sec + 62135596800).toInt - 62135596800) * 1000000000

/-- `ExpTime` (line 347). -/
def DecodedToken.expTime (dt : DecodedToken) : ℤ := unixTime (truncFloat64 dt.exp)

/-- `Oauth2ClientContext` (`cf_auth_middleware.go`, lines 26–30). -/
structure ClientContext extends Oauth2ClientContext where
  expiresAt : ℤ
  deriving DecidableEq

/-- A space of the regular expression `\s`. -/
def isSpace (c : UInt8) : Bool := c ∈ [9, 10, 12, 13, 32]

def toLower (c : UInt8) : UInt8 := if 65 ≤ c ∧ c ≤ 90 then c + 32 else c

/-- `trimBearer` (lines 309–313): removes a match of `(?i)^bearer\s+`. -/
def trimBearer (authToken : Bytes) : Bytes :=
  let rest := authToken.drop 6
  if (authToken.take 6).map toLower = lit "bearer" ∧ (rest.head?.any isSpace) then
    rest.dropWhile isSpace
  else authToken

/-- The loop of lines 279–284. -/
def isAdminScope (scopes : List Bytes) : Bool :=
  scopes.foldl
    (fun isAdmin scope =>
      if scope = lit "doppler.firehose" ∨ scope = lit "logs.admin" then true else isAdmin)
    false

/-- What `Read` does: it panics, or returns an error or a context. -/
inductive ReadOutcome
  | panicked
  | failed (text : Bytes)
  | context (c : ClientContext)
  deriving DecidableEq

/-- The parameters of `Read` outside the client: the parsers of the keys, `jose2go`, the
    JSON decoder of the payload and the text of a time. -/
structure ReadLibrary (κ : Type) where
  keys : KeyLibrary κ
  jose : JoseLibrary κ
  decodeJSON : Bytes → Except Bytes DecodedToken
  timeString : ℤ → Bytes

namespace UAAClient

variable {κ : Type} (lib : ReadLibrary κ) (input : RefreshInput)

/-- `loadOrFetchPublicKey` (lines 293–307). -/
def loadOrFetchPublicKey (keyID : Bytes) (uaa : UAAClient κ) :
    UAAClient κ × Except DecodeError κ :=
  match uaa.publicKeys.lookup keyID with
  | some publicKey => (uaa, .ok publicKey)
  | none =>
    let uaa := (uaa.refreshTokenKeys lib.keys input).1
    match uaa.publicKeys.lookup keyID with
    | some publicKey => (uaa, .ok publicKey)
    | none => (uaa, .error (.unknownTokenKey keyID))

/-- The callback of `Read` (lines 240–253). The type assertions panic on a value that is
    not a string. -/
def keyCallback (headers : GoMap Bytes HeaderValue) (uaa : UAAClient κ) :
    UAAClient κ × KeyResult κ :=
  match headers.lookup (lit "alg") with
  | some (.string alg) =>
    if alg ≠ rs256 then (uaa, .failed (.algorithm alg))
    else
      match headers.lookup (lit "kid") with
      | some (.string keyID) =>
        match uaa.loadOrFetchPublicKey lib input keyID with
        | (uaa, .error err) => (uaa, .failed err)
        | (uaa, .ok publicKey) => (uaa, .key publicKey)
      | _ => (uaa, .panicked)
  | _ => (uaa, .panicked)

/-- What `Read` makes of a payload with a valid signature (lines 270–290). -/
def readPayload (token payload : Bytes) (now : ℤ) : ReadOutcome :=
  match lib.decodeJSON payload with
  | .error err =>
    .failed (lit "failed to unmarshal token: unable to decode json token from UAA: " ++ err)
  | .ok dt =>
    if dt.expTime < now then
      .failed (lit "token is expired, exp = " ++ lib.timeString dt.expTime)
    else .context ⟨⟨isAdminScope dt.scope, token⟩, dt.expTime⟩

/-- Whether `Read` starts a refresh of its own after an error (lines 255–265). -/
def startsRefresh : DecodeError → Bool
  | .algorithm _ => false
  | .unknownTokenKey _ => false
  | .other _ => true

/-- `Read` (lines 235–291): the client, whether a refresh is started, and the outcome.
    `input` is that of the refresh that `loadOrFetchPublicKey` may make, `now` the clock at
    line 275. -/
def read (token : Bytes) (now : ℤ) (uaa : UAAClient κ) : UAAClient κ × Bool × ReadOutcome :=
  if token = [] then (uaa, false, .failed (lit "missing token"))
  else
    match lib.jose.decode (keyCallback lib input) (trimBearer token) uaa with
    | (uaa, .panicked) => (uaa, false, .panicked)
    | (uaa, .failed err) =>
      (uaa, startsRefresh err, .failed (lit "failed to decode token: " ++ err.text))
    | (uaa, .payload payload) => (uaa, false, readPayload lib token payload now)

end UAAClient

/-! ## Specification -/

section Specification

variable {κ : Type} (lib : ReadLibrary κ)

/-- A signed token whose header unmarshals and names RS256. -/
structure SignedRS256 (token header payload signature : Bytes)
    (headers : GoMap Bytes HeaderValue) : Prop where
  parts : lib.jose.parse (trimBearer token) = .ok [header, payload, signature]
  unmarshals : lib.jose.unmarshalHeader header = .ok headers
  alg : headers.lookup (lit "alg") = some (.string rs256)

/-- The key of an id after at most one refresh. -/
def KnownKey (input : RefreshInput) (uaa : UAAClient κ) (kid : Bytes) (publicKey : κ) : Prop :=
  uaa.publicKeys.lookup kid = some publicKey ∨
    (uaa.publicKeys.lookup kid = none ∧
      (uaa.refreshTokenKeys lib.keys input).1.publicKeys.lookup kid = some publicKey)

/-- What the context of a token stands for: an RS256 signature that verifies under a known
    key, an expiry that is not before `now`, and the scopes of an administrator. -/
def Verified (input : RefreshInput) (uaa : UAAClient κ) (token : Bytes) (now : ℤ)
    (c : ClientContext) : Prop :=
  ∃ header payload signature headers kid publicKey dt,
    SignedRS256 lib token header payload signature headers ∧
      headers.lookup (lit "kid") = some (.string kid) ∧
      KnownKey lib input uaa kid publicKey ∧
      lib.jose.verify rs256 (lib.jose.secured header payload) signature publicKey = none ∧
      lib.decodeJSON payload = .ok dt ∧ c.expiresAt = dt.expTime ∧ now ≤ dt.expTime ∧
      (c.isAdmin = true ↔ lit "doppler.firehose" ∈ dt.scope ∨ lit "logs.admin" ∈ dt.scope) ∧
      c.token = token

/-- No RS256 header without a key id that is a string. -/
def HasKid (token : Bytes) : Prop :=
  ∀ header payload signature headers, SignedRS256 lib token header payload signature headers →
    ∃ kid, headers.lookup (lit "kid") = some (.string kid)

end Specification

/-! ## The callback -/

section Callback

variable {κ : Type} (lib : ReadLibrary κ) (input : RefreshInput)
  {headers : GoMap Bytes HeaderValue}

theorem rs256_mem_jwsHashers : rs256 ∈ jwsHashers := by decide

theorem rs256_not_mem_jwaAlgorithms : rs256 ∉ jwaAlgorithms := by decide

theorem keyCallback_of_ne {alg : Bytes} (halg : headers.lookup (lit "alg") = some (.string alg))
    (hne : alg ≠ rs256) (uaa : UAAClient κ) :
    UAAClient.keyCallback lib input headers uaa = (uaa, .failed (.algorithm alg)) := by
  simp only [UAAClient.keyCallback, halg, ne_eq, hne, not_false_eq_true, if_true]

/-- With RS256 the callback panics exactly without a string as key id. -/
theorem keyCallback_panicked_iff (halg : headers.lookup (lit "alg") = some (.string rs256))
    (uaa : UAAClient κ) :
    (UAAClient.keyCallback lib input headers uaa).2 = .panicked ↔
      ¬ ∃ kid, headers.lookup (lit "kid") = some (.string kid) := by
  simp only [UAAClient.keyCallback, halg, ne_eq, not_true_eq_false, if_false]
  rcases hkid : headers.lookup (lit "kid") with - | (kid | -)
  · simp
  · simp only [Option.some.injEq, HeaderValue.string.injEq, exists_eq', not_true_eq_false,
      iff_false]
    rcases uaa.loadOrFetchPublicKey lib input kid with ⟨uaa', err | publicKey⟩ <;> simp
  · simp

theorem loadOrFetchPublicKey_ok {kid : Bytes} {uaa : UAAClient κ} {publicKey : κ}
    (h : (uaa.loadOrFetchPublicKey lib input kid).2 = .ok publicKey) :
    KnownKey lib input uaa kid publicKey := by
  rw [UAAClient.loadOrFetchPublicKey] at h
  cases hcached : uaa.publicKeys.lookup kid with
  | some key =>
    simp only [hcached, Except.ok.injEq] at h
    subst h
    exact Or.inl hcached
  | none =>
    simp only [hcached] at h
    cases hfetched : (uaa.refreshTokenKeys lib.keys input).1.publicKeys.lookup kid with
    | some key =>
      simp only [hfetched, Except.ok.injEq] at h
      subst h
      exact Or.inr ⟨hcached, hfetched⟩
    | none => simp [hfetched] at h

/-- A key that the callback returns is a known one, for a header that names RS256. -/
theorem keyCallback_key {alg : Bytes} {uaa : UAAClient κ} {publicKey : κ}
    (halg : headers.lookup (lit "alg") = some (.string alg))
    (h : (UAAClient.keyCallback lib input headers uaa).2 = .key publicKey) :
    alg = rs256 ∧ ∃ kid, headers.lookup (lit "kid") = some (.string kid) ∧
      KnownKey lib input uaa kid publicKey := by
  by_cases hne : alg = rs256
  · subst hne
    refine ⟨rfl, ?_⟩
    have hkid : ∃ kid, headers.lookup (lit "kid") = some (.string kid) := by
      by_contra hkid
      rw [(keyCallback_panicked_iff lib input halg uaa).2 hkid] at h
      cases h
    obtain ⟨kid, hkid⟩ := hkid
    refine ⟨kid, hkid, loadOrFetchPublicKey_ok lib input ?_⟩
    simp only [UAAClient.keyCallback, halg, hkid, ne_eq, not_true_eq_false, if_false] at h
    revert h
    rcases uaa.loadOrFetchPublicKey lib input kid with ⟨uaa', err | key⟩ <;> simp
  · rw [keyCallback_of_ne lib input halg hne] at h
    cases h

end Callback

/-! ## Decoding with the callback -/

section Decoding

variable {κ : Type} (lib : ReadLibrary κ) (input : RefreshInput) (uaa : UAAClient κ)

/-- An encrypted token has no RS256 header, so that the callback refuses it. -/
theorem decryptParts_failed (header : Bytes) (rest : List Bytes) :
    ∃ err, (lib.jose.decryptParts (UAAClient.keyCallback lib input) header rest uaa).2 =
      .failed err := by
  rw [JoseLibrary.decryptParts]
  cases lib.jose.unmarshalHeader header with
  | error err => exact ⟨_, rfl⟩
  | ok headers =>
    rcases halg : headers.lookup (lit "alg") with - | (alg | -)
    · simp [halg]
    · rcases henc : headers.lookup (lit "enc") with - | (enc | -)
      · simp [halg, henc]
      · simp only [halg, henc]
        by_cases hjwa : alg ∈ jwaAlgorithms
        · have hne : alg ≠ rs256 := by
            rintro rfl
            exact rs256_not_mem_jwaAlgorithms hjwa
          rw [if_pos hjwa, keyCallback_of_ne lib input halg hne]
          split_ifs
          · exact ⟨_, rfl⟩
          · exact ⟨_, rfl⟩
        · rw [if_neg hjwa]
          exact ⟨_, rfl⟩
      · simp [halg, henc]
    · simp [halg]

/-- When `verify` panics: an RS256 header without a key id. -/
theorem verifyParts_panicked_iff (header payload signature : Bytes) :
    (lib.jose.verifyParts (UAAClient.keyCallback lib input) header payload signature uaa).2 =
        .panicked ↔
      ∃ headers, lib.jose.unmarshalHeader header = .ok headers ∧
        headers.lookup (lit "alg") = some (.string rs256) ∧
        ¬ ∃ kid, headers.lookup (lit "kid") = some (.string kid) := by
  rw [JoseLibrary.verifyParts]
  cases hh : lib.jose.unmarshalHeader header with
  | error err => simp
  | ok headers =>
    simp only [Except.ok.injEq, exists_eq_left']
    rcases halg : headers.lookup (lit "alg") with - | (alg | -)
    · simp
    · simp only [Option.some.injEq, HeaderValue.string.injEq]
      by_cases hne : alg = rs256
      · subst hne
        simp only [if_pos rs256_mem_jwsHashers, true_and]
        rw [← keyCallback_panicked_iff lib input halg uaa]
        rcases UAAClient.keyCallback lib input headers uaa with ⟨uaa', - | err | key⟩
        · simp
        · simp
        · cases hv : lib.jose.verify rs256 (lib.jose.secured header payload) signature key <;>
            simp [hv]
      · rw [keyCallback_of_ne lib input halg hne]
        by_cases hjws : alg ∈ jwsHashers <;> simp [hjws, hne]
    · simp

/-- When `verify` returns a payload: it is that of the token, and the signature verifies
    under a known key. -/
theorem verifyParts_payload {header payload signature text : Bytes}
    (h : (lib.jose.verifyParts (UAAClient.keyCallback lib input) header payload signature uaa).2 =
      .payload text) :
    text = payload ∧ ∃ headers kid publicKey, lib.jose.unmarshalHeader header = .ok headers ∧
      headers.lookup (lit "alg") = some (.string rs256) ∧
      headers.lookup (lit "kid") = some (.string kid) ∧
      KnownKey lib input uaa kid publicKey ∧
      lib.jose.verify rs256 (lib.jose.secured header payload) signature publicKey = none := by
  rw [JoseLibrary.verifyParts] at h
  cases hh : lib.jose.unmarshalHeader header with
  | error err => simp [hh] at h
  | ok headers =>
    simp only [hh] at h
    rcases halg : headers.lookup (lit "alg") with - | (alg | -)
    · simp [halg] at h
    · simp only [halg] at h
      by_cases hjws : alg ∈ jwsHashers
      · rw [if_pos hjws] at h
        rcases hcb : UAAClient.keyCallback lib input headers uaa with ⟨uaa', - | err | key⟩
        · simp [hcb] at h
        · simp [hcb] at h
        · obtain ⟨rfl, kid, hkid, hknown⟩ := keyCallback_key lib input halg (congrArg Prod.snd hcb)
          cases hv : lib.jose.verify rs256 (lib.jose.secured header payload) signature key with
          | some err => simp [hcb, hv] at h
          | none =>
            simp only [hcb, hv, Decoded.payload.injEq] at h
            exact ⟨h.symm, headers, kid, key, rfl, halg, hkid, hknown, hv⟩
      · simp [hjws] at h
    · simp [halg] at h

/-- `Decode` panics exactly on a signed RS256 token without a key id. -/
theorem decode_panicked_iff (token : Bytes) :
    (lib.jose.decode (UAAClient.keyCallback lib input) (trimBearer token) uaa).2 = .panicked ↔
      ¬ HasKid lib token := by
  rw [JoseLibrary.decode]
  constructor
  · intro h hkid
    split at h
    · cases h
    · rename_i header payload signature hparts
      obtain ⟨headers, hheaders, halg, hnone⟩ :=
        (verifyParts_panicked_iff lib input uaa header payload signature).1 h
      exact hnone (hkid header payload signature headers ⟨hparts, hheaders, halg⟩)
    · obtain ⟨err, herr⟩ := decryptParts_failed lib input uaa _ _
      rw [herr] at h
      cases h
    · cases h
  · intro h
    simp only [HasKid, not_forall] at h
    obtain ⟨header, payload, signature, headers, hsigned, hnone⟩ := h
    rw [hsigned.parts]
    exact (verifyParts_panicked_iff lib input uaa header payload signature).2
      ⟨headers, hsigned.unmarshals, hsigned.alg, hnone⟩

/-- A payload that `Decode` returns is that of a signed RS256 token. -/
theorem decode_payload {token text : Bytes}
    (h : (lib.jose.decode (UAAClient.keyCallback lib input) (trimBearer token) uaa).2 =
      .payload text) :
    ∃ header signature headers kid publicKey,
      SignedRS256 lib token header text signature headers ∧
      headers.lookup (lit "kid") = some (.string kid) ∧
      KnownKey lib input uaa kid publicKey ∧
      lib.jose.verify rs256 (lib.jose.secured header text) signature publicKey = none := by
  rw [JoseLibrary.decode] at h
  split at h
  · cases h
  · rename_i header payload signature hparts
    obtain ⟨rfl, headers, kid, publicKey, hheaders, halg, hkid, hknown, hverify⟩ :=
      verifyParts_payload lib input uaa h
    exact ⟨header, signature, headers, kid, publicKey, ⟨hparts, hheaders, halg⟩, hkid, hknown,
      hverify⟩
  · obtain ⟨err, herr⟩ := decryptParts_failed lib input uaa _ _
    rw [herr] at h
    cases h
  · cases h

end Decoding

/-! ## Reading -/

section Reading

variable {κ : Type} (lib : ReadLibrary κ) (input : RefreshInput) (uaa : UAAClient κ)

theorem isAdminScope_eq_true (scopes : List Bytes) :
    isAdminScope scopes = true ↔ lit "doppler.firehose" ∈ scopes ∨ lit "logs.admin" ∈ scopes := by
  have hloop : ∀ (scopes : List Bytes) (isAdmin : Bool),
      scopes.foldl (fun isAdmin scope =>
        if scope = lit "doppler.firehose" ∨ scope = lit "logs.admin" then true else isAdmin)
        isAdmin = true ↔
      isAdmin = true ∨ lit "doppler.firehose" ∈ scopes ∨ lit "logs.admin" ∈ scopes := by
    intro scopes
    induction scopes with
    | nil => simp
    | cons scope scopes ih =>
      intro isAdmin
      rw [List.foldl_cons, ih, List.mem_cons, List.mem_cons, eq_comm (b := scope),
        eq_comm (b := scope)]
      split_ifs with h
      · simp only [true_or, true_iff]
        tauto
      · tauto
  rw [isAdminScope, hloop]
  simp

theorem readPayload_ne_panicked (token payload : Bytes) (now : ℤ) :
    UAAClient.readPayload lib token payload now ≠ .panicked := by
  rw [UAAClient.readPayload]
  cases lib.decodeJSON payload with
  | error err => simp
  | ok dt => by_cases h : dt.expTime < now <;> simp [h]

theorem readPayload_context {token payload : Bytes} {now : ℤ} {c : ClientContext}
    (h : UAAClient.readPayload lib token payload now = .context c) :
    ∃ dt, lib.decodeJSON payload = .ok dt ∧ now ≤ dt.expTime ∧
      c = ⟨⟨isAdminScope dt.scope, token⟩, dt.expTime⟩ := by
  rw [UAAClient.readPayload] at h
  cases hdt : lib.decodeJSON payload with
  | error err => simp [hdt] at h
  | ok dt =>
    simp only [hdt] at h
    by_cases hexp : dt.expTime < now
    · simp [hexp] at h
    · rw [if_neg hexp, ReadOutcome.context.injEq] at h
      exact ⟨dt, rfl, by omega, h.symm⟩

/-- The empty token has one part and is refused before it is decoded. -/
theorem hasKid_nil : HasKid lib [] := by
  intro header payload signature headers h
  have hparts := h.parts
  have htrim : (trimBearer []).splitOn 46 = [[]] := by decide
  rw [JoseLibrary.parse, htrim] at hparts
  cases hd : lib.jose.base64Decode [] <;> simp [hd, bind, Except.bind, pure, Except.pure] at hparts

theorem read_panicked_iff (token : Bytes) (now : ℤ) :
    (uaa.read lib input token now).2.2 = .panicked ↔ ¬ HasKid lib token := by
  rw [UAAClient.read]
  split_ifs with hempty
  · subst hempty
    simp [hasKid_nil]
  · rw [← decode_panicked_iff lib input uaa]
    rcases lib.jose.decode (UAAClient.keyCallback lib input) (trimBearer token) uaa with
      ⟨uaa', - | err | payload⟩
    · simp
    · simp
    · simp [readPayload_ne_panicked]

theorem read_context {token : Bytes} {now : ℤ} {c : ClientContext}
    (h : (uaa.read lib input token now).2.2 = .context c) :
    Verified lib input uaa token now c := by
  rw [UAAClient.read] at h
  split_ifs at h with hempty
  rcases hd : lib.jose.decode (UAAClient.keyCallback lib input) (trimBearer token) uaa with
    ⟨uaa', - | err | payload⟩
  · simp [hd] at h
  · simp [hd] at h
  · simp only [hd] at h
    obtain ⟨header, signature, headers, kid, publicKey, hsigned, hkid, hknown, hverify⟩ :=
      decode_payload lib input uaa (congrArg Prod.snd hd)
    obtain ⟨dt, hdt, hexp, rfl⟩ := readPayload_context lib h
    exact ⟨header, payload, signature, headers, kid, publicKey, dt, hsigned, hkid, hknown, hverify,
      hdt, rfl, hexp, isAdminScope_eq_true dt.scope, rfl⟩

end Reading

/-- Reading a token is safe and sound exactly for the tokens whose header, if it names
    RS256, has a string as key id. -/
theorem read_sound_iff {κ : Type} (lib : ReadLibrary κ) (input : RefreshInput)
    (uaa : UAAClient κ) (token : Bytes) (now : ℤ) :
    ((uaa.read lib input token now).2.2 ≠ .panicked ∧
        ∀ c, (uaa.read lib input token now).2.2 = .context c →
          Verified lib input uaa token now c) ↔
      HasKid lib token := by
  rw [ne_eq, read_panicked_iff, not_not]
  exact and_iff_left fun c h => read_context lib input uaa h

/-! ## A token without a key id -/

/-- Codecs under which a token's parts are themselves, and every header has `alg` RS256 and
    nothing else. -/
def sampleReadLibrary : ReadLibrary Bytes where
  keys := sampleKeyLibrary
  jose :=
    { base64Decode := fun data => .ok data
      base64Encode := fun data => data
      unmarshalHeader := fun _ => .ok (GoMap.ofPairs [(lit "alg", .string rs256)])
      verify := fun _ _ _ _ => none
      decrypt := fun _ _ _ => .error (lit "no encryption") }
  decodeJSON _ := .ok ⟨[], 0⟩
  timeString _ := []

theorem read_panics_without_kid :
    (sampleUaa.read sampleReadLibrary sampleRefresh (lit "bearer h.p.s") 0).2.2 = .panicked := by
  decide

end MetricStore.Auth
