import MetricStore.Common.Bytes
import MetricStore.Common.GoMap

/-!
# The token keys of UAA

Model of `UAAClient.RefreshTokenKeys` (`pkg/auth/uaa_client.go`, lines 144–217), with
`doRequest` (lines 130–142) and `unmarshalTokenKeys` (lines 325–332), as one call
without others beside it. A refresh asks UAA for its keys, parses them one after the
other and stores each under its id; the ids that the response did not name are deleted
at the end.

The parsers of the standard library (JSON, PEM, PKIX) are parameters. The request to
UAA can be built; its outcome is an input.

Results:
* `refresh_replaces_iff`: a refresh leaves the keys of the response, or an error and the
  cached keys, unless a key that does not parse comes after one that changes the cache.
* `refresh_keeps_half`: a response with a new key and an invalid one after it.
-/

namespace MetricStore.Auth

open MetricStore.Common

/-! ## Model -/

/-- `tokenKey` (lines 316–319). -/
structure TokenKey where
  keyID : Bytes
  value : Bytes
  deriving DecidableEq, Repr

/-- What `x509.ParsePKIXPublicKey` returns: an `*rsa.PublicKey` or a key of another
    kind. -/
inductive PublicKey (κ : Type)
  | rsa (key : κ)
  | other

/-- The parsers: `pem.Decode` gives the bytes of the first block, if there is one. -/
structure KeyLibrary (κ : Type) where
  unmarshal : Bytes → Except Bytes (List TokenKey)
  pemDecode : Bytes → Option Bytes
  parsePKIXPublicKey : Bytes → Except Bytes (PublicKey κ)

/-- What the HTTP client returns: an error, or a status with what reading the body
    gives. -/
inductive HttpResult
  | error (err : Bytes)
  | response (statusCode : ℕ) (body : Except Bytes Bytes)

/-- `doRequest` (lines 130–142). -/
def doRequest : HttpResult → Except Bytes Bytes
  | .error err => .error err
  | .response statusCode body =>
    if statusCode ≠ 200 then .error (lit "unexpected response code " ++ decimal statusCode)
    else body

namespace KeyLibrary

variable {κ : Type} (lib : KeyLibrary κ)

/-- `unmarshalTokenKeys` (lines 325–332). -/
def unmarshalTokenKeys (r : Bytes) : Except Bytes (List TokenKey) :=
  match lib.unmarshal r with
  | .error err => .error (lit "unable to decode json token keys from UAA: " ++ err)
  | .ok keys => .ok keys

/-- The keys of a response, or the error with which the refresh ends (lines 171–179). -/
def responseKeys (result : HttpResult) : Except Bytes (List TokenKey) :=
  match doRequest result with
  | .error err => .error err
  | .ok resp => lib.unmarshalTokenKeys resp

/-- The checks of one token key (lines 189–206). The last text formats `err`, which is
    nil there. -/
def parseTokenKey (tokenKey : TokenKey) : Except Bytes κ :=
  if tokenKey.value = [] then .error (lit "received an empty token key from UAA")
  else
    match lib.pemDecode tokenKey.value with
    | none => .error (lit "failed to parse PEM block containing the public key")
    | some block =>
      match lib.parsePKIXPublicKey block with
      | .error err => .error (lit "error parsing public key: " ++ err)
      | .ok .other => .error (lit "did not get a valid RSA key from UAA: %!s(<nil>)")
      | .ok (.rsa publicKey) => .ok publicKey

/-- The loop over the token keys (lines 188–210): the stored keys, the ids still to be
    pruned and the error. -/
def storeTokenKeys : List TokenKey → GoMap Bytes κ → GoMap Bytes Unit →
    GoMap Bytes κ × GoMap Bytes Unit × Option Bytes
  | [], publicKeys, currentKeyIds => (publicKeys, currentKeyIds, none)
  | tokenKey :: tokenKeys, publicKeys, currentKeyIds =>
    match lib.parseTokenKey tokenKey with
    | .error err => (publicKeys, currentKeyIds, some err)
    | .ok publicKey =>
      storeTokenKeys tokenKeys (publicKeys.insert tokenKey.keyID publicKey)
        (currentKeyIds.erase tokenKey.keyID)

/-- The part of `RefreshTokenKeys` after the throttle (lines 166–217): the stored keys
    and the error. -/
def replaceTokenKeys (result : HttpResult) (publicKeys : GoMap Bytes κ) :
    GoMap Bytes κ × Option Bytes :=
  match lib.responseKeys result with
  | .error err => (publicKeys, some err)
  | .ok tokenKeys =>
    let currentKeyIds := GoMap.ofPairs (publicKeys.keys.map fun keyId => (keyId, ()))
    match lib.storeTokenKeys tokenKeys publicKeys currentKeyIds with
    | (publicKeys, _, some err) => (publicKeys, some err)
    | (publicKeys, currentKeyIds, none) => (publicKeys.eraseAll currentKeyIds.keys, none)

end KeyLibrary

/-- `UAAClient` (lines 26–36), without what it takes to reach UAA. Times are in
    nanoseconds since 1970. -/
structure UAAClient (κ : Type) where
  publicKeys : GoMap Bytes κ
  minimumRefreshInterval : ℤ
  lastQueryTime : ℤ

/-- The inputs of one refresh: the two readings of the clock (lines 147 and 155) and what
    the request returns. -/
structure RefreshInput where
  checked : ℤ
  recorded : ℤ
  result : HttpResult

namespace UAAClient

variable {κ : Type} (lib : KeyLibrary κ)

/-- The check of line 147. -/
def throttled (uaa : UAAClient κ) (now : ℤ) : Prop :=
  now < uaa.lastQueryTime + uaa.minimumRefreshInterval

instance (uaa : UAAClient κ) (now : ℤ) : Decidable (uaa.throttled now) :=
  inferInstanceAs (Decidable (_ < _))

/-- `RefreshTokenKeys` (lines 144–217). Nothing changes `lastQueryTime` between the load
    and the swap, which therefore succeeds. -/
def refreshTokenKeys (uaa : UAAClient κ) (input : RefreshInput) : UAAClient κ × Option Bytes :=
  if uaa.throttled input.checked then (uaa, none)
  else
    let replaced := lib.replaceTokenKeys input.result uaa.publicKeys
    ({ uaa with publicKeys := replaced.1, lastQueryTime := input.recorded }, replaced.2)

end UAAClient

/-! ## Specification -/

section Specification

variable {κ : Type} (lib : KeyLibrary κ)

/-- The key that a response gives an id: that of the last entry with the id. -/
def publishedKey (tokenKeys : List TokenKey) (id : Bytes) : Option κ :=
  (tokenKeys.filter fun t => t.keyID = id).getLast?.bind fun t => (lib.parseTokenKey t).toOption

/-- The keys before the first one that does not parse, under their ids. -/
def validKeys : List TokenKey → List (Bytes × κ)
  | [] => []
  | tokenKey :: tokenKeys =>
    match lib.parseTokenKey tokenKey with
    | .error _ => []
    | .ok publicKey => (tokenKey.keyID, publicKey) :: validKeys tokenKeys

/-- Replaced as a whole: no error and exactly the keys of the response, or an error and
    the keys there were. -/
def ReplacedAsWhole (result : HttpResult) (before after : GoMap Bytes κ) (err : Option Bytes) :
    Prop :=
  (err = none ∧ ∃ tokenKeys, lib.responseKeys result = .ok tokenKeys ∧
      ∀ id, after.lookup id = publishedKey lib tokenKeys id) ∨
    (err ≠ none ∧ ∀ id, after.lookup id = before.lookup id)

/-- A response of which either every key parses or the keys before the first invalid one
    are, the last of each id, those of the cache. -/
def NoHalfUpdate (result : HttpResult) (publicKeys : GoMap Bytes κ) : Prop :=
  ∀ tokenKeys, lib.responseKeys result = .ok tokenKeys →
    (∀ t ∈ tokenKeys, (lib.parseTokenKey t).isOk) ∨
      ∀ id key, ((validKeys lib tokenKeys).filter fun e => e.1 = id).getLast? = some (id, key) →
        publicKeys.lookup id = some key

end Specification

/-! ## The loop over the keys -/

section Loop

variable {κ : Type} (lib : KeyLibrary κ)

/-- The error of the first key that does not parse. -/
def firstError (tokenKeys : List TokenKey) : Option Bytes :=
  tokenKeys.findSome? fun t =>
    match lib.parseTokenKey t with
    | .error err => some err
    | .ok _ => none

theorem storeTokenKeys_eq : ∀ (tokenKeys : List TokenKey) (publicKeys : GoMap Bytes κ)
    (currentKeyIds : GoMap Bytes Unit),
    lib.storeTokenKeys tokenKeys publicKeys currentKeyIds =
      (publicKeys.insertAll (validKeys lib tokenKeys),
        currentKeyIds.eraseAll ((validKeys lib tokenKeys).map Prod.fst),
        firstError lib tokenKeys) := by
  intro tokenKeys
  induction tokenKeys with
  | nil =>
    intro publicKeys currentKeyIds
    rfl
  | cons t tokenKeys ih =>
    intro publicKeys currentKeyIds
    rw [KeyLibrary.storeTokenKeys, validKeys, firstError, List.findSome?_cons]
    cases lib.parseTokenKey t with
    | error err => rfl
    | ok publicKey => exact ih _ _

theorem firstError_eq_none_iff (tokenKeys : List TokenKey) :
    firstError lib tokenKeys = none ↔ ∀ t ∈ tokenKeys, (lib.parseTokenKey t).isOk := by
  rw [firstError, List.findSome?_eq_none_iff]
  refine forall₂_congr fun t _ => ?_
  cases lib.parseTokenKey t <;> simp [Except.isOk, Except.toBool]

/-- If every key parses, the stored key of an id is the published one. -/
theorem getLast?_validKeys {tokenKeys : List TokenKey}
    (h : ∀ t ∈ tokenKeys, (lib.parseTokenKey t).isOk) (id : Bytes) :
    ((validKeys lib tokenKeys).filter fun e => e.1 = id).getLast?.map Prod.snd =
      publishedKey lib tokenKeys id := by
  have hmap : ∀ tokenKeys : List TokenKey, (∀ t ∈ tokenKeys, (lib.parseTokenKey t).isOk) →
      ((validKeys lib tokenKeys).filter fun e => e.1 = id).map (fun e => some e.2) =
        (tokenKeys.filter fun t => t.keyID = id).map
          (fun t => (lib.parseTokenKey t).toOption) := by
    intro tokenKeys
    induction tokenKeys with
    | nil => intro _; rfl
    | cons t tokenKeys ih =>
      intro h
      have htail := ih fun t ht => h t (List.mem_cons_of_mem _ ht)
      have hhead := h t List.mem_cons_self
      rw [validKeys]
      cases hp : lib.parseTokenKey t with
      | error err => simp [hp, Except.isOk, Except.toBool] at hhead
      | ok publicKey =>
        by_cases hid : t.keyID = id
        · simp [hid, hp, htail, Except.toOption]
        · simp [hid, htail]
  have hlast := congrArg List.getLast? (hmap tokenKeys h)
  rw [List.getLast?_map, List.getLast?_map] at hlast
  rw [publishedKey]
  revert hlast
  cases ((validKeys lib tokenKeys).filter fun e => e.1 = id).getLast? <;>
    cases (tokenKeys.filter fun t => t.keyID = id).getLast? <;> simp

end Loop

/-! ## A refresh -/

section Refresh

variable {κ : Type} (lib : KeyLibrary κ) {result : HttpResult} {tokenKeys : List TokenKey}

theorem replaceTokenKeys_of_error {err : Bytes} (h : lib.responseKeys result = .error err)
    (publicKeys : GoMap Bytes κ) :
    lib.replaceTokenKeys result publicKeys = (publicKeys, some err) := by
  rw [KeyLibrary.replaceTokenKeys, h]

/-- With an invalid key, what the keys before it stored stays. -/
theorem replaceTokenKeys_of_invalid {err : Bytes} (h : lib.responseKeys result = .ok tokenKeys)
    (herr : firstError lib tokenKeys = some err) (publicKeys : GoMap Bytes κ) :
    lib.replaceTokenKeys result publicKeys =
      (publicKeys.insertAll (validKeys lib tokenKeys), some err) := by
  simp only [KeyLibrary.replaceTokenKeys, h, storeTokenKeys_eq, herr]

theorem replaceTokenKeys_of_valid (h : lib.responseKeys result = .ok tokenKeys)
    (hvalid : firstError lib tokenKeys = none) (publicKeys : GoMap Bytes κ) :
    lib.replaceTokenKeys result publicKeys =
      ((publicKeys.insertAll (validKeys lib tokenKeys)).eraseAll
        ((GoMap.ofPairs (publicKeys.keys.map fun keyId => (keyId, ()))).eraseAll
          ((validKeys lib tokenKeys).map Prod.fst)).keys, none) := by
  simp only [KeyLibrary.replaceTokenKeys, h, storeTokenKeys_eq, hvalid]

/-- The ids left to be pruned: those of the cache that the loop has not stored. -/
theorem mem_pruned {publicKeys : GoMap Bytes κ} {ids : List Bytes} {id : Bytes} :
    id ∈ ((GoMap.ofPairs (publicKeys.keys.map fun keyId => (keyId, ()))).eraseAll ids).keys ↔
      id ∈ publicKeys.keys ∧ id ∉ ids := by
  rw [← AList.mem_keys, ← AList.lookup_isSome, GoMap.lookup_eraseAll]
  by_cases hid : id ∈ ids
  · simp [hid]
  · rw [if_neg hid, AList.lookup_isSome, GoMap.mem_ofPairs]
    simp [hid]

/-- With valid keys only, an id holds what the response gives it. -/
theorem lookup_replaceTokenKeys (h : lib.responseKeys result = .ok tokenKeys)
    (hvalid : firstError lib tokenKeys = none) (publicKeys : GoMap Bytes κ) (id : Bytes) :
    (lib.replaceTokenKeys result publicKeys).1.lookup id = publishedKey lib tokenKeys id := by
  have hlast := getLast?_validKeys lib ((firstError_eq_none_iff lib tokenKeys).1 hvalid) id
  rw [replaceTokenKeys_of_valid lib h hvalid, GoMap.lookup_eraseAll, GoMap.lookup_insertAll,
    ← hlast]
  cases hl : ((validKeys lib tokenKeys).filter fun e => e.1 = id).getLast? with
  | none =>
    -- the response does not name the id: it is pruned if the cache had it
    by_cases hid : id ∈ publicKeys.keys
    · have hnot : id ∉ (validKeys lib tokenKeys).map Prod.fst := by
        rw [List.getLast?_eq_none_iff, List.filter_eq_nil_iff] at hl
        intro hmem
        obtain ⟨e, he, rfl⟩ := List.mem_map.1 hmem
        exact hl e he (decide_eq_true rfl)
      rw [if_pos (mem_pruned.2 ⟨hid, hnot⟩)]
      rfl
    · have hnone : publicKeys.lookup id = none := AList.lookup_eq_none.2 hid
      rw [if_neg fun hmem => hid (mem_pruned.1 hmem).1, hnone]
      rfl
  | some e =>
    have hmem := List.mem_filter.1 (List.mem_of_getLast? hl)
    have hin : id ∈ (validKeys lib tokenKeys).map Prod.fst :=
      List.mem_map.2 ⟨e, hmem.1, of_decide_eq_true hmem.2⟩
    rw [if_neg fun hmem => (mem_pruned.1 hmem).2 hin]
    rfl

/-- Assignments change nothing if, for each key, the last one assigns what is there. -/
theorem insertAll_unchanged_iff (publicKeys : GoMap Bytes κ) (l : List (Bytes × κ)) :
    (∀ id, (publicKeys.insertAll l).lookup id = publicKeys.lookup id) ↔
      ∀ id key, (l.filter fun e => e.1 = id).getLast? = some (id, key) →
        publicKeys.lookup id = some key := by
  refine forall_congr' fun id => ?_
  rw [GoMap.lookup_insertAll]
  cases hl : (l.filter fun e => e.1 = id).getLast? with
  | none => simp
  | some e =>
    have hid : e.1 = id := of_decide_eq_true (List.mem_filter.1 (List.mem_of_getLast? hl)).2
    subst hid
    constructor
    · intro h key hkey
      rw [Option.some.injEq] at hkey
      rw [← h, hkey]
      rfl
    · intro h
      exact (h e.2 rfl).symm

theorem replaceTokenKeys_replaced_iff (result : HttpResult) (publicKeys : GoMap Bytes κ) :
    ReplacedAsWhole lib result publicKeys (lib.replaceTokenKeys result publicKeys).1
        (lib.replaceTokenKeys result publicKeys).2 ↔
      NoHalfUpdate lib result publicKeys := by
  cases hresp : lib.responseKeys result with
  | error err =>
    rw [replaceTokenKeys_of_error lib hresp]
    refine iff_of_true (Or.inr ⟨Option.some_ne_none err, fun _ => rfl⟩) fun tokenKeys h => ?_
    rw [hresp] at h
    cases h
  | ok tokenKeys =>
    cases herr : firstError lib tokenKeys with
    | none =>
      refine iff_of_true (Or.inl ⟨?_, tokenKeys, hresp, ?_⟩) ?_
      · rw [replaceTokenKeys_of_valid lib hresp herr]
      · exact lookup_replaceTokenKeys lib hresp herr publicKeys
      · intro tokenKeys' h
        rw [hresp, Except.ok.injEq] at h
        subst h
        exact Or.inl ((firstError_eq_none_iff lib tokenKeys).1 herr)
    | some err =>
      have hinvalid : ¬ ∀ t ∈ tokenKeys, (lib.parseTokenKey t).isOk := by
        rw [← firstError_eq_none_iff, herr]
        exact Option.some_ne_none err
      rw [replaceTokenKeys_of_invalid lib hresp herr]
      constructor
      · rintro (⟨hnone, -⟩ | ⟨-, hsame⟩)
        · cases hnone
        · intro tokenKeys' h
          rw [hresp, Except.ok.injEq] at h
          subst h
          exact Or.inr ((insertAll_unchanged_iff publicKeys _).1 hsame)
      · intro h
        refine Or.inr ⟨Option.some_ne_none err, ?_⟩
        exact (insertAll_unchanged_iff publicKeys _).2 ((h tokenKeys hresp).resolve_left hinvalid)

end Refresh

/-- Token keys are replaced as a whole by every refresh that is not throttled, if and
    only if the response does not have a key that changes the cache before one that does
    not parse. -/
theorem refresh_replaces_iff {κ : Type} (lib : KeyLibrary κ) (uaa : UAAClient κ)
    (input : RefreshInput) (h : ¬ uaa.throttled input.checked) :
    ReplacedAsWhole lib input.result uaa.publicKeys
        (uaa.refreshTokenKeys lib input).1.publicKeys (uaa.refreshTokenKeys lib input).2 ↔
      NoHalfUpdate lib input.result uaa.publicKeys := by
  rw [UAAClient.refreshTokenKeys, if_neg h]
  exact replaceTokenKeys_replaced_iff lib input.result uaa.publicKeys

/-! ## A response with a new key and an invalid one -/

/-- Parsers under which every text but `x` is an RSA key, namely itself, and every body
    is a response with the key `n` for `id` and the invalid one after it. -/
def sampleKeyLibrary : KeyLibrary Bytes where
  unmarshal _ := .ok [⟨lit "id", lit "n"⟩, ⟨lit "other", lit "x"⟩]
  pemDecode value := if value = lit "x" then none else some value
  parsePKIXPublicKey block := .ok (.rsa block)

/-- A client that holds the key `o` for `id`. -/
def sampleUaa : UAAClient Bytes where
  publicKeys := GoMap.ofPairs [(lit "id", lit "o")]
  minimumRefreshInterval := 30000000000
  lastQueryTime := 0

def sampleRefresh : RefreshInput :=
  ⟨1600000000000000000, 1600000000000000001, .response 200 (.ok [])⟩

/-- The refresh fails and yet `id` has the new key. -/
theorem refresh_keeps_half :
    ¬ sampleUaa.throttled sampleRefresh.checked ∧
      (sampleUaa.refreshTokenKeys sampleKeyLibrary sampleRefresh).2 =
        some (lit "failed to parse PEM block containing the public key") ∧
      sampleUaa.publicKeys.lookup (lit "id") = some (lit "o") ∧
      (sampleUaa.refreshTokenKeys sampleKeyLibrary sampleRefresh).1.publicKeys.lookup (lit "id") =
        some (lit "n") ∧
      ¬ ReplacedAsWhole sampleKeyLibrary sampleRefresh.result sampleUaa.publicKeys
        (sampleUaa.refreshTokenKeys sampleKeyLibrary sampleRefresh).1.publicKeys
        (sampleUaa.refreshTokenKeys sampleKeyLibrary sampleRefresh).2 := by
  refine ⟨by decide, by decide, by decide, by decide, ?_⟩
  rintro (⟨herr, -⟩ | ⟨-, hsame⟩)
  · revert herr
    decide
  · have := hsame (lit "id")
    revert this
    decide

/-- The same parsers, and a response with a new key for `id` and a key for `next`. -/
def rotatedKeyLibrary : KeyLibrary Bytes :=
  { sampleKeyLibrary with unmarshal := fun _ => .ok [⟨lit "id", lit "n"⟩, ⟨lit "next", lit "m"⟩] }

/-- The request of `sampleRefresh`, when UAA cannot be reached. -/
def unreachableRefresh : RefreshInput := { sampleRefresh with result := .error (lit "timeout") }

/-- The same client when all keys of the response parse, and when UAA cannot be reached. -/
theorem refresh_replaces_rotated :
    ¬ sampleUaa.throttled sampleRefresh.checked ∧
      (ReplacedAsWhole rotatedKeyLibrary sampleRefresh.result sampleUaa.publicKeys
          (sampleUaa.refreshTokenKeys rotatedKeyLibrary sampleRefresh).1.publicKeys
          (sampleUaa.refreshTokenKeys rotatedKeyLibrary sampleRefresh).2 ∧
        (sampleUaa.refreshTokenKeys rotatedKeyLibrary sampleRefresh).2 = none) ∧
      ReplacedAsWhole sampleKeyLibrary unreachableRefresh.result sampleUaa.publicKeys
        (sampleUaa.refreshTokenKeys sampleKeyLibrary unreachableRefresh).1.publicKeys
        (sampleUaa.refreshTokenKeys sampleKeyLibrary unreachableRefresh).2 := by
  have hdue : ¬ sampleUaa.throttled sampleRefresh.checked := by decide
  refine ⟨hdue, ⟨(refresh_replaces_iff rotatedKeyLibrary sampleUaa sampleRefresh hdue).2 ?_,
    by decide⟩, (refresh_replaces_iff sampleKeyLibrary sampleUaa unreachableRefresh hdue).2 ?_⟩
  · intro tokenKeys h
    cases h
    exact Or.inl (by decide)
  · intro tokenKeys h
    cases h

end MetricStore.Auth
