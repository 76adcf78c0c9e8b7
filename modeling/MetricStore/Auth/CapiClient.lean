import MetricStore.Common.Bytes
import MetricStore.Common.GoMap
import MetricStore.Common.Run

/-!
# The authorization cache

Model of `CAPIClient` (`pkg/auth/capi_client.go`): `IsAuthorized` answers from a cache of
the source ids of each token, asks CAPI for them again if the cache does not have the id
and the token has retries left, or if there is no entry that has not expired;
`pruneTokens` deletes expired entries.

Calls are made one after the other. The responses of CAPI and the readings of the clock are
inputs; a run in which the clock goes back is not one. A request that cannot be built, a
request that fails, a status other than 200 and a body that does not decode are all a
failed response.

Results:
* `availableSourceIDs_mem`: an id of the list that a fetch gives is on a page of CAPI.
* `cache_safe_and_bounded`: an id is authorized only by a list of CAPI for this token that
  has not expired, and no window of the length of the expiration interval has more than
  `1 + MAX_RETRIES` fetches for a token.
-/

namespace MetricStore.Auth

open MetricStore.Common

/-! ## Fetching -/

/-- A page of resources: their guids, and whether there is a next page. -/
structure Page where
  guids : List Bytes
  hasNext : Bool
  deriving DecidableEq, Repr

/-- The outcome of `doResourceRequest` (lines 225–267); `none` is an error. -/
abbrev Response := Option Page

/-- `doPaginatedResourceRequest` (lines 205–223) on the responses to come: the guids, or
    `none` after an error, and the responses that are left. Without a response it does not
    return. -/
def doPaginatedResourceRequest : List Response → Option (Option (List Bytes) × List Response)
  | [] => none
  | none :: rest => some (none, rest)
  | some page :: rest =>
    if page.hasNext then
      (doPaginatedResourceRequest rest).map fun r => (r.1.map (page.guids ++ ·), r.2)
    else some (some page.guids, rest)

/-- `AvailableSourceIDs` (lines 135–168): the guids of the apps and of the service instances,
    or nil after an error. -/
def availableSourceIDs (responses : List Response) : Option (List Bytes) :=
  match doPaginatedResourceRequest responses with
  | none => none
  | some (none, _) => some []
  | some (some apps, rest) =>
    match doPaginatedResourceRequest rest with
    | none => none
    | some (none, _) => some []
    | some (some instances, _) => some (apps ++ instances)

/-! ## The cache -/

/-- `MAX_RETRIES`. -/
def maxRetries : ℕ := 3

/-- `authorizedSourceIds` (lines 78–82). -/
structure AuthorizedSourceIds where
  sourceIds : List Bytes
  retryCount : ℕ
  expiresAt : ℤ
  deriving DecidableEq

/-- `tokenCache`. -/
abbrev TokenCache := GoMap Bytes AuthorizedSourceIds

/-- A call of `IsAuthorized`: its arguments, the clock when the entry is checked, when a
    fetch starts and when it has completed, and the responses to it. -/
structure AuthCall where
  sourceId : Bytes
  token : Bytes
  checked : ℤ
  started : ℤ
  completed : ℤ
  responses : List Response

/-- `isContained` (lines 125–133). -/
def isContained (sourceIds : List Bytes) (sourceId : Bytes) : Bool :=
  sourceIds.any (· == sourceId)

theorem isContained_iff {sourceIds : List Bytes} {sourceId : Bytes} :
    isContained sourceIds sourceId = true ↔ sourceId ∈ sourceIds := by
  simp [isContained]

/-- What a call does with the entry of its token (lines 85–106). -/
inductive CacheResult
  | answer (authorized : Bool)
  | fetch (retryCount : ℕ)
  deriving DecidableEq, Repr

def checkCache (cache : TokenCache) (call : AuthCall) : CacheResult :=
  match cache.lookup call.token with
  | none => .fetch 0
  | some s =>
    if call.checked < s.expiresAt then
      if isContained s.sourceIds call.sourceId then .answer true
      else if s.retryCount ≥ maxRetries then .answer false
      else .fetch (s.retryCount + 1)
    else .fetch 0

/-- One pass of `pruneTokens` (lines 278–292). -/
def pruneTokens (cache : TokenCache) (now : ℤ) : TokenCache :=
  cache.eraseAll ((cache.pairs.filter fun e => now > e.2.expiresAt).map Prod.fst)

/-! ## Histories -/

/-- A fetch: the token, the responses and the list of ids made of them, and the times
    between which it was made. -/
structure Fetch where
  token : Bytes
  responses : List Response
  sourceIds : List Bytes
  started : ℤ
  completed : ℤ
  deriving DecidableEq

/-- The cache, the clock, and the fetches so far. -/
structure CapiHistory where
  cache : TokenCache
  clock : ℤ
  fetches : List Fetch

namespace CapiHistory

/-- A new client. -/
def start (clock : ℤ) : CapiHistory := ⟨∅, clock, []⟩

/-- The entry that a fetch leaves (lines 116–120), and the fetch. -/
def record (interval : ℤ) (s : CapiHistory) (retryCount : ℕ) (f : Fetch) : CapiHistory where
  cache := s.cache.insert f.token ⟨f.sourceIds, retryCount, f.completed + interval⟩
  clock := f.completed
  fetches := s.fetches ++ [f]

/-- `IsAuthorized` (lines 84–123); `none` if it does not return, or the clock goes back. -/
def isAuthorized (interval : ℤ) (s : CapiHistory) (call : AuthCall) :
    Option (Bool × CapiHistory) :=
  if s.clock ≤ call.checked then
    match checkCache s.cache call with
    | .answer authorized => some (authorized, { s with clock := call.checked })
    | .fetch retryCount =>
      if call.checked ≤ call.started ∧ call.started ≤ call.completed then
        (availableSourceIDs call.responses).map fun sourceIds =>
          (isContained sourceIds call.sourceId,
            s.record interval retryCount
              ⟨call.token, call.responses, sourceIds, call.started, call.completed⟩)
      else none
  else none

/-- A call of `IsAuthorized`, or a pass of `pruneTokens`. -/
inductive Event
  | call (call : AuthCall)
  | prune (now : ℤ)

/-- `cacheExpirationInterval` is `interval`. -/
def step (interval : ℤ) (s : CapiHistory) : Event → Option CapiHistory
  | .call call => (s.isAuthorized interval call).map Prod.snd
  | .prune now =>
    if s.clock ≤ now then some { s with cache := pruneTokens s.cache now, clock := now } else none

/-- The fetches for a token. -/
def fetchesOf (s : CapiHistory) (token : Bytes) : List Fetch :=
  s.fetches.filter fun f => f.token = token

end CapiHistory

/-- The fetch for the token is in the window of length `interval` from `w` on. -/
def Fetch.InWindow (interval : ℤ) (instant : Fetch → ℤ) (token : Bytes) (w : ℤ) (f : Fetch) :
    Prop :=
  f.token = token ∧ w ≤ instant f ∧ instant f < w + interval

instance (interval : ℤ) (instant : Fetch → ℤ) (token : Bytes) (w : ℤ) :
    DecidablePred (Fetch.InWindow interval instant token w) :=
  fun _ => inferInstanceAs (Decidable (_ ∧ _))

/-- The id is in the list that CAPI returned in the fetch: on a page, for this token. -/
def Fetch.Grants (f : Fetch) (sourceId token : Bytes) : Prop :=
  f.token = token ∧ sourceId ∈ f.sourceIds ∧
    availableSourceIDs f.responses = some f.sourceIds ∧
    ∃ page, some page ∈ f.responses ∧ sourceId ∈ page.guids

/-! ## Lists of source ids -/

theorem doPaginatedResourceRequest_mem {responses rest : List Response} {guids : List Bytes}
    (h : doPaginatedResourceRequest responses = some (some guids, rest)) :
    rest <:+ responses ∧ ∀ id ∈ guids, ∃ page, some page ∈ responses ∧ id ∈ page.guids := by
  induction responses generalizing guids with
  | nil => cases h
  | cons response responses ih =>
    cases response with
    | none => cases h
    | some page =>
      rw [doPaginatedResourceRequest] at h
      split_ifs at h with hnext
      · obtain ⟨⟨r, rest'⟩, hr, heq⟩ := Option.map_eq_some_iff.mp h
        obtain ⟨hguids, rfl⟩ := Prod.mk.inj heq
        obtain ⟨more, rfl, rfl⟩ := Option.map_eq_some_iff.mp hguids
        obtain ⟨hsuffix, hmore⟩ := ih hr
        refine ⟨hsuffix.trans (List.suffix_cons _ _), fun id hid => ?_⟩
        rcases List.mem_append.mp hid with hid | hid
        · exact ⟨page, List.mem_cons_self, hid⟩
        · obtain ⟨page', hpage', hid'⟩ := hmore id hid
          exact ⟨page', List.mem_cons_of_mem _ hpage', hid'⟩
      · cases h
        exact ⟨List.suffix_cons _ _, fun id hid => ⟨page, List.mem_cons_self, hid⟩⟩

/-- An id of the list is on one of the pages. -/
theorem availableSourceIDs_mem {responses : List Response} {ids : List Bytes}
    (h : availableSourceIDs responses = some ids) {id : Bytes} (hid : id ∈ ids) :
    ∃ page, some page ∈ responses ∧ id ∈ page.guids := by
  unfold availableSourceIDs at h
  split at h
  · cases h
  · cases h; cases hid
  · next apps rest happs =>
    obtain ⟨hsuffix, hmem⟩ := doPaginatedResourceRequest_mem happs
    split at h
    · cases h
    · cases h; cases hid
    · next instances _ hinstances =>
      cases h
      rcases List.mem_append.mp hid with hid | hid
      · exact hmem id hid
      · obtain ⟨page, hpage, hid⟩ := (doPaginatedResourceRequest_mem hinstances).2 id hid
        exact ⟨page, hsuffix.subset hpage, hid⟩

theorem lookup_pruneTokens (cache : TokenCache) (now : ℤ) (token : Bytes) :
    (pruneTokens cache now).lookup token =
      (cache.lookup token).filter fun s => now ≤ s.expiresAt := by
  unfold pruneTokens
  rw [GoMap.lookup_eraseAll]
  have hmem : token ∈ (cache.pairs.filter fun e => now > e.2.expiresAt).map Prod.fst ↔
      ∃ s, cache.lookup token = some s ∧ s.expiresAt < now := by
    simp [← GoMap.mem_pairs]
  cases hs : cache.lookup token with
  | none => simp
  | some s =>
    rw [hs] at hmem
    by_cases hexpired : s.expiresAt < now
    · rw [if_pos (hmem.mpr ⟨s, rfl, hexpired⟩), Option.filter_some, if_neg (by simpa using hexpired)]
    · have hkept : token ∉ (cache.pairs.filter fun e => now > e.2.expiresAt).map Prod.fst := by
        rw [hmem]
        rintro ⟨s', hs', hlt⟩
        cases hs'
        exact hexpired hlt
      rw [if_neg hkept, Option.filter_some, if_pos (by simpa using hexpired)]

/-! ## The invariant -/

/-- What the cache knows about the fetches `fs` for a token. The last of them are those of
    the entry, one for each retry; the others had expired when these were started. -/
structure Tracked (interval clock : ℤ) (entry : Option AuthorizedSourceIds) (fs : List Fetch) :
    Prop where
  none_expired : entry = none → ∀ f ∈ fs, f.completed + interval ≤ clock
  some_last : ∀ s ∈ entry, ∃ older retries f, fs = older ++ retries ++ [f] ∧
    retries.length = s.retryCount ∧ s.retryCount ≤ maxRetries ∧
    s.sourceIds = f.sourceIds ∧ s.expiresAt = f.completed + interval ∧
    ∀ g ∈ older, ∀ f' ∈ retries ++ [f], g.completed + interval ≤ f'.started

namespace CapiHistory

/-- The invariant of every run. -/
structure Inv (interval : ℤ) (s : CapiHistory) : Prop where
  sorted : s.fetches.Pairwise fun f g => f.completed ≤ g.started
  times : ∀ f ∈ s.fetches, f.started ≤ f.completed ∧ f.completed ≤ s.clock
  fetched : ∀ f ∈ s.fetches, availableSourceIDs f.responses = some f.sourceIds
  tracked : ∀ token, Tracked interval s.clock (s.cache.lookup token) (s.fetchesOf token)
  bounded : ∀ token instant w, (∀ f ∈ s.fetches, f.started ≤ instant f ∧ instant f ≤ f.completed) →
    s.fetches.countP (Fetch.InWindow interval instant token w) ≤ 1 + maxRetries

theorem start_inv (interval clock : ℤ) : (start clock).Inv interval where
  sorted := .nil
  times f hf := by cases hf
  fetched f hf := by cases hf
  tracked token := ⟨fun _ f hf => absurd hf List.not_mem_nil, nofun⟩
  bounded token instant w _ := Nat.zero_le _

variable {interval : ℤ} {s s' : CapiHistory}

theorem Inv.later (h : s.Inv interval) {clock : ℤ} (hle : s.clock ≤ clock) :
    Inv interval { s with clock := clock } where
  sorted := h.sorted
  times f hf := ⟨(h.times f hf).1, (h.times f hf).2.trans hle⟩
  fetched := h.fetched
  tracked token :=
    ⟨fun hnone f hf => ((h.tracked token).none_expired hnone f hf).trans hle,
      (h.tracked token).some_last⟩
  bounded := h.bounded

/-- The fetches for a token are in order, and none is after the last one. -/
theorem Inv.completed_le (h : s.Inv interval) {token : Bytes} {fs : List Fetch} {f : Fetch}
    (heq : s.fetchesOf token = fs ++ [f]) : ∀ g ∈ fs ++ [f], g.completed ≤ f.completed := by
  intro g hg
  rcases List.mem_append.mp hg with hg | hg
  · have hsorted : (fs ++ [f]).Pairwise fun f g => f.completed ≤ g.started :=
      heq ▸ h.sorted.filter _
    have hf : f ∈ s.fetches := List.mem_of_mem_filter (heq ▸ List.mem_concat_self)
    have hle := (List.pairwise_append.mp hsorted).2.2 g hg f List.mem_cons_self
    exact hle.trans (h.times f hf).1
  · rw [List.mem_singleton.mp hg]

/-- If the entry of a token is missing or has expired, all fetches for it have. -/
theorem Inv.all_expired (h : s.Inv interval) {token : Bytes} {now : ℤ} (hnow : s.clock ≤ now)
    (hexpired : ∀ e ∈ s.cache.lookup token, e.expiresAt ≤ now) :
    ∀ f ∈ s.fetchesOf token, f.completed + interval ≤ now := by
  cases he : s.cache.lookup token with
  | none =>
    intro f hf
    exact ((h.tracked token).none_expired he f hf).trans hnow
  | some e =>
    obtain ⟨older, retries, f, heq, -, -, -, hexp, -⟩ := (h.tracked token).some_last e he
    intro g hg
    rw [heq] at hg
    have hle := h.completed_le heq g hg
    have := hexpired e he
    omega

/-- `pruneTokens` deletes only entries that have expired. -/
theorem prune_inv (h : s.Inv interval) {now : ℤ} (hnow : s.clock ≤ now) :
    Inv interval { s with cache := pruneTokens s.cache now, clock := now } where
  sorted := h.sorted
  times := (h.later hnow).times
  fetched := h.fetched
  tracked token := by
    refine ⟨fun hnone => h.all_expired hnow fun e he => ?_, fun e he => ?_⟩
    · dsimp only at hnone
      rw [lookup_pruneTokens, Option.filter_eq_none_iff] at hnone
      have := hnone e he
      simp only [decide_eq_true_eq, not_le] at this
      exact this.le
    · have he : e ∈ (s.cache.lookup token).filter fun s => now ≤ s.expiresAt :=
        lookup_pruneTokens s.cache now token ▸ he
      exact (h.tracked token).some_last e (Option.mem_filter_iff.mp he).1
  bounded := h.bounded

/-- In a window with the new fetch there are only the retries before it. -/
theorem countP_le {f : Fetch} {older recent : List Fetch}
    (heq : s.fetchesOf f.token = older ++ recent)
    (hold : ∀ g ∈ older, g.completed + interval ≤ f.started) {instant : Fetch → ℤ}
    (hinstant : ∀ g ∈ s.fetches, g.started ≤ instant g ∧ instant g ≤ g.completed)
    (hf : f.started ≤ instant f) {w : ℤ} (hw : instant f < w + interval) :
    s.fetches.countP (Fetch.InWindow interval instant f.token w) ≤ recent.length := by
  have hfilter : s.fetches.countP (Fetch.InWindow interval instant f.token w) =
      (older ++ recent).countP (Fetch.InWindow interval instant f.token w) := by
    rw [← heq, fetchesOf, List.countP_filter]
    refine List.countP_congr fun g _ => ?_
    simp only [Bool.and_eq_true, decide_eq_true_eq]
    exact ⟨fun hin => ⟨hin, hin.1⟩, And.left⟩
  have hzero : older.countP (Fetch.InWindow interval instant f.token w) = 0 := by
    refine List.countP_eq_zero.mpr fun g hg hin => ?_
    obtain ⟨-, hle, -⟩ := of_decide_eq_true hin
    have hmem : g ∈ s.fetches :=
      List.mem_of_mem_filter (heq ▸ List.mem_append_left recent hg : g ∈ s.fetchesOf f.token)
    have := hinstant g hmem
    have := hold g hg
    omega
  rw [hfilter, List.countP_append, hzero, Nat.zero_add]
  exact List.countP_le_length

theorem fetchesOf_record (retryCount : ℕ) (f : Fetch) (token : Bytes) :
    (s.record interval retryCount f).fetchesOf token =
      s.fetchesOf token ++ if f.token = token then [f] else [] := by
  unfold fetchesOf record
  rw [List.filter_append]
  by_cases htoken : f.token = token
  · simp [htoken]
  · simp [htoken]

/-- **A fetch.** The fetches for the token are some that had expired when it was started,
    and as many as the retry count says. -/
theorem Inv.recorded (h : s.Inv interval) {f : Fetch} (older retries : List Fetch)
    (heq : s.fetchesOf f.token = older ++ retries) (hretries : retries.length ≤ maxRetries)
    (hold : ∀ g ∈ older, ∀ f' ∈ retries ++ [f], g.completed + interval ≤ f'.started)
    (hclock : s.clock ≤ f.started) (htimes : f.started ≤ f.completed)
    (hfetched : availableSourceIDs f.responses = some f.sourceIds) :
    (s.record interval retries.length f).Inv interval where
  sorted := by
    refine List.pairwise_append.mpr ⟨h.sorted, List.pairwise_singleton _ _, fun g hg f' hf' => ?_⟩
    rw [List.mem_singleton.mp hf']
    exact (h.times g hg).2.trans hclock
  times g hg := by
    rcases List.mem_append.mp hg with hg | hg
    · obtain ⟨hle, hlast⟩ := h.times g hg
      exact ⟨hle, hlast.trans (hclock.trans htimes)⟩
    · rw [List.mem_singleton.mp hg]
      exact ⟨htimes, le_rfl⟩
  fetched g hg := by
    rcases List.mem_append.mp hg with hg | hg
    · exact h.fetched g hg
    · rw [List.mem_singleton.mp hg]
      exact hfetched
  tracked token := by
    rw [fetchesOf_record]
    by_cases htoken : f.token = token
    · subst htoken
      rw [if_pos rfl, heq]
      have hentry : (s.record interval retries.length f).cache.lookup f.token =
          some ⟨f.sourceIds, retries.length, f.completed + interval⟩ := AList.lookup_insert _
      rw [hentry]
      refine ⟨nofun, fun e he => ?_⟩
      cases he
      exact ⟨older, retries, f, rfl, rfl, hretries, rfl, rfl, hold⟩
    · have hentry : (s.record interval retries.length f).cache.lookup token =
          s.cache.lookup token := AList.lookup_insert_ne (Ne.symm htoken)
      rw [if_neg htoken, List.append_nil, hentry]
      exact (h.later (hclock.trans htimes)).tracked token
  bounded token instant w hinstant := by
    have hinstant' : ∀ g ∈ s.fetches, g.started ≤ instant g ∧ instant g ≤ g.completed :=
      fun g hg => hinstant g (List.mem_append_left _ hg)
    have hf := hinstant f List.mem_concat_self
    unfold record
    rw [List.countP_append, List.countP_singleton]
    split_ifs with hin
    · obtain ⟨rfl, -, hlt⟩ := of_decide_eq_true hin
      have hcount := countP_le heq (fun g hg => hold g hg f List.mem_concat_self) hinstant' hf.1 hlt
      omega
    · exact h.bounded token instant w hinstant'

/-- What `IsAuthorized` does, by the entry of the token. -/
theorem checkCache_eq_fetch {cache : TokenCache} {call : AuthCall} {retryCount : ℕ}
    (h : checkCache cache call = .fetch retryCount) :
    (retryCount = 0 ∧ ∀ e ∈ cache.lookup call.token, e.expiresAt ≤ call.checked) ∨
      ∃ e ∈ cache.lookup call.token, call.checked < e.expiresAt ∧ e.retryCount < maxRetries ∧
        retryCount = e.retryCount + 1 := by
  unfold checkCache at h
  cases he : cache.lookup call.token with
  | none =>
    rw [he] at h
    cases h
    exact .inl ⟨rfl, nofun⟩
  | some e =>
    rw [he] at h
    dsimp only at h
    split_ifs at h with hfresh hmem hlimit
    · cases h
      exact .inr ⟨e, rfl, hfresh, not_le.mp hlimit, rfl⟩
    · cases h
      refine .inl ⟨rfl, fun e' he' => ?_⟩
      cases he'
      exact not_lt.mp hfresh

theorem checkCache_eq_true {cache : TokenCache} {call : AuthCall}
    (h : checkCache cache call = .answer true) :
    ∃ e ∈ cache.lookup call.token, call.checked < e.expiresAt ∧ call.sourceId ∈ e.sourceIds := by
  unfold checkCache at h
  cases he : cache.lookup call.token with
  | none => rw [he] at h; cases h
  | some e =>
    rw [he] at h
    dsimp only at h
    split_ifs at h with hfresh hmem hlimit
    · exact ⟨e, rfl, hfresh, isContained_iff.mp hmem⟩
    · cases h

/-- A fetch starts a new series of retries if the entry is missing or has expired, and is
    one more retry if not. -/
theorem fetch_inv (h : s.Inv interval) {call : AuthCall} {retryCount : ℕ} {sourceIds : List Bytes}
    (hclock : s.clock ≤ call.checked) (hcheck : checkCache s.cache call = .fetch retryCount)
    (hstarted : call.checked ≤ call.started) (htimes : call.started ≤ call.completed)
    (hids : availableSourceIDs call.responses = some sourceIds) :
    (s.record interval retryCount
      ⟨call.token, call.responses, sourceIds, call.started, call.completed⟩).Inv interval := by
  rcases checkCache_eq_fetch hcheck with ⟨rfl, hexpired⟩ | ⟨e, he, -, hlimit, rfl⟩
  · have hall := h.all_expired hclock hexpired
    refine h.recorded (s.fetchesOf call.token) [] ?_ (Nat.zero_le _) ?_
      (hclock.trans hstarted) htimes hids
    · rw [List.append_nil]
    · intro g hg f' hf'
      rw [List.nil_append, List.mem_singleton] at hf'
      subst hf'
      exact (hall g hg).trans hstarted
  · obtain ⟨older, retries, f, heq, hlength, -, -, -, hold⟩ := (h.tracked call.token).some_last e he
    have hcount : e.retryCount + 1 = (retries ++ [f]).length := by
      rw [List.length_append, hlength, List.length_singleton]
    rw [hcount]
    refine h.recorded older (retries ++ [f]) ?_ (by omega) ?_
      (hclock.trans hstarted) htimes hids
    · rw [← List.append_assoc]
      exact heq
    · intro g hg f' hf'
      rcases List.mem_append.mp hf' with hf' | hf'
      · exact hold g hg f' hf'
      · -- the fetch before it was started after `g` had expired, and this one after that
        rw [List.mem_singleton.mp hf']
        have hmem : f ∈ s.fetches :=
          List.mem_of_mem_filter (heq ▸ List.mem_concat_self : f ∈ s.fetchesOf call.token)
        have hlast := hold g hg f List.mem_concat_self
        have hf := h.times f hmem
        dsimp only
        omega

/-- A call that returns: the cache answers, or the list is fetched. -/
theorem isAuthorized_cases {call : AuthCall} {authorized : Bool}
    (h : s.isAuthorized interval call = some (authorized, s')) : s.clock ≤ call.checked ∧
      (checkCache s.cache call = .answer authorized ∧ s' = { s with clock := call.checked } ∨
        ∃ retryCount sourceIds, checkCache s.cache call = .fetch retryCount ∧
          call.checked ≤ call.started ∧ call.started ≤ call.completed ∧
          availableSourceIDs call.responses = some sourceIds ∧
          authorized = isContained sourceIds call.sourceId ∧
          s' = s.record interval retryCount
            ⟨call.token, call.responses, sourceIds, call.started, call.completed⟩) := by
  unfold isAuthorized at h
  rw [Option.ite_none_right_eq_some] at h
  obtain ⟨hclock, h⟩ := h
  refine ⟨hclock, ?_⟩
  cases hcheck : checkCache s.cache call with
  | answer b =>
    rw [hcheck] at h
    cases h
    exact .inl ⟨rfl, rfl⟩
  | fetch retryCount =>
    simp only [hcheck, Option.ite_none_right_eq_some] at h
    obtain ⟨⟨hstarted, htimes⟩, h⟩ := h
    obtain ⟨sourceIds, hids, heq⟩ := Option.map_eq_some_iff.mp h
    obtain ⟨rfl, rfl⟩ := Prod.mk.inj heq
    exact .inr ⟨retryCount, sourceIds, rfl, hstarted, htimes, hids, rfl, rfl⟩

theorem isAuthorized_inv (h : s.Inv interval) {call : AuthCall} {authorized : Bool}
    (hcall : s.isAuthorized interval call = some (authorized, s')) : s'.Inv interval := by
  obtain ⟨hclock, ⟨-, rfl⟩ | ⟨retryCount, sourceIds, hcheck, hstarted, htimes, hids, -, rfl⟩⟩ :=
    isAuthorized_cases hcall
  · exact h.later hclock
  · exact fetch_inv h hclock hcheck hstarted htimes hids

theorem step_inv (h : s.Inv interval) {event : Event} (hstep : s.step interval event = some s') :
    s'.Inv interval := by
  cases event with
  | call call =>
    obtain ⟨⟨b, s₁⟩, hcall, rfl⟩ := Option.map_eq_some_iff.mp hstep
    exact isAuthorized_inv h hcall
  | prune now =>
    rw [step, Option.ite_none_right_eq_some] at hstep
    obtain ⟨hnow, heq⟩ := hstep
    cases heq
    exact prune_inv h hnow

/-- The list that authorizes an id: one in the cache that has not expired, or the one that
    the call fetched. -/
theorem isAuthorized_granted (h : s.Inv interval) {call : AuthCall}
    (hcall : s.isAuthorized interval call = some (true, s')) :
    ∃ f ∈ s'.fetches, f.Grants call.sourceId call.token ∧
      (f ∈ s.fetches ∧ call.checked < f.completed + interval ∨ s'.fetches = s.fetches ++ [f]) := by
  obtain ⟨-, ⟨hcheck, rfl⟩ | ⟨retryCount, sourceIds, -, -, -, hids, hmem, rfl⟩⟩ :=
    isAuthorized_cases hcall
  · obtain ⟨e, he, hfresh, hmem⟩ := checkCache_eq_true hcheck
    obtain ⟨older, retries, f, heq, -, -, hlist, hexp, -⟩ := (h.tracked call.token).some_last e he
    obtain ⟨hf, htoken⟩ := List.mem_filter.mp
      (heq ▸ List.mem_concat_self : f ∈ s.fetchesOf call.token)
    rw [hlist] at hmem
    have hfetched := h.fetched f hf
    exact ⟨f, hf, ⟨of_decide_eq_true htoken, hmem, hfetched, availableSourceIDs_mem hfetched hmem⟩,
      .inl ⟨hf, hexp ▸ hfresh⟩⟩
  · have hmem := isContained_iff.mp hmem.symm
    exact ⟨_, List.mem_concat_self, ⟨rfl, hmem, hids, availableSourceIDs_mem hids hmem⟩, .inr rfl⟩

end CapiHistory

/-- **Cache safety and load bound.** After every run of calls of `IsAuthorized` and passes of
    `pruneTokens`: a call returns true only if the id is in a list that CAPI returned for the
    same token, in a fetch that was completed less than the expiration interval ago or in one
    that this call makes; and of the fetches for a token at most `1 + MAX_RETRIES` are in any
    window of that length, wherever between its start and its end a fetch is put. -/
theorem cache_safe_and_bounded {interval clock : ℤ} {events : List CapiHistory.Event}
    {s : CapiHistory}
    (hrun : run (CapiHistory.step interval) (CapiHistory.start clock) events = some s) :
    (∀ call s', s.isAuthorized interval call = some (true, s') →
      ∃ f ∈ s'.fetches, f.Grants call.sourceId call.token ∧
        (f ∈ s.fetches ∧ call.checked < f.completed + interval ∨
          s'.fetches = s.fetches ++ [f])) ∧
    ∀ token instant, (∀ f ∈ s.fetches, f.started ≤ instant f ∧ instant f ≤ f.completed) →
      ∀ w, s.fetches.countP (Fetch.InWindow interval instant token w) ≤ 1 + maxRetries := by
  have h : s.Inv interval := run_preserves (CapiHistory.step interval)
    (fun _ _ _ h hstep => CapiHistory.step_inv h hstep) (CapiHistory.start_inv interval clock) hrun
  exact ⟨fun call s' hcall => CapiHistory.isAuthorized_granted h hcall,
    fun token instant hinstant w => h.bounded token instant w hinstant⟩

/-- A call at a time that, if it fetches, gets an app and a service instance. -/
def callAt (now : ℤ) (sourceId : Bytes) : AuthCall where
  sourceId := sourceId
  token := lit "token"
  checked := now
  started := now
  completed := now + 1
  responses := [some ⟨[lit "app"], false⟩, some ⟨[lit "instance"], false⟩]

/-- A first fetch, three retries for an unknown id, and a call that is answered without. -/
def retriesRun : List CapiHistory.Event :=
  [.call (callAt 0 (lit "app")), .call (callAt 1 (lit "other")), .call (callAt 2 (lit "other")),
    .prune 5, .call (callAt 6 (lit "other")), .call (callAt 8 (lit "other"))]

theorem cache_safe_and_bounded_retriesRun :
    ∃ s, run (CapiHistory.step 60) (CapiHistory.start 0) retriesRun = some s ∧
      s.fetches.countP (Fetch.InWindow 60 Fetch.completed (lit "token") 0) = 4 ∧
      (∀ w, s.fetches.countP (Fetch.InWindow 60 Fetch.completed (lit "token") w) ≤ 4) ∧
      ∃ s', s.isAuthorized 60 (callAt 10 (lit "app")) = some (true, s') ∧
        ∃ f ∈ s'.fetches, f.Grants (lit "app") (lit "token") := by
  have hall : ∃ s ∈ run (CapiHistory.step 60) (CapiHistory.start 0) retriesRun,
      s.fetches.countP (Fetch.InWindow 60 Fetch.completed (lit "token") 0) = 4 ∧
      (∀ f ∈ s.fetches, f.started ≤ f.completed ∧ f.completed ≤ f.completed) ∧
      ∃ r ∈ s.isAuthorized 60 (callAt 10 (lit "app")), r.1 = true := by decide
  obtain ⟨s, hs, hfour, htimes, ⟨_, s'⟩, hcall, rfl⟩ := hall
  obtain ⟨hsafe, hbounded⟩ := cache_safe_and_bounded hs
  obtain ⟨f, hf, hgrants, -⟩ := hsafe (callAt 10 (lit "app")) s' hcall
  exact ⟨s, hs, hfour, hbounded (lit "token") Fetch.completed htimes, s', hcall, f, hf, hgrants⟩

end MetricStore.Auth
