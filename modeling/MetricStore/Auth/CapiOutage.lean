import MetricStore.Auth.CapiClient

/-!
# Outages of CAPI

`IsAuthorized` (`pkg/auth/capi_client.go`, lines 84–123) asks CAPI again when the cached
list of a token does not have an id. `AvailableSourceIDs` (lines 135–168) returns nil when
a page cannot be read, and the nil list takes the place of the cached one.

Results:
* `grants_survive_outage`: in a run in which no fetch fails while there is a list to
  lose, an id that was authorized stays so until its list expires or CAPI delivers a
  list without it.
* `outage_revokes_grant`: a failed fetch for another id.
-/

namespace MetricStore.Auth

open MetricStore.Common CapiHistory

/-- A page of `/v3/apps` or of `/v3/service_instances` could not be read. -/
def fetchFailed (responses : List Response) : Bool :=
  match doPaginatedResourceRequest responses with
  | some (none, _) => true
  | some (some _, rest) =>
    match doPaginatedResourceRequest rest with
    | some (none, _) => true
    | _ => false
  | none => false

/-- A fetch without error that delivered a list for the token in which the id is missing. -/
def Fetch.Withdraws (f : Fetch) (sourceId token : Bytes) : Prop :=
  f.token = token ∧ fetchFailed f.responses = false ∧ sourceId ∉ f.sourceIds

/-- A call does not fail to fetch while its token has a list with an id in it that has not
    expired. It fetches in that state if the list does not have its id and there are retries
    left. -/
def NoOutage (s : CapiHistory) : Event → Prop
  | .call call => ∀ e ∈ s.cache.lookup call.token, call.checked < e.expiresAt →
      e.sourceIds ≠ [] → call.sourceId ∉ e.sourceIds → e.retryCount < maxRetries →
      fetchFailed call.responses = false
  | .prune _ => True

/-! ## The invariant after a grant -/

/-- What is left of a grant of the id with expiry `expiresAt`, `fetches` being those made
    before it: it has expired, or a later list has withdrawn it, or the cache still has it. -/
structure Granted (interval : ℤ) (fetches : List Fetch) (sourceId token : Bytes) (expiresAt : ℤ)
    (s : CapiHistory) : Prop where
  bound : expiresAt ≤ s.clock + interval
  grant : ∃ later, s.fetches = fetches ++ later ∧
    (expiresAt ≤ s.clock ∨ (∃ f ∈ later, f.Withdraws sourceId token) ∨
      ∃ e ∈ s.cache.lookup token, sourceId ∈ e.sourceIds ∧ expiresAt ≤ e.expiresAt)

section Grants

variable {interval expiresAt : ℤ} {fetches : List Fetch} {sourceId token : Bytes}
  {s s' : CapiHistory}

theorem not_mem_of_checkCache {cache : TokenCache} {call : AuthCall} {retryCount : ℕ}
    (h : checkCache cache call = .fetch retryCount) {e : AuthorizedSourceIds}
    (he : e ∈ cache.lookup call.token) (hfresh : call.checked < e.expiresAt) :
    call.sourceId ∉ e.sourceIds := by
  intro hmem
  rw [Option.mem_def] at he
  simp [checkCache, he, hfresh, isContained_iff.2 hmem] at h

/-- A pass of `pruneTokens`: an entry that it deletes has expired. -/
theorem Granted.prune (h : Granted interval fetches sourceId token expiresAt s) {now : ℤ}
    (hnow : s.clock ≤ now) :
    Granted interval fetches sourceId token expiresAt
      { s with cache := pruneTokens s.cache now, clock := now } := by
  obtain ⟨hbound, later, hlater, hgrant⟩ := h
  refine ⟨?_, later, hlater, ?_⟩
  · show expiresAt ≤ now + interval
    omega
  · rcases hgrant with hexpired | hwithdrawn | ⟨e, he, hmem, hexp⟩
    · exact Or.inl (hexpired.trans hnow)
    · exact Or.inr (Or.inl hwithdrawn)
    · by_cases hkept : now ≤ e.expiresAt
      · refine Or.inr (Or.inr ⟨e, ?_, hmem, hexp⟩)
        rw [lookup_pruneTokens]
        exact Option.mem_filter_iff.2 ⟨he, decide_eq_true hkept⟩
      · refine Or.inl ?_
        show expiresAt ≤ now
        omega

/-- A call that the cache answers. -/
theorem Granted.answer (h : Granted interval fetches sourceId token expiresAt s) {now : ℤ}
    (hnow : s.clock ≤ now) :
    Granted interval fetches sourceId token expiresAt { s with clock := now } := by
  obtain ⟨hbound, later, hlater, hgrant⟩ := h
  refine ⟨?_, later, hlater, hgrant.imp_left fun hexpired => hexpired.trans hnow⟩
  show expiresAt ≤ now + interval
  omega

/-- A call that fetches. -/
theorem Granted.fetch (h : Granted interval fetches sourceId token expiresAt s) {call : AuthCall}
    {retryCount : ℕ} {sourceIds : List Bytes} (hclock : s.clock ≤ call.checked)
    (hcheck : checkCache s.cache call = .fetch retryCount)
    (hstarted : call.checked ≤ call.started) (htimes : call.started ≤ call.completed)
    (hok : NoOutage s (.call call)) :
    Granted interval fetches sourceId token expiresAt
      (s.record interval retryCount
        ⟨call.token, call.responses, sourceIds, call.started, call.completed⟩) := by
  obtain ⟨hbound, later, hlater, hgrant⟩ := h
  set f : Fetch := ⟨call.token, call.responses, sourceIds, call.started, call.completed⟩ with hf
  refine ⟨?_, later ++ [f], ?_, ?_⟩
  · show expiresAt ≤ call.completed + interval
    omega
  · show s.fetches ++ [f] = fetches ++ (later ++ [f])
    rw [hlater, List.append_assoc]
  · rcases hgrant with hexpired | ⟨g, hg, hwithdraws⟩ | ⟨e, he, hmem, hexp⟩
    · refine Or.inl ?_
      show expiresAt ≤ call.completed
      omega
    · exact Or.inr (Or.inl ⟨g, List.mem_append_left _ hg, hwithdraws⟩)
    · by_cases htoken : call.token = token
      · subst htoken
        by_cases hfresh : call.checked < e.expiresAt
        · have hnot := not_mem_of_checkCache hcheck he hfresh
          have hretries : e.retryCount < maxRetries := by
            rcases checkCache_eq_fetch hcheck with ⟨-, hexpired⟩ | ⟨e', he', -, hlimit, -⟩
            · exact absurd (hexpired e he) (not_le.2 hfresh)
            · rw [Option.mem_unique he he']
              exact hlimit
          have hfailed := hok e he hfresh (List.ne_nil_of_mem hmem) hnot hretries
          by_cases hin : sourceId ∈ sourceIds
          · refine Or.inr (Or.inr ⟨_, AList.lookup_insert _, hin, ?_⟩)
            show expiresAt ≤ call.completed + interval
            omega
          · exact Or.inr (Or.inl ⟨f, List.mem_concat_self, rfl, hfailed, hin⟩)
        · refine Or.inl ?_
          show expiresAt ≤ call.completed
          omega
      · refine Or.inr (Or.inr ⟨e, ?_, hmem, hexp⟩)
        show e ∈ (s.cache.insert call.token _).lookup token
        rw [AList.lookup_insert_ne (Ne.symm htoken)]
        exact he

theorem Granted.step (h : Granted interval fetches sourceId token expiresAt s) {event : Event}
    (hok : NoOutage s event) (hstep : s.step interval event = some s') :
    Granted interval fetches sourceId token expiresAt s' := by
  cases event with
  | call call =>
    obtain ⟨⟨b, s₁⟩, hcall, rfl⟩ := Option.map_eq_some_iff.mp hstep
    obtain ⟨hclock, ⟨-, rfl⟩ | ⟨retryCount, sourceIds, hcheck, hstarted, htimes, -, -, rfl⟩⟩ :=
      isAuthorized_cases hcall
    · exact h.answer hclock
    · exact h.fetch hclock hcheck hstarted htimes hok
  | prune now =>
    rw [CapiHistory.step, Option.ite_none_right_eq_some] at hstep
    obtain ⟨hnow, heq⟩ := hstep
    cases heq
    exact h.prune hnow

/-- A call that returns true leaves the list with its id in the cache. -/
theorem isAuthorized_entry {call : AuthCall}
    (h : s.isAuthorized interval call = some (true, s')) :
    ∃ e ∈ s'.cache.lookup call.token, call.sourceId ∈ e.sourceIds := by
  obtain ⟨-, ⟨hcheck, rfl⟩ | ⟨retryCount, sourceIds, -, -, -, -, hmem, rfl⟩⟩ :=
    isAuthorized_cases h
  · obtain ⟨e, he, -, hmem⟩ := checkCache_eq_true hcheck
    exact ⟨e, he, hmem⟩
  · exact ⟨_, AList.lookup_insert _, isContained_iff.1 hmem.symm⟩

/-- No entry expires later than an interval from now. -/
theorem expiresAt_le (h : s.Inv interval) {e : AuthorizedSourceIds}
    (he : e ∈ s.cache.lookup token) : e.expiresAt ≤ s.clock + interval := by
  obtain ⟨older, retries, f, heq, -, -, -, hexp, -⟩ := (h.tracked token).some_last e he
  have hf : f ∈ s.fetches :=
    List.mem_of_mem_filter (heq ▸ List.mem_concat_self : f ∈ s.fetchesOf token)
  have := (h.times f hf).2
  omega

/-- A grant that has neither expired nor been withdrawn is still there. -/
theorem Granted.authorized (h : Granted interval fetches sourceId token expiresAt s)
    {call : AuthCall} {authorized : Bool} (hid : call.sourceId = sourceId)
    (htoken : call.token = token) (hbefore : call.checked < expiresAt)
    (hcall : s.isAuthorized interval call = some (authorized, s')) :
    authorized = true ∨
      ∃ later, s.fetches = fetches ++ later ∧ ∃ f ∈ later, f.Withdraws sourceId token := by
  obtain ⟨-, later, hlater, hgrant⟩ := h
  subst hid htoken
  obtain ⟨hclock, hcases⟩ := isAuthorized_cases hcall
  rcases hgrant with hexpired | hwithdrawn | ⟨e, he, hmem, hexp⟩
  · omega
  · exact Or.inr ⟨later, hlater, hwithdrawn⟩
  · refine Or.inl ?_
    have hanswer : checkCache s.cache call = .answer true := by
      rw [Option.mem_def] at he
      simp [checkCache, he, isContained_iff.2 hmem, lt_of_lt_of_le hbefore hexp]
    rcases hcases with ⟨hcheck, -⟩ | ⟨_, _, hcheck, -⟩
    · rw [hanswer] at hcheck
      cases hcheck
      rfl
    · rw [hanswer] at hcheck
      cases hcheck

end Grants

/-- After every run: if a call returns true, and no fetch fails in the run after it while
    the token has a list that has not expired, then every later call for the same id and
    token before the expiry of the list returns true, unless a fetch in between has
    delivered a list without the id. -/
theorem grants_survive_outage {interval clock : ℤ} {before after : List Event}
    {s s₁ s₂ s₃ : CapiHistory} {granted later : AuthCall} {authorized : Bool}
    (hbefore : run (CapiHistory.step interval) (CapiHistory.start clock) before = some s)
    (hgranted : s.isAuthorized interval granted = some (true, s₁))
    (hafter : run (CapiHistory.step interval) s₁ after = some s₂)
    (hmeets : Meets (CapiHistory.step interval) NoOutage s₁ after)
    (hsame : later.sourceId = granted.sourceId ∧ later.token = granted.token)
    (hlater : s₂.isAuthorized interval later = some (authorized, s₃)) :
    ∃ e ∈ s₁.cache.lookup granted.token, granted.sourceId ∈ e.sourceIds ∧
      (later.checked < e.expiresAt →
        authorized = true ∨ ∃ between, s₂.fetches = s₁.fetches ++ between ∧
          ∃ f ∈ between, f.Withdraws granted.sourceId granted.token) := by
  have hinv : s.Inv interval := run_preserves (CapiHistory.step interval)
    (fun _ _ _ h hstep => CapiHistory.step_inv h hstep) (CapiHistory.start_inv interval clock)
    hbefore
  obtain ⟨e, he, hmem⟩ := isAuthorized_entry hgranted
  have hstart : Granted interval s₁.fetches granted.sourceId granted.token e.expiresAt s₁ :=
    ⟨expiresAt_le (isAuthorized_inv hinv hgranted) he, [], (List.append_nil _).symm,
      Or.inr (Or.inr ⟨e, he, hmem, le_rfl⟩)⟩
  have hend := run_invariant (CapiHistory.step interval)
    (fun _ _ _ h hok hstep => Granted.step h hok hstep) hstart hmeets hafter
  exact ⟨e, he, hmem, fun hchecked => hend.authorized hsame.1 hsame.2 hchecked hlater⟩

/-! ## An outage -/

/-- A call during an outage. -/
def failingCallAt (now : ℤ) (sourceId : Bytes) : AuthCall :=
  { callAt now sourceId with responses := [none] }

/-- The id `app` is authorized until 61; at 10 a fetch for another id fails, and at 20 `app`
    is no longer authorized. -/
theorem outage_revokes_grant :
    ∃ s₁ ∈ (CapiHistory.start 0).isAuthorized 60 (callAt 0 (lit "app")), s₁.1 = true ∧
      (∃ e ∈ s₁.2.cache.lookup (lit "token"), e.expiresAt = 61) ∧
      ∃ s₂ ∈ s₁.2.step 60 (.call (failingCallAt 10 (lit "other"))),
        fetchFailed (failingCallAt 10 (lit "other")).responses = true ∧
        ∃ r ∈ s₂.isAuthorized 60 (failingCallAt 20 (lit "app")), r.1 = false := by
  decide

/-- Without an outage the later call is answered. -/
theorem grants_survive_successful_fetch :
    ∃ s₁ s₂ s₃, (CapiHistory.start 0).isAuthorized 60 (callAt 0 (lit "app")) = some (true, s₁) ∧
      run (CapiHistory.step 60) s₁ [.call (callAt 10 (lit "other"))] = some s₂ ∧
      s₂.isAuthorized 60 (failingCallAt 20 (lit "app")) = some (true, s₃) ∧
      ∃ e ∈ s₁.cache.lookup (lit "token"), lit "app" ∈ e.sourceIds := by
  have hall : ∃ r₁ ∈ (CapiHistory.start 0).isAuthorized 60 (callAt 0 (lit "app")), r₁.1 = true ∧
      ∃ s₂ ∈ run (CapiHistory.step 60) r₁.2 [.call (callAt 10 (lit "other"))],
        ∃ r₃ ∈ s₂.isAuthorized 60 (failingCallAt 20 (lit "app")), r₃.1 = true := by decide
  obtain ⟨⟨_, s₁⟩, h₁, rfl, s₂, h₂, ⟨_, s₃⟩, h₃, rfl⟩ := hall
  have hbefore : run (CapiHistory.step 60) (CapiHistory.start 0) [] = some (CapiHistory.start 0) :=
    rfl
  have hmeets : Meets (CapiHistory.step 60) NoOutage s₁ [.call (callAt 10 (lit "other"))] :=
    ⟨fun _ _ _ _ _ _ => by decide, fun _ _ => trivial⟩
  have hsame : (failingCallAt 20 (lit "app")).sourceId = (callAt 0 (lit "app")).sourceId ∧
      (failingCallAt 20 (lit "app")).token = (callAt 0 (lit "app")).token := ⟨rfl, rfl⟩
  obtain ⟨e, he, hmem, -⟩ := grants_survive_outage hbefore h₁ h₂ hmeets hsame h₃
  exact ⟨s₁, s₂, s₃, h₁, h₂, h₃, e, he, hmem⟩

end MetricStore.Auth
