import MetricStore.Auth.CapiClient

/-!
# Pages of CAPI resources

Model of `doPaginatedResourceRequest`, `doResourceRequest` and `doRequest`
(`pkg/auth/capi_client.go`, lines 205–267 and 294–317) with the requests they send, and of
`AvailableSourceIDs` (lines 135–168) on top of them.

CAPI answers with a list of resources and a link to the next page. The link is a URL that the
server chooses: it may name any scheme, host, user or path. `doResourceRequest` overwrites the
scheme and the host with those of the request before the URL is used for the next request,
which carries the token of the user again.

What `client.Do` and the JSON decoder make of a request is an input, one outcome after the
other; redirects are part of `client.Do`. `url.Parse`, `http.NewRequest` and `http.StatusText`
are arbitrary functions.

Results:
* `sent_same_origin`: every request goes to the scheme and the host of the first one.
* `paginate_chain`: a chain of pages gives all the resources in order, or an error.
* `pagination_complete`: both, and what follows for `AvailableSourceIDs`.
* `availableSourceIDs_refines`: `availableSourceIDs` over responses is what this model does
  if the two requests can be built.
-/

namespace MetricStore.Auth.Pagination

open MetricStore.Common

/-! ## Model -/

/-- `url.URL`; `opaqueData` is its field `Opaque`. -/
structure URL where
  scheme : Bytes
  opaqueData : Bytes
  user : Option (Bytes × Option Bytes)
  host : Bytes
  path : Bytes
  rawPath : Bytes
  forceQuery : Bool
  rawQuery : Bytes
  fragment : Bytes
  deriving DecidableEq, Repr

/-- The parts of an `http.Request` that the client sets: the URL, the host, and the header
    `Authorization`. -/
structure Request where
  url : URL
  host : Bytes
  authorization : Option Bytes
  deriving DecidableEq, Repr

/-- `resource` (lines 200–203). -/
structure Resource where
  guid : Bytes
  name : Bytes
  deriving DecidableEq, Repr

/-- The body of a response (lines 243–250): the link to the next page, and the resources. -/
structure ResourceList where
  href : Bytes
  resources : List Resource
  deriving DecidableEq, Repr

/-- What comes of a request: an error of `client.Do`, or a status and a body, which may not
    decode. -/
inductive Outcome
  | failed (err : Bytes)
  | response (statusCode : ℕ) (body : Except Bytes ResourceList)

/-- The functions of Go's library: `url.Parse`, `http.NewRequest` for a `GET` without a body,
    and `http.StatusText`. -/
structure Library where
  parse : Bytes → Except Bytes URL
  newRequest : Bytes → Except Bytes Request
  statusText : ℕ → Bytes

variable (lib : Library)

/-- `doResourceRequest` (lines 225–267): the resources, the URL of the next page and the
    error. -/
def doResourceRequest (req : Request) : Outcome → List Resource × Option URL × Option Bytes
  | .failed err =>
    ([], none, some (lit "failed CAPI request (" ++ req.url.path ++ lit ") with error: " ++ err))
  | .response statusCode body =>
    if statusCode ≠ 200 then
      ([], none, some (lit "failed CAPI request (" ++ req.url.path ++ lit ") with status: " ++
        decimal statusCode ++ lit " (" ++ lib.statusText statusCode ++ lit ")"))
    else
      match body with
      | .error err =>
        ([], none, some (lit "failed to decode resource list request (" ++ req.url.path ++
          lit "): " ++ err))
      | .ok apps =>
        if apps.href ≠ [] then
          match lib.parse apps.href with
          | .error err =>
            (apps.resources, none,
              some (lit "failed to parse URL " ++ apps.href ++ lit ": " ++ err))
          | .ok nextPageURL =>
            (apps.resources,
              some { nextPageURL with scheme := req.url.scheme, host := req.url.host }, none)
        else (apps.resources, none, none)

/-- What a call has done: the requests sent, the result, and the outcomes that are left. It has
    no result while it waits for an outcome. -/
structure Pages where
  sent : List Request
  result : Option (Except Bytes (List Resource))
  rest : List Outcome

/-- The loop of `doPaginatedResourceRequest` (lines 208–220) with the resources so far. -/
def paginate (authToken : Bytes) (req : Request) (resources : List Resource) :
    List Outcome → Pages
  | [] => ⟨[{ req with authorization := some authToken }], none, []⟩
  | outcome :: outcomes =>
    let req := { req with authorization := some authToken }
    match doResourceRequest lib req outcome with
    | (_, _, some err) => ⟨[req], some (.error err), outcomes⟩
    | (page, none, none) => ⟨[req], some (.ok (resources ++ page)), outcomes⟩
    | (page, some nextPageURL, none) =>
      let pages := paginate authToken { req with url := nextPageURL } (resources ++ page) outcomes
      { pages with sent := req :: pages.sent }

/-- `doPaginatedResourceRequest` (lines 205–223). -/
def doPaginatedResourceRequest (authToken : Bytes) (req : Request) (outcomes : List Outcome) :
    Pages :=
  paginate lib authToken req [] outcomes

/-- What `AvailableSourceIDs` has done: the requests sent, and the ids; none while it waits. -/
structure Granted where
  sent : List Request
  sourceIDs : Option (List Bytes)

/-- One half of `AvailableSourceIDs` (lines 137–151, and 153–165): the requests for `path`, and
    what to do with their resources. -/
def fetchGuids (externalCapi authToken path : Bytes) (outcomes : List Outcome)
    (next : List Bytes → List Outcome → Granted) : Granted :=
  match lib.newRequest (externalCapi ++ path) with
  | .error _ => ⟨[], some []⟩
  | .ok req =>
    match doPaginatedResourceRequest lib authToken req outcomes with
    | ⟨sent, none, _⟩ => ⟨sent, none⟩
    | ⟨sent, some (.error _), _⟩ => ⟨sent, some []⟩
    | ⟨sent, some (.ok resources), rest⟩ =>
      let granted := next (resources.map Resource.guid) rest
      { granted with sent := sent ++ granted.sent }

/-- `AvailableSourceIDs` (lines 135–168). -/
def availableSourceIDs (externalCapi authToken : Bytes) (outcomes : List Outcome) : Granted :=
  fetchGuids lib externalCapi authToken (lit "/v3/apps") outcomes fun apps outcomes =>
    fetchGuids lib externalCapi authToken (lit "/v3/service_instances") outcomes fun instances _ =>
      ⟨[], some (apps ++ instances)⟩

/-! ## Specification -/

/-- The page of an outcome that is read successfully: the status is 200, the body decodes, and
    the link to the next page is empty or a URL. -/
def pageOf : Outcome → Option ResourceList
  | .failed _ => none
  | .response _ (.error _) => none
  | .response statusCode (.ok apps) =>
    if statusCode = 200 ∧ (apps.href = [] ∨ (lib.parse apps.href).toOption.isSome) then some apps
    else none

/-- A finite chain of pages: every outcome but the last is a page with a link to the next, and
    the last is one without or cannot be read. -/
def IsChain : List Outcome → Prop
  | [] => False
  | [outcome] => ∀ page, pageOf lib outcome = some page → page.href = []
  | outcome :: outcomes =>
    (∃ page, pageOf lib outcome = some page ∧ page.href ≠ []) ∧ IsChain outcomes

/-- Every page of the chain is read successfully. -/
def Readable (chain : List Outcome) : Prop := ∀ outcome ∈ chain, (pageOf lib outcome).isSome

/-- The resources of the pages of a chain. -/
def resourcesOf (chain : List Outcome) : List Resource :=
  chain.flatMap fun outcome => ((pageOf lib outcome).map ResourceList.resources).getD []

/-! ## One page -/

/-- Everything `doResourceRequest` can do. -/
theorem doResourceRequest_cases (req : Request) (outcome : Outcome) :
    pageOf lib outcome = none ∧
        (∃ page err, doResourceRequest lib req outcome = (page, none, some err)) ∨
    (∃ page, pageOf lib outcome = some page ∧ page.href = [] ∧
        doResourceRequest lib req outcome = (page.resources, none, none)) ∨
    ∃ page nextPageURL, pageOf lib outcome = some page ∧ page.href ≠ [] ∧
        nextPageURL.scheme = req.url.scheme ∧ nextPageURL.host = req.url.host ∧
        doResourceRequest lib req outcome = (page.resources, some nextPageURL, none) := by
  cases outcome with
  | failed err => exact .inl ⟨rfl, _, _, rfl⟩
  | response statusCode body =>
    by_cases hstatus : statusCode = 200
    · have hok : ¬ statusCode ≠ 200 := not_not.mpr hstatus
      cases body with
      | error err => exact .inl ⟨rfl, _, _, if_neg hok⟩
      | ok apps =>
        by_cases hhref : apps.href = []
        · refine .inr (.inl ⟨apps, if_pos ⟨hstatus, .inl hhref⟩, hhref, ?_⟩)
          rw [doResourceRequest, if_neg hok, if_neg (not_not.mpr hhref)]
        · cases hparse : lib.parse apps.href with
          | error err =>
            have hpage : pageOf lib (.response statusCode (.ok apps)) = none := by
              rw [pageOf, hparse, if_neg]
              rintro ⟨-, hnil | hsome⟩
              · exact hhref hnil
              · cases hsome
            refine .inl ⟨hpage, apps.resources,
              lit "failed to parse URL " ++ apps.href ++ lit ": " ++ err, ?_⟩
            rw [doResourceRequest, if_neg hok, if_pos hhref, hparse]
          | ok nextPageURL =>
            have hpage : pageOf lib (.response statusCode (.ok apps)) = some apps := by
              rw [pageOf, hparse, if_pos ⟨hstatus, .inr rfl⟩]
            refine .inr (.inr ⟨apps,
              { nextPageURL with scheme := req.url.scheme, host := req.url.host }, hpage, hhref,
              rfl, rfl, ?_⟩)
            rw [doResourceRequest, if_neg hok, if_pos hhref, hparse]
    · refine .inl ⟨?_, _, _, if_pos hstatus⟩
      cases body with
      | error err => rfl
      | ok apps => exact if_neg fun h => hstatus h.1

/-! ## The loop -/

variable {lib} {authToken : Bytes}

section Rounds

variable (authToken) {outcome : Outcome} {page : ResourceList} (req : Request)
  (resources : List Resource) (outcomes : List Outcome)

/-- A page that cannot be read ends the loop with an error. -/
theorem paginate_of_unreadable (h : pageOf lib outcome = none) :
    ∃ err, paginate lib authToken req resources (outcome :: outcomes) =
      ⟨[{ req with authorization := some authToken }], some (.error err), outcomes⟩ := by
  rcases doResourceRequest_cases lib { req with authorization := some authToken } outcome with
    ⟨-, page, err, heq⟩ | ⟨page, hpage, -⟩ | ⟨page, _, hpage, -⟩
  · refine ⟨err, ?_⟩
    rw [paginate, heq]
  · rw [h] at hpage
    cases hpage
  · rw [h] at hpage
    cases hpage

/-- A page without a link ends the loop. -/
theorem paginate_of_last (h : pageOf lib outcome = some page) (hhref : page.href = []) :
    paginate lib authToken req resources (outcome :: outcomes) =
      ⟨[{ req with authorization := some authToken }], some (.ok (resources ++ page.resources)),
        outcomes⟩ := by
  rcases doResourceRequest_cases lib { req with authorization := some authToken } outcome with
    ⟨hpage, -⟩ | ⟨page', hpage, -, heq⟩ | ⟨page', _, hpage, hlink, -⟩
  · rw [h] at hpage
    cases hpage
  · cases h.symm.trans hpage
    rw [paginate, heq]
  · cases h.symm.trans hpage
    exact absurd hhref hlink

/-- After a page with a link the loop goes on, at the same scheme and host. -/
theorem paginate_of_link (h : pageOf lib outcome = some page) (hhref : page.href ≠ []) :
    ∃ req', req'.url.scheme = req.url.scheme ∧ req'.url.host = req.url.host ∧
      req'.host = req.host ∧
      paginate lib authToken req resources (outcome :: outcomes) =
        { paginate lib authToken req' (resources ++ page.resources) outcomes with
          sent := { req with authorization := some authToken } ::
            (paginate lib authToken req' (resources ++ page.resources) outcomes).sent } := by
  rcases doResourceRequest_cases lib { req with authorization := some authToken } outcome with
    ⟨hpage, -⟩ | ⟨page', hpage, hlast, -⟩ | ⟨page', nextPageURL, hpage, -, hscheme, hhost, heq⟩
  · rw [h] at hpage
    cases hpage
  · cases h.symm.trans hpage
    exact absurd hlast hhref
  · cases h.symm.trans hpage
    refine ⟨⟨nextPageURL, req.host, some authToken⟩, hscheme, hhost, rfl, ?_⟩
    rw [paginate, heq]

end Rounds

/-- **Every request goes to the scheme and the host of the first one**, with the token. -/
theorem sent_same_origin {req : Request} {resources : List Resource} {outcomes : List Outcome} :
    ∀ sent ∈ (paginate lib authToken req resources outcomes).sent,
      sent.url.scheme = req.url.scheme ∧ sent.url.host = req.url.host ∧ sent.host = req.host ∧
        sent.authorization = some authToken := by
  induction outcomes generalizing req resources with
  | nil =>
    intro sent hsent
    cases List.mem_singleton.1 hsent
    exact ⟨rfl, rfl, rfl, rfl⟩
  | cons outcome outcomes ih =>
    intro sent hsent
    cases hpage : pageOf lib outcome with
    | none =>
      obtain ⟨err, heq⟩ := paginate_of_unreadable authToken req resources outcomes hpage
      rw [heq] at hsent
      cases List.mem_singleton.1 hsent
      exact ⟨rfl, rfl, rfl, rfl⟩
    | some page =>
      by_cases hhref : page.href = []
      · rw [paginate_of_last authToken req resources outcomes hpage hhref] at hsent
        cases List.mem_singleton.1 hsent
        exact ⟨rfl, rfl, rfl, rfl⟩
      · obtain ⟨req', hscheme, hhost, hreq, heq⟩ :=
          paginate_of_link authToken req resources outcomes hpage hhref
        rw [heq] at hsent
        rcases List.mem_cons.1 hsent with rfl | hsent
        · exact ⟨rfl, rfl, rfl, rfl⟩
        · obtain ⟨hscheme', hhost', hreq', hauth⟩ := ih sent hsent
          exact ⟨hscheme'.trans hscheme, hhost'.trans hhost, hreq'.trans hreq, hauth⟩

theorem resourcesOf_cons {outcome : Outcome} {page : ResourceList}
    (h : pageOf lib outcome = some page) (chain : List Outcome) :
    resourcesOf lib (outcome :: chain) = page.resources ++ resourcesOf lib chain := by
  unfold resourcesOf
  rw [List.flatMap_cons, h]
  rfl

theorem readable_cons {outcome : Outcome} {chain : List Outcome} :
    Readable lib (outcome :: chain) ↔ (pageOf lib outcome).isSome ∧ Readable lib chain :=
  List.forall_mem_cons

/-- **A chain of pages** is read to its end: the result is an error if a page cannot be read,
    and otherwise the resources of all of them, in order. -/
theorem paginate_chain {chain : List Outcome} (h : IsChain lib chain) (req : Request)
    (resources : List Resource) (rest : List Outcome) :
    (paginate lib authToken req resources (chain ++ rest)).rest = rest ∧
    (Readable lib chain → (paginate lib authToken req resources (chain ++ rest)).result =
      some (.ok (resources ++ resourcesOf lib chain))) ∧
    (¬ Readable lib chain → ∃ err,
      (paginate lib authToken req resources (chain ++ rest)).result = some (.error err)) := by
  induction chain generalizing req resources with
  | nil => exact h.elim
  | cons outcome chain ih =>
    rw [readable_cons, List.cons_append]
    cases chain with
    | nil =>
      -- the last outcome
      rw [List.nil_append]
      cases hpage : pageOf lib outcome with
      | none =>
        obtain ⟨err, heq⟩ := paginate_of_unreadable authToken req resources rest hpage
        rw [heq]
        refine ⟨rfl, ?_, fun _ => ⟨err, rfl⟩⟩
        rintro ⟨hsome, -⟩
        cases hsome
      | some page =>
        rw [paginate_of_last authToken req resources rest hpage (h page hpage),
          resourcesOf_cons hpage]
        refine ⟨rfl, fun _ => ?_, fun hnot => ?_⟩
        · rw [resourcesOf, List.flatMap_nil, List.append_nil]
        · exact absurd ⟨rfl, by simp [Readable]⟩ hnot
    | cons next chain =>
      obtain ⟨⟨page, hpage, hhref⟩, hchain⟩ := h
      obtain ⟨req', -, -, -, heq⟩ :=
        paginate_of_link authToken req resources (next :: chain ++ rest) hpage hhref
      rw [heq, hpage, resourcesOf_cons hpage, ← List.append_assoc]
      obtain ⟨hrest', hread, hfail⟩ := ih hchain req' (resources ++ page.resources)
      exact ⟨hrest', fun hall => hread hall.2, fun hnot => hfail fun hall => hnot ⟨rfl, hall⟩⟩

/-! ## `AvailableSourceIDs` -/

section Grant

variable {chain : List Outcome} {externalCapi path : Bytes}
  {next : List Bytes → List Outcome → Granted}

/-- What `fetchGuids` grants after the loop over the pages. -/
theorem fetchGuids_of_request {req : Request} (h : lib.newRequest (externalCapi ++ path) = .ok req)
    (outcomes : List Outcome) :
    (fetchGuids lib externalCapi authToken path outcomes next).sourceIDs =
      match (paginate lib authToken req [] outcomes).result with
      | none => none
      | some (.error _) => some []
      | some (.ok resources) =>
        (next (resources.map Resource.guid)
          (paginate lib authToken req [] outcomes).rest).sourceIDs := by
  unfold fetchGuids doPaginatedResourceRequest
  rw [h]
  dsimp only
  rcases paginate lib authToken req [] outcomes with ⟨sent, _ | _ | resources, rest⟩
  · rfl
  · rfl
  · rfl

/-- A chain with a page that cannot be read grants nothing. -/
theorem fetchGuids_of_unreadable (h : IsChain lib chain) (hfail : ¬ Readable lib chain)
    (rest : List Outcome) :
    (fetchGuids lib externalCapi authToken path (chain ++ rest) next).sourceIDs = some [] := by
  cases hreq : lib.newRequest (externalCapi ++ path) with
  | error err =>
    unfold fetchGuids
    rw [hreq]
  | ok req =>
    obtain ⟨-, -, hresult⟩ := paginate_chain h req [] rest
    obtain ⟨err, herr⟩ := hresult hfail
    rw [fetchGuids_of_request hreq, herr]

/-- After a chain that is read `AvailableSourceIDs` goes on, if it could build the request. -/
theorem fetchGuids_of_readable (h : IsChain lib chain) (hread : Readable lib chain)
    (rest : List Outcome) :
    (fetchGuids lib externalCapi authToken path (chain ++ rest) next).sourceIDs =
      match lib.newRequest (externalCapi ++ path) with
      | .error _ => some []
      | .ok _ => (next ((resourcesOf lib chain).map Resource.guid) rest).sourceIDs := by
  cases hreq : lib.newRequest (externalCapi ++ path) with
  | error err =>
    unfold fetchGuids
    rw [hreq]
  | ok req =>
    obtain ⟨hrest, hresult, -⟩ := paginate_chain h req [] rest
    rw [fetchGuids_of_request hreq, hresult hread, hrest, List.nil_append]

end Grant

/-- **Pagination is complete and keeps the token.** Whatever the pages link to, every request
    goes to the scheme and the host of the first one. A finite chain of pages gives all their
    resources in order if every page is read, and otherwise an error; then
    `AvailableSourceIDs` grants nothing. -/
theorem pagination_complete (lib : Library) (authToken : Bytes) :
    (∀ (req : Request) (outcomes : List Outcome),
      ∀ sent ∈ (doPaginatedResourceRequest lib authToken req outcomes).sent,
        sent.url.scheme = req.url.scheme ∧ sent.url.host = req.url.host) ∧
    (∀ (req : Request) (chain rest : List Outcome), IsChain lib chain →
      (Readable lib chain →
        (doPaginatedResourceRequest lib authToken req (chain ++ rest)).result =
          some (.ok (resourcesOf lib chain))) ∧
      (¬ Readable lib chain → ∃ err,
        (doPaginatedResourceRequest lib authToken req (chain ++ rest)).result =
          some (.error err))) ∧
    ∀ (externalCapi : Bytes) (apps instances rest : List Outcome), IsChain lib apps →
      (¬ Readable lib apps →
        (availableSourceIDs lib externalCapi authToken (apps ++ rest)).sourceIDs = some []) ∧
      (IsChain lib instances → ¬ Readable lib instances →
        (availableSourceIDs lib externalCapi authToken
          (apps ++ (instances ++ rest))).sourceIDs = some []) := by
  refine ⟨fun req outcomes sent hsent => ?_, fun req chain rest hchain => ?_,
    fun externalCapi apps instances rest happs => ⟨fun hfail => ?_, fun hinstances hfail => ?_⟩⟩
  · obtain ⟨hscheme, hhost, -⟩ := sent_same_origin sent hsent
    exact ⟨hscheme, hhost⟩
  · exact (paginate_chain hchain req [] rest).2
  · exact fetchGuids_of_unreadable happs hfail rest
  · by_cases hread : Readable lib apps
    · unfold availableSourceIDs
      rw [fetchGuids_of_readable happs hread]
      split
      · rfl
      · exact fetchGuids_of_unreadable hinstances hfail rest
    · exact fetchGuids_of_unreadable happs hread (instances ++ rest)

/-- A library for which every link names another host, without encryption. -/
def elsewhere : Library where
  parse href := .ok ⟨lit "http", [], none, lit "elsewhere", href, [], false, [], []⟩
  newRequest url :=
    .ok ⟨⟨lit "https", [], none, lit "capi", url, [], false, [], []⟩, lit "capi", none⟩
  statusText _ := lit "Internal Server Error"

/-- Two pages, the first of which links to another host. -/
def twoPages : List Outcome :=
  [.response 200 (.ok ⟨lit "http://elsewhere/v3/apps?page=2", [⟨lit "app-1", lit "app"⟩]⟩),
    .response 200 (.ok ⟨[], [⟨lit "app-2", lit "app"⟩]⟩)]

/-- Both requests for the two pages go to CAPI, and both resources are returned; if the second
    page cannot be read nothing is granted. -/
theorem pagination_complete_twoPages :
    IsChain elsewhere twoPages ∧ Readable elsewhere twoPages ∧
    (∀ req, (doPaginatedResourceRequest elsewhere (lit "token") req twoPages).sent.map
      (fun sent => (sent.url.scheme, sent.url.host)) =
        [(req.url.scheme, req.url.host), (req.url.scheme, req.url.host)]) ∧
    (∀ req, (doPaginatedResourceRequest elsewhere (lit "token") req twoPages).result =
      some (.ok [⟨lit "app-1", lit "app"⟩, ⟨lit "app-2", lit "app"⟩])) ∧
    (availableSourceIDs elsewhere (lit "https://capi") (lit "token")
      (twoPages.take 1 ++ [.response 500 (.error [])])).sourceIDs = some [] := by
  obtain ⟨-, hchain, hgrant⟩ := pagination_complete elsewhere (lit "token")
  have htwo : IsChain elsewhere twoPages := by
    refine ⟨⟨_, rfl, by decide⟩, ?_⟩
    rintro page hpage
    cases hpage
    rfl
  have hread : Readable elsewhere twoPages := by
    simp only [Readable, twoPages, List.forall_mem_cons]
    decide
  refine ⟨htwo, hread, fun req => rfl, fun req => ?_, ?_⟩
  · have hresult := (hchain req twoPages [] htwo).1 hread
    rw [List.append_nil] at hresult
    exact hresult
  · have hcut : IsChain elsewhere (twoPages.take 1 ++ [.response 500 (.error [])]) := by
      refine ⟨⟨_, rfl, by decide⟩, ?_⟩
      rintro page hpage
      cases hpage
    have hfail : ¬ Readable elsewhere (twoPages.take 1 ++ [.response 500 (.error [])]) := by
      intro hall
      have := hall (.response 500 (.error [])) (by simp)
      cases this
    have hnothing := (hgrant (lit "https://capi") _ [] [] hcut).1 hfail
    rw [List.append_nil] at hnothing
    exact hnothing

/-! ## The model without requests -/

variable (lib) in
/-- What the model without requests keeps of an outcome. -/
def responseOf (outcome : Outcome) : Response :=
  (pageOf lib outcome).map fun page => ⟨page.resources.map Resource.guid, page.href ≠ []⟩

variable (lib authToken) in
/-- The loop over responses reads the same pages. -/
theorem paginate_refines (req : Request) (resources : List Resource) (outcomes : List Outcome) :
    ((paginate lib authToken req resources outcomes).result.map fun result =>
      (result.toOption.map (List.map Resource.guid),
        (paginate lib authToken req resources outcomes).rest.map (responseOf lib))) =
    (Auth.doPaginatedResourceRequest (outcomes.map (responseOf lib))).map fun read =>
      (read.1.map (resources.map Resource.guid ++ ·), read.2) := by
  induction outcomes generalizing req resources with
  | nil => rfl
  | cons outcome outcomes ih =>
    rw [List.map_cons]
    cases hpage : pageOf lib outcome with
    | none =>
      obtain ⟨err, heq⟩ := paginate_of_unreadable authToken req resources outcomes hpage
      have hresponse : responseOf lib outcome = none := by rw [responseOf, hpage, Option.map_none]
      rw [heq, hresponse]
      rfl
    | some page =>
      have hresponse : responseOf lib outcome =
          some ⟨page.resources.map Resource.guid, page.href ≠ []⟩ := by
        rw [responseOf, hpage, Option.map_some]
      rw [hresponse, Auth.doPaginatedResourceRequest]
      by_cases hhref : page.href = []
      · rw [paginate_of_last authToken req resources outcomes hpage hhref,
          if_neg (by simp [hhref])]
        simp [Except.toOption]
      · obtain ⟨req', -, -, -, heq⟩ :=
          paginate_of_link authToken req resources outcomes hpage hhref
        rw [heq, if_pos (by simp [hhref]), ih]
        simp [Option.map_map, Function.comp_def]

/-- One half of `AvailableSourceIDs` over responses. -/
theorem fetchGuids_refines {externalCapi path : Bytes} {req : Request}
    {next : List Bytes → List Outcome → Granted}
    {nextIDs : List Bytes → List Response → Option (List Bytes)}
    (hreq : lib.newRequest (externalCapi ++ path) = .ok req)
    (hnext : ∀ guids outcomes,
      (next guids outcomes).sourceIDs = nextIDs guids (outcomes.map (responseOf lib)))
    (outcomes : List Outcome) :
    (fetchGuids lib externalCapi authToken path outcomes next).sourceIDs =
      match Auth.doPaginatedResourceRequest (outcomes.map (responseOf lib)) with
      | none => none
      | some (none, _) => some []
      | some (some guids, rest) => nextIDs guids rest := by
  have hpages := paginate_refines lib authToken req [] outcomes
  simp only [List.map_nil, List.nil_append, Option.map_id', Prod.mk.eta] at hpages
  rw [fetchGuids_of_request hreq, ← hpages]
  rcases paginate lib authToken req [] outcomes with ⟨sent, _ | _ | resources, rest⟩
  · rfl
  · rfl
  · exact hnext _ _

/-- **The model without requests**: its `availableSourceIDs` is what this one grants, if the two
    requests can be built. -/
theorem availableSourceIDs_refines {externalCapi : Bytes} {apps instances : Request}
    (happs : lib.newRequest (externalCapi ++ lit "/v3/apps") = .ok apps)
    (hinstances : lib.newRequest (externalCapi ++ lit "/v3/service_instances") = .ok instances)
    (outcomes : List Outcome) :
    (availableSourceIDs lib externalCapi authToken outcomes).sourceIDs =
      Auth.availableSourceIDs (outcomes.map (responseOf lib)) :=
  fetchGuids_refines happs
    (fun _ outcomes => fetchGuids_refines hinstances (fun _ _ => rfl) outcomes) outcomes

end MetricStore.Auth.Pagination
