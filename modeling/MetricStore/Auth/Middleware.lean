import MetricStore.Common.HttpForm
import MetricStore.Auth.QueryParser

/-!
# The authorization middleware

Model of `CFAuthMiddlewareProvider.Middleware` (`pkg/auth/cf_auth_middleware.go`,
lines 59–151), which decides what the proxy forwards to the metric store, and of
the part of the store's Prometheus API that picks the query text: `/query` and
`/query_range` are registered for `GET` and `POST` and evaluate
`r.FormValue("query")`.

The middleware checks `r.URL.Query().Get("query")`. The two agree unless the
request's body has a `query` value that takes the place of the URL's.

The token reader, the authorizer and the PromQL parser are parameters. A path that
the router would first redirect to its cleaned form is not considered.

Results:
* `authorization_complete_iff`: the query the store evaluates passes the check,
  unless it comes from the body, fails the check and the URL's passes it.
* `body_query_bypasses_check`: a `POST` that reads another tenant's metrics.
-/

namespace MetricStore.Auth

open MetricStore.Common MetricStore.Common.Http

/-! ## Model -/

/-- `Oauth2ClientContext` (lines 26–30), without the expiry. -/
structure Oauth2ClientContext where
  isAdmin : Bool
  token : Bytes
  deriving DecidableEq, Repr

/-- `CFAuthMiddlewareProvider` (lines 15–24): what it calls. -/
structure Provider where
  read : Bytes → Except String Oauth2ClientContext
  isAuthorized : Bytes → Bytes → Bool
  parseExpr : Bytes → Except String Expr
  order : MapOrder Bytes

/-- What the middleware does with a request: an error with a status and a text, or
    the next handler. -/
inductive Outcome
  | error (status : ℕ) (text : String)
  | forward
  deriving DecidableEq, Repr

/-- The handlers of the router (lines 62–122). -/
inductive Route
  | query
  | onlyAdmin
  | health
  | notFound
  deriving DecidableEq, Repr

/-- A path of the form `/api/v1/label/{metric_name:[^/]*}/values`. -/
def isLabelValues (path : String) : Bool :=
  match path.splitOn "/" with
  | ["", "api", "v1", "label", _, "values"] => true
  | _ => false

/-- The router: the first pattern that matches. -/
def route (path : String) : Route :=
  if path = "/api/v1/query" ∨ path = "/api/v1/query_range" then .query
  else if path ∈ ["/api/v1/labels", "/api/v1/series", "/api/v1/rules", "/api/v1/alerts"] then
    .onlyAdmin
  else if isLabelValues path then .onlyAdmin
  else if path = "/health" then .health
  else if path.startsWith "/rules/" then .onlyAdmin
  else .notFound

namespace Provider

/-- `ExtractSourceIds` of the provider's parser. -/
def sourceIds (m : Provider) (query : Bytes) : Except String (List Bytes) :=
  extractSourceIds m.parseExpr m.order query

/-- `authorized` (lines 127–135). -/
def authorized (m : Provider) (sourceIds : List Bytes) (c : Oauth2ClientContext) : Bool :=
  sourceIds.all fun sourceId => m.isAuthorized sourceId c.token

/-- The handler of `/api/v1/query` and `/api/v1/query_range` (lines 62–97). -/
def handleQuery (m : Provider) (r : Request) : Outcome :=
  if r.authorization = [] then .error 404 "missing auth token"
  else
    match m.read r.authorization with
    | .error _ => .error 404 "failed to read from Oauth2 server"
    | .ok userContext =>
      if userContext.isAdmin then .forward
      else
        match m.sourceIds (r.urlValue (lit "query")) with
        | .error e => .error 422 ("query parse error: " ++ e)
        | .ok relevantSourceIds =>
          if m.authorized relevantSourceIds userContext then .forward
          else .error 401 "there are no matching source IDs for your query"

/-- `handleOnlyAdmin` (lines 137–152). -/
def handleOnlyAdmin (m : Provider) (r : Request) : Outcome :=
  match m.read r.authorization with
  | .error _ => .error 404 "failed to read from Oauth2 server"
  | .ok userContext => if userContext.isAdmin then .forward else .error 404 ""

/-- `Middleware` (lines 59–125). -/
def middleware (m : Provider) (r : Request) : Outcome :=
  match route r.path with
  | .query => m.handleQuery r
  | .onlyAdmin => m.handleOnlyAdmin r
  | .health => .forward
  | .notFound => .error 404 "404 page not found"

end Provider

/-- The PromQL text that the metric store evaluates for a request to `/api/v1/query`
    or `/api/v1/query_range`; it answers no other method than `GET` and `POST`. -/
def backendQuery (r : Request) : Option Bytes :=
  if r.method = .get ∨ r.method = .post then some (r.formValue (lit "query")) else none

/-! ## Completeness of the check -/

namespace Provider

/-- Every source id of the query is one the token may read. -/
def Allows (m : Provider) (c : Oauth2ClientContext) (query : Bytes) : Prop :=
  ∃ ids, m.sourceIds query = .ok ids ∧ ∀ id ∈ ids, m.isAuthorized id c.token = true

/-- Authorization is complete for a request: if it is a query of a non-admin token and
    it is forwarded, the text the store evaluates is allowed. -/
def Complete (m : Provider) (r : Request) : Prop :=
  ∀ c, route r.path = .query → m.read r.authorization = .ok c → c.isAdmin = false →
    m.middleware r = .forward → ∀ text ∈ backendQuery r, m.Allows c text

/-- A query of a non-admin token, made with `GET` or `POST`, whose `query` value in the
    URL is allowed, and whose body has a `query` value that takes its place and is not. -/
def Bypassed (m : Provider) (r : Request) : Prop :=
  route r.path = .query ∧ r.authorization ≠ [] ∧ (r.method = .get ∨ r.method = .post) ∧
    ∃ c, m.read r.authorization = .ok c ∧ c.isAdmin = false ∧
      ∃ v ∈ r.bodyValue (lit "query"), m.Allows c (r.urlValue (lit "query")) ∧ ¬ m.Allows c v

variable {m : Provider} {r : Request} {c : Oauth2ClientContext}

/-- What the middleware forwards of a non-admin token. -/
theorem middleware_eq_forward_iff (hroute : route r.path = .query)
    (hread : m.read r.authorization = .ok c) (hadmin : c.isAdmin = false) :
    m.middleware r = .forward ↔
      r.authorization ≠ [] ∧ m.Allows c (r.urlValue (lit "query")) := by
  unfold middleware handleQuery Allows
  simp only [hroute, hread, hadmin, Bool.false_eq_true, if_false]
  by_cases hauth : r.authorization = []
  · simp [hauth]
  · rw [if_neg hauth]
    cases m.sourceIds (r.urlValue (lit "query")) with
    | error e => simp
    | ok ids =>
      unfold authorized
      dsimp only
      by_cases hall : ∀ id ∈ ids, m.isAuthorized id c.token = true
      · rw [if_pos (List.all_eq_true.mpr hall)]
        simpa [hauth] using hall
      · rw [if_neg fun h => hall (List.all_eq_true.mp h)]
        simpa [hauth] using hall

theorem mem_backendQuery_iff {text : Bytes} : text ∈ backendQuery r ↔
    (r.method = .get ∨ r.method = .post) ∧
      text = (r.bodyValue (lit "query")).getD (r.urlValue (lit "query")) := by
  unfold backendQuery
  rw [Request.formValue_eq]
  split_ifs with hm
  · rw [Option.mem_some_iff]
    exact ⟨fun h => ⟨hm, h.symm⟩, fun h => h.2.symm⟩
  · simp [hm]

/-- **Completeness of query authorization.** For every request, whatever its method, its
    query string and its body: authorization is complete unless the body's `query`
    value takes the place of an allowed one in the URL and is not allowed itself. -/
theorem authorization_complete_iff (m : Provider) (r : Request) :
    m.Complete r ↔ ¬ m.Bypassed r := by
  constructor
  · rintro hcomplete ⟨hroute, hauth, hmethod, c, hread, hadmin, v, hv, hurl, hbody⟩
    have hforward := (middleware_eq_forward_iff hroute hread hadmin).mpr ⟨hauth, hurl⟩
    have hv' : r.bodyValue (lit "query") = some v := hv
    refine hbody (hcomplete c hroute hread hadmin hforward v ?_)
    rw [mem_backendQuery_iff, hv']
    exact ⟨hmethod, rfl⟩
  · intro hbypass c hroute hread hadmin hforward text htext
    obtain ⟨hauth, hurl⟩ := (middleware_eq_forward_iff hroute hread hadmin).mp hforward
    obtain ⟨hmethod, rfl⟩ := mem_backendQuery_iff.mp htext
    cases hv : r.bodyValue (lit "query") with
    | none => exact hurl
    | some v =>
      by_contra hnot
      exact hbypass ⟨hroute, hauth, hmethod, c, hread, hadmin, v, hv, hurl, hnot⟩

end Provider

/-! ## A request that gets around the check -/

/-- A tenant that may read the source id `mine`; the parser is given on two queries. -/
def tenant : Provider where
  read := fun _ => .ok ⟨false, lit "token"⟩
  isAuthorized := fun id _ => id = lit "mine"
  parseExpr := fun query =>
    if query = lit "up\x7bsource_id=\"mine\"\x7d" then
      .ok (.vectorSelector [⟨.equal, lit "__name__", lit "up"⟩, ⟨.equal, lit "source_id", lit "mine"⟩])
    else if query = lit "up\x7bsource_id=\"theirs\"\x7d" then
      .ok (.vectorSelector
        [⟨.equal, lit "__name__", lit "up"⟩, ⟨.equal, lit "source_id", lit "theirs"⟩])
    else .error "parse error"
  order := ⟨id, fun _ => .refl _⟩

/-- A `POST` with its own source id in the URL and another's in the body. -/
def smuggled : Request where
  method := .post
  path := "/api/v1/query"
  rawQuery := lit "query=up%7Bsource_id%3D%22mine%22%7D"
  authorization := lit "bearer token"
  body := .urlencoded (lit "query=up%7Bsource_id%3D%22theirs%22%7D")

/-- The middleware forwards the request, and the store evaluates the other query. -/
theorem body_query_bypasses_check :
    tenant.middleware smuggled = .forward ∧
      backendQuery smuggled = some (lit "up\x7bsource_id=\"theirs\"\x7d") ∧
      ¬ tenant.Complete smuggled := by
  have hforward : tenant.middleware smuggled = .forward := by decide
  have hquery : backendQuery smuggled = some (lit "up\x7bsource_id=\"theirs\"\x7d") := by decide
  refine ⟨hforward, hquery, fun hcomplete => ?_⟩
  obtain ⟨ids, hids, hall⟩ := hcomplete ⟨false, lit "token"⟩ (by decide) rfl rfl hforward _ hquery
  have htheirs : tenant.sourceIds (lit "up\x7bsource_id=\"theirs\"\x7d") = .ok [lit "theirs"] := by
    decide
  rw [htheirs] at hids
  cases hids
  exact absurd (hall (lit "theirs") (by simp)) (by decide)

end MetricStore.Auth
