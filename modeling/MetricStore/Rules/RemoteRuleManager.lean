import MetricStore.Common.HttpForm
import MetricStore.Rules.LocalRuleManager

/-!
# Rule managers of other nodes

Model of `RulesAPI` (`internal/api/rules_api.go`, lines 78–190), of the `RulesClient` that
calls it (`pkg/rulesclient/rulesclient.go`), and of `RemoteRuleManager`
(`internal/rules/remote_rule_manager.go`, lines 63–106), which is the `RulesClient` of
another node's private `RulesAPI` over its `LocalRuleManager`.

The connection loses nothing, and a JSON text is represented by the value that it decodes
to. The client writes the identifier of a manager into the path of the URL as it is; the
server reads it from the path that `url.Parse` finds there. A request that no route
matches is answered by a page that is not JSON, and one that is not answered ends with an
error of the client, which waits for five seconds. The checks of certificates by
`crypto/tls` and `crypto/x509` are parameters (`ApiLibrary`).

`ReplicatedRuleManager` calls a `LocalRuleManager` if the manager belongs to the node that
was addressed, and a `RemoteRuleManager` if not; with one replica it returns the result of
that call.

Results:
* `outcomeOf_local`: the outcome of a call on the node, by its disk, its managers and how the
  operations of the call end.
* `comesThrough_deleteManager_iff`: which deletions come through if the identifier arrives as
  it is.
* `remote_agrees_iff`: which calls have the same outcome through a `RemoteRuleManager`, and
  that the status of a response does not depend on the node exactly for those.
* `missing_manager_reported_differently`: `UpsertRuleGroup` for a manager that does not
  exist is not one of them.
-/

namespace MetricStore.Rules

open MetricStore.Common MetricStore.Common.FilePath MetricStore.Common.Http

/-! ## Responses -/

/-- The text of an error. -/
def Error.text : Error → Bytes
  | .managerExists => lit "The manager already exists"
  | .managerNotExists => lit "The manager does not exist"
  | .other text => text

/-- `ApiError` (`rulesclient.go`, lines 22–25). -/
structure ApiError where
  status : ℕ
  title : Bytes
  deriving DecidableEq

/-- The body of a response: a manager, a rule group, `ApiErrors`, nothing, or a text that
    is not JSON, with the error of `json.Unmarshal`. -/
inductive ResponseBody
  | manager (payload : Payload)
  | group (document : RuleGroupDocument)
  | errors (errors : List ApiError)
  | empty
  | page (parseError : Bytes)
  deriving DecidableEq

structure Response where
  statusCode : ℕ
  body : ResponseBody
  deriving DecidableEq

def statusCreated : ℕ := 201
def statusNoContent : ℕ := 204
def statusBadRequest : ℕ := 400
def statusNotFound : ℕ := 404
def statusConflict : ℕ := 409
def statusInternalServerError : ℕ := 500

/-- `respondError` (lines 220–235). -/
def respondError (e : ApiError) : Response := ⟨e.status, .errors [e]⟩

/-- The response to a request that no route matches. -/
def notFound : Response :=
  ⟨statusNotFound, .page (lit "invalid character 'p' after top-level value")⟩

/-! ## `RulesAPI` -/

/-- What the API takes from outside: the next `uuid.New`, the checks of certificates, and
    the order of the range over the alertmanagers. -/
structure ApiLibrary where
  generateId : Bytes
  appendCertsFromPEM : Bytes → Bool
  x509KeyPair : Bytes → Bytes → Option Bytes
  order : MapOrder ℕ

section Validate

variable (api : ApiLibrary)

/-- `validateCACert` (`manager_config.go`, lines 68–76). -/
def validateCACert (caCert : Bytes) : Option Bytes :=
  if certificateRegexp caCert && !api.appendCertsFromPEM caCert then
    some (lit "unable to use specified CA cert " ++ caCert)
  else none

/-- `validateCertAndKey` (lines 78–84). -/
def validateCertAndKey (cert key : Bytes) : Option Bytes :=
  if certificateRegexp cert || certificateRegexp key then api.x509KeyPair cert key else none

/-- `ManagerConfig.Validate` (lines 49–66): the first error. -/
def ManagerConfig.validate (m : ManagerConfig) : Option Bytes :=
  let configs := m.alertmanagers.getD []
  (api.order.iterate (List.range configs.length)).findSome? fun i =>
    match validateCACert api (certificateAt configs i .ca) with
    | some err => some err
    | none => validateCertAndKey api (certificateAt configs i .cert) (certificateAt configs i .key)

/-- `GenerateId`, if there is no identifier. -/
def ManagerConfig.withId (m : ManagerConfig) : ManagerConfig :=
  if m.id = [] then ⟨api.generateId, m.alertmanagers⟩ else m

end Validate

/-- The error of `createManager` (lines 97–114). -/
def createError (managerId : Bytes) : Error → ApiError
  | .managerExists => ⟨statusConflict,
      lit "Could not create ruleManager, a ruleManager with name " ++ managerId ++
        lit " already exists"⟩
  | e => ⟨statusInternalServerError, e.text⟩

/-- The error of `deleteManager` (lines 128–145). -/
def deleteError (managerId : Bytes) : Error → ApiError
  | .managerNotExists => ⟨statusNotFound,
      lit "Could not delete ruleManager, a ruleManager with name " ++ managerId ++
        lit " does not exist"⟩
  | e => ⟨statusInternalServerError, e.text⟩

/-- The error of `upsertRuleGroup` (lines 168–185): a bad request, if there is no such
    manager. -/
def upsertError : Error → ApiError
  | .managerNotExists => ⟨statusBadRequest, Error.managerNotExists.text⟩
  | e => ⟨statusInternalServerError, e.text⟩

section Handlers

variable {σ : Type} (api : ApiLibrary) (lib : RuleLibrary) (m : RuleManager σ)

/-- `createManager` (lines 78–119), with what the body decodes to. -/
def RulesAPI.createManager (body : Except Bytes Payload) (s : σ) : σ × Response :=
  match body with
  | .error err => (s, respondError ⟨statusBadRequest, err⟩)
  | .ok payload =>
    let managerConfig := (managerConfigFromJSON payload).withId api
    match managerConfig.validate api with
    | some err => (s, respondError ⟨statusBadRequest, err⟩)
    | none =>
      let r := m.createManager managerConfig.id managerConfig.alertmanagers s
      match r.2 with
      | .error e => (r.1, respondError (createError managerConfig.id e))
      | .ok manager =>
        (r.1, ⟨statusCreated, .manager (ManagerConfig.mk manager.id manager.alertManagers).toJSON⟩)

/-- `deleteManager` (lines 121–148); there is no response if the rule manager does not
    return. -/
def RulesAPI.deleteManager (managerId : Bytes) (s : σ) : σ × Option Response :=
  let r := m.deleteManager managerId s
  match r.2 with
  | .error e => (r.1, some (respondError (deleteError managerId e)))
  | .ok => (r.1, some ⟨statusNoContent, .empty⟩)
  | .blocked => (r.1, none)

/-- `upsertRuleGroup` (lines 150–190), with what the body decodes to. -/
def RulesAPI.upsertRuleGroup (managerId : Bytes) (body : Except Bytes RuleGroupDocument)
    (s : σ) : σ × Option Response :=
  match body.bind fun document => document.decode lib.fractionNanos with
  | .error err => (s, some (respondError ⟨statusBadRequest, err⟩))
  | .ok ruleGroup =>
    match ruleGroup.validate lib with
    | some err => (s, some (respondError ⟨statusBadRequest, err⟩))
    | none =>
      let r := m.upsertRuleGroup managerId ruleGroup s
      match r.2 with
      | .error e => (r.1, some (respondError (upsertError e)))
      | .ok => (r.1, some ⟨statusCreated, .group ruleGroup.toJSON⟩)
      | .blocked => (r.1, none)

/-- A request of the API. -/
inductive ApiRequest
  | createManager (body : Except Bytes Payload)
  | deleteManager (managerId : Bytes)
  | upsertRuleGroup (managerId : Bytes) (body : Except Bytes RuleGroupDocument)

/-- The response to a request, if there is one. -/
def RulesAPI.serve (s : σ) : ApiRequest → σ × Option Response
  | .createManager body =>
    let r := RulesAPI.createManager api m body s
    (r.1, some r.2)
  | .deleteManager managerId => RulesAPI.deleteManager m managerId s
  | .upsertRuleGroup managerId body => RulesAPI.upsertRuleGroup lib m managerId body s

/-- The call of the rule manager that a request leads to, unless it is a bad one. -/
def ApiRequest.call? : ApiRequest → Option Call
  | .createManager (.error _) => none
  | .createManager (.ok payload) =>
    let managerConfig := (managerConfigFromJSON payload).withId api
    if managerConfig.validate api = none then
      some (.createManager managerConfig.id managerConfig.alertmanagers)
    else none
  | .deleteManager managerId => some (.deleteManager managerId)
  | .upsertRuleGroup managerId body =>
    match body.bind fun document => document.decode lib.fractionNanos with
    | .error _ => none
    | .ok ruleGroup =>
      if ruleGroup.validate lib = none then some (.upsertRuleGroup managerId ruleGroup) else none

/-! ## `RulesClient` -/

/-- What follows `/private/rules/manager` in the path of a request, if it reaches the
    router: a path that is not clean is redirected. -/
def routerParams (path : Bytes) : Option (List Bytes) :=
  let cs := components path
  if cs.take 4 = [[], lit "private", lit "rules", lit "manager"] ∧ ∀ c ∈ cs.drop 4, Plain c then
    some (cs.drop 4)
  else none

/-- The route `DELETE /manager/:manager_id`. -/
def deleteRoute (path : Bytes) : Option Bytes :=
  match routerParams path with
  | some [managerId] => some managerId
  | _ => none

/-- The route `POST /manager/:manager_id/group`. -/
def groupRoute (path : Bytes) : Option Bytes :=
  match routerParams path with
  | some [managerId, last] => if last = lit "group" then some managerId else none
  | _ => none

/-- `extractFirstError` (lines 186–206). -/
def extractFirstError (resp : Response) : ApiError :=
  match resp.body with
  | .errors (e :: _) => e
  | .errors [] => ⟨0, []⟩
  | .manager _ => ⟨0, []⟩
  | .group _ => ⟨0, []⟩
  | .empty => ⟨statusBadRequest, lit "unexpected end of JSON input"⟩
  | .page parseError => ⟨statusBadRequest, parseError⟩

/-- The error of a request that is not answered in time (lines 49–52). -/
def timeoutError : ApiError :=
  ⟨statusInternalServerError,
    lit "net/http: request canceled (Client.Timeout exceeded while awaiting headers)"⟩

/-- `RulesClient.CreateManager` (lines 114–136). -/
def RulesClient.createManager (managerId : Bytes) (alertmanagerConfigs : Option AlertmanagerConfigs)
    (s : σ) : σ × Except ApiError ManagerConfig :=
  let r := RulesAPI.createManager api m
    (.ok (ManagerConfig.mk managerId alertmanagerConfigs).toJSON) s
  if r.2.statusCode ≠ statusCreated then (r.1, .error (extractFirstError r.2))
  else
    match r.2.body with
    | .manager payload => (r.1, .ok (managerConfigFromJSON payload))
    | _ => (r.1, .error ⟨statusInternalServerError, lit "unexpected response"⟩)

/-- `RulesClient.DeleteManager` (lines 172–184). -/
def RulesClient.deleteManager (managerId : Bytes) (s : σ) : σ × Option ApiError :=
  match urlPath (lit "/private/rules/manager/" ++ managerId) with
  | none => (s, some ⟨statusInternalServerError, lit "invalid URL"⟩)
  | some path =>
    let r :=
      match deleteRoute path with
      | some managerId => RulesAPI.deleteManager m managerId s
      | none => (s, some notFound)
    match r.2 with
    | none => (r.1, some timeoutError)
    | some resp =>
      if resp.statusCode ≠ statusNoContent then (r.1, some (extractFirstError resp))
      else (r.1, none)

/-- `RulesClient.UpsertRuleGroup` (lines 138–170). -/
def RulesClient.upsertRuleGroup (managerId : Bytes) (ruleGroup : RuleGroup) (s : σ) :
    σ × Option ApiError :=
  match urlPath (lit "/private/rules/manager/" ++ managerId ++ lit "/group") with
  | none => (s, some ⟨statusInternalServerError, lit "invalid URL"⟩)
  | some path =>
    let r :=
      match groupRoute path with
      | some managerId => RulesAPI.upsertRuleGroup lib m managerId (.ok ruleGroup.toJSON) s
      | none => (s, some notFound)
    match r.2 with
    | none => (r.1, some timeoutError)
    | some resp =>
      if resp.statusCode ≠ statusCreated then (r.1, some (extractFirstError resp))
      else
        match resp.body with
        | .group document =>
          match document.decode lib.fractionNanos with
          | .error err => (r.1, some ⟨statusInternalServerError, err⟩)
          | .ok _ => (r.1, none)
        | _ => (r.1, some ⟨statusInternalServerError, lit "unexpected response"⟩)

/-! ## `RemoteRuleManager` -/

/-- `RemoteRuleManager`, of a node whose private API is over `m`. -/
def remoteRuleManager : RuleManager σ where
  createManager managerId alertmanagerConfigs s :=
    let r := RulesClient.createManager api m managerId alertmanagerConfigs s
    match r.2 with
    | .error err =>
      (r.1, .error (if err.status = statusConflict then .managerExists else .other err.title))
    | .ok resp => (r.1, .ok ⟨resp.id, resp.alertmanagers⟩)
  deleteManager managerId s :=
    let r := RulesClient.deleteManager m managerId s
    (r.1, .ofError (r.2.map fun err =>
      if err.status = statusNotFound then .managerNotExists else .other err.title))
  upsertRuleGroup managerId ruleGroup s :=
    let r := RulesClient.upsertRuleGroup lib m managerId ruleGroup s
    (r.1, .ofError (r.2.map fun err =>
      if err.status = statusNotFound then .managerNotExists else .other err.title))

end Handlers

/-! ## Outcomes -/

/-- What a caller can tell from a call: it returns a success, one of the two errors that it
    knows or another one, or it does not return. -/
inductive Outcome
  | success
  | managerExists
  | managerNotExists
  | other
  | blocked
  deriving DecidableEq

def outcome : Reply → Outcome
  | .ok => .success
  | .error .managerExists => .managerExists
  | .error .managerNotExists => .managerNotExists
  | .error (.other _) => .other
  | .blocked => .blocked

/-- The outcome of a call of a rule manager. -/
def outcomeOf {σ : Type} (m : RuleManager σ) (s : σ) (call : Call) : Outcome :=
  outcome (m.perform s call).2

/-- A request that is not answered ends with another error. -/
def Outcome.answered : Outcome → Outcome
  | .blocked => .other
  | r => r

/-- A caller that tells only a success from everything else. -/
def successOnly : Option Outcome → Outcome
  | some .success => .success
  | _ => .other

theorem Outcome.answered_ne_blocked (r : Outcome) : r.answered ≠ .blocked := by
  cases r <;> nofun

theorem Outcome.answered_eq_self {r : Outcome} (h : r ≠ .blocked) : r.answered = r := by
  cases r with
  | blocked => exact absurd rfl h
  | _ => rfl

theorem successOnly_eq_iff {r : Option Outcome} {r' : Outcome} :
    successOnly r = r' ↔ r = some .success ∧ r' = .success ∨ ¬ r = some .success ∧ r' = .other := by
  by_cases h : r = some .success
  · rw [h]
    simp [successOnly, eq_comm]
  · have hother : successOnly r = .other := by
      unfold successOnly
      split
      · exact absurd rfl h
      · rfl
    simp [hother, h, eq_comm]

/-- The manager that a request to delete one is about, if it reaches the handler. -/
def deleteTarget (managerId : Bytes) : Option Bytes :=
  (urlPath (lit "/private/rules/manager/" ++ managerId)).bind deleteRoute

/-- The manager that a request with a rule group is about. -/
def groupTarget (managerId : Bytes) : Option Bytes :=
  (urlPath (lit "/private/rules/manager/" ++ managerId ++ lit "/group")).bind groupRoute

/-- The rule group as the API reads it, if it accepts it. -/
def readGroup (lib : RuleLibrary) (ruleGroup : RuleGroup) : Option RuleGroup :=
  match ruleGroup.toJSON.decode lib.fractionNanos with
  | .error _ => none
  | .ok g => if g.validate lib = none then some g else none

/-- An identifier that arrives as it is: a name of a file, of bytes that stand for
    themselves in a path. -/
def Delivered (managerId : Bytes) : Prop := Plain managerId ∧ managerId.all verbatim = true

instance (managerId : Bytes) : Decidable (Delivered managerId) :=
  inferInstanceAs (Decidable (_ ∧ _))

section Delivery

variable {managerId : Bytes}

theorem components_base (rest : Bytes) :
    components (lit "/private/rules/manager/" ++ rest)
      = [[], lit "private", lit "rules", lit "manager"] ++ components rest := by
  have hbase : lit "/private/rules/manager/" = lit "/private/rules/manager" ++ [slash] := by decide
  have hcomponents : components (lit "/private/rules/manager")
      = [[], lit "private", lit "rules", lit "manager"] := by decide
  rw [hbase, List.append_assoc, List.singleton_append, components_append_slash, hcomponents]

theorem deleteTarget_of_delivered (h : Delivered managerId) :
    deleteTarget managerId = some managerId := by
  have hpath : urlPath (lit "/private/rules/manager/" ++ managerId)
      = some (lit "/private/rules/manager/" ++ managerId) := by
    apply urlPath_of_verbatim
    rw [List.all_append, h.2, Bool.and_true]
    decide
  rw [deleteTarget, hpath, Option.bind_some]
  unfold deleteRoute routerParams
  rw [components_base, components_of_no_slash h.1.no_slash]
  simp [h.1]

end Delivery

/-! ## What a remote call returns -/

section Remote

variable {σ : Type} {api : ApiLibrary} {lib : RuleLibrary} {m : RuleManager σ} {s : σ}
  {managerId : Bytes}

theorem outcome_remote_deleteManager
    (hm : ∀ managerId, (m.deleteManager managerId s).2 ≠ .error .managerExists) :
    outcome ((remoteRuleManager api lib m).deleteManager managerId s).2
      = (deleteTarget managerId).elim .other fun received =>
          (outcome (m.deleteManager received s).2).answered := by
  simp only [remoteRuleManager, RulesClient.deleteManager, deleteTarget]
  cases urlPath (lit "/private/rules/manager/" ++ managerId) with
  | none => rfl
  | some path =>
    simp only [Option.bind_some]
    cases deleteRoute path with
    | none => rfl
    | some received =>
      simp only [RulesAPI.deleteManager, Option.elim]
      cases hr : (m.deleteManager received s).2 with
      | ok => rfl
      | blocked => rfl
      | error e =>
        cases e with
        | managerExists => exact absurd hr (hm received)
        | managerNotExists => rfl
        | other text => rfl

/-- The configurations that the other node receives. -/
def receivedConfigs (alertManagers : Option AlertmanagerConfigs) : Option AlertmanagerConfigs :=
  some ((alertManagers.getD []).map AlertmanagerConfig.written)

theorem managerConfigFromJSON_toJSON (alertManagers : Option AlertmanagerConfigs) :
    managerConfigFromJSON (ManagerConfig.mk managerId alertManagers).toJSON
      = ⟨managerId, receivedConfigs alertManagers⟩ := by
  cases alertManagers <;> rfl

theorem certificateAt_map_written (configs : AlertmanagerConfigs) (i : ℕ) (kind : CertKind) :
    certificateAt (configs.map AlertmanagerConfig.written) i kind
      = certificateAt configs i kind := by
  unfold certificateAt
  rw [List.getElem?_map]
  cases configs[i]? with
  | none => rfl
  | some c => cases kind <;> rfl

/-- The checks of the other node are those of the configurations that were sent. -/
theorem validate_receivedConfigs (alertManagers : Option AlertmanagerConfigs) :
    (ManagerConfig.mk managerId (receivedConfigs alertManagers)).validate api
      = (ManagerConfig.mk managerId alertManagers).validate api := by
  simp only [ManagerConfig.validate, receivedConfigs, Option.getD_some, List.length_map,
    certificateAt_map_written]

/-- The identifier under which the other node creates a manager. -/
def receivedId (api : ApiLibrary) (managerId : Bytes) : Bytes :=
  if managerId = [] then api.generateId else managerId

theorem withId_receivedConfigs (alertManagers : Option AlertmanagerConfigs) :
    (ManagerConfig.mk managerId (receivedConfigs alertManagers)).withId api
      = ⟨receivedId api managerId, receivedConfigs alertManagers⟩ := by
  unfold ManagerConfig.withId receivedId
  dsimp only
  split <;> rfl

theorem outcome_remote_createManager (alertManagers : Option AlertmanagerConfigs)
    (hm : errorOf (m.createManager (receivedId api managerId) (receivedConfigs alertManagers) s).2
      ≠ some .managerNotExists) :
    outcome (.ofError (errorOf
        ((remoteRuleManager api lib m).createManager managerId alertManagers s).2))
      = if (ManagerConfig.mk managerId alertManagers).validate api = none then
          outcome (.ofError (errorOf
            (m.createManager (receivedId api managerId) (receivedConfigs alertManagers) s).2))
        else .other := by
  have hvalidate : (ManagerConfig.mk (receivedId api managerId)
      (receivedConfigs alertManagers)).validate api
        = (ManagerConfig.mk managerId alertManagers).validate api :=
    validate_receivedConfigs alertManagers
  simp only [remoteRuleManager, RulesClient.createManager, RulesAPI.createManager,
    managerConfigFromJSON_toJSON, withId_receivedConfigs, hvalidate]
  cases (ManagerConfig.mk managerId alertManagers).validate api with
  | some err => rfl
  | none =>
    cases hr : (m.createManager (receivedId api managerId) (receivedConfigs alertManagers) s).2 with
    | ok manager => simp [errorOf, statusCreated]
    | error e =>
      cases e with
      | managerExists => rfl
      | managerNotExists =>
        rw [hr] at hm
        exact absurd rfl hm
      | other text => rfl

theorem acceptedInterval_of_validate {g : RuleGroup} (h : g.validate lib = none) :
    AcceptedInterval g.interval := by
  unfold RuleGroup.validate at h
  split at h
  · cases h
  split at h
  · cases h
  · rename_i hinterval
    rw [not_and_or, not_not, Int64.not_lt] at hinterval
    exact hinterval

theorem outcome_remote_upsertRuleGroup (ruleGroup : RuleGroup) :
    outcome ((remoteRuleManager api lib m).upsertRuleGroup managerId ruleGroup s).2
      = successOnly ((groupTarget managerId).bind fun received =>
          (readGroup lib ruleGroup).map fun g =>
            outcome (m.upsertRuleGroup received g s).2) := by
  simp only [remoteRuleManager, RulesClient.upsertRuleGroup, groupTarget]
  cases urlPath (lit "/private/rules/manager/" ++ managerId ++ lit "/group") with
  | none => rfl
  | some path =>
    simp only [Option.bind_some]
    cases groupRoute path with
    | none => rfl
    | some received =>
      simp only [RulesAPI.upsertRuleGroup, Except.bind, readGroup, Option.bind_some]
      cases hdecode : ruleGroup.toJSON.decode lib.fractionNanos with
      | error err => rfl
      | ok g =>
        cases hvalid : g.validate lib with
        | some err => simp [hvalid, Reply.ofError, outcome, respondError, statusCreated,
            statusNotFound, extractFirstError, statusBadRequest, successOnly]
        | none =>
          have hagain := decode_toJSON_again lib.fractionNanos hdecode
            (acceptedInterval_of_validate hvalid)
          simp only [hvalid, if_true, Option.map_some]
          cases (m.upsertRuleGroup received g s).2 with
          | ok => simp [hagain, outcome, Reply.ofError, successOnly]
          | blocked => rfl
          | error e => cases e <;> rfl

end Remote

/-! ## What a local call returns -/

section Local

variable {lib : RuleLibrary} {marshal : PromRuleGroup → Bytes} {rulesStoragePath : Bytes}
  {o : CallOutcomes} {node : LocalNode} {managerId : Bytes}

/-- The outcome of `CreateManager` on a node with this disk. -/
def createOutcome (rulesStoragePath : Bytes) (o : Outcomes) (managerId : Bytes) (disk : Disk)
    (alertManagers : Option AlertmanagerConfigs) : Outcome :=
  if o.statError = none ∧ ruleManagerDirectoryPath rulesStoragePath managerId ∈ disk then
    .managerExists
  else if MakesDirectory rulesStoragePath o managerId disk ∧
      WritesSucceed rulesStoragePath o managerId alertManagers ∧ o.startError = none then .success
  else .other

/-- The outcome of `DeleteManager` on a node. -/
def deleteOutcome (rulesStoragePath : Bytes) (o : CallOutcomes) (managerId : Bytes)
    (node : LocalNode) : Outcome :=
  if o.statError ≠ none then .other
  else if ruleManagerDirectoryPath rulesStoragePath managerId ∉ node.disk then .managerNotExists
  else if o.removeError ≠ none then .other
  else
    match node.promRuleManagers.lookup managerId with
    | none => .managerNotExists
    | some m => if m.CanStop then .success else .blocked

/-- The outcome of `UpsertRuleGroup` on a node. -/
def upsertOutcome (lib : RuleLibrary) (marshal : PromRuleGroup → Bytes) (rulesStoragePath : Bytes)
    (o : CallOutcomes) (managerId : Bytes) (node : LocalNode) (ruleGroup : RuleGroup) : Outcome :=
  let rulesFile := rulesFilePath rulesStoragePath managerId
  match ruleGroup.convertToPromRuleGroup lib with
  | .error _ => .other
  | .ok promRuleGroup =>
    if o.statError ≠ none then .other
    else if ruleManagerDirectoryPath rulesStoragePath managerId ∉ node.disk then .managerNotExists
    else if node.disk.lookup rulesFile = some .directory ∨ o.writeError rulesFile ≠ none then .other
    else
      outcome (PromRuleManagers.reload o
        (node.disk.insert rulesFile (.text (marshal promRuleGroup))) node.promRuleManagers).2

theorem outcome_local_createManager (alertManagers : Option AlertmanagerConfigs) :
    outcome (.ofError (errorOf
        (createManager rulesStoragePath o.toOutcomes managerId node alertManagers).2.2))
      = createOutcome rulesStoragePath o.toOutcomes managerId node.disk alertManagers := by
  unfold createOutcome
  by_cases hmakes : MakesDirectory rulesStoragePath o.toOutcomes managerId node.disk
  · obtain ⟨_, -, -, hok, herror⟩ := createManager_of_makesDirectory hmakes alertManagers
    rw [if_neg fun h => hmakes.2.1 h.2]
    by_cases hwrites : WritesSucceed rulesStoragePath o.toOutcomes managerId alertManagers
    · obtain ⟨_, -, herr⟩ := hok hwrites
      rw [herr]
      cases o.startError with
      | none => rw [if_pos ⟨hmakes, hwrites, rfl⟩]; rfl
      | some err => rw [if_neg (by simp)]; rfl
    · obtain ⟨-, err, herr⟩ := herror hwrites
      rw [herr, if_neg fun h => hwrites h.2.1]
      rfl
  · obtain ⟨e, he, hcases⟩ := createManager_of_not_makesDirectory hmakes
    rw [he]
    split_ifs at hcases ⊢ with hexists hsucceeds
    · rw [hcases]
      rfl
    · exact absurd hsucceeds.1 hmakes
    · obtain ⟨err, rfl⟩ := hcases
      rfl

theorem outcome_local_deleteManager :
    outcome (LocalRuleManager.deleteManager rulesStoragePath o managerId node).2
      = deleteOutcome rulesStoragePath o managerId node := by
  unfold LocalRuleManager.deleteManager RuleManagerFiles.delete PromRuleManagers.delete
    deleteOutcome removeAll
  cases o.statError with
  | some err => rfl
  | none =>
    by_cases hdir : ruleManagerDirectoryPath rulesStoragePath managerId ∈ node.disk
    · simp only [hdir, if_true, not_true_eq_false, if_false, ne_eq]
      cases o.removeError with
      | some failure => rfl
      | none =>
        dsimp only [Option.map_none]
        cases node.promRuleManagers.lookup managerId with
        | none => rfl
        | some m => by_cases hstop : m.CanStop <;> simp [hstop, outcome]
    · simp [hdir, outcome]

theorem outcome_local_upsertRuleGroup (ruleGroup : RuleGroup) :
    outcome (LocalRuleManager.upsertRuleGroup rulesStoragePath o managerId lib marshal ruleGroup
        node).2
      = upsertOutcome lib marshal rulesStoragePath o managerId node ruleGroup := by
  unfold LocalRuleManager.upsertRuleGroup RuleManagerFiles.upsertRuleGroup upsertOutcome
  cases ruleGroup.convertToPromRuleGroup lib with
  | error err => rfl
  | ok promRuleGroup =>
    cases o.statError with
    | some err => rfl
    | none =>
      by_cases hdir : ruleManagerDirectoryPath rulesStoragePath managerId ∈ node.disk
      · by_cases hfile : node.disk.lookup (rulesFilePath rulesStoragePath managerId)
            = some .directory
        · simp [hdir, hfile, outcome]
        · cases hwrite : o.writeError (rulesFilePath rulesStoragePath managerId) with
          | some err => simp [hdir, hfile, hwrite, outcome]
          | none => simp [hdir, hfile, hwrite]
      · simp [hdir, outcome]

/-- The outcome of a call on a node, by its disk and its managers. -/
def localOutcome (lib : RuleLibrary) (marshal : PromRuleGroup → Bytes) (rulesStoragePath : Bytes)
    (o : CallOutcomes) (node : LocalNode) : Call → Outcome
  | .createManager managerId alertManagers =>
    createOutcome rulesStoragePath o.toOutcomes managerId node.disk alertManagers
  | .deleteManager managerId => deleteOutcome rulesStoragePath o managerId node
  | .upsertRuleGroup managerId ruleGroup =>
    upsertOutcome lib marshal rulesStoragePath o managerId node ruleGroup

theorem outcomeOf_local (call : Call) :
    outcomeOf (localRuleManager lib marshal rulesStoragePath o) node call
      = localOutcome lib marshal rulesStoragePath o node call := by
  cases call with
  | createManager managerId alertManagers => exact outcome_local_createManager alertManagers
  | deleteManager managerId => exact outcome_local_deleteManager
  | upsertRuleGroup managerId ruleGroup => exact outcome_local_upsertRuleGroup ruleGroup

/-- The outcomes that a call can have: `CreateManager` never reports a missing manager, and
    the others never one that exists. -/
def Call.Possible : Call → Outcome → Prop
  | .createManager _ _, r => r ≠ .managerNotExists
  | .deleteManager _, r => r ≠ .managerExists
  | .upsertRuleGroup _ _, r => r ≠ .managerExists

theorem outcome_ofError_ne {e : Option Error} {err : Error} (h : outcome (.ofError e)
    ≠ outcome (.error err)) : e ≠ some err := by
  rintro rfl
  exact h rfl

/-- `Reload` of a manager reports no manager. -/
theorem reload_outcome_ne (m : PromRuleManager) (r : ReloadOutcome) :
    outcome (m.reload r).2 ≠ .managerExists := by
  unfold PromRuleManager.reload
  split
  · nofun
  · cases r with
    | rejected err => nofun
    | loaded groups err =>
      dsimp only
      split
      · cases err <;> nofun
      · nofun

theorem reloadFrom_outcome_ne (f : Bytes → PromRuleManager → ReloadOutcome) (ids : List Bytes)
    (managers : GoMap Bytes PromRuleManager) :
    outcome (PromRuleManagers.reloadFrom f ids managers).2 ≠ .managerExists := by
  induction ids generalizing managers with
  | nil => nofun
  | cons id ids ih =>
    rw [PromRuleManagers.reloadFrom]
    cases managers.lookup id with
    | none => exact ih managers
    | some m =>
      have hne := reload_outcome_ne m (f id m)
      dsimp only
      cases hreload : m.reload (f id m) with
      | mk m' reply =>
        rw [hreload] at hne
        cases reply with
        | ok => exact ih _
        | error e => exact hne
        | blocked => exact hne

theorem possible_local (call : Call) :
    call.Possible (outcomeOf (localRuleManager lib marshal rulesStoragePath o) node call) := by
  rw [outcomeOf_local]
  cases call with
  | createManager managerId alertManagers =>
    unfold Call.Possible localOutcome createOutcome
    dsimp only
    split_ifs <;> nofun
  | deleteManager managerId =>
    unfold Call.Possible localOutcome deleteOutcome
    dsimp only
    split
    · nofun
    split
    · nofun
    split
    · nofun
    split
    · nofun
    · split <;> nofun
  | upsertRuleGroup managerId ruleGroup =>
    unfold Call.Possible localOutcome upsertOutcome
    dsimp only
    split
    · nofun
    split
    · nofun
    split
    · nofun
    split
    · nofun
    · exact reloadFrom_outcome_ne _ _ _

theorem writesSucceed_receivedConfigs (alertManagers : Option AlertmanagerConfigs) :
    WritesSucceed rulesStoragePath o.toOutcomes managerId (receivedConfigs alertManagers) ↔
      WritesSucceed rulesStoragePath o.toOutcomes managerId alertManagers := by
  unfold WritesSucceed receivedConfigs
  refine and_congr_right fun _ => and_congr_left fun _ => ?_
  simp only [Option.mem_def, Option.some.injEq, forall_eq']
  cases alertManagers with
  | none =>
    have hnone : o.order.iterate [] = [] := (o.order.perm []).eq_nil
    simp [visits, hnone]
  | some configs =>
    simp only [Option.getD_some, Option.some.injEq, forall_eq', visits, List.length_map,
      inlineAt, certificateAt_map_written]

/-- The outcome of `CreateManager` does not depend on what is lost on the way. -/
theorem createOutcome_receivedConfigs (disk : Disk) (alertManagers : Option AlertmanagerConfigs) :
    createOutcome rulesStoragePath o.toOutcomes managerId disk (receivedConfigs alertManagers)
      = createOutcome rulesStoragePath o.toOutcomes managerId disk alertManagers := by
  unfold createOutcome
  simp only [writesSucceed_receivedConfigs]

end Local

/-! ## Agreement -/

section Agreement

variable (api : ApiLibrary) (lib : RuleLibrary) (marshal : PromRuleGroup → Bytes)
  (rulesStoragePath : Bytes) (o : CallOutcomes) (node : LocalNode)

/-- The call has the same outcome on the node and through a `RemoteRuleManager` of it. -/
def Agrees (call : Call) : Prop :=
  outcomeOf (remoteRuleManager api lib (localRuleManager lib marshal rulesStoragePath o)) node call
    = outcomeOf (localRuleManager lib marshal rulesStoragePath o) node call

/-- The calls whose outcome comes through, by the disk and the managers of the node and by how
    the operations end.
    * `CreateManager`, if the configurations pass the checks of the API, and the identifier is
      not empty or the one that is generated for it has the same outcome. If they do not pass,
      another error on the node.
    * `DeleteManager`, if it returns, and it arrives for the same manager or for one with the
      same outcome. If it does not arrive, another error on the node.
    * `UpsertRuleGroup`, if it succeeds and also does so for the manager for which it arrives
      with the group as it is read there. If this does not succeed, another error on the
      node. -/
def ComesThrough : Call → Prop
  | .createManager managerId alertManagers =>
    if (ManagerConfig.mk managerId alertManagers).validate api = none then
      managerId ≠ [] ∨
        createOutcome rulesStoragePath o.toOutcomes api.generateId node.disk alertManagers
          = createOutcome rulesStoragePath o.toOutcomes managerId node.disk alertManagers
    else
      createOutcome rulesStoragePath o.toOutcomes managerId node.disk alertManagers = .other
  | .deleteManager managerId =>
    deleteOutcome rulesStoragePath o managerId node ≠ .blocked ∧
      match deleteTarget managerId with
      | none => deleteOutcome rulesStoragePath o managerId node = .other
      | some received =>
        received = managerId ∨ (deleteOutcome rulesStoragePath o received node).answered
          = deleteOutcome rulesStoragePath o managerId node
  | .upsertRuleGroup managerId ruleGroup =>
    let succeedsThere := ∃ received ∈ groupTarget managerId, ∃ g ∈ readGroup lib ruleGroup,
      upsertOutcome lib marshal rulesStoragePath o received node g = .success
    (succeedsThere ∧
        upsertOutcome lib marshal rulesStoragePath o managerId node ruleGroup = .success) ∨
      (¬ succeedsThere ∧
        upsertOutcome lib marshal rulesStoragePath o managerId node ruleGroup = .other)

variable {api lib marshal rulesStoragePath o node}

/-- A deletion that arrives as it is comes through if it returns. -/
theorem comesThrough_deleteManager_iff {managerId : Bytes} (h : Delivered managerId) :
    ComesThrough api lib marshal rulesStoragePath o node (.deleteManager managerId) ↔
      deleteOutcome rulesStoragePath o managerId node ≠ .blocked := by
  unfold ComesThrough
  dsimp only
  rw [deleteTarget_of_delivered h]
  exact and_iff_left (.inl rfl)

theorem agrees_createManager_iff {managerId : Bytes}
    (alertManagers : Option AlertmanagerConfigs) :
    Agrees api lib marshal rulesStoragePath o node (.createManager managerId alertManagers) ↔
      ComesThrough api lib marshal rulesStoragePath o node
        (.createManager managerId alertManagers) := by
  unfold Agrees
  rw [outcomeOf_local]
  unfold ComesThrough outcomeOf RuleManager.perform localOutcome
  dsimp only
  have houtcome : outcomeOf (localRuleManager lib marshal rulesStoragePath o) node
      (.createManager (receivedId api managerId) (receivedConfigs alertManagers))
        ≠ .managerNotExists :=
    possible_local (.createManager (receivedId api managerId) (receivedConfigs alertManagers))
  have hpossible : errorOf (createManager rulesStoragePath o.toOutcomes (receivedId api managerId)
      node (receivedConfigs alertManagers)).2.2 ≠ some .managerNotExists :=
    outcome_ofError_ne houtcome
  rw [outcome_remote_createManager alertManagers hpossible]
  dsimp only [localRuleManager]
  rw [outcome_local_createManager, createOutcome_receivedConfigs, receivedId]
  by_cases hvalid : (ManagerConfig.mk managerId alertManagers).validate api = none
  · rw [if_pos hvalid, if_pos hvalid]
    by_cases hid : managerId = [] <;> simp [hid]
  · rw [if_neg hvalid, if_neg hvalid]
    exact eq_comm

theorem agrees_deleteManager_iff (managerId : Bytes) :
    Agrees api lib marshal rulesStoragePath o node (.deleteManager managerId) ↔
      ComesThrough api lib marshal rulesStoragePath o node (.deleteManager managerId) := by
  unfold Agrees
  rw [outcomeOf_local]
  unfold ComesThrough outcomeOf RuleManager.perform localOutcome
  dsimp only
  have hpossible : ∀ id, (LocalRuleManager.deleteManager rulesStoragePath o id node).2
      ≠ .error .managerExists := by
    intro id heq
    have houtcome : outcomeOf (localRuleManager lib marshal rulesStoragePath o) node
        (.deleteManager id) ≠ .managerExists := possible_local (.deleteManager id)
    exact houtcome (congrArg outcome heq)
  rw [outcome_remote_deleteManager hpossible]
  dsimp only [localRuleManager]
  cases deleteTarget managerId with
  | none =>
    rw [Option.elim_none, eq_comm]
    exact ⟨fun h => ⟨by rw [h]; nofun, h⟩, fun h => h.2⟩
  | some received =>
    rw [Option.elim_some, outcome_local_deleteManager]
    constructor
    · intro h
      exact ⟨fun hblocked => Outcome.answered_ne_blocked _ (h.trans hblocked), .inr h⟩
    · rintro ⟨hreturns, rfl | h⟩
      · exact Outcome.answered_eq_self hreturns
      · exact h

theorem agrees_upsertRuleGroup_iff (managerId : Bytes) (ruleGroup : RuleGroup) :
    Agrees api lib marshal rulesStoragePath o node (.upsertRuleGroup managerId ruleGroup) ↔
      ComesThrough api lib marshal rulesStoragePath o node
        (.upsertRuleGroup managerId ruleGroup) := by
  unfold Agrees
  rw [outcomeOf_local]
  unfold ComesThrough outcomeOf RuleManager.perform localOutcome
  dsimp only
  rw [outcome_remote_upsertRuleGroup, successOnly_eq_iff]
  dsimp only [localRuleManager]
  simp only [outcome_local_upsertRuleGroup, Option.bind_eq_some_iff, Option.map_eq_some_iff,
    Option.mem_def]

end Agreement

/-! ## Statuses -/

/-- The status of the response, by the outcome of the call; a call that does not return has
    none. -/
def statusOf : Call → Outcome → Option ℕ
  | _, .blocked => none
  | .createManager _ _, .success => some statusCreated
  | .createManager _ _, .managerExists => some statusConflict
  | .deleteManager _, .success => some statusNoContent
  | .deleteManager _, .managerNotExists => some statusNotFound
  | .upsertRuleGroup _ _, .success => some statusCreated
  | .upsertRuleGroup _ _, .managerNotExists => some statusBadRequest
  | _, _ => some statusInternalServerError

/-- The status with which the API over a rule manager answers, if it does. -/
def statusCode {σ : Type} (api : ApiLibrary) (lib : RuleLibrary) (m : RuleManager σ) (s : σ)
    (request : ApiRequest) : Option ℕ :=
  (RulesAPI.serve api lib m s request).2.map Response.statusCode

section Statuses

variable {σ : Type} {api : ApiLibrary} {lib : RuleLibrary} {m : RuleManager σ} {s : σ}

/-- The status of a response is that of the outcome of the call, if there is one. -/
theorem statusCode_eq (request : ApiRequest) :
    statusCode api lib m s request
      = (request.call? api lib).elim (some statusBadRequest) fun call =>
          statusOf call (outcomeOf m s call) := by
  unfold statusCode
  cases request with
  | createManager body =>
    cases body with
    | error err => rfl
    | ok payload =>
      simp only [RulesAPI.serve, RulesAPI.createManager, ApiRequest.call?]
      cases hvalid : ((managerConfigFromJSON payload).withId api).validate api with
      | some err => rfl
      | none =>
        simp only [if_true, Option.elim, outcomeOf, RuleManager.perform]
        cases (m.createManager ((managerConfigFromJSON payload).withId api).id
          ((managerConfigFromJSON payload).withId api).alertmanagers s).2 with
        | ok manager => rfl
        | error e => cases e <;> rfl
  | deleteManager managerId =>
    simp only [RulesAPI.serve, RulesAPI.deleteManager, ApiRequest.call?, Option.elim, outcomeOf,
      RuleManager.perform]
    cases (m.deleteManager managerId s).2 with
    | ok => rfl
    | blocked => rfl
    | error e => cases e <;> rfl
  | upsertRuleGroup managerId body =>
    simp only [RulesAPI.serve, RulesAPI.upsertRuleGroup, ApiRequest.call?]
    cases body.bind fun document => document.decode lib.fractionNanos with
    | error err => rfl
    | ok ruleGroup =>
      dsimp only
      cases hvalid : ruleGroup.validate lib with
      | some err => rfl
      | none =>
        simp only [if_true, Option.elim, outcomeOf, RuleManager.perform]
        cases (m.upsertRuleGroup managerId ruleGroup s).2 with
        | ok => rfl
        | blocked => rfl
        | error e => cases e <;> rfl

/-- The status tells the possible outcomes of a call apart. -/
theorem statusOf_inj {call : Call} {r r' : Outcome} (h : call.Possible r)
    (h' : call.Possible r') : statusOf call r = statusOf call r' ↔ r = r' := by
  refine ⟨fun heq => ?_, fun heq => by rw [heq]⟩
  cases call with
  | createManager => revert h h' heq; cases r <;> cases r' <;> simp [Call.Possible, statusOf,
      statusCreated, statusConflict, statusInternalServerError]
  | deleteManager => revert h h' heq; cases r <;> cases r' <;> simp [Call.Possible, statusOf,
      statusNoContent, statusNotFound, statusInternalServerError]
  | upsertRuleGroup => revert h h' heq; cases r <;> cases r' <;> simp [Call.Possible, statusOf,
      statusCreated, statusBadRequest, statusInternalServerError]

theorem possible_remote (call : Call) :
    call.Possible (outcomeOf (remoteRuleManager api lib m) s call) := by
  cases call with
  | createManager managerId alertManagers =>
    simp only [Call.Possible, outcomeOf, RuleManager.perform, remoteRuleManager]
    cases (RulesClient.createManager api m managerId alertManagers s).2 with
    | ok resp => simp [errorOf, outcome, Reply.ofError]
    | error err =>
      dsimp only
      split_ifs <;> simp [errorOf, outcome, Reply.ofError]
  | deleteManager managerId =>
    simp only [Call.Possible, outcomeOf, RuleManager.perform, remoteRuleManager]
    cases (RulesClient.deleteManager m managerId s).2 with
    | none => simp [outcome, Reply.ofError]
    | some err =>
      rw [Option.map_some]
      split_ifs <;> simp [outcome, Reply.ofError]
  | upsertRuleGroup managerId ruleGroup =>
    simp only [Call.Possible, outcomeOf, RuleManager.perform, remoteRuleManager]
    cases (RulesClient.upsertRuleGroup lib m managerId ruleGroup s).2 with
    | none => simp [outcome, Reply.ofError]
    | some err =>
      rw [Option.map_some]
      split_ifs <;> simp [outcome, Reply.ofError]

end Statuses

/-- **Which calls a `RemoteRuleManager` reports as they end.** Every call has the same outcome
    on the node and through a `RemoteRuleManager` of it exactly when it comes through; and the
    status with which `RulesAPI` answers a request is the same over both exactly when the call
    that it leads to, if any, has the same outcome. -/
theorem remote_agrees_iff (api : ApiLibrary) (lib : RuleLibrary)
    (marshal : PromRuleGroup → Bytes) (rulesStoragePath : Bytes) (o : CallOutcomes)
    (node : LocalNode) :
    (∀ call : Call, Agrees api lib marshal rulesStoragePath o node call ↔
      ComesThrough api lib marshal rulesStoragePath o node call) ∧
    ∀ request : ApiRequest,
      statusCode api lib
          (remoteRuleManager api lib (localRuleManager lib marshal rulesStoragePath o)) node request
        = statusCode api lib (localRuleManager lib marshal rulesStoragePath o) node request ↔
      ∀ call ∈ request.call? api lib, Agrees api lib marshal rulesStoragePath o node call := by
  constructor
  · intro call
    cases call with
    | createManager managerId alertManagers => exact agrees_createManager_iff alertManagers
    | deleteManager managerId => exact agrees_deleteManager_iff managerId
    | upsertRuleGroup managerId ruleGroup => exact agrees_upsertRuleGroup_iff managerId ruleGroup
  · intro request
    rw [statusCode_eq, statusCode_eq]
    cases request.call? api lib with
    | none => simp
    | some call =>
      simp only [Option.elim, Option.mem_def, Option.some.injEq, forall_eq']
      exact statusOf_inj (possible_remote call) (possible_local call)

/-! ## A missing manager -/

/-- An API that accepts every certificate. -/
def lenientApi : ApiLibrary := ⟨lit "generated", fun _ => true, fun _ _ => none, ⟨id, .refl⟩⟩

/-- A group with one recording rule, evaluated every minute. -/
def minuteGroup : RuleGroup where
  name := lit "requests"
  interval := 60000000000
  rules := [⟨lit "requests", [], lit "sum(http_total)", [], ∅, ∅⟩]

/-- A node with the running manager `m`. -/
def nodeWithM : LocalNode where
  disk := GoMap.ofPairs [(lit "/var/rules/m", .directory),
    (lit "/var/rules/m/rules.yml", .text (lit "groups: []\n"))]
  promRuleManagers := GoMap.ofPairs [(lit "m", ⟨lit "/var/rules/m/rules.yml", none, .running, []⟩)]

/-- The rule manager of the examples. -/
def exampleManager : RuleManager LocalNode :=
  localRuleManager plainLibrary PromRuleGroup.name (lit "/var/rules") .allSucceed

theorem remote_agrees_delete :
    statusCode lenientApi plainLibrary (remoteRuleManager lenientApi plainLibrary exampleManager)
        nodeWithM (.deleteManager (lit "m"))
      = statusCode lenientApi plainLibrary exampleManager nodeWithM (.deleteManager (lit "m")) := by
  have hiff := remote_agrees_iff lenientApi plainLibrary PromRuleGroup.name (lit "/var/rules")
    .allSucceed nodeWithM
  refine (hiff.2 (.deleteManager (lit "m"))).2 fun call hcall => ?_
  cases hcall
  exact (hiff.1 (.deleteManager (lit "m"))).2
    ((comesThrough_deleteManager_iff (by decide)).2 (by decide))

/-- **A missing manager is reported differently**: `UpsertRuleGroup` for it returns
    `ManagerNotExistsError` on the node and another error through a `RemoteRuleManager`, so
    that the node of the manager answers with 400 and any other node with 500. -/
theorem missing_manager_reported_differently :
    outcomeOf exampleManager ⟨∅, ∅⟩ (.upsertRuleGroup (lit "m") minuteGroup)
        = .managerNotExists ∧
      outcomeOf (remoteRuleManager lenientApi plainLibrary exampleManager) ⟨∅, ∅⟩
        (.upsertRuleGroup (lit "m") minuteGroup) = .other ∧
      statusCode lenientApi plainLibrary exampleManager ⟨∅, ∅⟩
        (.upsertRuleGroup (lit "m") (.ok minuteGroup.toJSON)) = some 400 ∧
      statusCode lenientApi plainLibrary
        (remoteRuleManager lenientApi plainLibrary exampleManager) ⟨∅, ∅⟩
        (.upsertRuleGroup (lit "m") (.ok minuteGroup.toJSON)) = some 500 := by
  refine ⟨by decide, by decide, by decide, by decide⟩

end MetricStore.Rules
