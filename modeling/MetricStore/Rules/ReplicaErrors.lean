import MetricStore.Rules.LocalRuleManager
import MetricStore.Rules.Replicated

/-!
# Failures of replicas

Model of `CreateManager`, `DeleteManager` and `UpsertRuleGroup` of
`ReplicatedRuleManager` (`internal/rules/replicated_rule_manager.go`, lines 39–74): each
calls the replicas of a manager one after the other and goes on after a failure.
`DeleteManager` and `UpsertRuleGroup` keep the last error there was; `CreateManager`
assigns the result of each call to the same variables, so that a later success hides an
earlier failure. A replica that does not return ends the loop there.

The rule managers of the nodes are arbitrary, on one state of them all; what the
pointer to the alertmanagers refers to is a part of it, as in `Rules.Replicated`.

Results:
* `replicas_reported_iff`: an operation returns nil exactly if every replica does, unless
  it is a `CreateManager` whose last replica succeeds after one has failed.
* `create_hides_failure`: two replicas, of which the first fails.
-/

namespace MetricStore.Rules

open MetricStore.Common

/-! ## Model -/

/-- `ReplicatedRuleManager` (lines 13–20): the routing table's lookup, and the rule
    managers of the nodes. -/
structure ReplicatedRuleManager (n : ℕ) (σ : Type) where
  lookup : Bytes → List (Fin n)
  ruleManagers : Fin n → RuleManager σ

namespace ReplicatedRuleManager

variable {n : ℕ} {σ : Type} (r : ReplicatedRuleManager n σ)

/-- `CreateManager` (lines 39–48); without a replica it returns a nil manager and no
    error. -/
def createManager (managerId : Bytes) (alertmanagerConfigs : Option AlertmanagerConfigs) (s : σ) :
    σ × Option (Except Error Manager) :=
  (r.lookup managerId).foldl
    (fun acc nodeIndex =>
      let result := (r.ruleManagers nodeIndex).createManager managerId alertmanagerConfigs acc.1
      (result.1, some result.2))
    (s, none)

/-- The loops of `DeleteManager` and `UpsertRuleGroup`: every replica is called, and the
    last error is kept. -/
def keepLastError (operation : RuleManager σ → σ → σ × Reply) :
    List (Fin n) → σ → Option Error → σ × Reply
  | [], s, lastError => (s, .ofError lastError)
  | nodeIndex :: nodes, s, lastError =>
    match operation (r.ruleManagers nodeIndex) s with
    | (s, .ok) => keepLastError operation nodes s lastError
    | (s, .error e) => keepLastError operation nodes s (some e)
    | (s, .blocked) => (s, .blocked)

/-- `DeleteManager` (lines 50–61). -/
def deleteManager (managerId : Bytes) (s : σ) : σ × Reply :=
  r.keepLastError (fun m => m.deleteManager managerId) (r.lookup managerId) s none

/-- `UpsertRuleGroup` (lines 63–74). -/
def upsertRuleGroup (managerId : Bytes) (ruleGroup : RuleGroup) (s : σ) : σ × Reply :=
  r.keepLastError (fun m => m.upsertRuleGroup managerId ruleGroup) (r.lookup managerId) s none

/-- The state after a call, and its reply. -/
def perform (s : σ) : Call → σ × Reply
  | .createManager managerId alertManagers =>
    let result := r.createManager managerId alertManagers s
    (result.1, .ofError (result.2.bind errorOf))
  | .deleteManager managerId => r.deleteManager managerId s
  | .upsertRuleGroup managerId ruleGroup => r.upsertRuleGroup managerId ruleGroup s

/-! ## Specification -/

/-- What the replicas answer to a call, each in the state in which those before it have
    left the system, if they have returned. -/
def answersOf (call : Call) : List (Fin n) → σ → List Reply
  | [], _ => []
  | nodeIndex :: nodes, s =>
    let result := (r.ruleManagers nodeIndex).perform s call
    result.2 :: if result.2 = .blocked then [] else answersOf call nodes result.1

/-- The answers of the replicas in the lookup. -/
def answers (s : σ) (call : Call) : List Reply :=
  r.answersOf call (r.lookup call.managerId) s

/-- The replicas report their failures to a call: it returns nil if and only if each of
    them does. -/
def Reported (s : σ) (call : Call) : Prop :=
  (r.perform s call).2 = .ok ↔ ∀ answer ∈ r.answers s call, answer = .ok

/-- Unless a replica fails to create the manager and the last one does not. -/
def NotHidden (s : σ) : Call → Prop
  | .createManager managerId alertManagers =>
    (r.answers s (.createManager managerId alertManagers)).getLast? = some .ok →
      ∀ answer ∈ r.answers s (.createManager managerId alertManagers), answer = .ok
  | _ => True

/-! ## The loops -/

/-- A loop that keeps the last error returns nil if every call does. -/
theorem keepLastError_eq_ok_iff (call : Call) {operation : RuleManager σ → σ → σ × Reply}
    (hop : ∀ m s, operation m s = m.perform s call) (nodes : List (Fin n)) (s : σ)
    (lastError : Option Error) :
    (r.keepLastError operation nodes s lastError).2 = .ok ↔
      lastError = none ∧ ∀ answer ∈ r.answersOf call nodes s, answer = .ok := by
  induction nodes generalizing s lastError with
  | nil => cases lastError <;> simp [keepLastError, answersOf, Reply.ofError]
  | cons nodeIndex nodes ih =>
    rw [keepLastError, answersOf, List.forall_mem_cons, hop]
    cases (r.ruleManagers nodeIndex).perform s call with
    | mk s' reply =>
      cases reply with
      | ok => simpa using ih s' lastError
      | error e => simp [ih]
      | blocked => simp

/-- The loop of `CreateManager` returns as its last replica does. -/
theorem foldl_createManager (managerId : Bytes) (alertManagers : Option AlertmanagerConfigs)
    (nodes : List (Fin n)) (s : σ) (result : Option (Except Error Manager)) :
    Reply.ofError ((nodes.foldl
        (fun acc nodeIndex =>
          let result := (r.ruleManagers nodeIndex).createManager managerId alertManagers acc.1
          (result.1, some result.2))
        (s, result)).2.bind errorOf) =
      (r.answersOf (.createManager managerId alertManagers) nodes s).getLastD
        (.ofError (result.bind errorOf)) := by
  induction nodes generalizing s result with
  | nil => rfl
  | cons nodeIndex nodes ih =>
    -- a replica that creates a manager returns
    have hreturns : ((r.ruleManagers nodeIndex).perform s
        (.createManager managerId alertManagers)).2 ≠ .blocked := by
      show Reply.ofError _ ≠ _
      cases errorOf ((r.ruleManagers nodeIndex).createManager managerId alertManagers s).2 <;> nofun
    rw [List.foldl_cons, ih, answersOf, if_neg hreturns, List.getLastD_cons]
    rfl

theorem createManager_reply (s : σ) (managerId : Bytes)
    (alertManagers : Option AlertmanagerConfigs) :
    (r.perform s (.createManager managerId alertManagers)).2 =
      (r.answers s (.createManager managerId alertManagers)).getLastD .ok :=
  r.foldl_createManager managerId alertManagers (r.lookup managerId) s none

/-- Deleting and upserting report every failure. -/
theorem reported_deleteManager (s : σ) (managerId : Bytes) :
    r.Reported s (.deleteManager managerId) := by
  have h := r.keepLastError_eq_ok_iff (.deleteManager managerId) (fun _ _ => rfl)
    (r.lookup managerId) s none
  exact h.trans (and_iff_right rfl)

theorem reported_upsertRuleGroup (s : σ) (managerId : Bytes) (ruleGroup : RuleGroup) :
    r.Reported s (.upsertRuleGroup managerId ruleGroup) := by
  have h := r.keepLastError_eq_ok_iff (.upsertRuleGroup managerId ruleGroup) (fun _ _ => rfl)
    (r.lookup managerId) s none
  exact h.trans (and_iff_right rfl)

theorem reported_createManager_iff (s : σ) (managerId : Bytes)
    (alertManagers : Option AlertmanagerConfigs) :
    r.Reported s (.createManager managerId alertManagers) ↔
      r.NotHidden s (.createManager managerId alertManagers) := by
  rw [Reported, createManager_reply, NotHidden]
  cases hlast : (r.answers s (.createManager managerId alertManagers)).getLast? with
  | none =>
    rw [List.getLast?_eq_none_iff] at hlast
    simp [hlast]
  | some last =>
    have hmem := List.mem_of_getLast? hlast
    rw [List.getLastD_eq_getLast?, hlast, Option.getD_some, Option.some.injEq]
    constructor
    · intro h
      exact h.1
    · intro h
      exact ⟨h, fun hall => hall last hmem⟩

end ReplicatedRuleManager

/-- Replicated operations report the failures of replicas, except for a `CreateManager`
    whose last replica succeeds after another one has failed. -/
theorem replicas_reported_iff {n : ℕ} {σ : Type} (r : ReplicatedRuleManager n σ) (s : σ)
    (call : Call) : r.Reported s call ↔ r.NotHidden s call := by
  cases call with
  | createManager managerId alertManagers =>
    exact r.reported_createManager_iff s managerId alertManagers
  | deleteManager managerId =>
    exact iff_of_true (r.reported_deleteManager s managerId) trivial
  | upsertRuleGroup managerId ruleGroup =>
    exact iff_of_true (r.reported_upsertRuleGroup s managerId ruleGroup) trivial

/-! ## A failure that is hidden -/

/-- A rule manager that fails with the given error, or succeeds. -/
def answering (err : Option Error) : RuleManager Unit where
  createManager managerId alertManagers _ :=
    match err with
    | some e => ((), .error e)
    | none => ((), .ok ⟨managerId, alertManagers⟩)
  deleteManager _ _ := ((), .ofError err)
  upsertRuleGroup _ _ _ := ((), .ofError err)

/-- Two replicas, the first of which cannot write its files. -/
def firstFails : ReplicatedRuleManager 2 Unit where
  lookup _ := [Replication.thisNode, Replication.otherNode]
  ruleManagers nodeIndex :=
    answering (if nodeIndex = Replication.thisNode
      then some (.other (lit "no space left on device")) else none)

/-- `CreateManager` returns no error although one of its two replicas does. -/
theorem create_hides_failure :
    (firstFails.perform () (.createManager (lit "m") none)).2 = .ok ∧
      firstFails.answers () (.createManager (lit "m") none) =
        [.error (.other (lit "no space left on device")), .ok] ∧
      (firstFails.perform () (.deleteManager (lit "m"))).2 =
        .error (.other (lit "no space left on device")) := by
  decide

end MetricStore.Rules
