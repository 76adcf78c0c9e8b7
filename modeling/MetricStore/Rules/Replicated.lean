import MetricStore.Common.Run
import MetricStore.Rules.Files

/-!
# Creating a rule manager on its replicas

Model of `ReplicatedRuleManager.CreateManager`
(`internal/rules/replicated_rule_manager.go`, lines 39–48): the replicas that the routing
table gives for the manager are called one after the other, the local one through
`LocalRuleManager` and the others over HTTP, all with the same pointer to the
configurations.

A remote call reads the configurations and does not change them. The local call replaces
the certificates that are given inline by the names of its own files, so that every
replica after it is sent file names of this node.

Results:
* `replicas_receive_same_iff`: every replica receives the caller's configurations exactly
  when no call but the last is a local one that replaces a certificate.
* `later_replica_receives_path`: the local node comes first, and the other replica is sent
  the path of a file that it does not have.
-/

namespace MetricStore.Rules

open MetricStore.Common

/-- A call in the loop: the replica, how its file operations end if it is this node, and
    what it answers if it is not. -/
structure ReplicaCall (n : ℕ) where
  nodeIndex : Fin n
  outcomes : Outcomes
  answer : Except Error Manager

/-- The loop: this node, what the caller's pointer refers to, the configurations that the
    replicas called so far were given, and the result of the last call. -/
structure Replication (n : ℕ) where
  node : LocalNode
  alertmanagerConfigs : Option AlertmanagerConfigs
  received : List (Fin n × Option AlertmanagerConfigs)
  result : Option (Except Error Manager)

namespace Replication

variable {n : ℕ}

/-- `CreateManager` before its first call. -/
def start (node : LocalNode) (alertmanagerConfigs : Option AlertmanagerConfigs) :
    Replication n :=
  ⟨node, alertmanagerConfigs, [], none⟩

section Loop

variable (rulesStoragePath : Bytes) (localIndex : Fin n) (managerId : Bytes)

/-- `manager, err = r.ruleManagers[nodeIndex].CreateManager(managerId, alertmanagerConfigs)`. -/
def call (s : Replication n) (c : ReplicaCall n) : Replication n :=
  if c.nodeIndex = localIndex then
    let r := createManager rulesStoragePath c.outcomes managerId s.node s.alertmanagerConfigs
    ⟨r.1, r.2.1, s.received ++ [(c.nodeIndex, s.alertmanagerConfigs)], some r.2.2⟩
  else
    ⟨s.node, s.alertmanagerConfigs, s.received ++ [(c.nodeIndex, s.alertmanagerConfigs)],
      some c.answer⟩

/-- `ReplicatedRuleManager.CreateManager`, with a call for each replica of the lookup. -/
def createManager (node : LocalNode) (alertmanagerConfigs : Option AlertmanagerConfigs)
    (calls : List (ReplicaCall n)) : Replication n :=
  calls.foldl (call rulesStoragePath localIndex managerId) (start node alertmanagerConfigs)

/-- The call does not replace a certificate: it is made on another node, or this node
    does not get to write one. -/
def Harmless (s : Replication n) (c : ReplicaCall n) : Prop :=
  c.nodeIndex = localIndex →
    ¬ Rewrites rulesStoragePath c.outcomes managerId s.node.disk s.alertmanagerConfigs

/-- Every replica called was given the configurations `configs`. -/
def Received (configs : Option AlertmanagerConfigs) (s : Replication n) : Prop :=
  ∀ r ∈ s.received, r.2 = configs

instance (configs : Option AlertmanagerConfigs) (s : Replication n) :
    Decidable (s.Received configs) :=
  inferInstanceAs (Decidable (∀ r ∈ s.received, _))

variable {rulesStoragePath localIndex managerId}

theorem call_received (s : Replication n) (c : ReplicaCall n) :
    (call rulesStoragePath localIndex managerId s c).received
      = s.received ++ [(c.nodeIndex, s.alertmanagerConfigs)] := by
  unfold call
  split <;> rfl

variable (rulesStoragePath localIndex managerId) in
/-- A call leaves the configurations alone exactly when it is harmless. -/
theorem call_configs_iff (s : Replication n) (c : ReplicaCall n) :
    (call rulesStoragePath localIndex managerId s c).alertmanagerConfigs
        = s.alertmanagerConfigs ↔ Harmless rulesStoragePath localIndex managerId s c := by
  unfold call Harmless
  by_cases hlocal : c.nodeIndex = localIndex
  · rw [if_pos hlocal, forall_prop_of_true hlocal]
    exact createManager_eq_self_iff rulesStoragePath c.outcomes managerId s.node
      s.alertmanagerConfigs
  · rw [if_neg hlocal]
    simp [hlocal]

/-- What a replica was given stays in the list. -/
theorem received_foldl_call (calls : List (ReplicaCall n)) (s : Replication n) :
    s.received ⊆ (calls.foldl (call rulesStoragePath localIndex managerId) s).received := by
  induction calls generalizing s with
  | nil => exact List.Subset.refl _
  | cons c calls ih =>
    refine List.Subset.trans ?_ (ih (call rulesStoragePath localIndex managerId s c))
    rw [call_received]
    exact List.subset_append_left _ _

theorem received_foldl_iff {configs : Option AlertmanagerConfigs} (calls : List (ReplicaCall n))
    {s : Replication n} (hreceived : s.Received configs)
    (hconfigs : s.alertmanagerConfigs = configs) :
    (calls.foldl (call rulesStoragePath localIndex managerId) s).Received configs ↔
      Meets (fun s c => some (call rulesStoragePath localIndex managerId s c))
        (Harmless rulesStoragePath localIndex managerId) s calls.dropLast := by
  -- as long as the calls are harmless, the pointer refers to `configs`
  induction calls generalizing s with
  | nil => exact iff_of_true hreceived trivial
  | cons c calls ih =>
    have hnext : (call rulesStoragePath localIndex managerId s c).Received configs := by
      intro r hr
      rw [call_received, List.mem_append, List.mem_singleton] at hr
      rcases hr with hr | rfl
      · exact hreceived r hr
      · exact hconfigs
    have hharmless := call_configs_iff rulesStoragePath localIndex managerId s c
    rw [List.foldl_cons]
    cases calls with
    | nil => exact iff_of_true hnext trivial
    | cons d calls =>
      rw [List.dropLast_cons_cons, Meets]
      simp only [Option.mem_def, Option.some.injEq, forall_eq']
      by_cases hok : Harmless rulesStoragePath localIndex managerId s c
      · rw [ih hnext ((hharmless.2 hok).trans hconfigs)]
        simp [hok]
      · -- the replica called next is given the changed configurations
        refine iff_of_false (fun hall => hok (hharmless.1 ?_)) fun h => hok h.1
        have hmem : (d.nodeIndex,
            (call rulesStoragePath localIndex managerId s c).alertmanagerConfigs) ∈
            ((d :: calls).foldl (call rulesStoragePath localIndex managerId)
              (call rulesStoragePath localIndex managerId s c)).received := by
          rw [List.foldl_cons]
          apply received_foldl_call
          rw [call_received]
          simp
        exact (hall _ hmem).trans hconfigs.symm

/-- **Which replicas receive the caller's configurations.** Every replica that
    `CreateManager` calls receives the configurations that the caller passed, exactly when
    each call but the last is harmless in the state in which it is made. -/
theorem replicas_receive_same_iff (rulesStoragePath : Bytes) (localIndex : Fin n)
    (managerId : Bytes) (node : LocalNode) (alertmanagerConfigs : Option AlertmanagerConfigs)
    (calls : List (ReplicaCall n)) :
    (createManager rulesStoragePath localIndex managerId node alertmanagerConfigs calls).Received
        alertmanagerConfigs ↔
      Meets (fun s c => some (call rulesStoragePath localIndex managerId s c))
        (Harmless rulesStoragePath localIndex managerId) (start node alertmanagerConfigs)
        calls.dropLast :=
  received_foldl_iff calls (fun r hr => by cases hr) rfl

end Loop

/-! ## A path instead of a certificate -/

/-- An alertmanager whose CA is given inline. -/
def inlineCA : AlertmanagerConfig where
  serviceDiscovery := ⟨lit "static_configs", []⟩
  httpClient := ⟨none, [], [], [],
    ⟨lit "-----BEGIN C-----\nM\n-----END C-----\n", [], [], [], false⟩⟩
  scheme := lit "https"
  pathPrefix := []
  timeout := 10000000000
  apiVersion := lit "v2"
  relabelConfigs := []

/-- The files are written, and the rule manager does not start. -/
def startFails : Outcomes where
  statError := none
  mkdirError := none
  writeError _ := none
  remains _ := none
  startError := some (lit "unable to use specified CA cert")
  order := ⟨id, .refl⟩

/-- This node. -/
def thisNode : Fin 2 := ⟨0, Nat.two_pos⟩

/-- The other replica. -/
def otherNode : Fin 2 := ⟨1, Nat.one_lt_two⟩

/-- The calls on this node and then on the other. The text in the place of a certificate
    is none, so neither node starts the manager. -/
def localFirst : List (ReplicaCall 2) :=
  [⟨thisNode, startFails, .error .managerExists⟩,
    ⟨otherNode, startFails, .error (.other (lit "unable to use specified CA cert"))⟩]

/-- **The replica after this node receives a path.** It is given the name of this node's
    file in the place of the certificate. -/
theorem later_replica_receives_path :
    ¬ (createManager (lit "/var/rules") thisNode (lit "m") ⟨∅, ∅⟩ (some [inlineCA])
        localFirst).Received (some [inlineCA]) ∧
      (createManager (lit "/var/rules") thisNode (lit "m") ⟨∅, ∅⟩ (some [inlineCA])
        localFirst).received =
        [(thisNode, some [inlineCA]), (otherNode, some [inlineCA.setCertificate .ca
          (lit "/var/rules/m/alertmanager-config-0-ca.crt")])] := by
  decide

end Replication

end MetricStore.Rules
