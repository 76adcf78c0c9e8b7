import MetricStore.Routing.JumpHash
import MetricStore.Storage.RemoteRead

/-!
# Reading from the cluster

`ReplicatedQuerier.Select` (`internal/storage/replicated_querier.go`, lines 105–192) answers
from the local store where the routing table says that the metric is local. Otherwise it asks
the nodes that `Lookup` gives, in random order, until one can be reached. They are asked at
`/api/v1/read`, which `setupRouting` (`internal/metricstore/metric_store.go`, lines 323–328)
serves with the same replicated storage: a node that is asked decides again, with its own
table, whether the metric is local.

A `Select` that ends with a connection error is repeated, and has no effect on the answer, so
that the model has the last attempt only. Which nodes can be reached is not determined.

Main results:

* `cluster_read_from_replica`: where all nodes have tables of the same addresses, each read is
  answered after one hop at most, with the series of one replica of the metric.
* `read_chains_during_change`: while some nodes have the table of other addresses, reads end
  after two hops, or can be passed on without end; which of the two depends on two kinds of
  nodes.
* `read_chain_of_added_node`: without replication, adding a node does not let reads go around.
-/

namespace MetricStore.Storage

open MetricStore.Common MetricStore.Persistence MetricStore.Routing
open MetricStore.Storage.Retry (QueryResult queryWithNodeFailover)

/-! ## Model -/

/-- `extractMetricName` (lines 125–135). -/
def extractMetricName : List Matcher → Except Bytes Bytes
  | [] => .error (lit "no metric name present")
  | m :: matchers =>
    if m.name = metricName then
      if m.type ≠ matchEqual then
        .error (lit "only strict equality is supported for metric names")
      else .ok m.value
    else extractMetricName matchers

/-- A node as far as it answers reads: its routing table, its local store and the address
    under which the others ask it. -/
structure ReadNode where
  table : RoutingTable
  store : Select
  url : Bytes

/-- What becomes of a request to another node. There may be no querier for it; the node may be
    out of reach; the request may fail in another way; or the node makes a `Select` with the
    parameters and the matchers that arrive, and answers it. -/
inductive Contact
  | noQuerier
  | unreachable (err : Bytes)
  | broken (err : Bytes)
  | answered (params : Option SelectParams) (matchers : List Matcher)
      (answer : Except Bytes SeriesSet)

/-- The nodes of a cluster, by their index. -/
structure Cluster where
  hashing : Hashing
  codec : Codec
  nodes : ℕ → ReadNode

namespace Cluster

variable (s : Cluster)

/-- What the querier for the node `j` returns. -/
def queried (j : ℕ) : Contact → Option (QueryResult SeriesSet)
  | .noQuerier => none
  | .unreachable err => some (.connectionError err)
  | .broken err => some (.otherError err)
  | .answered _ _ answer =>
    match s.codec.received (s.nodes j).url (s.codec.served answer) with
    | .ok set => some (.ok set)
    | .error err => some (.otherError err)

/-- `queryWithNodeFailover` (lines 169–192) over the nodes that are asked; `text` is their list
    in the message of its own error. -/
def failover (text : Bytes) (contacts : List (ℕ × Contact)) : QueryResult SeriesSet :=
  queryWithNodeFailover text (contacts.map fun e => s.queried e.1 e.2)

/-- What `Select` returns for the result of an attempt, unless it makes another one. -/
def outcome : QueryResult SeriesSet → Option (Except Bytes SeriesSet)
  | .ok set => some (.ok set)
  | .otherError err => some (.error err)
  | .connectionError _ => none

/-- The request for a `Select` arrives at another node as the one for the second `Select`. -/
def Arrives (params : Option SelectParams) (matchers : List Matcher)
    (params' : Option SelectParams) (matchers' : List Matcher) : Prop :=
  ∃ query, toQuery matchers params = .ok query ∧ query.hints = params' ∧
    filterExtLabelsFromMatchers s.codec.compile query.matchers ∅ = .ok matchers'

/-- `Select` on the node `i` can return the answer (lines 105–123). -/
inductive Selects : Option SelectParams → List Matcher → ℕ → Except Bytes SeriesSet → Prop
  | noName {params : Option SelectParams} {matchers : List Matcher} {i : ℕ} {err : Bytes}
      (hname : extractMetricName matchers = .error err) :
      Selects params matchers i (.error err)
  | here {params : Option SelectParams} {matchers : List Matcher} {i : ℕ} {name : Bytes}
      (hname : extractMetricName matchers = .ok name)
      (hlocal : (s.nodes i).table.isLocal s.hashing name = true) :
      Selects params matchers i ((s.nodes i).store params matchers)
  | asked {params : Option SelectParams} {matchers : List Matcher} {i : ℕ} {name text : Bytes}
      {contacts : List (ℕ × Contact)} {answer : Except Bytes SeriesSet}
      (hname : extractMetricName matchers = .ok name)
      (hnot : (s.nodes i).table.isLocal s.hashing name = false)
      (horder : (contacts.map Prod.fst).Perm ((s.nodes i).table.lookup s.hashing name))
      (harrives : ∀ j p m a, (j, Contact.answered p m a) ∈ contacts → Arrives s params matchers p m)
      (hanswers : ∀ j p m a, (j, Contact.answered p m a) ∈ contacts → Selects p m j a)
      (hresult : outcome (s.failover text contacts) = some answer) :
      Selects params matchers i answer

/-- The node `i` asks the node `j` for the metric. -/
def Forwards (name : Bytes) (i j : ℕ) : Prop :=
  (s.nodes i).table.isLocal s.hashing name = false ∧
    j ∈ (s.nodes i).table.lookup s.hashing name

end Cluster

/-! ## One attempt -/

/-- A series set that an attempt returns comes from one of the nodes. -/
theorem failoverFrom_eq_ok {ρ : Type} {text : Bytes} {err : Option Bytes}
    {results : List (Option (QueryResult ρ))} {set : ρ}
    (h : Retry.failoverFrom text err results = .ok set) : some (.ok set) ∈ results := by
  induction results generalizing err with
  | nil => cases err <;> cases h
  | cons r results ih =>
    cases r with
    | none =>
      rw [Retry.failoverFrom] at h
      exact List.mem_cons_of_mem _ (ih h)
    | some r =>
      cases r with
      | ok result =>
        rw [Retry.failoverFrom, QueryResult.ok.injEq] at h
        rw [h]
        exact List.mem_cons_self
      | connectionError e =>
        rw [Retry.failoverFrom] at h
        exact List.mem_cons_of_mem _ (ih h)
      | otherError e =>
        rw [Retry.failoverFrom] at h
        cases h

namespace Cluster

variable {s : Cluster}

theorem queried_eq_ok {j : ℕ} {contact : Contact} {set : SeriesSet}
    (h : s.queried j contact = some (.ok set)) : ∃ params matchers answer,
      contact = .answered params matchers answer ∧
      s.codec.received (s.nodes j).url (s.codec.served answer) = .ok set := by
  cases contact with
  | noQuerier => cases h
  | unreachable err => cases h
  | broken err => cases h
  | answered params matchers answer =>
    refine ⟨params, matchers, answer, rfl, ?_⟩
    simp only [queried] at h
    cases hreceived : s.codec.received (s.nodes j).url (s.codec.served answer) with
    | error err =>
      rw [hreceived] at h
      cases h
    | ok set' =>
      rw [hreceived] at h
      cases h
      rfl

theorem outcome_eq_ok {r : QueryResult SeriesSet} {set : SeriesSet}
    (h : outcome r = some (.ok set)) : r = .ok set := by
  cases r with
  | ok set' =>
    cases h
    rfl
  | connectionError err => cases h
  | otherError err => cases h

/-- Series come from the local store, or were received from a node that was asked. -/
theorem selects_ok {params : Option SelectParams} {matchers : List Matcher} {i : ℕ}
    {set : SeriesSet} (h : s.Selects params matchers i (.ok set)) :
    ∃ name, extractMetricName matchers = .ok name ∧
      (((s.nodes i).table.isLocal s.hashing name = true ∧
          (s.nodes i).store params matchers = .ok set) ∨
        ∃ j answer params' matchers', s.Forwards name i j ∧
          s.Arrives params matchers params' matchers' ∧ s.Selects params' matchers' j answer ∧
          s.codec.received (s.nodes j).url (s.codec.served answer) = .ok set) := by
  generalize hanswer : (Except.ok set : Except Bytes SeriesSet) = answer at h
  cases h with
  | noName hname => cases hanswer
  | here hname hlocal => exact ⟨_, hname, Or.inl ⟨hlocal, rfl⟩⟩
  | asked hname hnot horder harrives hanswers hresult =>
    subst hanswer
    have hmem := failoverFrom_eq_ok (outcome_eq_ok hresult)
    obtain ⟨⟨j, contact⟩, hcontact, hqueried⟩ := List.mem_map.mp hmem
    obtain ⟨params', matchers', answer, rfl, hreceived⟩ := queried_eq_ok hqueried
    have hlookup := horder.mem_iff.mp (List.mem_map_of_mem hcontact)
    exact ⟨_, hname, Or.inr ⟨j, answer, params', matchers', ⟨hnot, hlookup⟩,
      harrives _ _ _ _ hcontact, hanswers _ _ _ _ hcontact, hreceived⟩⟩

/-- Matchers that were made by `NewMatcher` arrive as they are. -/
theorem Arrives.eq {params params' : Option SelectParams} {matchers matchers' : List Matcher}
    (h : s.Arrives params matchers params' matchers')
    (hmade : ∀ m ∈ matchers, Made s.codec.compile m) : params' = params ∧ matchers' = matchers := by
  obtain ⟨ms, hquery, hfilter⟩ := request_arrives hmade params
  obtain ⟨query, hquery', rfl, hfilter'⟩ := h
  rw [hquery, Except.ok.injEq] at hquery'
  subst hquery'
  rw [hfilter, Except.ok.injEq] at hfilter'
  exact ⟨rfl, hfilter'.symm⟩

end Cluster

/-! ## Configurations -/

/-- What a node is told about the cluster when it is started. -/
structure Configuration where
  addrs : List Bytes
  replicationFactor : ℕ

namespace Cluster

variable {s : Cluster}

/-- The node `i` has the routing table of the configuration `cfg i`. -/
def Configured (s : Cluster) (cfg : ℕ → Configuration) : Prop :=
  ∀ i : ℕ, newRoutingTable i (cfg i).addrs (cfg i).replicationFactor = .ok (s.nodes i).table

/-- The nodes of a metric, by a configuration. -/
def replicas (s : Cluster) (c : Configuration) (name : Bytes) : List ℕ :=
  nodesOf s.hashing c.addrs c.replicationFactor name

variable {cfg : ℕ → Configuration} (hcfg : s.Configured cfg)

include hcfg

theorem isLocal_iff_mem (i : ℕ) (name : Bytes) :
    (s.nodes i).table.isLocal s.hashing name = true ↔ i ∈ s.replicas (cfg i) name := by
  rw [isLocal_iff (hcfg i)]
  constructor
  · rintro ⟨node, hnode, heq⟩
    obtain rfl : node = i := Int.ofNat_inj.mp heq
    exact hnode
  · intro hi
    exact ⟨i, hi, rfl⟩

/-- Which node asks which. -/
theorem forwards_iff (name : Bytes) (i j : ℕ) :
    s.Forwards name i j ↔ i ∉ s.replicas (cfg i) name ∧ j ∈ s.replicas (cfg i) name := by
  unfold Forwards
  rw [lookup_of_newRoutingTable (hcfg i), ← Bool.not_eq_true, isLocal_iff_mem hcfg, replicas]

end Cluster

/-! ## The same configuration -/

section Agreeing

variable {s : Cluster} {c : Configuration} (hcfg : s.Configured fun _ => c)

include hcfg

/-- A node that is asked does not ask on. -/
theorem not_forwards_forwards {name : Bytes} {i j k : ℕ} (hij : s.Forwards name i j) :
    ¬ s.Forwards name j k := by
  rw [Cluster.forwards_iff hcfg] at hij ⊢
  intro hjk
  exact hjk.1 hij.2

/-- **A read of the cluster** that succeeds gives the series of one replica of the metric: of
    the node itself if it is one, and otherwise of one that it has asked. A node that is no
    replica never answers from its own store. -/
theorem cluster_read_from_replica {params : Option SelectParams} {matchers : List Matcher}
    (hmade : ∀ m ∈ matchers, Made s.codec.compile m) {i : ℕ} {result : List ConcreteSeries}
    (h : s.Selects params matchers i (.ok (.series result))) :
    ∃ name replica series, extractMetricName matchers = .ok name ∧
      replica ∈ s.replicas c name ∧
      (s.nodes replica).store params matchers = .ok (.series series) ∧
      (i ∈ s.replicas c name → replica = i ∧ result = series) ∧
      (i ∉ s.replicas c name →
        result.Perm (series.map (toTimeSeries s.codec.byName)) ∧
          ∀ t ∈ series, Readable t.labels) := by
  obtain ⟨name, hname, hcase⟩ := Cluster.selects_ok h
  rcases hcase with ⟨hlocal, hstore⟩ |
    ⟨j, answer, params', matchers', hforwards, harrives, hselects, hreceived⟩
  · have hi := (Cluster.isLocal_iff_mem hcfg i name).mp hlocal
    exact ⟨name, i, result, hname, hi, hstore, fun _ => ⟨rfl, rfl⟩, fun hnot => absurd hi hnot⟩
  · obtain ⟨hi, hj⟩ := (Cluster.forwards_iff hcfg name i j).mp hforwards
    obtain ⟨res, hserved, hset⟩ := received_eq_ok hreceived
    obtain ⟨series, rfl, -, rfl⟩ := (served_eq_ok_iff s.codec).mp hserved
    obtain ⟨hreadable, rfl⟩ := (fromQueryResult_eq_series_iff _ _).mp hset.symm
    obtain ⟨rfl, rfl⟩ := harrives.eq hmade
    obtain ⟨name', hname', hcase'⟩ := Cluster.selects_ok hselects
    rw [hname, Except.ok.injEq] at hname'
    subst hname'
    rcases hcase' with ⟨-, hstore⟩ | ⟨k, -, -, -, hagain, -⟩
    · refine ⟨name, j, series, hname, hj, hstore, fun hmem => absurd hmem hi, fun _ => ?_⟩
      exact ⟨s.codec.byLabel.perm _, hreadable⟩
    · exact absurd hagain (not_forwards_forwards hcfg hforwards)

end Agreeing

/-- Two nodes, of which the first one has the metric. -/
def pairCluster : Cluster where
  hashing := ⟨fun _ => 0, fun _ _ => 0, fun hn _ => hn⟩
  codec := plainCodec
  nodes i := ⟨⟨i, GoMap.ofPairs [([1], 0), ([2], 1)], 1, 2, []⟩,
    fun _ _ => .ok (.series (if i = 0 then [citySeries] else [])), lit "node"⟩

theorem cluster_read_from_replica_second : ∃ name replica series,
    extractMetricName [cpuMatcher] = .ok name ∧
      replica ∈ pairCluster.replicas ⟨[[1], [2]], 1⟩ name ∧
      (pairCluster.nodes replica).store none [cpuMatcher] = .ok (.series series) ∧
      (1 ∈ pairCluster.replicas ⟨[[1], [2]], 1⟩ name → replica = 1 ∧
        sortByLabel.sort [toTimeSeries sortByName citySeries] = series) ∧
      (1 ∉ pairCluster.replicas ⟨[[1], [2]], 1⟩ name →
        (sortByLabel.sort [toTimeSeries sortByName citySeries]).Perm
            (series.map (toTimeSeries sortByName)) ∧
          ∀ t ∈ series, Readable t.labels) := by
  have hcfg : pairCluster.Configured fun _ => ⟨[[1], [2]], 1⟩ := fun i => rfl
  have hreceived : pairCluster.codec.received (pairCluster.nodes 0).url
      (pairCluster.codec.served (.ok (.series [citySeries]))) =
      .ok (.series (sortByLabel.sort [toTimeSeries sortByName citySeries])) := by
    rw [(served_eq_ok_iff pairCluster.codec).mpr ⟨[citySeries], rfl, by decide +kernel, rfl⟩]
    refine congrArg Except.ok ((fromQueryResult_eq_series_iff sortByName sortByLabel).mpr ⟨?_, rfl⟩)
    intro s hs
    rw [List.mem_singleton.mp hs]
    exact readable_citySeries
  have hresult : Cluster.outcome (pairCluster.failover []
      [(0, .answered none [cpuMatcher] (.ok (.series [citySeries])))]) =
      some (.ok (.series (sortByLabel.sort [toTimeSeries sortByName citySeries]))) := by
    have hqueried : pairCluster.queried 0
        (.answered none [cpuMatcher] (.ok (.series [citySeries]))) =
        some (.ok (.series (sortByLabel.sort [toTimeSeries sortByName citySeries]))) := by
      simp only [Cluster.queried, hreceived]
    unfold Cluster.failover
    rw [List.map_singleton, hqueried]
    rfl
  have hname : extractMetricName [cpuMatcher] = .ok (lit "cpu") := rfl
  have hselects : pairCluster.Selects none [cpuMatcher] 1
      (.ok (.series (sortByLabel.sort [toTimeSeries sortByName citySeries]))) := by
    refine .asked hname (by decide +kernel) (by decide +kernel) ?_ ?_ hresult
    · intro j p m a hmem
      cases List.mem_singleton.mp hmem
      obtain ⟨ms, hquery, hfilter⟩ := request_arrives made_cpuMatcher none
      exact ⟨_, hquery, rfl, hfilter⟩
    · intro j p m a hmem
      cases List.mem_singleton.mp hmem
      exact .here hname (by decide +kernel)
  exact cluster_read_from_replica hcfg made_cpuMatcher hselects

/-! ## Two configurations -/

/-- The node has the configuration `a`, but is a replica of the metric by `b` only. -/
def Cluster.Astray (s : Cluster) (cfg : ℕ → Configuration) (name : Bytes) (a b : Configuration)
    (x : ℕ) : Prop :=
  cfg x = a ∧ x ∉ s.replicas a name ∧ x ∈ s.replicas b name

section Mixed

variable {s : Cluster} {cfg : ℕ → Configuration} (hcfg : s.Configured cfg) {a b : Configuration}
  {name : Bytes}

include hcfg

/-- Two nodes that are astray in opposite ways ask each other. -/
theorem forwards_of_astray {x y : ℕ} (hx : s.Astray cfg name a b x)
    (hy : s.Astray cfg name b a y) : s.Forwards name x y := by
  obtain ⟨hcfgx, hnotx, -⟩ := hx
  obtain ⟨-, -, hmemy⟩ := hy
  rw [Cluster.forwards_iff hcfg, hcfgx]
  exact ⟨hnotx, hmemy⟩

/-- A node that is asked and asks on is astray. -/
theorem astray_of_forwards (hab : ∀ i, cfg i = a ∨ cfg i = b) {i j k : ℕ}
    (hij : s.Forwards name i j) (hjk : s.Forwards name j k) :
    (cfg i = b ∧ s.Astray cfg name a b j) ∨ (cfg i = a ∧ s.Astray cfg name b a j) := by
  obtain ⟨-, hmem⟩ := (Cluster.forwards_iff hcfg name i j).mp hij
  obtain ⟨hnot, -⟩ := (Cluster.forwards_iff hcfg name j k).mp hjk
  rcases hab i with hi | hi <;> rcases hab j with hj | hj <;> rw [hi] at hmem <;> rw [hj] at hnot
  · exact absurd hmem hnot
  · exact Or.inr ⟨hi, hj, hnot, hmem⟩
  · exact Or.inl ⟨hi, hj, hnot, hmem⟩
  · exact absurd hmem hnot

/-- Three hops in a row need nodes that are astray in both ways. -/
theorem astray_of_three_hops (hab : ∀ i, cfg i = a ∨ cfg i = b) {i j k l : ℕ}
    (hij : s.Forwards name i j) (hjk : s.Forwards name j k) (hkl : s.Forwards name k l) :
    ∃ x y, s.Astray cfg name a b x ∧ s.Astray cfg name b a y := by
  rcases astray_of_forwards hcfg hab hij hjk with ⟨-, hj⟩ | ⟨-, hj⟩ <;>
    rcases astray_of_forwards hcfg hab hjk hkl with ⟨hcfgj, hk⟩ | ⟨hcfgj, hk⟩
  · -- the node `j` has one configuration only
    rw [hj.1] at hcfgj
    subst hcfgj
    exact absurd hk.2.2 hk.2.1
  · exact ⟨j, k, hj, hk⟩
  · exact ⟨k, j, hk, hj⟩
  · rw [hj.1] at hcfgj
    subst hcfgj
    exact absurd hk.2.2 hk.2.1

/-- So does a path of more than three nodes. -/
theorem astray_of_long_path (hab : ∀ i, cfg i = a ∨ cfg i = b) {path : List ℕ}
    (hlong : 3 < path.length) (hchain : path.IsChain (s.Forwards name)) :
    ∃ x y, s.Astray cfg name a b x ∧ s.Astray cfg name b a y := by
  match path, hlong, hchain with
  | i :: j :: k :: l :: rest, _, hchain =>
    obtain ⟨hij, hchain⟩ := List.isChain_cons_cons.mp hchain
    obtain ⟨hjk, hchain⟩ := List.isChain_cons_cons.mp hchain
    obtain ⟨hkl, -⟩ := List.isChain_cons_cons.mp hchain
    exact astray_of_three_hops hcfg hab hij hjk hkl

/-- The reads go from one of the two nodes to the other, and back. -/
def goingAround (x y : ℕ) : ℕ → List ℕ
  | 0 => []
  | k + 1 => x :: goingAround y x k

omit hcfg in
theorem isChain_goingAround {x y : ℕ} (hxy : s.Forwards name x y) (hyx : s.Forwards name y x)
    (k : ℕ) : (goingAround x y k).IsChain (s.Forwards name) := by
  induction k generalizing x y with
  | zero => exact List.IsChain.nil
  | succ k ih =>
    cases k with
    | zero => exact List.IsChain.singleton x
    | succ k => exact List.isChain_cons_cons.mpr ⟨hxy, ih hyx hxy⟩

/-- **Reads during a change of the configuration.** If there are two nodes, each with one of
    the two configurations and a replica of the metric by the other one only, then reads can be
    passed on any number of times. Otherwise no read is passed on more than twice. -/
theorem read_chains_during_change (hab : ∀ i, cfg i = a ∨ cfg i = b) :
    ((∃ x y, s.Astray cfg name a b x ∧ s.Astray cfg name b a y) →
        ∀ k, ∃ path : List ℕ, path.length = k ∧ path.IsChain (s.Forwards name)) ∧
      ((∃ path : List ℕ, 3 < path.length ∧ path.IsChain (s.Forwards name)) →
        ∃ x y, s.Astray cfg name a b x ∧ s.Astray cfg name b a y) := by
  constructor
  · rintro ⟨x, y, hx, hy⟩ k
    have hlength : ∀ (k x y : ℕ), (goingAround x y k).length = k := by
      intro k
      induction k with
      | zero => exact fun _ _ => rfl
      | succ k ih => exact fun x y => congrArg (· + 1) (ih y x)
    exact ⟨goingAround x y k, hlength k x y,
      isChain_goingAround (forwards_of_astray hcfg hx hy) (forwards_of_astray hcfg hy hx) k⟩
  · rintro ⟨path, hlong, hchain⟩
    exact astray_of_long_path hcfg hab hlong hchain

end Mixed

/-! ### Two nodes that restart -/

/-- Of two nodes the second one is chosen, of three the first one. -/
def lastOfTwo : Hashing where
  sum64 _ := 0
  jump n _ := if n = 2 then 1 else 0
  jump_lt := by
    intro n hn _
    split_ifs <;> omega

/-- The first node still has a list of two addresses, all others have three. -/
def restarting (i : ℕ) : Configuration :=
  if i = 0 then ⟨[[1], [2]], 1⟩ else ⟨[[1], [2], [3]], 1⟩

/-- Nodes with these configurations and no series. -/
def restartingCluster : Cluster where
  hashing := lastOfTwo
  codec := plainCodec
  nodes i := ⟨⟨i, GoMap.ofPairs (restarting i).addrs.zipIdx, 1, (restarting i).addrs.length, []⟩,
    fun _ _ => .ok (.series []), []⟩

theorem read_chains_during_change_restarting :
    ∃ path : List ℕ, path.length = 9 ∧ path.IsChain (restartingCluster.Forwards (lit "cpu")) := by
  have hcfg : restartingCluster.Configured restarting := by
    intro i
    by_cases hi : i = 0
    · subst hi
      rfl
    · unfold restartingCluster restarting
      simp only [hi, if_false]
      rfl
  have hab : ∀ i, restarting i = ⟨[[1], [2]], 1⟩ ∨ restarting i = ⟨[[1], [2], [3]], 1⟩ := by
    intro i
    unfold restarting
    split_ifs
    · exact Or.inl rfl
    · exact Or.inr rfl
  have hfirst : restartingCluster.Astray restarting (lit "cpu") ⟨[[1], [2]], 1⟩
      ⟨[[1], [2], [3]], 1⟩ 0 := ⟨rfl, by decide +kernel, by decide +kernel⟩
  have hsecond : restartingCluster.Astray restarting (lit "cpu") ⟨[[1], [2], [3]], 1⟩
      ⟨[[1], [2]], 1⟩ 1 := ⟨rfl, by decide +kernel, by decide +kernel⟩
  exact (read_chains_during_change hcfg hab).1 ⟨0, 1, hfirst, hsecond⟩ 9

/-! ## A node is added -/

section Added

variable {s : Cluster} {sum64 : Bytes → UInt64} (hhash : s.hashing = jumpHashing sum64)
  {addrs : List Bytes} {addr : Bytes} (hnodup : (addrs ++ [addr]).Nodup) {replicationFactor : ℕ}
  {name : Bytes}

include hhash hnodup

theorem replicas_before : s.replicas ⟨addrs, replicationFactor⟩ name =
    (List.range replicationFactor).map
      fun n => (jump addrs.length (sum64 name) + n) % addrs.length := by
  unfold Cluster.replicas
  rw [hhash, nodesOf_jumpHashing sum64 (List.nodup_append.1 hnodup).1]

theorem replicas_after : s.replicas ⟨addrs ++ [addr], replicationFactor⟩ name =
    (List.range replicationFactor).map
      fun n => (jump (addrs.length + 1) (sum64 name) + n) % (addrs.length + 1) := by
  unfold Cluster.replicas
  rw [hhash, nodesOf_jumpHashing sum64 hnodup, List.length_append, List.length_singleton]

/-- Where the first node of a metric stays, its replicas are those of before, or the new
    node. -/
theorem mem_replicas_of_stays (hpos : 0 < addrs.length) (hle : replicationFactor ≤ addrs.length)
    (hstays : jump (addrs.length + 1) (sum64 name) = jump addrs.length (sum64 name)) {y : ℕ}
    (hy : y ∈ s.replicas ⟨addrs ++ [addr], replicationFactor⟩ name) :
    y = addrs.length ∨ y ∈ s.replicas ⟨addrs, replicationFactor⟩ name := by
  rw [replicas_after hhash hnodup, hstays] at hy
  rw [replicas_before hhash hnodup]
  by_cases hfit : jump addrs.length (sum64 name) + replicationFactor ≤ addrs.length
  · rw [consecutive_of_le hfit] at hy
    exact Or.inr hy
  · have hperm := consecutive_perm (jump_lt hpos (sum64 name)) hle (by omega)
    rcases List.mem_cons.mp (hperm.mem_iff.mp hy) with heq | hmem
    · exact Or.inl heq
    · exact Or.inr (List.mem_of_mem_dropLast hmem)

/-- The same where there is one replica, which can only move to the new node. -/
theorem mem_replicas_of_safe (hlt : addrs.length + 1 < 2 ^ 31) (hpos : 0 < addrs.length)
    (hle : replicationFactor ≤ addrs.length)
    (hsafe : replicationFactor = 1 ∨
      jump (addrs.length + 1) (sum64 name) = jump addrs.length (sum64 name)) {y : ℕ}
    (hy : y ∈ s.replicas ⟨addrs ++ [addr], replicationFactor⟩ name) :
    y = addrs.length ∨ y ∈ s.replicas ⟨addrs, replicationFactor⟩ name := by
  rcases jump_succ hpos hlt (sum64 name) with hstays | hmoves
  · exact mem_replicas_of_stays hhash hnodup hpos hle hstays hy
  · rcases hsafe with hone | hstays
    · rw [replicas_after hhash hnodup, hmoves, hone] at hy
      exact Or.inl (by simpa using hy)
    · exact mem_replicas_of_stays hhash hnodup hpos hle hstays hy

/-- **Reads while a node is added.** The nodes are restarted one after the other with the new
    address at the end of their lists; the new node has it from the start. No read of a metric
    is passed on more than twice, if there is one replica of each metric, or if the first node
    of the metric stays. -/
theorem read_chain_of_added_node (hlt : addrs.length + 1 < 2 ^ 31) {cfg : ℕ → Configuration}
    (hcfg : s.Configured cfg)
    (hab : ∀ i, cfg i = ⟨addrs ++ [addr], replicationFactor⟩ ∨ cfg i = ⟨addrs, replicationFactor⟩)
    (hnew : cfg addrs.length = ⟨addrs ++ [addr], replicationFactor⟩)
    (hsafe : replicationFactor = 1 ∨
      jump (addrs.length + 1) (sum64 name) = jump addrs.length (sum64 name))
    {path : List ℕ} (hchain : path.IsChain (s.Forwards name)) : path.length ≤ 3 := by
  by_contra hlong
  obtain ⟨x, y, -, hcfgy, hnoty, hy⟩ := astray_of_long_path hcfg hab (by omega) hchain
  have htable := hcfg y
  rw [hcfgy] at htable
  obtain ⟨hpos, hle, -⟩ := newRoutingTable_eq_ok_iff.mp htable
  dsimp only at hpos hle
  rcases mem_replicas_of_safe hhash hnodup hlt (by omega) hle hsafe hy with heq | hmem
  · -- the node that is a replica only now is the new one, which never had the old list
    rw [heq, hnew, Configuration.mk.injEq] at hcfgy
    have hlength := congrArg List.length hcfgy.1
    simp at hlength
  · exact hnoty hmem

end Added

/-- The third node is new, and the first one has been restarted. -/
def joining (i : ℕ) : Configuration :=
  if i = 1 then ⟨[[1], [2]], 1⟩ else ⟨[[1], [2]] ++ [[3]], 1⟩

/-- Nodes with these configurations and no series. The metric moves from the first node to the
    new one. -/
def joiningCluster : Cluster where
  hashing := jumpHashing fun _ => 3
  codec := plainCodec
  nodes i := ⟨⟨i, GoMap.ofPairs (joining i).addrs.zipIdx, 1, (joining i).addrs.length, []⟩,
    fun _ _ => .ok (.series []), []⟩

/-- The second node asks the first one, which asks the new one; and no read goes further. -/
theorem read_chain_of_added_node_joining :
    [1, 0, 2].IsChain (joiningCluster.Forwards (lit "cpu")) ∧
      ∀ path : List ℕ, path.IsChain (joiningCluster.Forwards (lit "cpu")) → path.length ≤ 3 := by
  have hcfg : joiningCluster.Configured joining := by
    intro i
    by_cases hi : i = 1
    · subst hi
      rfl
    · unfold joiningCluster joining
      simp only [hi, if_false]
      rfl
  have hab : ∀ i, joining i = ⟨[[1], [2]] ++ [[3]], 1⟩ ∨ joining i = ⟨[[1], [2]], 1⟩ := by
    intro i
    unfold joining
    split_ifs
    · exact Or.inr rfl
    · exact Or.inl rfl
  have hhash : joiningCluster.hashing = jumpHashing fun _ => 3 := rfl
  have hfirst : joiningCluster.Forwards (lit "cpu") 1 0 := ⟨by decide +kernel, by decide +kernel⟩
  have hsecond : joiningCluster.Forwards (lit "cpu") 0 2 := ⟨by decide +kernel, by decide +kernel⟩
  refine ⟨.cons_cons hfirst (.cons_cons hsecond (.singleton 2)), fun path hchain => ?_⟩
  exact read_chain_of_added_node hhash (by decide) (by decide) hcfg hab rfl (Or.inl rfl) hchain

end MetricStore.Storage
