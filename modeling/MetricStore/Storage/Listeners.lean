import MetricStore.Common.Run
import MetricStore.Persistence.Appender

/-!
# The listeners of a node

Model of the write path of a node: the callback of the ingress listener
(`queuePoints`, `internal/metricstore/metric_store.go`, lines 429–474), which sanitizes
each point and hands it to the replicated appender
(`internal/storage/replicated_appender.go`), and the callback of the internode listener
(`writePoints`, lines 498–530), which hands each point to the local appender.

A callback is modelled from the batch that `gob` decoded on: `queuePoints` rejects a
payload that does not decode, and `writePoints` goes on with what was decoded of it.
Batches are handled one after the other. The routing table is a parameter that gives
valid node indices.

Results:
* `listeners_survive_iff`: after any sequence of batches, the next one does not reach the
  panic of `MustNewPoint` exactly when every point that the local appender accepts has a
  time that the database can represent and a series key that is not too long.
* `latest_timestamp_crashes`: one point with the largest timestamp brings a node down.
-/

namespace MetricStore.Storage

open MetricStore.Common MetricStore.Influx MetricStore.Persistence

/-! ## Appenders -/

/-- `RemoteAppender` (`internal/storage/remote_appender.go`): the points added, and those
    put into the buffer of its batcher. -/
structure RemoteAppender where
  points : List Rpc.Point
  nodeBuffer : List Rpc.Point

/-- `RemoteAppender.Add`. -/
def RemoteAppender.add (a : RemoteAppender) (l : Labels) (time : Int64) (value : Float64) :
    RemoteAppender :=
  { a with points := a.points ++ [⟨l.get metricName, time, value, l.toMap⟩] }

/-- `RemoteAppender.Commit`. -/
def RemoteAppender.commit (a : RemoteAppender) : RemoteAppender :=
  ⟨[], a.nodeBuffer ++ a.points⟩

/-- The routing of a cluster of `n` nodes: `RoutingTable.Lookup`, and this node. -/
structure Routing (n : ℕ) where
  lookup : Bytes → List (Fin n)
  localIndex : Fin n

/-- `ReplicatedAppender`: an appender for each node, local for this one and remote for
    the others. -/
structure ReplicatedAppender (n : ℕ) where
  localAppender : Appender
  remote : Fin n → RemoteAppender

namespace ReplicatedAppender

variable {n : ℕ}

/-- `a.appenders[nodeIndex].Add(l, time, value)`; the error is ignored. -/
def addTo (routing : Routing n) (l : Labels) (time : Int64) (value : Float64)
    (a : ReplicatedAppender n) (nodeIndex : Fin n) : ReplicatedAppender n :=
  if nodeIndex = routing.localIndex then
    { a with localAppender := (a.localAppender.add l time value).1 }
  else
    ⟨a.localAppender,
      Function.update a.remote nodeIndex ((a.remote nodeIndex).add l time value)⟩

/-- `ReplicatedAppender.Add` (lines 54–61). -/
def add (routing : Routing n) (a : ReplicatedAppender n) (l : Labels) (time : Int64)
    (value : Float64) : ReplicatedAppender n :=
  (routing.lookup (l.get metricName)).foldl (addTo routing l time value) a

/-- The loop of `ReplicatedAppender.Commit` (lines 72–78); errors are ignored. -/
def commitAll {σ : Type} (db : InfluxStore σ) (order : MapOrder ℤ) (routing : Routing n) :
    List (Fin n) → ReplicatedAppender n → InfluxAdapter σ →
      Except Panic (ReplicatedAppender n × InfluxAdapter σ)
  | [], a, adapter => .ok (a, adapter)
  | nodeIndex :: rest, a, adapter =>
    if nodeIndex = routing.localIndex then
      match a.localAppender.commit db order adapter with
      | .error p => .error p
      | .ok (localAppender, adapter, _) =>
        commitAll db order routing rest { a with localAppender := localAppender } adapter
    else
      commitAll db order routing rest
        ⟨a.localAppender, Function.update a.remote nodeIndex (a.remote nodeIndex).commit⟩ adapter

/-- `ReplicatedAppender.Commit`. -/
def commit {σ : Type} (db : InfluxStore σ) (order : MapOrder ℤ) (routing : Routing n)
    (a : ReplicatedAppender n) (adapter : InfluxAdapter σ) :
    Except Panic (ReplicatedAppender n × InfluxAdapter σ) :=
  commitAll db order routing (List.finRange n) a adapter

end ReplicatedAppender

/-! ## Callbacks -/

/-- The write path of a node: its database, the appender of the ingress listener, and
    that of the internode listener. -/
structure Node (σ : Type) (n : ℕ) where
  adapter : InfluxAdapter σ
  replicated : ReplicatedAppender n
  sanitized : Appender

/-- The labels of a point with sanitized names (lines 449–452). Of two names that become
    equal, the one visited last counts. -/
def sanitizedLabels (point : Rpc.Point) : GoMap Bytes Bytes :=
  GoMap.ofPairs (point.labels.pairs.map fun e => (sanitizeLabelName e.1, e.2))

/-- The label set that `queuePoints` passes on (lines 449–457). -/
def sanitizedLabelSet (point : Rpc.Point) : Labels :=
  Labels.fromMap ((sanitizedLabels point).insert metricName (sanitizeMetricName point.name))

/-- The body of the loop of `queuePoints` (lines 443–466). -/
def queuePoint {n : ℕ} (routing : Routing n) (a : ReplicatedAppender n) (point : Rpc.Point) :
    ReplicatedAppender n :=
  if isValidFloat point.value then
    a.add routing (sanitizedLabelSet point) point.timestamp point.value
  else a

/-- The body of the loop of `writePoints` (lines 511–522). -/
def writePoint (a : Appender) (point : Rpc.Point) : Appender :=
  (a.add (convertLabels point) point.timestamp point.value).1

/-- A batch that arrives at a listener, and the order in which the days of its points
    are written. -/
inductive Delivery
  | ingress (order : MapOrder ℤ) (batch : List Rpc.Point)
  | internode (order : MapOrder ℤ) (batch : List Rpc.Point)

namespace Node

variable {σ : Type} {n : ℕ}

/-- A node when its listeners start. -/
def start (labelTruncationLength : ℕ) (adapter : InfluxAdapter σ) : Node σ n where
  adapter := adapter
  replicated := ⟨.newAppender labelTruncationLength, fun _ => ⟨[], []⟩⟩
  sanitized := .newAppender labelTruncationLength

/-- `queuePoints`. -/
def queuePoints (db : InfluxStore σ) (routing : Routing n) (order : MapOrder ℤ)
    (node : Node σ n) (batch : List Rpc.Point) : Except Panic (Node σ n) :=
  match (batch.foldl (queuePoint routing) node.replicated).commit db order routing
    node.adapter with
  | .error p => .error p
  | .ok (replicated, adapter) => .ok { node with replicated := replicated, adapter := adapter }

/-- `writePoints`; the error of `Commit`, which it returns, does not change the node. -/
def writePoints (db : InfluxStore σ) (order : MapOrder ℤ) (node : Node σ n)
    (batch : List Rpc.Point) : Except Panic (Node σ n) :=
  match (batch.foldl writePoint node.sanitized).commit db order node.adapter with
  | .error p => .error p
  | .ok (sanitized, adapter, _) => .ok { node with sanitized := sanitized, adapter := adapter }

/-- The callback of a listener for a batch. -/
def handle (db : InfluxStore σ) (routing : Routing n) (node : Node σ n) :
    Delivery → Except Panic (Node σ n)
  | .ingress order batch => node.queuePoints db routing order batch
  | .internode order batch => node.writePoints db order batch

/-- A node handles a batch; any panic takes it down. -/
def step (db : InfluxStore σ) (routing : Routing n) (node : Node σ n) (d : Delivery) :
    Option (Node σ n) :=
  (node.handle db routing d).toOption

end Node

/-! ## What the appenders collect -/

namespace ReplicatedAppender

variable {n : ℕ}

/-- The local appender collects a point that is routed to this node. -/
theorem addTo_collects {length : ℕ} (routing : Routing n) (l : Labels) (time : Int64)
    (value : Float64) (a : ReplicatedAppender n) (nodeIndex : Fin n)
    (ha : a.localAppender.labelTruncationLength = length) :
    (addTo routing l time value a nodeIndex).localAppender.labelTruncationLength = length ∧
      ∀ p, p ∈ (addTo routing l time value a nodeIndex).localAppender.points ↔
        p ∈ a.localAppender.points ∨ nodeIndex = routing.localIndex ∧
          isValidFloat value = true ∧ p = collectedPoint length l time value := by
  unfold addTo
  by_cases hlocal : nodeIndex = routing.localIndex
  · rw [if_pos hlocal]
    simpa [hlocal] using a.localAppender.add_collects l time value ha
  · rw [if_neg hlocal]
    simp [hlocal, ha]

theorem add_collects {length : ℕ} (routing : Routing n) (l : Labels) (time : Int64)
    (value : Float64) (a : ReplicatedAppender n)
    (ha : a.localAppender.labelTruncationLength = length) :
    (a.add routing l time value).localAppender.labelTruncationLength = length ∧
      ∀ p, p ∈ (a.add routing l time value).localAppender.points ↔
        p ∈ a.localAppender.points ∨ routing.localIndex ∈ routing.lookup (l.get metricName) ∧
          isValidFloat value = true ∧ p = collectedPoint length l time value := by
  have h := foldl_collects (fun a : ReplicatedAppender n => a.localAppender.points)
    (fun a => a.localAppender.labelTruncationLength = length)
    (addTo_collects routing l time value) (routing.lookup (l.get metricName)) ha
  simpa [add] using h

variable {σ : Type} {db : InfluxStore σ}

/-- `Commit` crashes exactly when the local appender's does. -/
theorem commitAll_crashes_iff (db : InfluxStore σ) (order : MapOrder ℤ) (routing : Routing n)
    (nodes : List (Fin n)) (a : ReplicatedAppender n) (adapter : InfluxAdapter σ) :
    Crashes (commitAll db order routing nodes a adapter) ↔
      routing.localIndex ∈ nodes ∧ ¬ a.localAppender.Ready := by
  induction nodes generalizing a adapter with
  | nil => simp [commitAll, Crashes]
  | cons nodeIndex nodes ih =>
    unfold commitAll
    by_cases hlocal : nodeIndex = routing.localIndex
    · rw [if_pos hlocal, List.mem_cons, ← hlocal,
        ← Appender.commit_crashes_iff db order a.localAppender adapter]
      cases hcommit : a.localAppender.commit db order adapter with
      | error p => simp [Crashes]
      | ok r =>
        -- after it the local appender is empty, so the rest of the loop does not crash
        obtain ⟨localAppender, adapter', err⟩ := r
        have hempty : localAppender = .newAppender _ := Appender.commit_eq_ok hcommit
        have hready : localAppender.Ready := by
          rw [hempty]
          simp [Appender.Ready, Appender.newAppender]
        refine iff_of_false (fun hcrash => ?_) (by simp [Crashes])
        exact ((ih { a with localAppender := localAppender } adapter').1 hcrash).2 hready
    · rw [if_neg hlocal, ih, List.mem_cons]
      simp only [Ne.symm hlocal, false_or]

/-- After `Commit` the local appender is empty. -/
theorem commitAll_eq_ok {order : MapOrder ℤ} {routing : Routing n} {nodes : List (Fin n)}
    {a : ReplicatedAppender n} {adapter : InfluxAdapter σ}
    {r : ReplicatedAppender n × InfluxAdapter σ}
    (h : commitAll db order routing nodes a adapter = .ok r) :
    r.1.localAppender.labelTruncationLength = a.localAppender.labelTruncationLength ∧
      (routing.localIndex ∈ nodes ∨ a.localAppender.points = [] →
        r.1.localAppender.points = []) := by
  induction nodes generalizing a adapter with
  | nil =>
    cases h
    simp
  | cons nodeIndex nodes ih =>
    unfold commitAll at h
    by_cases hlocal : nodeIndex = routing.localIndex
    · rw [if_pos hlocal] at h
      split at h
      · cases h
      · rename_i localAppender adapter' err hcommit
        have hempty := Appender.commit_eq_ok hcommit
        obtain ⟨hlength, hpoints⟩ := ih h
        have hlocalAppender : localAppender = .newAppender _ := hempty
        refine ⟨hlength.trans ?_, fun _ => hpoints (Or.inr ?_)⟩
        · rw [hlocalAppender]; rfl
        · rw [hlocalAppender]; rfl
    · rw [if_neg hlocal] at h
      obtain ⟨hlength, hpoints⟩ := ih h
      refine ⟨hlength, fun hor => hpoints ?_⟩
      rw [List.mem_cons] at hor
      exact hor.imp_left fun hmem => hmem.resolve_left (Ne.symm hlocal)

end ReplicatedAppender

/-- The point that the local appender collects for a point at the ingress listener. -/
def ingressPoint (length : ℕ) (p : Rpc.Point) : Rpc.Point :=
  ⟨sanitizeMetricName p.name, p.timestamp, p.value, storedLabels length (sanitizedLabels p)⟩

theorem get_sanitizedLabelSet (p : Rpc.Point) :
    (sanitizedLabelSet p).get metricName = sanitizeMetricName p.name := by
  rw [sanitizedLabelSet, get_fromMap, AList.lookup_insert]
  rfl

theorem storable_collectedPoint_sanitizedLabelSet (length : ℕ) (p : Rpc.Point) :
    Storable (collectedPoint length (sanitizedLabelSet p) p.timestamp p.value) ↔
      Storable (ingressPoint length p) := by
  refine Storable.congr (get_sanitizedLabelSet p) rfl
    (lookup_storedLabels_congr _ fun k hk => ?_)
  rw [sanitizedLabelSet, lookup_toMap_fromMap, AList.lookup_insert_ne hk]

theorem queuePoint_collects {n length : ℕ} (routing : Routing n) (a : ReplicatedAppender n)
    (p : Rpc.Point) (ha : a.localAppender.labelTruncationLength = length) :
    (queuePoint routing a p).localAppender.labelTruncationLength = length ∧
      ∀ q, q ∈ (queuePoint routing a p).localAppender.points ↔
        q ∈ a.localAppender.points ∨
          routing.localIndex ∈ routing.lookup (sanitizeMetricName p.name) ∧
          isValidFloat p.value = true ∧
          q = collectedPoint length (sanitizedLabelSet p) p.timestamp p.value := by
  unfold queuePoint
  by_cases hv : isValidFloat p.value = true
  · rw [if_pos hv, ← get_sanitizedLabelSet]
    exact a.add_collects routing _ _ _ ha
  · rw [if_neg hv]
    simp [hv, ha]

/-- What an empty local appender has after a batch at the ingress listener. -/
theorem foldl_queuePoint {n length : ℕ} (routing : Routing n) (batch : List Rpc.Point)
    {a : ReplicatedAppender n} (ha : a.localAppender = .newAppender length) :
    (batch.foldl (queuePoint routing) a).localAppender.labelTruncationLength = length ∧
      ∀ q, q ∈ (batch.foldl (queuePoint routing) a).localAppender.points ↔
        ∃ p ∈ batch, routing.localIndex ∈ routing.lookup (sanitizeMetricName p.name) ∧
          isValidFloat p.value = true ∧
          q = collectedPoint length (sanitizedLabelSet p) p.timestamp p.value := by
  have h := foldl_collects (fun a : ReplicatedAppender n => a.localAppender.points)
    (fun a => a.localAppender.labelTruncationLength = length) (queuePoint_collects routing)
    batch (a := a) (by rw [ha]; rfl)
  simpa [ha, Appender.newAppender] using h

/-- What an empty appender has after a batch at the internode listener. -/
theorem foldl_writePoint (length : ℕ) (batch : List Rpc.Point) :
    (batch.foldl writePoint (.newAppender length)).labelTruncationLength = length ∧
      ∀ q, q ∈ (batch.foldl writePoint (.newAppender length)).points ↔
        ∃ p ∈ batch, isValidFloat p.value = true ∧
          q = collectedPoint length (convertLabels p) p.timestamp p.value := by
  have h := foldl_collects (f := writePoint) Appender.points
    (fun a => a.labelTruncationLength = length)
    (fun a p => a.add_collects (convertLabels p) p.timestamp p.value)
    batch (a := .newAppender length) rfl
  simpa [Appender.newAppender] using h

/-! ## Survival -/

/-- Every point of the batch that the local appender accepts is storable: at the ingress
    listener the points routed to this node, at the internode listener all. -/
def Delivery.Storable {n : ℕ} (routing : Routing n) (length : ℕ) : Delivery → Prop
  | .ingress _ batch => ∀ p ∈ batch, isValidFloat p.value = true →
      routing.localIndex ∈ routing.lookup (sanitizeMetricName p.name) →
      Persistence.Storable (ingressPoint length p)
  | .internode _ batch => ∀ p ∈ batch, isValidFloat p.value = true →
      Persistence.Storable (internodePoint length p)

instance {n : ℕ} (routing : Routing n) (length : ℕ) :
    ∀ d : Delivery, Decidable (d.Storable routing length)
  | .ingress _ batch => inferInstanceAs (Decidable (∀ p ∈ batch, _))
  | .internode _ batch => inferInstanceAs (Decidable (∀ p ∈ batch, _))

theorem ready_queuePoints_iff {n length : ℕ} (routing : Routing n) (order : MapOrder ℤ)
    (batch : List Rpc.Point) {a : ReplicatedAppender n}
    (ha : a.localAppender = .newAppender length) :
    (batch.foldl (queuePoint routing) a).localAppender.Ready ↔
      (Delivery.ingress order batch).Storable routing length := by
  obtain ⟨-, hmem⟩ := foldl_queuePoint routing batch ha
  unfold Appender.Ready Delivery.Storable
  simp only [hmem, ← storable_collectedPoint_sanitizedLabelSet]
  constructor
  · intro h p hp hv hlocal
    exact (h _ ⟨p, hp, hlocal, hv, rfl⟩).2
  · rintro h _ ⟨p, hp, hlocal, hv, rfl⟩
    exact ⟨hv, h p hp hv hlocal⟩

theorem ready_writePoints_iff {n length : ℕ} (routing : Routing n) (order : MapOrder ℤ)
    (batch : List Rpc.Point) :
    (batch.foldl writePoint (.newAppender length)).Ready ↔
      (Delivery.internode order batch).Storable routing length := by
  obtain ⟨-, hmem⟩ := foldl_writePoint length batch
  unfold Appender.Ready Delivery.Storable
  simp only [hmem, ← storable_collectedPoint_convertLabels]
  constructor
  · intro h p hp hv
    exact (h _ ⟨p, hp, hv, rfl⟩).2
  · rintro h _ ⟨p, hp, hv, rfl⟩
    exact ⟨hv, h p hp hv⟩

namespace Node

variable {σ : Type} {n : ℕ}

/-- Between two batches nothing is left in the local appenders. -/
structure Idle (length : ℕ) (node : Node σ n) : Prop where
  replicated : node.replicated.localAppender = .newAppender length
  sanitized : node.sanitized = .newAppender length

variable {db : InfluxStore σ} {routing : Routing n}

theorem handle_crashes_iff {length : ℕ} (node : Node σ n) (d : Delivery)
    (hidle : node.Idle length) :
    Crashes (node.handle db routing d) ↔ ¬ d.Storable routing length := by
  cases d with
  | ingress order batch =>
    have hcommit := ReplicatedAppender.commitAll_crashes_iff db order routing
      (List.finRange n) (batch.foldl (queuePoint routing) node.replicated) node.adapter
    rw [ready_queuePoints_iff routing order batch hidle.replicated] at hcommit
    simp only [List.mem_finRange, true_and] at hcommit
    rw [← hcommit, handle, queuePoints, ReplicatedAppender.commit]
    cases ReplicatedAppender.commitAll db order routing (List.finRange n)
      (batch.foldl (queuePoint routing) node.replicated) node.adapter with
    | error p => simp [Crashes]
    | ok r => simp [Crashes]
  | internode order batch =>
    have hcommit := Appender.commit_crashes_iff db order
      (batch.foldl writePoint node.sanitized) node.adapter
    rw [hidle.sanitized, ready_writePoints_iff routing order batch, ← hidle.sanitized] at hcommit
    rw [← hcommit, handle, writePoints]
    cases (batch.foldl writePoint node.sanitized).commit db order node.adapter with
    | error p => simp [Crashes]
    | ok r => simp [Crashes]

theorem step_idle {length : ℕ} (node : Node σ n) (d : Delivery) (node' : Node σ n)
    (hidle : node.Idle length) (hstep : step db routing node d = some node') :
    node'.Idle length := by
  cases d with
  | ingress order batch =>
    rw [step, handle, queuePoints, ReplicatedAppender.commit] at hstep
    split at hstep
    · cases hstep
    · rename_i replicated adapter hcommit
      cases hstep
      obtain ⟨hlength, hpoints⟩ := ReplicatedAppender.commitAll_eq_ok hcommit
      obtain ⟨hfold, -⟩ := foldl_queuePoint routing batch hidle.replicated
      refine ⟨?_, hidle.sanitized⟩
      have hnil := hpoints (Or.inl (List.mem_finRange _))
      have hlen := hlength.trans hfold
      cases hr : replicated.localAppender with
      | mk points trunc =>
        rw [hr] at hnil hlen
        cases hnil
        cases hlen
        rfl
  | internode order batch =>
    rw [step, handle, writePoints] at hstep
    split at hstep
    · cases hstep
    · rename_i sanitized adapter err hcommit
      cases hstep
      obtain ⟨hfold, -⟩ := foldl_writePoint length batch
      refine ⟨hidle.replicated, ?_⟩
      have hempty := Appender.commit_eq_ok hcommit
      rw [hidle.sanitized, hfold] at hempty
      exact hempty

/-- **Which batches a node survives.** In every state that a node reaches, whatever its
    database does, the callback for the next batch stays clear of the panic of
    `MustNewPoint` exactly when every point accepted by the local appender is storable. -/
theorem listeners_survive_iff (db : InfluxStore σ) (routing : Routing n) (length : ℕ)
    (adapter : InfluxAdapter σ) (deliveries : List Delivery) (node : Node σ n)
    (hrun : run (step db routing) (start length adapter) deliveries = some node)
    (d : Delivery) :
    ¬ Crashes (node.handle db routing d) ↔ d.Storable routing length := by
  have hidle : node.Idle length :=
    run_preserves (step db routing) (fun node d node' hidle => step_idle node d node' hidle)
      ⟨rfl, rfl⟩ hrun
  rw [handle_crashes_iff node d hidle, not_not]

end Node

/-! ## A fatal point -/

/-- A database that takes everything. -/
def quietStore : InfluxStore Unit where
  createShard _ s := (s, none)
  writeToShard _ _ s := (s, none)

/-- A cluster of one node. -/
def oneNode : Routing 1 := ⟨fun _ => [0], 0⟩

/-- A point with the value 1 and a label, at a given time. -/
def pointAt (timestamp : Int64) : Rpc.Point where
  name := lit "cpu.load"
  timestamp := timestamp
  value := 0x3FF0000000000000
  labels := AList.singleton (lit "source_id") (lit "app")

/-- A node after one batch at each listener. -/
def Node.busyNode : Option (Node Unit 1) :=
  run (step quietStore oneNode) (start 256 ⟨[], ()⟩)
    [.ingress ⟨id, .refl⟩ [pointAt 0], .internode ⟨id, .refl⟩ [pointAt 1, pointAt (-5)]]

theorem Node.listeners_survive_thirdBatch :
    ∃ node, busyNode = some node ∧
      ¬ Crashes (node.handle quietStore oneNode (.ingress ⟨id, .refl⟩ [pointAt 7])) :=
  have hsome : busyNode.isSome = true := by decide
  ⟨busyNode.get hsome, Option.some_get hsome |>.symm,
    (listeners_survive_iff quietStore oneNode 256 ⟨[], ()⟩ _ _ (Option.some_get hsome).symm _).2
      (by decide)⟩

/-- **A point with the largest timestamp crashes the node**, at either listener: `Add`
    accepts it, and `MustNewPoint` panics in `Commit`. -/
theorem Node.latest_timestamp_crashes :
    Crashes ((start 256 ⟨[], ()⟩ : Node Unit 1).handle quietStore oneNode
        (.ingress ⟨id, .refl⟩ [pointAt Int64.maxValue])) ∧
      Crashes ((start 256 ⟨[], ()⟩ : Node Unit 1).handle quietStore oneNode
        (.internode ⟨id, .refl⟩ [pointAt Int64.maxValue])) := by
  decide

end MetricStore.Storage
