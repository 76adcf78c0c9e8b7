import MetricStore.Routing.RoutingTable
import MetricStore.Storage.Replicas

/-!
# Where a point is placed

`ReplicatedAppender.Add` (`internal/storage/replicated_appender.go`, lines 54–61) hands a
point to the appenders of the nodes that `RoutingTable.Lookup` gives for its metric name.
`createAppenders` (`internal/storage/replicated_storage.go`, lines 103–132) makes one
appender for each internode address; an index without an appender is a panic.

A value that is not finite is left out: `queuePoints` does not pass it on, and the local
appender refuses it.

Results:
* `placement_exact_iff`: a point is placed on as many different nodes as the replication
  factor says exactly when there are so many different addresses.
* `repeated_address_loses_replica`: an address that is listed twice.
-/

namespace MetricStore.Storage

open MetricStore.Common MetricStore.Influx MetricStore.Persistence MetricStore.Routing

variable {n : ℕ}

namespace ReplicatedAppender

/-- The loop of `ReplicatedAppender.Add` over node indices; `none` is the panic of an index
    out of range. -/
def addAt (localIndex : Fin n) (l : Labels) (time : Int64) (value : Float64)
    (a : ReplicatedAppender n) (nodes : List ℕ) : Option (ReplicatedAppender n) :=
  nodes.foldlM (fun a node =>
    if hnode : node < n then some (addTo ⟨fun _ => [], localIndex⟩ l time value a ⟨node, hnode⟩)
    else none) a

/-- The points in the appender of the node `j`, on the node `localIndex`. -/
def pointsOf (localIndex : Fin n) (a : ReplicatedAppender n) (j : Fin n) : List Rpc.Point :=
  if j = localIndex then a.localAppender.points else (a.remote j).points

/-- What is put into the appender of the node `j` for a point. -/
def pointFor (localIndex : Fin n) (a : ReplicatedAppender n) (l : Labels) (time : Int64)
    (value : Float64) (j : Fin n) : Rpc.Point :=
  if j = localIndex then collectedPoint a.localAppender.labelTruncationLength l time value
  else remotePoint l time value

end ReplicatedAppender

/-- The placement of an item is exact: there is one list of nodes that every node computes,
    with as many different indices as the replication factor says, all of them of nodes;
    `IsLocal` is true on these nodes; and a point is added to their appenders, once to
    each, and to no other. -/
def PlacedExactly (h : Hashing) (addrs : List Bytes) (replicationFactor : ℕ) (item : Bytes) :
    Prop :=
  ∃ nodes : List ℕ, nodes.length = replicationFactor ∧ nodes.Nodup ∧
    (∀ node ∈ nodes, node < addrs.length) ∧
    ∀ localNode t, newRoutingTable localNode addrs replicationFactor = .ok t →
      t.lookup h item = nodes ∧
      (t.isLocal h item = true ↔ ∃ node ∈ nodes, (node : ℤ) = localNode) ∧
      ∀ (n : ℕ) (localIndex : Fin n) (a : ReplicatedAppender n) (l : Labels) (time : Int64)
        (value : Float64), addrs.length ≤ n → l.get metricName = item →
        isValidFloat value = true →
        ∃ a', a.addAt localIndex l time value (t.lookup h (l.get metricName)) = some a' ∧
          ∃ replicas : Finset (Fin n), replicas.card = replicationFactor ∧
            (∀ j, j ∈ replicas ↔ (j : ℕ) ∈ nodes) ∧
            ∀ j, a'.pointsOf localIndex j = a.pointsOf localIndex j ++
              if j ∈ replicas then [a.pointFor localIndex l time value j] else []

/-! ## Adding a point -/

namespace ReplicatedAppender

variable {localIndex : Fin n} {l : Labels} {time : Int64} {value : Float64}
  {a : ReplicatedAppender n}

/-- Indices in range are nodes. -/
theorem addAt_eq (nodes : List ℕ) (hnodes : ∀ node ∈ nodes, node < n) :
    a.addAt localIndex l time value nodes =
      some ((nodes.pmap Fin.mk hnodes).foldl (addTo ⟨fun _ => [], localIndex⟩ l time value) a) := by
  induction nodes generalizing a with
  | nil => rfl
  | cons node nodes ih =>
    obtain ⟨hnode, hrest⟩ := List.forall_mem_cons.mp hnodes
    unfold addAt at ih ⊢
    rw [List.foldlM_cons, dif_pos hnode]
    exact ih hrest

/-- Every appender gets as many copies as its node occurs in the list. -/
theorem pointsOf_foldl (hvalue : isValidFloat value = true) (nodes : List (Fin n)) (j : Fin n) :
    (nodes.foldl (addTo ⟨fun _ => [], localIndex⟩ l time value) a).pointsOf localIndex j =
      a.pointsOf localIndex j ++
        List.replicate (nodes.count j) (a.pointFor localIndex l time value j) := by
  unfold pointsOf pointFor
  by_cases hj : j = localIndex
  · rw [if_pos hj, if_pos hj, if_pos hj, foldl_addTo_local _ _ _ hvalue, hj]
  · rw [if_neg hj, if_neg hj, if_neg hj, foldl_addTo_remote ⟨fun _ => [], localIndex⟩ l time value hj]

variable (localIndex l time a) in
/-- Distinct nodes in range: one copy for each of them. -/
theorem addAt_distinct (hvalue : isValidFloat value = true) {nodes : List ℕ}
    (hnodes : ∀ node ∈ nodes, node < n) (hnodup : nodes.Nodup) :
    ∃ a', a.addAt localIndex l time value nodes = some a' ∧
      ∃ replicas : Finset (Fin n), replicas.card = nodes.length ∧
        (∀ j, j ∈ replicas ↔ (j : ℕ) ∈ nodes) ∧
        ∀ j, a'.pointsOf localIndex j = a.pointsOf localIndex j ++
          if j ∈ replicas then [a.pointFor localIndex l time value j] else [] := by
  have hdistinct : (nodes.pmap Fin.mk hnodes).Nodup :=
    hnodup.pmap fun _ _ _ _ heq => congrArg Fin.val heq
  refine ⟨_, addAt_eq nodes hnodes, (nodes.pmap Fin.mk hnodes).toFinset, ?_, fun j => ?_, fun j => ?_⟩
  · rw [List.toFinset_card_of_nodup hdistinct, List.length_pmap]
  · rw [List.mem_toFinset, List.mem_pmap]
    exact ⟨fun ⟨node, hnode, heq⟩ => heq ▸ hnode, fun hj => ⟨j, hj, rfl⟩⟩
  · rw [pointsOf_foldl hvalue]
    by_cases hj : j ∈ nodes.pmap Fin.mk hnodes
    · rw [List.count_eq_one_of_mem hdistinct hj, if_pos (List.mem_toFinset.mpr hj),
        List.replicate_one]
    · rw [List.count_eq_zero_of_not_mem hj, if_neg (mt List.mem_toFinset.mp hj),
        List.replicate_zero]

end ReplicatedAppender

/-- **Replica placement.** For every list of addresses and replication factor that
    `NewRoutingTable` accepts, and every item: the placement is exact if and only if the
    replication factor is at most the number of different addresses. -/
theorem placement_exact_iff (h : Hashing) (localNode : ℤ) (addrs : List Bytes)
    (replicationFactor : ℕ) (t : RoutingTable)
    (ht : newRoutingTable localNode addrs replicationFactor = .ok t) (item : Bytes) :
    PlacedExactly h addrs replicationFactor item ↔ replicationFactor ≤ addrs.dedup.length := by
  constructor
  · rintro ⟨nodes, -, hnodup, -, hall⟩
    obtain ⟨hlookup, -⟩ := hall localNode t ht
    rw [← hlookup, lookup_of_newRoutingTable ht] at hnodup
    exact (nodup_lookup_iff ht item).mp hnodup
  · intro hle
    have hnodup := (nodup_lookup_iff (h := h) ht item).mpr hle
    refine ⟨nodesOf h addrs replicationFactor item, length_nodesOf item, hnodup,
      fun node => lt_of_mem_nodesOf ht, fun localNode' t' ht' => ?_⟩
    refine ⟨lookup_of_newRoutingTable ht' item, isLocal_iff ht' item, ?_⟩
    intro n localIndex a l time value hn hitem hvalue
    rw [hitem, lookup_of_newRoutingTable ht']
    have hlt : ∀ node ∈ nodesOf h addrs replicationFactor item, node < n :=
      fun node hnode => (lt_of_mem_nodesOf ht hnode).trans_le hn
    obtain ⟨a', hadd, replicas, hcard, hmem, hpoints⟩ :=
      ReplicatedAppender.addAt_distinct localIndex l time a hvalue hlt hnodup
    exact ⟨a', hadd, replicas, hcard.trans (length_nodesOf item), hmem, hpoints⟩

/-- A hasher that always gives the first node. -/
def firstNode : Hashing where
  sum64 _ := 0
  jump _ _ := 0
  jump_lt h _ := h

theorem placement_exact_iff_firstNode :
    (∃ t, newRoutingTable 1 [lit "a:8080", lit "b:8080"] 2 = .ok t) ∧
      PlacedExactly firstNode [lit "a:8080", lit "b:8080"] 2 (lit "cpu") := by
  have ht : ∃ t, newRoutingTable 1 [lit "a:8080", lit "b:8080"] 2 = .ok t := ⟨_, rfl⟩
  obtain ⟨t, ht⟩ := ht
  exact ⟨⟨t, ht⟩, (placement_exact_iff firstNode 1 _ 2 t ht (lit "cpu")).mpr (by decide)⟩

/-- Two nodes under one address, and two replicas: both are the first node. -/
theorem repeated_address_loses_replica :
    ∃ t, newRoutingTable 0 [lit "a:8080", lit "a:8080"] 2 = .ok t ∧
      t.lookup firstNode (lit "cpu") = [0, 0] ∧
      ¬ PlacedExactly firstNode [lit "a:8080", lit "a:8080"] 2 (lit "cpu") := by
  obtain ⟨t, ht⟩ : ∃ t, newRoutingTable 0 [lit "a:8080", lit "a:8080"] 2 = .ok t := ⟨_, rfl⟩
  have hlookup : t.lookup firstNode (lit "cpu") = [0, 0] := by
    rw [lookup_of_newRoutingTable ht]
    decide
  refine ⟨t, ht, hlookup, ?_⟩
  rintro ⟨nodes, -, hnodup, -, hall⟩
  obtain ⟨heq, -⟩ := hall 0 t ht
  rw [← heq, hlookup] at hnodup
  simp at hnodup

end MetricStore.Storage
