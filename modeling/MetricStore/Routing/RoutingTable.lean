import MetricStore.Common.Bytes
import MetricStore.Common.GoMap

/-!
# The routing table

Model of `internal/routing/routing_table.go`. `NewRoutingTable` puts the addresses of the
nodes into a map, so that an address that is listed twice counts once. The hasher is made
for the length of the list. `Lookup` takes the node the hasher gives and the ones after it,
modulo the size of the map.

The hash function `xxhash.Sum64String` and the jump hash are parameters; of the second it is
assumed that it gives an index below the number of hosts.

Results:
* `lookup_of_newRoutingTable`: what `Lookup` returns, on every node.
* `nodup_lookup_iff`: its indices are distinct exactly when the replication factor is at
  most the number of different addresses.
-/

namespace MetricStore.Routing

open MetricStore.Common

/-! ## Model -/

/-- `xxhash.Sum64String`, and `Hash` of a `jmphash.Hasher` for `n` hosts. -/
structure Hashing where
  sum64 : Bytes → UInt64
  jump : ℕ → UInt64 → ℕ
  jump_lt : ∀ {n : ℕ}, 0 < n → ∀ v, jump n v < n

/-- `hostRange` (lines 88–91). -/
structure HostRange where
  hostIndex : ℕ
  start : UInt64
  stop : UInt64

/-- `RoutingTable` (lines 14–20); `hosts` is what the hasher was made for. -/
structure RoutingTable where
  localNode : ℤ
  addresses : GoMap Bytes ℕ
  replicationFactor : ℕ
  hosts : ℕ
  table : List HostRange

/-- `NewRoutingTable` (lines 23–45). -/
def newRoutingTable (localNode : ℤ) (addrs : List Bytes) (replicationFactor : ℕ) :
    Except String RoutingTable :=
  if replicationFactor = 0 then .error "replication factor must be greater than 0"
  else if replicationFactor > addrs.length then
    .error "replication factor cannot exceed number of available hosts"
  else
    .ok {
      localNode := localNode
      addresses := GoMap.ofPairs addrs.zipIdx
      replicationFactor := replicationFactor
      hosts := addrs.length
      table := [] }

namespace RoutingTable

variable (h : Hashing)

/-- `Lookup` (lines 49–63). -/
def lookup (t : RoutingTable) (item : Bytes) : List ℕ :=
  let hashValue := h.sum64 item
  let node := h.jump t.hosts hashValue
  ((List.range t.replicationFactor).map fun n => (node + n) % t.addresses.keys.length) ++
    (t.table.filter fun r => r.start ≤ hashValue ∧ hashValue ≤ r.stop).map HostRange.hostIndex

/-- `IsLocal` (lines 65–74). -/
def isLocal (t : RoutingTable) (metricName : Bytes) : Bool :=
  (t.lookup h metricName).any fun clientIndex => (clientIndex : ℤ) = t.localNode

end RoutingTable

/-- The nodes of an item in a cluster with these addresses: as many as the replication factor
    says, one after the other from the one the hasher gives. -/
def nodesOf (h : Hashing) (addrs : List Bytes) (replicationFactor : ℕ) (item : Bytes) : List ℕ :=
  (List.range replicationFactor).map fun n =>
    (h.jump addrs.length (h.sum64 item) + n) % addrs.dedup.length

/-! ## Consecutive nodes -/

theorem nodup_consecutive_iff {m : ℕ} (hm : 0 < m) (node count : ℕ) :
    ((List.range count).map fun n => (node + n) % m).Nodup ↔ count ≤ m := by
  constructor
  · intro hnodup
    by_contra hlt
    -- after `m` nodes the first one comes again
    have heq : (node + 0) % m = (node + m) % m := by simp
    have hzero := List.inj_on_of_nodup_map hnodup (List.mem_range.mpr (by omega))
      (List.mem_range.mpr (by omega)) heq
    omega
  · intro hle
    refine List.Nodup.map_on (fun a ha b hb hab => ?_) List.nodup_range
    have ha' : a < m := (List.mem_range.mp ha).trans_le hle
    have hb' : b < m := (List.mem_range.mp hb).trans_le hle
    exact Nat.ModEq.eq_of_lt_of_lt (Nat.ModEq.add_left_cancel' node hab) ha' hb'

section Accepted

variable {h : Hashing} {localNode : ℤ} {addrs : List Bytes} {replicationFactor : ℕ}
  {t : RoutingTable}

theorem newRoutingTable_eq_ok_iff : newRoutingTable localNode addrs replicationFactor = .ok t ↔
    0 < replicationFactor ∧ replicationFactor ≤ addrs.length ∧
      t = ⟨localNode, GoMap.ofPairs addrs.zipIdx, replicationFactor, addrs.length, []⟩ := by
  unfold newRoutingTable
  split_ifs with hzero hmany
  · simp [hzero]
  · simp [hmany]
  · rw [Except.ok.injEq]
    exact ⟨fun heq => ⟨by omega, by omega, heq.symm⟩, fun hall => hall.2.2.symm⟩

theorem dedup_pos (ht : newRoutingTable localNode addrs replicationFactor = .ok t) :
    0 < addrs.dedup.length := by
  obtain ⟨hpos, hle, -⟩ := newRoutingTable_eq_ok_iff.mp ht
  have hne : addrs ≠ [] := List.ne_nil_of_length_pos (by omega)
  exact List.length_pos_of_ne_nil (by rwa [Ne, List.dedup_eq_nil])

/-- **`Lookup`** does not depend on the node that asks. -/
theorem lookup_of_newRoutingTable
    (ht : newRoutingTable localNode addrs replicationFactor = .ok t) (item : Bytes) :
    t.lookup h item = nodesOf h addrs replicationFactor item := by
  obtain ⟨-, -, rfl⟩ := newRoutingTable_eq_ok_iff.mp ht
  have hkeys : (GoMap.ofPairs addrs.zipIdx).keys.length = addrs.dedup.length := by
    rw [GoMap.length_keys_ofPairs, List.zipIdx_map_fst]
  unfold RoutingTable.lookup nodesOf
  simp [hkeys]

theorem isLocal_iff (ht : newRoutingTable localNode addrs replicationFactor = .ok t)
    (item : Bytes) : t.isLocal h item = true ↔
      ∃ node ∈ nodesOf h addrs replicationFactor item, (node : ℤ) = localNode := by
  have hlocal : t.localNode = localNode := by
    obtain ⟨-, -, rfl⟩ := newRoutingTable_eq_ok_iff.mp ht
    rfl
  unfold RoutingTable.isLocal
  rw [lookup_of_newRoutingTable ht, hlocal, List.any_eq_true]
  simp only [decide_eq_true_eq]

theorem length_nodesOf (item : Bytes) :
    (nodesOf h addrs replicationFactor item).length = replicationFactor := by
  simp [nodesOf]

theorem lt_of_mem_nodesOf (ht : newRoutingTable localNode addrs replicationFactor = .ok t)
    {item : Bytes} {node : ℕ} (hnode : node ∈ nodesOf h addrs replicationFactor item) :
    node < addrs.length := by
  obtain ⟨n, -, rfl⟩ := List.mem_map.mp hnode
  exact (Nat.mod_lt _ (dedup_pos ht)).trans_le (List.dedup_sublist addrs).length_le

theorem nodup_lookup_iff (ht : newRoutingTable localNode addrs replicationFactor = .ok t)
    (item : Bytes) :
    (nodesOf h addrs replicationFactor item).Nodup ↔ replicationFactor ≤ addrs.dedup.length :=
  nodup_consecutive_iff (dedup_pos ht) _ _

end Accepted

end MetricStore.Routing
