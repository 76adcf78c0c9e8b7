import MetricStore.Storage.Listeners

/-!
# Replicas agree on what they store

A point that arrives at the ingress listener of a node reaches the local appender of a
replica in one of two ways. On the node itself the replicated appender hands it the label
set (`internal/storage/replicated_appender.go`, lines 54–78). For another node
`RemoteAppender.Add` makes an `rpc.Point` of the label set, `gob` carries it over in some
batch, and the internode listener there makes a label set of it again
(`internal/storage/remote_appender.go`, lines 166–196; `ConvertLabels`).

`gob` is assumed to preserve a point up to the order of its label map (`SamePoint`). The
loop over the labels of a point in `queuePoints` runs once, on the node at which the point
arrives, so its order belongs to the point.

Results:
* `foldl_queuePoint_local`, `foldl_queuePoint_remote`: what a batch at the ingress listener
  leaves in the appenders of all nodes.
* `replicas_agree`: which points a replica's local appender collects for a batch does not
  depend on the node at which it arrived, if the labels of each point are taken in the same
  order there, and rejected values are rejected on both ways.
-/

namespace MetricStore.Storage

open MetricStore.Common MetricStore.Influx MetricStore.Persistence

/-- The same name, time and value, and the same labels in any order. -/
def SamePoint (p q : Rpc.Point) : Prop :=
  p.name = q.name ∧ p.timestamp = q.timestamp ∧ p.value = q.value ∧
    ∀ k, p.labels.lookup k = q.labels.lookup k

/-- The point that `RemoteAppender.Add` makes. -/
def remotePoint (l : Labels) (time : Int64) (value : Float64) : Rpc.Point :=
  ⟨l.get metricName, time, value, l.toMap⟩

/-! ## One point -/

theorem collectedPoint_sanitizedLabelSet (length : ℕ) (p : Rpc.Point) :
    SamePoint (ingressPoint length p)
      (collectedPoint length (sanitizedLabelSet p) p.timestamp p.value) := by
  refine ⟨(get_sanitizedLabelSet p).symm, rfl, rfl, ?_⟩
  refine lookup_storedLabels_congr _ fun k hk => ?_
  rw [sanitizedLabelSet, lookup_toMap_fromMap, AList.lookup_insert_ne hk]

/-- **One point, the other way.** Once carried over, the point is collected as it is on the
    node where it arrived: the label `__name__`, which then occurs twice, has the same
    value both times. -/
theorem collectedPoint_transferred (length : ℕ) (p : Rpc.Point) {q : Rpc.Point}
    (h : SamePoint (remotePoint (sanitizedLabelSet p) p.timestamp p.value) q) :
    SamePoint (ingressPoint length p)
      (collectedPoint length (convertLabels q) q.timestamp q.value) := by
  obtain ⟨hname, htime, hvalue, hlabels⟩ := h
  have hlookup : ∀ k, q.labels.lookup k
      = ((sanitizedLabels p).insert metricName (sanitizeMetricName p.name)).lookup k := by
    intro k
    rw [← hlabels]
    exact lookup_toMap_fromMap _ k
  refine ⟨?_, htime, hvalue, lookup_storedLabels_congr _ fun k hk => ?_⟩
  · show _ = (convertLabels q).get metricName
    rw [get_convertLabels, hlookup, AList.lookup_insert]
    rfl
  · rw [lookup_toMap_convertLabels q hk, hlookup, AList.lookup_insert_ne hk]

/-! ## Batches -/

variable {n : ℕ}

section Batches

variable (routing : Routing n) (l : Labels) (time : Int64) {value : Float64}

/-- The local appender for one point that is routed to `nodes`. -/
theorem foldl_addTo_local (hvalue : isValidFloat value = true) (nodes : List (Fin n))
    (a : ReplicatedAppender n) :
    (nodes.foldl (ReplicatedAppender.addTo routing l time value) a).localAppender
      = ⟨a.localAppender.points ++ List.replicate (nodes.count routing.localIndex)
          (collectedPoint a.localAppender.labelTruncationLength l time value),
        a.localAppender.labelTruncationLength⟩ := by
  induction nodes generalizing a with
  | nil => simp
  | cons node nodes ih =>
    rw [List.foldl_cons, ih]
    by_cases hnode : node = routing.localIndex
    · simp [ReplicatedAppender.addTo, hnode, Appender.add, hvalue, List.replicate_succ]
    · simp [ReplicatedAppender.addTo, hnode]

variable (value) in
/-- The appender of another node for one point that is routed to `nodes`. -/
theorem foldl_addTo_remote {j : Fin n} (hj : j ≠ routing.localIndex) (nodes : List (Fin n))
    (a : ReplicatedAppender n) :
    ((nodes.foldl (ReplicatedAppender.addTo routing l time value) a).remote j).points
      = (a.remote j).points ++ List.replicate (nodes.count j) (remotePoint l time value) := by
  induction nodes generalizing a with
  | nil => simp
  | cons node nodes ih =>
    rw [List.foldl_cons, ih]
    by_cases hnode : node = routing.localIndex
    · simp [ReplicatedAppender.addTo, hnode, Ne.symm hj]
    · by_cases hsame : node = j
      · subst hsame
        simp [ReplicatedAppender.addTo, hnode, RemoteAppender.add, remotePoint,
          List.replicate_succ]
      · simp [ReplicatedAppender.addTo, hnode, hsame, Function.update_of_ne (Ne.symm hsame)]

/-- How often a point is routed to a node; a value that is not finite is skipped. -/
def copies (lookup : Bytes → List (Fin n)) (j : Fin n) (p : Rpc.Point) : ℕ :=
  if isValidFloat p.value then (lookup (sanitizeMetricName p.name)).count j else 0

/-- The points of a batch that are routed to a node. -/
def routed (lookup : Bytes → List (Fin n)) (j : Fin n) (batch : List Rpc.Point) :
    List Rpc.Point :=
  batch.flatMap fun p => List.replicate (copies lookup j p) p

/-- A point with a finite value goes to the nodes that its sanitized name is routed to. -/
theorem queuePoint_eq_foldl {p : Rpc.Point} (hv : isValidFloat p.value = true)
    (a : ReplicatedAppender n) :
    queuePoint routing a p = (routing.lookup (sanitizeMetricName p.name)).foldl
      (ReplicatedAppender.addTo routing (sanitizedLabelSet p) p.timestamp p.value) a := by
  rw [queuePoint, if_pos hv, ReplicatedAppender.add, get_sanitizedLabelSet]

/-- **The local appender** after a batch at the ingress listener. -/
theorem foldl_queuePoint_local (batch : List Rpc.Point) (a : ReplicatedAppender n) :
    (batch.foldl (queuePoint routing) a).localAppender
      = ⟨a.localAppender.points ++ (routed routing.lookup routing.localIndex batch).map fun p =>
          collectedPoint a.localAppender.labelTruncationLength (sanitizedLabelSet p) p.timestamp
            p.value, a.localAppender.labelTruncationLength⟩ := by
  induction batch generalizing a with
  | nil => simp [routed]
  | cons p batch ih =>
    rw [List.foldl_cons, ih]
    by_cases hv : isValidFloat p.value = true
    · rw [queuePoint_eq_foldl routing hv, foldl_addTo_local routing _ _ hv]
      simp [routed, copies, hv]
    · simp [queuePoint, routed, copies, hv]

/-- **The appenders of the other nodes** after a batch at the ingress listener. -/
theorem foldl_queuePoint_remote {j : Fin n} (hj : j ≠ routing.localIndex)
    (batch : List Rpc.Point) (a : ReplicatedAppender n) :
    ((batch.foldl (queuePoint routing) a).remote j).points
      = (a.remote j).points ++ (routed routing.lookup j batch).map fun p =>
          remotePoint (sanitizedLabelSet p) p.timestamp p.value := by
  induction batch generalizing a with
  | nil => simp [routed]
  | cons p batch ih =>
    rw [List.foldl_cons, ih]
    by_cases hv : isValidFloat p.value = true
    · rw [queuePoint_eq_foldl routing hv, foldl_addTo_remote routing _ _ _ hj]
      simp [routed, copies, hv]
    · simp [queuePoint, routed, copies, hv]

end Batches

/-- The appender of the internode listener after a batch. -/
theorem foldl_writePoint_points (batch : List Rpc.Point) (a : Appender) :
    batch.foldl writePoint a
      = ⟨a.points ++ (batch.filter fun q => isValidFloat q.value).map fun q =>
          collectedPoint a.labelTruncationLength (convertLabels q) q.timestamp q.value,
        a.labelTruncationLength⟩ := by
  induction batch generalizing a with
  | nil => simp
  | cons q batch ih =>
    rw [List.foldl_cons, ih]
    by_cases hv : isValidFloat q.value = true
    · simp [writePoint, Appender.add, hv]
    · simp [writePoint, Appender.add, hv]

/-! ## Both ways -/

/-- `points` is what the local appenders of the node `replica` collect for a batch that
    arrives at the ingress listener of the node `receiver`. From another node it comes in
    batches of any size. -/
def Collects (lookup : Bytes → List (Fin n)) (length : ℕ) (receiver replica : Fin n)
    (batch points : List Rpc.Point) : Prop :=
  let added := batch.foldl (queuePoint ⟨lookup, receiver⟩)
    ⟨.newAppender length, fun _ => ⟨[], []⟩⟩
  if replica = receiver then points = added.localAppender.points
  else ∃ batches : List (List Rpc.Point),
    List.Forall₂ SamePoint (added.remote replica).points batches.flatten ∧
      points = batches.flatMap fun b => (b.foldl writePoint (.newAppender length)).points

theorem isValidFloat_of_mem_routed {lookup : Bytes → List (Fin n)} {j : Fin n}
    {batch : List Rpc.Point} {p : Rpc.Point} (hp : p ∈ routed lookup j batch) :
    isValidFloat p.value = true := by
  obtain ⟨q, -, hq⟩ := List.mem_flatMap.1 hp
  obtain ⟨hcopies, rfl⟩ := List.mem_replicate.1 hq
  by_contra hv
  exact hcopies (if_neg hv)

/-- The points that were carried over are all accepted, and collected alike. -/
theorem forall₂_collected (length : ℕ) {sent received : List Rpc.Point}
    (hvalid : ∀ p ∈ sent, isValidFloat p.value = true)
    (h : List.Forall₂ (fun p q =>
      SamePoint (remotePoint (sanitizedLabelSet p) p.timestamp p.value) q) sent received) :
    List.Forall₂ SamePoint (sent.map (ingressPoint length))
      ((received.filter fun q => isValidFloat q.value).map fun q =>
        collectedPoint length (convertLabels q) q.timestamp q.value) := by
  induction h with
  | nil => exact .nil
  | @cons p q sent received hpq _ ih =>
    obtain ⟨hp, hvalid⟩ := List.forall_mem_cons.1 hvalid
    have hvalue : p.value = q.value := hpq.2.2.1
    rw [hvalue] at hp
    rw [List.filter_cons, if_pos hp]
    exact .cons (collectedPoint_transferred length p hpq) (ih hvalid)

/-- A replica collects the points routed to it, with their names sanitized and their labels
    cleaned, wherever the batch arrived. -/
theorem collects_routed {lookup : Bytes → List (Fin n)} {length : ℕ} {receiver replica : Fin n}
    {batch points : List Rpc.Point} (h : Collects lookup length receiver replica batch points) :
    List.Forall₂ SamePoint ((routed lookup replica batch).map (ingressPoint length)) points := by
  unfold Collects at h
  dsimp only at h
  split at h
  · rename_i hlocal
    subst hlocal
    rw [h, foldl_queuePoint_local, List.forall₂_map_left_iff]
    refine List.forall₂_map_right_iff.2 (List.forall₂_same.2 fun p _ => ?_)
    exact collectedPoint_sanitizedLabelSet length p
  · rename_i hremote
    obtain ⟨batches, htransfer, rfl⟩ := h
    rw [foldl_queuePoint_remote _ hremote] at htransfer
    have hbatches : (batches.flatMap fun b => (b.foldl writePoint (.newAppender length)).points)
        = (batches.flatten.filter fun q => isValidFloat q.value).map fun q =>
            collectedPoint length (convertLabels q) q.timestamp q.value := by
      simp only [foldl_writePoint_points, Appender.newAppender, List.nil_append]
      rw [List.filter_flatten, List.map_flatten, List.map_map, List.flatMap]
      rfl
    rw [hbatches]
    refine forall₂_collected length (fun p hp => isValidFloat_of_mem_routed hp) ?_
    exact List.forall₂_map_left_iff.1 htransfer

/-- Every batch gets to every replica. -/
theorem exists_collects (lookup : Bytes → List (Fin n)) (length : ℕ) (receiver replica : Fin n)
    (batch : List Rpc.Point) : ∃ points, Collects lookup length receiver replica batch points := by
  unfold Collects
  dsimp only
  split
  · exact ⟨_, rfl⟩
  · refine ⟨_, [((batch.foldl (queuePoint ⟨lookup, receiver⟩)
      ⟨.newAppender length, fun _ => ⟨[], []⟩⟩).remote replica).points], ?_, rfl⟩
    rw [List.flatten_singleton]
    exact List.forall₂_same.2 fun p _ => ⟨rfl, rfl, rfl, fun _ => rfl⟩

theorem SamePoint.of_common {p q q' : Rpc.Point} (h : SamePoint p q) (h' : SamePoint p q') :
    SamePoint q q' := by
  obtain ⟨hname, htime, hvalue, hlabels⟩ := h
  obtain ⟨hname', htime', hvalue', hlabels'⟩ := h'
  refine ⟨hname.symm.trans hname', htime.symm.trans htime', hvalue.symm.trans hvalue', fun k => ?_⟩
  rw [← hlabels, hlabels']

/-- **Replicas agree on what they store.** What a replica collects for a batch is the same
    whether it arrived at one node or at another, if both take the labels of each point in the
    same order: the same points in the same order, and the same values rejected. They are the
    points routed to it, with their names sanitized and their labels cleaned. The order matters
    where two label names of a point are sanitized to one. -/
theorem replicas_agree (lookup : Bytes → List (Fin n)) (length : ℕ)
    (receiver receiver' replica : Fin n) (batch points points' : List Rpc.Point)
    (h : Collects lookup length receiver replica batch points)
    (h' : Collects lookup length receiver' replica batch points') :
    List.Forall₂ SamePoint points points' ∧
      List.Forall₂ SamePoint ((routed lookup replica batch).map (ingressPoint length)) points := by
  have hrouted := collects_routed h
  refine ⟨?_, hrouted⟩
  have hrouted' := collects_routed h'
  generalize (routed lookup replica batch).map (ingressPoint length) = expected at hrouted hrouted'
  clear h h'
  induction hrouted generalizing points' with
  | nil =>
    cases hrouted'
    exact .nil
  | cons hp _ ih =>
    obtain _ | ⟨hp', hrest'⟩ := hrouted'
    exact .cons (hp.of_common hp') (ih _ hrest')

/-- A point with a value, and one whose value is not a number. -/
def mixedBatch : List Rpc.Point :=
  [pointAt 7, ⟨lit "cpu.load", 8, 0x7FF8000000000001, ∅⟩]

/-- A cluster of two nodes that both store every metric. -/
def bothNodes : Bytes → List (Fin 2) := fun _ => [⟨0, Nat.two_pos⟩, ⟨1, Nat.one_lt_two⟩]

/-- The batch arrives at a node, and at the other one. -/
theorem replicas_agree_mixedBatch :
    ∃ points points', Collects bothNodes 256 1 1 mixedBatch points ∧
      Collects bothNodes 256 0 1 mixedBatch points' ∧ points.length = 1 ∧
      List.Forall₂ SamePoint points points' := by
  obtain ⟨points, h⟩ := exists_collects bothNodes 256 1 1 mixedBatch
  obtain ⟨points', h'⟩ := exists_collects bothNodes 256 0 1 mixedBatch
  obtain ⟨hsame, hrouted⟩ := replicas_agree bothNodes 256 1 0 1 mixedBatch points points' h h'
  have hlength : ((routed bothNodes 1 mixedBatch).map (ingressPoint 256)).length = 1 := by decide
  exact ⟨points, points', h, h', hrouted.length_eq.symm.trans hlength, hsame⟩

end MetricStore.Storage
