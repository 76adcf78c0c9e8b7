import MetricStore.Ingress.Nozzle
import MetricStore.Leanstreams.TcpListener

/-!
# Batches and the receiver's buffer

A batch is encoded with `gob` and written as one frame (`IngressClient.Write` in
`pkg/ingressclient/ingressclient.go`, lines 63–81, and the writer of
`RemoteAppender.createWriter` in `internal/storage/remote_appender.go`, lines 121–148).
The receiver's buffer has twice the size at which a batch is sent, and `TCPServer.Read`
refuses a frame that does not fit. Nobody compares the two: the senders go by an estimate,
and look at it after a point has been added.

`gob` is a parameter. Its payload holds at least all names, label names and label values, and
at most a header and the cost of each point.

Results:
* `batches_accepted`: if the cost of a point is in proportion to its estimated size, and there
  is room for every group of points that is added at once, every batch of the batcher and of
  the nozzle is accepted.
* `nearly_full_batch_rejected`: two points that fit the buffer one by one make a batch that is
  refused.
-/

namespace MetricStore.Ingress

open MetricStore.Common MetricStore.Persistence MetricStore.Batch MetricStore.Leanstreams

/-! ## Payloads -/

/-- `MAX_INGRESS_PAYLOAD_SIZE_IN_BYTES`, the `MaxMessageSize` of the ingress listener. -/
def maxIngressPayloadSizeInBytes : ℕ := 2 * maxBatchSizeInBytes

/-- `MAX_INTERNODE_PAYLOAD_SIZE_IN_BYTES`, the `MaxMessageSize` of the listener for other
    nodes. -/
def maxInternodePayloadSizeInBytes : ℕ := 2 * maxBatchSizeInBytes

/-- The bytes of the name, the label names and the label values of each point. -/
def textSize (points : List Rpc.Point) : ℕ :=
  (points.map fun p =>
    p.name.length + (p.labels.pairs.map fun e => e.1.length + e.2.length).sum).sum

/-- What is assumed of `gob`: the payload of a batch holds all its texts, and is not longer
    than a header and the cost of each point. -/
structure Gob where
  encode : List Rpc.Point → Bytes
  header : ℕ
  cost : Rpc.Point → ℕ
  textSize_le : ∀ points, textSize points ≤ (encode points).length
  length_le : ∀ points, (encode points).length ≤ header + (points.map cost).sum

namespace Gob

variable {gob : Gob} {maxMessageSize ρ : ℕ} {points : List Rpc.Point}

/-- The payload of the batch fits the receiver's buffer, and wherever its frame is on the
    stream `Read` returns it. -/
structure Accepted (gob : Gob) (maxMessageSize : ℕ) (points : List Rpc.Point) : Prop where
  length_le : (gob.encode points).length ≤ maxMessageSize
  read : ∀ f s chunks, frame (gob.encode points) = some f → chunks.flatten = f ++ s →
    ∃ rest, Leanstreams.read maxMessageSize chunks = (.ok (gob.encode points), rest) ∧
      rest.flatten = s

theorem accepted_of_length_le (h : (gob.encode points).length ≤ maxMessageSize) :
    gob.Accepted maxMessageSize points :=
  ⟨h, fun _ _ _ hframe hchunks => read_frame hframe h hchunks⟩

/-- Points that are added at once, where points of an estimated size of 32 KiB cost at most
    `ρ`: there is room for these besides. -/
structure Fits (gob : Gob) (ρ : ℕ) (group : List Rpc.Point) : Prop where
  cost : ∀ p ∈ group, maxBatchSizeInBytes * gob.cost p ≤ ρ * estimatePointSize p
  room : gob.header + ρ + (group.map gob.cost).sum ≤ 2 * maxBatchSizeInBytes

instance : Decidable (gob.Fits ρ points) :=
  decidable_of_iff ((∀ p ∈ points, maxBatchSizeInBytes * gob.cost p ≤ ρ * estimatePointSize p) ∧
    gob.header + ρ + (points.map gob.cost).sum ≤ 2 * maxBatchSizeInBytes)
    ⟨fun h => ⟨h.1, h.2⟩, fun h => ⟨h.cost, h.room⟩⟩

/-- The cost of points is in proportion to their estimated size. -/
theorem cost_le (h : ∀ p ∈ points, maxBatchSizeInBytes * gob.cost p ≤ ρ * estimatePointSize p) :
    maxBatchSizeInBytes * (points.map gob.cost).sum ≤ ρ * estimateBatchSize points := by
  induction points with
  | nil => simp
  | cons p points ih =>
    obtain ⟨hp, hpoints⟩ := List.forall_mem_cons.mp h
    simp only [estimateBatchSize, List.map_cons, List.sum_cons, Nat.mul_add]
    exact Nat.add_le_add hp (ih hpoints)

/-- **A batch that was filled with groups that fit is not too long.** All but the last group
    cost less than `ρ`, since they were estimated at less than 32 KiB. -/
theorem length_le_of_filled (hρ : gob.header + ρ ≤ 2 * maxBatchSizeInBytes)
    (h : Filled (gob.Fits ρ) points) :
    (gob.encode points).length ≤ 2 * maxBatchSizeInBytes := by
  obtain ⟨groups, hpoints, hfits, hbelow⟩ := h
  refine (gob.length_le points).trans ?_
  rw [hpoints]
  cases groups using List.reverseRecOn with
  | nil => exact (Nat.le_add_right gob.header ρ).trans hρ
  | append_singleton groups group =>
    rw [List.dropLast_concat] at hbelow
    have hcost : maxBatchSizeInBytes * (groups.flatten.map gob.cost).sum ≤
        ρ * estimateBatchSize groups.flatten := by
      refine cost_le fun p hp => ?_
      obtain ⟨g, hg, hpg⟩ := List.mem_flatten.mp hp
      exact (hfits g (List.mem_append_left _ hg)).cost p hpg
    have hfirst : (groups.flatten.map gob.cost).sum ≤ ρ := by
      refine Nat.le_of_mul_le_mul_left (hcost.trans ?_) (by decide : 0 < maxBatchSizeInBytes)
      rw [Nat.mul_comm maxBatchSizeInBytes]
      exact Nat.mul_le_mul_left ρ hbelow.le
    have hlast := (hfits group (by simp)).room
    rw [List.flatten_append, List.map_append, List.sum_append, List.flatten_singleton]
    omega

end Gob

/-! ## The batches of a batcher -/

/-- The groups of points that a step of the batcher lets in: it polls one by one. -/
def batcherGroups : Batch.Event → List (List Rpc.Point)
  | .iterate found _ => (found.map fun p => [p]).toList
  | .write => []

theorem polled_select (maxSizeInBytes : ℤ) (b : Batcher) (c : Collecting) (branch : Branch) :
    (b.select maxSizeInBytes c branch).polled = b.polled := by
  have hwrite : (b.writeToChannelOrDiscard c.points).2.polled = b.polled := by
    unfold Batcher.writeToChannelOrDiscard
    split_ifs <;> rfl
  cases branch with
  | done => exact hwrite
  | tick =>
    rw [Batcher.select]
    split_ifs
    · exact hwrite
    · rfl
  | default =>
    rw [Batcher.select]
    split_ifs
    · exact hwrite
    · rfl

theorem step_polled {grow : ℕ → ℕ} {maxSizeInBytes : ℤ} {b b' : Batcher} {event : Batch.Event}
    (hstep : b.step grow maxSizeInBytes event = some b') {ok : List Rpc.Point → Prop}
    (hpolled : ∀ p ∈ b.polled, ok [p]) (hok : ∀ group ∈ batcherGroups event, ok group) :
    ∀ p ∈ b'.polled, ok [p] := by
  cases event with
  | iterate found branch =>
    obtain ⟨c, hc, rfl⟩ := Option.map_eq_some_iff.mp hstep
    dsimp only
    rw [polled_select]
    cases found with
    | none => exact hpolled
    | some q =>
      intro p hp
      rcases List.mem_append.mp hp with hp | hp
      · exact hpolled p hp
      · obtain rfl := List.mem_singleton.mp hp
        exact hok [p] (List.mem_singleton_self _)
  | write =>
    unfold Batcher.step at hstep
    cases hout : b.output with
    | nil => simp [hout] at hstep
    | cons points output =>
      simp only [hout, Option.some.injEq] at hstep
      rw [← hstep]
      exact hpolled

/-- Every batch that was handed to the writer was filled point by point. -/
theorem delivered_filled {grow : ℕ → ℕ} {events : List Batch.Event} {b : Batcher}
    {ok : List Rpc.Point → Prop} (hok : ∀ event ∈ events, ∀ group ∈ batcherGroups event, ok group)
    (hrun : run (Batcher.step grow maxBatchSizeInBytes) .start events = some b) :
    ∀ points ∈ b.deliveredBatches, Filled ok points := by
  obtain ⟨hi, hpolled⟩ : b.Inv maxBatchSizeInBytes ∧ ∀ p ∈ b.polled, ok [p] :=
    run_invariant (Batcher.step grow maxBatchSizeInBytes)
      (I := fun b => b.Inv maxBatchSizeInBytes ∧ ∀ p ∈ b.polled, ok [p])
      (fun _ _ _ h hok hstep => ⟨Batcher.step_inv h.1 hstep, step_polled hstep h.2 hok⟩)
      ⟨Batcher.start_inv _, nofun⟩
      (meets_of_forall_mem (Batcher.step grow maxBatchSizeInBytes) (fun _ => hok) .start) hrun
  intro points hpoints
  have hsent : points ∈ b.sentBatches := by
    rw [hi.booked.sent]
    exact List.mem_append_left _ hpoints
  obtain ⟨e, he, rfl⟩ := List.mem_map.mp hsent
  have hemitted : e ∈ b.emitted := List.mem_of_mem_filter he
  have hflat : ∀ l : List Rpc.Point, (l.map fun p => [p]).flatten = l := List.flatMap_singleton'
  refine ⟨e.points.map fun p => [p], (hflat _).symm, fun group hgroup => ?_, ?_⟩
  · obtain ⟨p, hp, rfl⟩ := List.mem_map.mp hgroup
    refine hpolled p ?_
    rw [hi.booked.polled]
    exact List.mem_append_left _ (List.mem_flatMap.mpr ⟨e, hemitted, hp⟩)
  · have hbelow := hi.bounded (by decide) e hemitted
    rw [← List.map_dropLast, hflat]
    exact Int.ofNat_lt.mp hbelow

/-! ## All batches -/

/-- **Batches fit the receiver**, if for some `ρ` points of an estimated size of 32 KiB cost at
    most `ρ`, and the buffer has room for `ρ`, the header and every group of points that is
    added at once: a point that a batcher polls, the points of an envelope, or those of a key
    of a rollup. Then in every run every batch handed to the writer of a remote appender, or to
    the ingress client, is accepted by the receiver. -/
theorem batches_accepted (gob : Gob) (ρ : ℕ) (hρ : gob.header + ρ ≤ 2 * maxBatchSizeInBytes) :
    (∀ (grow : ℕ → ℕ) (events : List Batch.Event) (b : Batcher),
      (∀ event ∈ events, ∀ group ∈ batcherGroups event, gob.Fits ρ group) →
      run (Batcher.step grow maxBatchSizeInBytes) .start events = some b →
      ∀ points ∈ b.deliveredBatches, gob.Accepted maxInternodePayloadSizeInBytes points) ∧
    ∀ (float64 : UInt64 → BitVec 64) (metricName : Bytes) (events : List Event) (n : Nozzle),
      (∀ event ∈ events, ∀ group ∈ event.groups float64 metricName, gob.Fits ρ group) →
      run (Nozzle.step float64 metricName) .start events = some n →
      ∀ points ∈ n.written, gob.Accepted maxIngressPayloadSizeInBytes points := by
  constructor
  · intro grow events b hfits hrun points hpoints
    exact Gob.accepted_of_length_le
      (Gob.length_le_of_filled hρ (delivered_filled hfits hrun points hpoints))
  · intro float64 metricName events n hfits hrun points hpoints
    have hfilled := Nozzle.run_filled hfits hrun points (List.mem_append_left _ hpoints)
    exact Gob.accepted_of_length_le (Gob.length_le_of_filled hρ hfilled)

/-- A `gob` that needs a header of 300 bytes, 30 for each point besides its texts, and six for
    each label. -/
def roughGob : Gob where
  encode points := List.replicate
    (300 + (points.map fun p => estimatePointSize p + 14 + 6 * p.labels.pairs.length).sum) 0
  header := 300
  cost p := estimatePointSize p + 14 + 6 * p.labels.pairs.length
  textSize_le points := by
    rw [List.length_replicate]
    refine le_add_left (List.sum_le_sum fun p _ => ?_)
    unfold estimatePointSize
    omega
  length_le points := (List.length_replicate ..).le

/-- Two points, and the timer fires. -/
def pollTwo : List Batch.Event :=
  [.iterate (some (smallPoint 1)) .default, .iterate (some (smallPoint 2)) .tick, .write]

/-- A counter of some application, and then the total of a rollup. -/
def counterAndTotal : List Event :=
  [.poll (some ⟨1, lit "app", ∅, .counter (lit "requests") 7⟩) true, .write,
    .rollup 60 [⟨∅, 0⟩] [], .emit, .emit, .write]

theorem batches_accepted_smallRuns :
    (∃ b, run (Batcher.step (2 * · + 1) maxBatchSizeInBytes) .start pollTwo = some b ∧
      b.deliveredBatches = [[smallPoint 1, smallPoint 2]] ∧
      ∀ points ∈ b.deliveredBatches, roughGob.Accepted maxInternodePayloadSizeInBytes points) ∧
    ∃ n, run (Nozzle.step (fun _ => 0) (lit "http")) .start counterAndTotal = some n ∧
      n.written.map List.length = [1, 1] ∧
      ∀ points ∈ n.written, roughGob.Accepted maxIngressPayloadSizeInBytes points := by
  obtain ⟨hbatcher, hnozzle⟩ := batches_accepted roughGob 56000 (by decide)
  obtain ⟨b, hb⟩ : ∃ b, run (Batcher.step (2 * · + 1) maxBatchSizeInBytes) .start pollTwo = some b :=
    ⟨_, rfl⟩
  obtain ⟨n, hn⟩ : ∃ n, run (Nozzle.step (fun _ => 0) (lit "http")) .start counterAndTotal = some n :=
    ⟨_, rfl⟩
  refine ⟨⟨b, hb, ?_, hbatcher _ _ _ (by decide) hb⟩, n, hn, ?_, hnozzle _ _ _ _ (by decide) hn⟩
  · cases hb
    rfl
  · cases hn
    rfl

/-! ## Batches that are refused -/

/-- A point with a name of `n` bytes and no labels. -/
def namedPoint (n : ℕ) : Rpc.Point := ⟨List.replicate n 97, 1, 0, ∅⟩

theorem textSize_namedPoints (m n : ℕ) : textSize [namedPoint m, namedPoint n] = m + n := by
  simp [textSize, namedPoint, GoMap.pairs]

theorem estimatePointSize_namedPoint (n : ℕ) : estimatePointSize (namedPoint n) = n + 16 := by
  simp [estimatePointSize, namedPoint, GoMap.pairs]

theorem cost_namedPoint (n : ℕ) : roughGob.cost (namedPoint n) = n + 30 := by
  show estimatePointSize (namedPoint n) + 14 + 0 = _
  rw [estimatePointSize_namedPoint]

/-- The point that makes a batch large enough is sent with the others. -/
theorem run_two_points (grow : ℕ → ℕ) {p q : Rpc.Point}
    (hp : estimatePointSize p < maxBatchSizeInBytes)
    (hq : maxBatchSizeInBytes ≤ estimatePointSize p + estimatePointSize q) :
    ∃ b, run (Batcher.step grow maxBatchSizeInBytes) .start
        [.iterate (some p) .default, .iterate (some q) .default, .write] = some b ∧
      b.deliveredBatches = [[p, q]] := by
  have hsmall : ¬ ((0 + estimatePointSize p : ℕ) : ℤ) ≥ (maxBatchSizeInBytes : ℕ) := by omega
  have hlarge : ((0 + estimatePointSize p + estimatePointSize q : ℕ) : ℤ) ≥
      (maxBatchSizeInBytes : ℕ) := by omega
  let r₁ := Batcher.start.poll grow ⟨(Arrays.empty (α := Rpc.Point)).make.1, 0⟩ (some p)
  let b₁ : Batcher := { r₁.2 with loop := some r₁.1 }
  let r₂ := b₁.poll grow r₁.1 (some q)
  have hfirst : Batcher.start.step grow maxBatchSizeInBytes (.iterate (some p) .default) = some b₁ :=
    congrArg some (if_neg hsmall)
  have hsecond : b₁.step grow maxBatchSizeInBytes (.iterate (some q) .default) =
      some (r₂.2.flush r₂.1) :=
    congrArg some (if_pos hlarge)
  refine ⟨{ r₂.2.flush r₂.1 with output := [], delivered := [r₂.1.points] }, ?_, ?_⟩
  · rw [run, hfirst, Option.bind_some, run, hsecond]
    rfl
  · have hvalid : r₁.2.arrays.Valid r₁.1.points := Arrays.valid_append (Arrays.valid_make _)
    have hread₁ : r₁.2.arrays.read r₁.1.points = [p] := Arrays.read_append (Arrays.valid_make _)
    have hread₂ : r₂.2.arrays.read r₂.1.points = r₁.2.arrays.read r₁.1.points ++ [q] :=
      Arrays.read_append hvalid
    show [r₂.2.arrays.read r₂.1.points] = [[p, q]]
    rw [hread₂, hread₁, List.singleton_append]

/-- **A batch that is refused.** Each of two points fits the receiver's buffer when it is sent
    alone; the first is estimated at 32 KiB less one byte. The batcher sends them in one batch,
    whose payload is longer than the buffer for any `gob`. The frame is written, and `Read`
    refuses it. -/
theorem nearly_full_batch_rejected :
    (roughGob.encode [namedPoint 32751]).length ≤ maxInternodePayloadSizeInBytes ∧
    (roughGob.encode [namedPoint 60000]).length ≤ maxInternodePayloadSizeInBytes ∧
    (∃ b, run (Batcher.step (2 * · + 1) maxBatchSizeInBytes) .start
        [.iterate (some (namedPoint 32751)) .default, .iterate (some (namedPoint 60000)) .default,
          .write] = some b ∧
      b.deliveredBatches = [[namedPoint 32751, namedPoint 60000]]) ∧
    (∀ gob : Gob, maxInternodePayloadSizeInBytes <
      (gob.encode [namedPoint 32751, namedPoint 60000]).length) ∧
    ∃ c, run step (newTCPClient Unit maxInternodePayloadSizeInBytes)
        (writeCalls [roughGob.encode [namedPoint 32751, namedPoint 60000]]) = some c ∧
      (read maxInternodePayloadSizeInBytes [c.stream]).1 =
        .error (.tooLong (roughGob.encode [namedPoint 32751, namedPoint 60000]).length) := by
  have halone : ∀ n, (roughGob.encode [namedPoint n]).length ≤ 330 + n := by
    intro n
    refine (roughGob.length_le _).trans_eq ?_
    rw [List.map_singleton, List.sum_singleton, cost_namedPoint]
    show 300 + _ = _
    omega
  have hlong : ∀ gob : Gob, maxInternodePayloadSizeInBytes <
      (gob.encode [namedPoint 32751, namedPoint 60000]).length := by
    intro gob
    refine lt_of_lt_of_le ?_ (gob.textSize_le _)
    rw [textSize_namedPoints]
    decide
  have hframe : (roughGob.encode [namedPoint 32751, namedPoint 60000]).length < 2 ^ 55 := by
    refine lt_of_le_of_lt (roughGob.length_le _) ?_
    rw [List.map_cons, List.map_singleton, List.sum_cons, List.sum_singleton, cost_namedPoint,
      cost_namedPoint]
    decide
  refine ⟨(halone _).trans (by decide), (halone _).trans (by decide),
    run_two_points _ ?_ ?_, hlong, ?_⟩
  · rw [estimatePointSize_namedPoint]
    decide
  · rw [estimatePointSize_namedPoint, estimatePointSize_namedPoint]
    decide
  · obtain ⟨c, hc⟩ := exists_run_writeCalls (c := newTCPClient Unit maxInternodePayloadSizeInBytes)
      (List.forall_mem_singleton.mpr hframe) rfl
    obtain ⟨f, c₁, hf, -, hstream, hrun⟩ := run_write rfl hc
    refine ⟨c, hc, ?_⟩
    cases hrun
    refine read_tooLong (s := emptyBuffer) hf (hlong roughGob) ?_
    rw [List.flatten_singleton, hstream]
    rfl

end MetricStore.Ingress
