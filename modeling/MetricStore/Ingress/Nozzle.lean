import MetricStore.Batch.Batcher

/-!
# The nozzle

Model of the part of `Nozzle` that makes batches (`internal/nozzle/nozzle.go`).
`pointBatcher` turns envelopes into points and collects them; `timerEmitter` does the same
with what the two rollups return when its ticker fires. Both send their batches into one
channel, and drop them if it is full; the `pointWriter`s take them out and hand them to the
ingress client.

A step is an iteration of one of the loops. `timerEmitter` goes through the batches of the
rollups one by one, so that the others may run between them. Whoever sends a slice lets go
of it, and one that was dropped is nobody else's, so slices are lists here.

The way of a timer into the rollups is left out: a rollup returns a batch for every key that
it has labels for, with any labels and values. The rollups themselves are in
`Ingress.Rollup`.

Results:
* `run_filled`: every batch in the channel or handed to the client was below the maximum
  before the points that were added last, all at once: those of an envelope, or of a key of
  a rollup.
-/

namespace MetricStore.Ingress

open MetricStore.Common MetricStore.Persistence MetricStore.Batch

/-! ## Envelopes -/

/-- A value of a gauge envelope's map. -/
structure GaugeValue where
  unit : Bytes
  value : BitVec 64

/-- The messages that `selectorTypes` asks for, and any other. -/
inductive Message
  | gauge (metrics : GoMap Bytes GaugeValue)
  | counter (name : Bytes) (total : UInt64)
  | timer
  | other

/-- `loggregator_v2.Envelope`. -/
structure Envelope where
  timestamp : Int64
  sourceId : Bytes
  tags : GoMap Bytes Bytes
  message : Message

/-- The labels, overwritten with the tags of the envelope. -/
def Envelope.labels (envelope : Envelope) (labels : List (Bytes × Bytes)) : GoMap Bytes Bytes :=
  GoMap.ofPairs (labels ++ envelope.tags.pairs)

/-- `createPointsFromGauge` (lines 319–340). -/
def createPointsFromGauge (envelope : Envelope) (metrics : GoMap Bytes GaugeValue) :
    List Rpc.Point :=
  metrics.pairs.map fun (name, metric) =>
    { name := name
      timestamp := envelope.timestamp
      value := metric.value
      labels := envelope.labels
        [(lit "source_id", envelope.sourceId), (lit "unit", metric.unit)] }

/-- `createPointFromCounter` (lines 342–356); `float64` is Go's conversion. -/
def createPointFromCounter (float64 : UInt64 → BitVec 64) (envelope : Envelope) (name : Bytes)
    (total : UInt64) : Rpc.Point where
  name := name
  timestamp := envelope.timestamp
  value := float64 total
  labels := envelope.labels [(lit "source_id", envelope.sourceId)]

/-- `convertEnvelopeToPoints` (lines 297–317). A timer gives no point, whether or not it is
    put into `timerBuffer`. -/
def convertEnvelopeToPoints (float64 : UInt64 → BitVec 64) (envelope : Envelope) :
    List Rpc.Point :=
  match envelope.message with
  | .gauge metrics => createPointsFromGauge envelope metrics
  | .counter name total => [createPointFromCounter float64 envelope name total]
  | .timer => []
  | .other => []

/-! ## Rollups -/

/-- `PointsBatch` (`rollup/rollup.go`); `Size` is that of the points. -/
structure PointsBatch where
  points : List Rpc.Point
  size : ℕ
  size_eq : size = estimateBatchSize points

/-- What a `counterRollup` has for a key. -/
structure Total where
  labels : GoMap Bytes Bytes
  total : BitVec 64

/-- What a `histogramRollup` has for a key; the bounds of the buckets are formatted. -/
structure Histogram where
  labels : GoMap Bytes Bytes
  buckets : List (Bytes × BitVec 64)
  sampleCount : BitVec 64
  sampleSum : BitVec 64

/-- The batch of a key in `counterRollup.Rollup` (`rollup/counter.go`, lines 55–65). -/
def Total.batch (metricName : Bytes) (timestamp : Int64) (t : Total) : PointsBatch :=
  let countPoint : Rpc.Point := ⟨metricName ++ lit "_total", timestamp, t.total, t.labels⟩
  { points := [countPoint]
    size := estimatePointSize countPoint
    size_eq := by simp [estimateBatchSize] }

/-- The batch of a key in `histogramRollup.Rollup` (`rollup/histogram.go`, lines 61–126). -/
def Histogram.batch (metricName : Bytes) (timestamp : Int64) (h : Histogram) : PointsBatch :=
  let bucketPoint (bucket : Bytes × BitVec 64) : Rpc.Point :=
    ⟨metricName ++ lit "_duration_seconds_bucket", timestamp, bucket.2,
      h.labels.insert (lit "le") bucket.1⟩
  let bucketInfPoint := bucketPoint (lit "+Inf", h.sampleCount)
  let histogramCountPoint : Rpc.Point :=
    ⟨metricName ++ lit "_duration_seconds_count", timestamp, h.sampleCount, h.labels⟩
  let histogramSumPoint : Rpc.Point :=
    ⟨metricName ++ lit "_duration_seconds_sum", timestamp, h.sampleSum, h.labels⟩
  { points := h.buckets.map bucketPoint ++ [bucketInfPoint, histogramCountPoint, histogramSumPoint]
    size := (h.buckets.map fun bucket => estimatePointSize (bucketPoint bucket)).sum +
      estimatePointSize bucketInfPoint + estimatePointSize histogramCountPoint +
      estimatePointSize histogramSumPoint
    size_eq := by simp [estimateBatchSize, Function.comp_def, Nat.add_assoc] }

/-! ## The loops -/

/-- `MAX_BATCH_SIZE_IN_BYTES` (`pkg/ingressclient/ingressclient.go`, and
    `internal/storage/remote_appender.go`). -/
def maxBatchSizeInBytes : ℕ := 32 * 1024

/-- `BATCH_CHANNEL_SIZE`. -/
def batchChannelSize : ℕ := 512

/-- The variables `points` and `size` of `pointBatcher`, and of `timerEmitter`. -/
structure Collected where
  points : List Rpc.Point
  size : ℕ

/-- `Nozzle`: what `pointBatcher` has collected; what `timerEmitter` has, and the batches it
    still has to add, while it is at work; the channel; the batches handed to the client, and
    the number of points dropped. -/
structure Nozzle where
  batcher : Collected
  emitter : Option (Collected × List PointsBatch)
  ch : List (List Rpc.Point)
  written : List (List Rpc.Point)
  dropped : ℕ

inductive Event
  /-- An iteration of `pointBatcher`, with the envelope it has found. -/
  | poll (found : Option Envelope) (fired : Bool)
  /-- The ticker of `timerEmitter`, with what the rollups have. -/
  | rollup (timestamp : Int64) (totals : List Total) (durations : List Histogram)
  /-- `timerEmitter` adds the next batch, or is done with all of them. -/
  | emit
  /-- A `pointWriter` takes a batch. -/
  | write

namespace Nozzle

/-- `Start`. -/
def start : Nozzle := ⟨⟨[], 0⟩, none, [], [], 0⟩

/-- `writeToChannelOrDiscard` (lines 201–211). The slice it returns is empty either way. -/
def writeToChannelOrDiscard (n : Nozzle) (points : List Rpc.Point) : Nozzle :=
  if n.ch.length < batchChannelSize then { n with ch := n.ch ++ [points] }
  else { n with dropped := n.dropped + points.length }

/-- The loop over the points of an envelope (lines 167–170). -/
def addPoints (c : Collected) (points : List Rpc.Point) : Collected :=
  points.foldl (fun c point => ⟨c.points ++ [point], c.size + estimatePointSize point⟩) c

/-- The `select` of `pointBatcher` (lines 173–197). -/
def select (n : Nozzle) (c : Collected) (fired : Bool) : Nozzle :=
  if fired then
    if c.points.length > 0 then { n.writeToChannelOrDiscard c.points with batcher := ⟨[], 0⟩ }
    else { n with batcher := ⟨c.points, 0⟩ }
  else if c.size ≥ maxBatchSizeInBytes then
    { n.writeToChannelOrDiscard c.points with batcher := ⟨[], 0⟩ }
  else { n with batcher := c }

/-- An iteration of `pointBatcher` (lines 163–198). -/
def pointBatcher (float64 : UInt64 → BitVec 64) (n : Nozzle) (found : Option Envelope)
    (fired : Bool) : Nozzle :=
  match found with
  | none => n.select n.batcher fired
  | some envelope => n.select (addPoints n.batcher (convertEnvelopeToPoints float64 envelope)) fired

/-- The body of the two loops of `timerEmitter` (lines 262–270 and 272–280). -/
def addRollup (n : Nozzle) (c : Collected) (batch : PointsBatch) (rest : List PointsBatch) :
    Nozzle :=
  let points := c.points ++ batch.points
  let size := c.size + batch.size
  if size ≥ maxBatchSizeInBytes then
    { n.writeToChannelOrDiscard points with emitter := some (⟨[], 0⟩, rest) }
  else { n with emitter := some (⟨points, size⟩, rest) }

/-- A step of `timerEmitter` after the rollups were asked (lines 262–284). -/
def timerEmitter (n : Nozzle) : Collected × List PointsBatch → Nozzle
  | (c, batch :: rest) => n.addRollup c batch rest
  | (c, []) =>
    if c.points.length > 0 then { n.writeToChannelOrDiscard c.points with emitter := none }
    else { n with emitter := none }

/-- The batches of the rollups, in the order of `timerEmitter`. -/
def rollups (metricName : Bytes) (timestamp : Int64) (totals : List Total)
    (durations : List Histogram) : List PointsBatch :=
  totals.map (Total.batch metricName timestamp) ++
    durations.map (Histogram.batch metricName timestamp)

/-- A step of one of the goroutines; `none` if it cannot be taken. -/
def step (float64 : UInt64 → BitVec 64) (metricName : Bytes) (n : Nozzle) : Event → Option Nozzle
  | .poll found fired => some (n.pointBatcher float64 found fired)
  | .rollup timestamp totals durations =>
    match n.emitter with
    | none => some { n with
        emitter := some (⟨[], 0⟩, rollups metricName timestamp totals durations) }
    | some _ => none
  | .emit => n.emitter.map n.timerEmitter
  | .write =>
    match n.ch with
    | [] => none
    | points :: ch => some { n with ch := ch, written := n.written ++ [points] }

end Nozzle

/-- The groups of points that a step lets in: each is added to a batch as a whole. -/
def Event.groups (float64 : UInt64 → BitVec 64) (metricName : Bytes) :
    Event → List (List Rpc.Point)
  | .poll found _ => (found.map (convertEnvelopeToPoints float64)).toList
  | .rollup timestamp totals durations =>
    (Nozzle.rollups metricName timestamp totals durations).map PointsBatch.points
  | .emit => []
  | .write => []

/-! ## How batches are filled -/

theorem estimateBatchSize_append (xs ys : List Rpc.Point) :
    estimateBatchSize (xs ++ ys) = estimateBatchSize xs + estimateBatchSize ys := by
  simp [estimateBatchSize]

/-- The batch was put together from groups that meet `ok`, and was below the maximum before
    the last one. -/
def Filled (ok : List Rpc.Point → Prop) (points : List Rpc.Point) : Prop :=
  ∃ groups : List (List Rpc.Point), points = groups.flatten ∧ (∀ group ∈ groups, ok group) ∧
    estimateBatchSize groups.dropLast.flatten < maxBatchSizeInBytes

/-- What a loop has collected is filled so far, below the maximum, and its size is known. -/
structure Collected.Open (ok : List Rpc.Point → Prop) (c : Collected) : Prop where
  groups : ∃ groups : List (List Rpc.Point), c.points = groups.flatten ∧ ∀ group ∈ groups, ok group
  size : c.size = estimateBatchSize c.points
  below : c.size < maxBatchSizeInBytes

variable {ok : List Rpc.Point → Prop} {c : Collected} {n n' : Nozzle}

theorem Collected.open_nil (ok : List Rpc.Point → Prop) : Collected.Open ok ⟨[], 0⟩ :=
  ⟨⟨[], rfl, by simp⟩, rfl, by decide⟩

theorem Collected.Open.filled (h : c.Open ok) : Filled ok c.points := by
  obtain ⟨⟨groups, hpoints, hok⟩, hsize, hbelow⟩ := h
  refine ⟨groups, hpoints, hok, lt_of_le_of_lt ?_ hbelow⟩
  rw [hsize, hpoints]
  exact ((List.dropLast_sublist groups).flatten.map estimatePointSize).sum_le_sum
    fun _ _ => Nat.zero_le _

/-- One group more: the batch is filled, and is still open if it is below the maximum. -/
theorem Collected.Open.add (h : c.Open ok) {group : List Rpc.Point} (hgroup : ok group) {size : ℕ}
    (hadded : size = c.size + estimateBatchSize group) :
    Filled ok (c.points ++ group) ∧
      (size < maxBatchSizeInBytes → Collected.Open ok ⟨c.points ++ group, size⟩) := by
  obtain ⟨⟨groups, hpoints, hok⟩, hsize, hbelow⟩ := h
  have hflat : c.points ++ group = (groups ++ [group]).flatten := by rw [hpoints]; simp
  have hall : ∀ g ∈ groups ++ [group], ok g := by
    intro g hg
    rw [List.mem_append, List.mem_singleton] at hg
    rcases hg with hg | rfl
    · exact hok g hg
    · exact hgroup
  refine ⟨⟨groups ++ [group], hflat, hall, ?_⟩, fun hlt => ⟨⟨_, hflat, hall⟩, ?_, hlt⟩⟩
  · rw [List.dropLast_concat, ← hpoints, ← hsize]
    exact hbelow
  · rw [hadded, hsize, estimateBatchSize_append]

namespace Nozzle

theorem addPoints_eq (c : Collected) (points : List Rpc.Point) :
    addPoints c points = ⟨c.points ++ points, c.size + estimateBatchSize points⟩ := by
  induction points generalizing c with
  | nil => simp [addPoints, estimateBatchSize]
  | cons p points ih =>
    rw [addPoints, List.foldl_cons]
    refine (ih _).trans ?_
    simp [estimateBatchSize, Nat.add_assoc]

/-- The invariant of every run: the loops hold open batches and `timerEmitter` has groups
    that meet `ok` before it; all other batches are filled. -/
structure Inv (ok : List Rpc.Point → Prop) (n : Nozzle) : Prop where
  batcher : n.batcher.Open ok
  emitter : ∀ e ∈ n.emitter, e.1.Open ok ∧ ∀ b ∈ e.2, ok b.points
  filled : ∀ points ∈ n.written ++ n.ch, Filled ok points

/-- A batch is sent or dropped. -/
theorem Inv.write (h : n.Inv ok) {points : List Rpc.Point} (hfilled : Filled ok points) :
    (n.writeToChannelOrDiscard points).Inv ok := by
  unfold writeToChannelOrDiscard
  split_ifs
  · refine ⟨h.batcher, h.emitter, fun b hb => ?_⟩
    rw [← List.append_assoc, List.mem_append, List.mem_singleton] at hb
    rcases hb with hb | rfl
    · exact h.filled b hb
    · exact hfilled
  · exact ⟨h.batcher, h.emitter, h.filled⟩

theorem Inv.setBatcher (h : n.Inv ok) (hc : c.Open ok) : Inv ok { n with batcher := c } :=
  ⟨hc, h.emitter, h.filled⟩

theorem Inv.setEmitter (h : n.Inv ok) {e : Option (Collected × List PointsBatch)}
    (he : ∀ e' ∈ e, e'.1.Open ok ∧ ∀ b ∈ e'.2, ok b.points) : Inv ok { n with emitter := e } :=
  ⟨h.batcher, he, h.filled⟩

/-- The `select` of `pointBatcher`, whatever has been added. -/
theorem Inv.select (h : n.Inv ok) (hfilled : Filled ok c.points)
    (hopen : c.size < maxBatchSizeInBytes → c.Open ok) (fired : Bool) :
    (n.select c fired).Inv ok := by
  have hsent := (h.write hfilled).setBatcher (Collected.open_nil ok)
  unfold Nozzle.select
  cases fired with
  | true =>
    rw [if_pos rfl]
    split_ifs with hlen
    · exact hsent
    · have hnil : c.points = [] := List.length_eq_zero_iff.mp (by omega)
      rw [hnil]
      exact h.setBatcher (Collected.open_nil ok)
  | false =>
    rw [if_neg Bool.false_ne_true]
    split_ifs with hsize
    · exact hsent
    · exact h.setBatcher (hopen (not_le.mp hsize))

theorem pointBatcher_inv {float64 : UInt64 → BitVec 64} (h : n.Inv ok) {found : Option Envelope}
    (hfound : ∀ envelope ∈ found, ok (convertEnvelopeToPoints float64 envelope)) (fired : Bool) :
    (n.pointBatcher float64 found fired).Inv ok := by
  cases found with
  | none => exact h.select h.batcher.filled (fun _ => h.batcher) fired
  | some envelope =>
    obtain ⟨hfilled, hopen⟩ := h.batcher.add (hfound envelope rfl) rfl
    rw [pointBatcher, addPoints_eq]
    exact h.select hfilled hopen fired

theorem addRollup_inv (h : n.Inv ok) (hc : c.Open ok) {batch : PointsBatch}
    (hbatch : ok batch.points) {rest : List PointsBatch} (hrest : ∀ b ∈ rest, ok b.points) :
    (n.addRollup c batch rest).Inv ok := by
  obtain ⟨hfilled, hopen⟩ := hc.add hbatch (congrArg (c.size + ·) batch.size_eq)
  unfold addRollup
  dsimp only
  split_ifs with hsize
  · refine (h.write hfilled).setEmitter fun e he => ?_
    cases he
    exact ⟨Collected.open_nil ok, hrest⟩
  · refine h.setEmitter fun e he => ?_
    cases he
    exact ⟨hopen (not_le.mp hsize), hrest⟩

theorem timerEmitter_inv (h : n.Inv ok) {e : Collected × List PointsBatch}
    (he : n.emitter = some e) : (n.timerEmitter e).Inv ok := by
  obtain ⟨hc, hbatches⟩ := h.emitter e he
  obtain ⟨c, batches⟩ := e
  cases batches with
  | cons batch rest =>
    obtain ⟨hbatch, hrest⟩ := List.forall_mem_cons.mp hbatches
    exact addRollup_inv h hc hbatch hrest
  | nil =>
    rw [timerEmitter]
    split_ifs
    · exact (h.write hc.filled).setEmitter nofun
    · exact h.setEmitter nofun

theorem step_inv {float64 : UInt64 → BitVec 64} {metricName : Bytes} (h : n.Inv ok) {event : Event}
    (hok : ∀ group ∈ event.groups float64 metricName, ok group)
    (hstep : n.step float64 metricName event = some n') : n'.Inv ok := by
  unfold step at hstep
  cases event with
  | poll found fired =>
    obtain rfl := Option.some.inj hstep
    refine pointBatcher_inv h (fun envelope he => hok _ ?_) fired
    rw [Option.mem_def.mp he]
    exact List.mem_singleton_self _
  | rollup timestamp totals durations =>
    cases he : n.emitter with
    | some e => simp [he] at hstep
    | none =>
      simp only [he, Option.some.injEq] at hstep
      rw [← hstep]
      refine h.setEmitter fun e he => ?_
      cases he
      exact ⟨Collected.open_nil ok, fun b hb => hok _ (List.mem_map_of_mem hb)⟩
  | emit =>
    obtain ⟨e, he, rfl⟩ := Option.map_eq_some_iff.mp hstep
    exact timerEmitter_inv h he
  | write =>
    cases hch : n.ch with
    | nil => simp [hch] at hstep
    | cons points ch =>
      simp only [hch, Option.some.injEq] at hstep
      rw [← hstep]
      refine ⟨h.batcher, h.emitter, fun b hb => h.filled b ?_⟩
      rw [hch]
      simpa using hb

theorem start_inv (ok : List Rpc.Point → Prop) : start.Inv ok :=
  ⟨Collected.open_nil ok, nofun, nofun⟩

/-- **How batches are filled.** In every run that only lets in groups of points that meet `ok`,
    every batch in the channel or handed to the client is put together from such groups, and
    was below the maximum before the last of them. -/
theorem run_filled {float64 : UInt64 → BitVec 64} {metricName : Bytes} {events : List Event}
    (hok : ∀ event ∈ events, ∀ group ∈ event.groups float64 metricName, ok group)
    (hrun : run (step float64 metricName) start events = some n) :
    ∀ points ∈ n.written ++ n.ch, Filled ok points := by
  have hmeets : Meets (step float64 metricName)
      (fun _ event => ∀ group ∈ event.groups float64 metricName, ok group) start events :=
    meets_of_forall_mem (step float64 metricName) (fun _ => hok) start
  exact (run_invariant (step float64 metricName) (fun _ _ _ h hok hstep => step_inv h hok hstep)
    (start_inv ok) hmeets hrun).filled

end Nozzle

end MetricStore.Ingress
