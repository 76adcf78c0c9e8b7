import MetricStore.Diodes.OneToOne
import MetricStore.Ingress.Rollup

/-!
# From the stream to the ingress client

What a `Nozzle` (`internal/nozzle/nozzle.go`) does with the envelopes of its stream, with all
the goroutines of `Start` (lines 138–154):

* `envelopeReader` (lines 230–238) sets every envelope in the diode `ingressBuffer`;
* `pointBatcher` polls it. The points of gauges and counters go into batches; a timer is set in
  the diode `timerBuffer` if it is one that is rolled up (lines 301–311);
* `timerProcessor` (lines 240–251) polls that one and records every timer in two rollups;
* `timerEmitter` (lines 253–286) asks `totalRollup`, adds its batches, then asks
  `durationRollup`, and adds those;
* the `pointWriter`s (lines 213–228) take batches out of the channel and write them with the
  client. What could not be written is given up.

The loops over points and batches and the channel are those of `Ingress.Nozzle`, the maps of
the rollups those of `Ingress.Rollup`. A step is one of a goroutine between two accesses to
what it shares with others. The answers of the client, the times and the orders of maps are
inputs. The counters of the debug registrar that are changed are part of the state, with
two histories: the calls of the rollups, and what the writers have done.

Results:
* `nozzle_conserves`: every envelope received is still in the diode, was counted as dropped, or
  was polled; every timer polled that is to be rolled up was counted as dropped, is on its way,
  or was recorded once in each rollup; every point made of a polled envelope or by a rollup is at
  one place: in a batch, in the channel, with a writer, written, failed, or counted as dropped.
-/

namespace MetricStore.Ingress

open MetricStore.Common MetricStore.Batch
open MetricStore.Diodes (Machine LossyQueue)

/-! ## Model -/

/-- `loggregator_v2.Timer`. -/
structure Timer where
  name : Bytes
  start : Int64
  stop : Int64

/-- An envelope with what `GetTimer` returns, which is zero unless the message is a timer. -/
structure TimedEnvelope extends Envelope where
  timer : Timer

/-- The fields of `Nozzle` that do not change, the number of workers (line 148), and the
    functions of Go that the nozzle calls. -/
structure Settings where
  nodeIndex : Bytes
  rollupMetricName : Bytes
  totalRollupTags : List Bytes
  durationRollupTags : List Bytes
  workers : ℕ
  float64 : UInt64 → BitVec 64
  floats : Floats
  toLower : Bytes → Bytes

namespace Settings

/-- `NewCounterRollup`, as `WithNozzleTimerRollup` calls it (lines 125–134). -/
def totalConfig (s : Settings) : RollupConfig :=
  ⟨s.nodeIndex, s.rollupMetricName, s.totalRollupTags⟩

/-- `NewHistogramRollup`. -/
def durationConfig (s : Settings) : RollupConfig :=
  ⟨s.nodeIndex, s.rollupMetricName, s.durationRollupTags⟩

/-- Whether `convertEnvelopeToPoints` sets the envelope in `timerBuffer` (lines 301–311). -/
def rollsUp (s : Settings) (envelope : TimedEnvelope) : Bool :=
  match envelope.message with
  | .timer =>
    if envelope.timer.name ≠ s.rollupMetricName then false
    else if envelope.sourceId = lit "gorouter" ∧
        s.toLower ((envelope.tags.lookup (lit "peer_type")).getD []) = lit "client" then false
    else true
  | _ => false

/-- The points of an envelope. -/
def pointsOf (s : Settings) (envelope : TimedEnvelope) : List Rpc.Point :=
  convertEnvelopeToPoints s.float64 envelope.toEnvelope

end Settings

/-- The size of `ingressBuffer` (line 95). -/
def ingressBufferSize : ℕ := 100000

instance : NeZero ingressBufferSize := ⟨by decide⟩

/-- Where `timerProcessor` is: it polls, or has still to record the timer in both rollups, or
    in the second. -/
inductive Processor
  | next
  | total (envelope : TimedEnvelope)
  | duration (envelope : TimedEnvelope)

/-- `timerBuffer`, `timerProcessor` and the rollups, with the calls of the rollups. -/
structure Timers (size : ℕ) where
  buffer : Machine TimedEnvelope size
  processor : Processor
  totalRollup : Rollup Int64
  durationRollup : Rollup Prometheus.HistogramCounts
  totalCalls : List Call
  durationCalls : List Call

/-- The `pointWriter`s: the batches they have in hand, and the two counters; then the batches
    that they have written, and those that failed. -/
structure Writers where
  inHand : List (List Rpc.Point)
  egressPointsTotal : ℕ
  egressErrorsTotal : ℕ
  egressed : List (List Rpc.Point)
  failed : List (List Rpc.Point)

/-- A nozzle with its goroutines. `found` is what `pointBatcher` has polled in the iteration
    it is in; `durationsAt` is the time with which `timerEmitter` has still to ask
    `durationRollup`; `rolledUp` are the batches that the rollups have returned. -/
structure NozzlePipeline (size : ℕ) where
  ingressBuffer : Machine TimedEnvelope ingressBufferSize
  ingressEnvelopesTotal : ℕ
  found : Option (Option TimedEnvelope)
  timers : Timers size
  nozzle : Nozzle
  durationsAt : Option Int64
  rolledUp : List PointsBatch
  writers : Writers

/-- The steps, goroutine by goroutine. -/
inductive NozzleAct
  /-- `envelopeReader`. -/
  | receive (envelope : TimedEnvelope)
  | received
  /-- `pointBatcher`. -/
  | swap
  | found
  | storeTimer
  | select (fired : Bool)
  /-- `timerProcessor`. -/
  | swapTimer
  | nextTimer
  | recordTotal
  | recordDuration
  /-- `timerEmitter`. -/
  | rollupTotals (order : MapOrder Bytes) (timestamp : Int64)
  | rollupDurations (order : MapOrder Bytes)
  | emit
  /-- A `pointWriter`. -/
  | take
  | write (worker : ℕ) (clientOk : Bool)

section Model

variable {size : ℕ} [NeZero size] (s : Settings)

namespace Timers

def start : Timers size := ⟨.start, .next, newRollup, newRollup, [], []⟩

/-- A step of the diode that is not the end of `TryNext`. -/
def access (t : Timers size) (a : Diodes.Act TimedEnvelope) : Option (Timers size) :=
  (t.buffer.step a).map fun buffer => { t with buffer := buffer }

/-- `poller.Next()` (line 244): it goes on polling if there was nothing. -/
def nextTimer (t : Timers size) : Option (Timers size) :=
  match t.processor with
  | .next => (t.buffer.step .finish).map fun buffer => { t with
      buffer := buffer
      processor := match buffer.replies.getLast?.bind Diodes.Reply.data with
        | none => .next
        | some envelope => .total envelope }
  | _ => none

/-- `n.totalRollup.Record(envelope.SourceId, envelope.Tags, 1)` (line 248). -/
def recordTotal (t : Timers size) : Option (Timers size) :=
  match t.processor with
  | .total e => some { t with
      totalRollup := record s.totalConfig (counterRollup s.totalConfig) t.totalRollup e.sourceId
        e.tags 1
      totalCalls := t.totalCalls ++ [.record e.sourceId e.tags 1]
      processor := .duration e }
  | _ => none

/-- `n.durationRollup.Record(…, timer.GetStop()-timer.GetStart())` (line 249). -/
def recordDuration (t : Timers size) : Option (Timers size) :=
  match t.processor with
  | .duration e => some { t with
      durationRollup := record s.durationConfig (histogramRollup s.durationConfig s.floats)
        t.durationRollup e.sourceId e.tags (e.timer.stop - e.timer.start)
      durationCalls := t.durationCalls ++
        [.record e.sourceId e.tags (e.timer.stop - e.timer.start)]
      processor := .next }
  | _ => none

/-- `n.totalRollup.Rollup(timestampNano)` (line 262). -/
def rollupTotals (t : Timers size) (order : MapOrder Bytes) (timestamp : Int64) :
    Option (List PointsBatch × Timers size) :=
  (rollup s.totalConfig (counterRollup s.totalConfig) t.totalRollup order timestamp).map fun r =>
    (r.1, { t with
      totalRollup := r.2, totalCalls := t.totalCalls ++ [.rollup order timestamp] })

/-- `n.durationRollup.Rollup(timestampNano)` (line 272). -/
def rollupDurations (t : Timers size) (order : MapOrder Bytes) (timestamp : Int64) :
    Option (List PointsBatch × Timers size) :=
  (rollup s.durationConfig (histogramRollup s.durationConfig s.floats) t.durationRollup order
    timestamp).map fun r =>
      (r.1, { t with
        durationRollup := r.2, durationCalls := t.durationCalls ++ [.rollup order timestamp] })

end Timers

namespace Writers

def start : Writers := ⟨[], 0, 0, [], []⟩

/-- A writer that has nothing in hand takes a batch. -/
def take (w : Writers) (points : List Rpc.Point) : Option Writers :=
  if w.inHand.length < s.workers then some { w with inHand := w.inHand ++ [points] } else none

/-- `n.client.Write(points)` returns (lines 218–226). -/
def write (w : Writers) (worker : ℕ) (clientOk : Bool) : Option Writers :=
  w.inHand[worker]?.map fun points =>
    if clientOk then { w with
      inHand := w.inHand.eraseIdx worker
      egressPointsTotal := w.egressPointsTotal + points.length
      egressed := w.egressed ++ [points] }
    else { w with
      inHand := w.inHand.eraseIdx worker
      egressErrorsTotal := w.egressErrorsTotal + 1
      failed := w.failed ++ [points] }

end Writers

namespace NozzlePipeline

/-- `NewNozzle` and the beginning of `Start`. -/
def start : NozzlePipeline size := ⟨.start, 0, none, .start, .start, none, [], .start⟩

/-- A step; `none` if a call panics, or nobody is at this step. -/
def step (p : NozzlePipeline size) : NozzleAct → Option (NozzlePipeline size)
  | .receive envelope => (p.ingressBuffer.step (.set envelope)).map fun m =>
      { p with ingressBuffer := m }
  | .received => (p.ingressBuffer.step .store).map fun m =>
      { p with ingressBuffer := m, ingressEnvelopesTotal := p.ingressEnvelopesTotal + 1 }
  | .swap =>
    match p.found with
    | some _ => none
    | none => (p.ingressBuffer.step .swap).map fun m => { p with ingressBuffer := m }
  | .found =>
    match p.found with
    | some _ => none
    | none => (p.ingressBuffer.step .finish).bind fun m =>
      match m.replies.getLast?.bind Diodes.Reply.data with
      | none => some { p with ingressBuffer := m, found := some none }
      | some envelope =>
        if s.rollsUp envelope then
          (p.timers.access (.set envelope)).map fun t =>
            { p with ingressBuffer := m, found := some (some envelope), timers := t }
        else some { p with ingressBuffer := m, found := some (some envelope) }
  | .storeTimer => (p.timers.access .store).map fun t => { p with timers := t }
  | .select fired =>
    match p.found, p.timers.buffer.storing with
    | some found, none => some { p with
        nozzle := p.nozzle.pointBatcher s.float64 (found.map TimedEnvelope.toEnvelope) fired
        found := none }
    | _, _ => none
  | .swapTimer =>
    match p.timers.processor with
    | .next => (p.timers.access .swap).map fun t => { p with timers := t }
    | _ => none
  | .nextTimer => p.timers.nextTimer.map fun t => { p with timers := t }
  | .recordTotal => (p.timers.recordTotal s).map fun t => { p with timers := t }
  | .recordDuration => (p.timers.recordDuration s).map fun t => { p with timers := t }
  | .rollupTotals order timestamp =>
    match p.nozzle.emitter with
    | some _ => none
    | none => (p.timers.rollupTotals s order timestamp).map fun r => { p with
        timers := r.2
        nozzle := { p.nozzle with emitter := some (⟨[], 0⟩, r.1) }
        durationsAt := some timestamp
        rolledUp := p.rolledUp ++ r.1 }
  | .rollupDurations order =>
    match p.nozzle.emitter, p.durationsAt with
    | some (c, []), some timestamp => (p.timers.rollupDurations s order timestamp).map fun r =>
      { p with
        timers := r.2
        nozzle := { p.nozzle with emitter := some (c, r.1) }
        durationsAt := none
        rolledUp := p.rolledUp ++ r.1 }
    | _, _ => none
  | .emit =>
    match p.nozzle.emitter, p.durationsAt with
    | some (_, []), some _ => none
    | some e, _ => some { p with nozzle := p.nozzle.timerEmitter e }
    | none, _ => none
  | .take =>
    match p.nozzle.ch with
    | [] => none
    | points :: ch => (p.writers.take s points).map fun w => { p with
        nozzle := { p.nozzle with ch := ch, written := p.nozzle.written ++ [points] }
        writers := w }
  | .write worker clientOk => (p.writers.write worker clientOk).map fun w =>
      { p with writers := w }

end NozzlePipeline

end Model

/-! ## The points of the nozzle -/

namespace Nozzle

variable {n n' : Nozzle} {added : Multiset Rpc.Point}

/-- The points that `timerEmitter` has collected or has before it. -/
def emitting : Option (Collected × List PointsBatch) → List Rpc.Point
  | none => []
  | some (c, rest) => c.points ++ rest.flatMap PointsBatch.points

/-- The points in the batches of the two loops, in the channel, and taken out of it. -/
def holding (n : Nozzle) : Multiset Rpc.Point :=
  ↑n.batcher.points + ↑(emitting n.emitter) + ↑n.ch.flatten + ↑n.written.flatten

/-- What `n'` holds, and what was dropped and counted in between, is what `n` held, and what
    was added. The batches `taken` were taken out of the channel. -/
def Moves (n n' : Nozzle) (added : Multiset Rpc.Point) (taken : List (List Rpc.Point)) : Prop :=
  n'.written = n.written ++ taken ∧
    ∃ discarded : Multiset Rpc.Point, n'.dropped = n.dropped + discarded.card ∧
      n'.holding + discarded = n.holding + added

/-- The loops go on with `batcher` and `emitter`, and nothing is sent. -/
theorem kept_moves (n : Nozzle) (batcher : Collected)
    (emitter : Option (Collected × List PointsBatch))
    (hloops : (n.batcher.points : Multiset Rpc.Point) + ↑(emitting n.emitter) + added =
      ↑batcher.points + ↑(emitting emitter)) :
    Moves n { n with batcher := batcher, emitter := emitter } added [] := by
  refine ⟨(List.append_nil _).symm, 0, rfl, ?_⟩
  rw [holding, holding, ← hloops]
  abel

/-- The loops go on with `batcher` and `emitter`, and a batch is sent or dropped. -/
theorem sent_moves (n : Nozzle) (points : List Rpc.Point) (batcher : Collected)
    (emitter : Option (Collected × List PointsBatch))
    (hloops : (n.batcher.points : Multiset Rpc.Point) + ↑(emitting n.emitter) + added =
      ↑points + (↑batcher.points + ↑(emitting emitter))) :
    Moves n { n.writeToChannelOrDiscard points with batcher := batcher, emitter := emitter }
      added [] := by
  have hall : n.holding + added = ↑points + (↑batcher.points + ↑(emitting emitter)) +
      ↑n.ch.flatten + ↑n.written.flatten := by
    rw [← hloops, holding]
    abel
  unfold writeToChannelOrDiscard
  split_ifs
  · refine ⟨(List.append_nil _).symm, 0, rfl, ?_⟩
    rw [hall, holding, List.flatten_append, List.flatten_singleton, ← Multiset.coe_add]
    abel
  · refine ⟨(List.append_nil _).symm, points, rfl, ?_⟩
    rw [hall, holding]
    abel

theorem writeToChannelOrDiscard_loops (n : Nozzle) (points : List Rpc.Point) :
    (n.writeToChannelOrDiscard points).batcher = n.batcher ∧
      (n.writeToChannelOrDiscard points).emitter = n.emitter := by
  unfold writeToChannelOrDiscard
  split_ifs
  · exact ⟨rfl, rfl⟩
  · exact ⟨rfl, rfl⟩

theorem select_moves (n : Nozzle) {c : Collected} {group : List Rpc.Point}
    (hc : c.points = n.batcher.points ++ group) (fired : Bool) :
    Moves n (n.select c fired) group [] := by
  have hpoints : (n.batcher.points : Multiset Rpc.Point) + ↑(emitting n.emitter) + ↑group =
      ↑c.points + ↑(emitting n.emitter) := by
    rw [hc, ← Multiset.coe_add]
    abel
  have hkept : ∀ size, Moves n { n with batcher := ⟨c.points, size⟩ } group [] :=
    fun size => kept_moves n ⟨c.points, size⟩ n.emitter hpoints
  have hsent :
      Moves n { n.writeToChannelOrDiscard c.points with batcher := ⟨[], 0⟩ } group [] := by
    have hmoves := sent_moves n c.points ⟨[], 0⟩ n.emitter (hpoints.trans (by simp))
    rw [← (writeToChannelOrDiscard_loops n c.points).2] at hmoves
    exact hmoves
  unfold select
  split_ifs
  · exact hsent
  · exact hkept 0
  · exact hsent
  · exact hkept c.size

theorem pointBatcher_moves (n : Nozzle) (float64 : UInt64 → BitVec 64) (found : Option Envelope)
    (fired : Bool) :
    Moves n (n.pointBatcher float64 found fired)
      (found.toList.flatMap (convertEnvelopeToPoints float64) : List Rpc.Point) [] := by
  unfold pointBatcher
  cases found with
  | none => exact select_moves n (List.append_nil _).symm fired
  | some envelope =>
    apply select_moves n _ fired
    rw [addPoints_eq]
    simp

/-- The batches of a rollup come before `timerEmitter`. -/
theorem setEmitter_moves (n : Nozzle) {c : Collected} (hc : emitting n.emitter = c.points)
    (batches : List PointsBatch) :
    Moves n { n with emitter := some (c, batches) }
      (batches.flatMap PointsBatch.points : List Rpc.Point) [] := by
  apply kept_moves n n.batcher (some (c, batches))
  rw [hc, emitting, ← Multiset.coe_add, add_assoc]

theorem timerEmitter_moves {e : Collected × List PointsBatch} (he : n.emitter = some e) :
    Moves n (n.timerEmitter e) 0 [] := by
  obtain ⟨c, batches⟩ := e
  have hsent : ∀ (points : List Rpc.Point) (emitter : Option (Collected × List PointsBatch)),
      emitting n.emitter = points ++ emitting emitter →
      Moves n { n.writeToChannelOrDiscard points with emitter := emitter } 0 [] := by
    intro points emitter hemitter
    have hloops : (n.batcher.points : Multiset Rpc.Point) + ↑(emitting n.emitter) + 0 =
        ↑points + (↑n.batcher.points + ↑(emitting emitter)) := by
      rw [hemitter, ← Multiset.coe_add]
      abel
    have hmoves := sent_moves n points n.batcher emitter hloops
    rw [← (writeToChannelOrDiscard_loops n points).1] at hmoves
    exact hmoves
  have hkept : ∀ emitter, emitting n.emitter = emitting emitter →
      Moves n { n with emitter := emitter } 0 [] := by
    intro emitter hemitter
    apply kept_moves n n.batcher emitter
    rw [hemitter, add_zero]
  rw [he] at hsent hkept
  cases batches with
  | nil =>
    unfold timerEmitter
    dsimp only
    split_ifs with hlen
    · exact hsent c.points none rfl
    · apply hkept none
      have hnil : c.points = [] := List.length_eq_zero_iff.mp (by omega)
      show c.points ++ [] = []
      rw [hnil, List.append_nil]
  | cons batch rest =>
    have hpoints : emitting (some (c, batch :: rest)) =
        (c.points ++ batch.points) ++ rest.flatMap PointsBatch.points := by
      rw [emitting, List.flatMap_cons, List.append_assoc]
    show Moves n (n.addRollup c batch rest) 0 []
    unfold addRollup
    dsimp only
    split_ifs
    · exact hsent (c.points ++ batch.points) (some (⟨[], 0⟩, rest)) hpoints
    · exact hkept (some (⟨c.points ++ batch.points, c.size + batch.size⟩, rest)) hpoints

/-- A `pointWriter` takes a batch out of the channel. -/
theorem take_moves {points : List Rpc.Point} {ch : List (List Rpc.Point)}
    (hch : n.ch = points :: ch) :
    Moves n { n with ch := ch, written := n.written ++ [points] } 0 [points] := by
  refine ⟨rfl, 0, rfl, ?_⟩
  rw [holding, holding, hch, List.flatten_append, List.flatten_singleton, List.flatten_cons,
    ← Multiset.coe_add, ← Multiset.coe_add]
  abel

end Nozzle

/-! ## The two diodes -/

/-- What a diode has returned are values that were set, in order. Between two reads, they and
    the number of those reported as missed make the reader's index; if none was missed, they
    are the first values. -/
structure DiodeAccounts {α : Type} {size : ℕ} (m : Machine α size) : Prop where
  sublist : (LossyQueue.returned m.replies).Sublist m.calls
  count : m.swapped = none →
    ((LossyQueue.returned m.replies).length : ℤ) + LossyQueue.reported m.replies =
      m.diode.readIndex.toNat
  index_le : m.swapped = none → m.diode.readIndex.toNat ≤ m.calls.length
  first : m.swapped = none → LossyQueue.reported m.replies = 0 →
    LossyQueue.returned m.replies <+: m.calls

/-- The diode stands for a queue, as long as its indices do not wrap around. -/
def Sound {α : Type} {size : ℕ} [NeZero size] (m : Machine α size) : Prop :=
  m.calls.length < Diodes.indexLimit → ∃ q, m.Rep q

section Diodes

variable {α : Type} {size : ℕ} [NeZero size] {m m' : Machine α size}

theorem Sound.step (h : Sound m) {a : Diodes.Act α} (hstep : m.step a = some m') : Sound m' := by
  intro hlimit
  have hle := (Machine.calls_isPrefix hstep).length_le
  obtain ⟨q, hq⟩ := h (by omega)
  exact ⟨_, Machine.step_rep hq (by omega) hstep⟩

theorem Sound.accounts (h : Sound m) (hlimit : m.calls.length < Diodes.indexLimit) :
    DiodeAccounts m := by
  obtain ⟨q, hq⟩ := h hlimit
  have hread := hq.accounted.read_le
  have hwritten := hq.written_le
  refine ⟨hq.returned_sublist, fun hswapped => ?_, fun hswapped => ?_, hq.returned_isPrefix⟩
  · rw [hq.readIndex hswapped hlimit]
    exact hq.count hswapped
  · rw [hq.readIndex hswapped hlimit]
    omega

/-- `Set` begins, with nothing about to be stored. -/
theorem pending_set {data : α} (hstep : m.step (.set data) = some m') :
    m.pending = none ∧ m'.pending = some data := by
  obtain ⟨_, ha, hnone, rfl⟩ | ⟨_, _, ha, -⟩ | ⟨ha, -⟩ | ⟨_, ha, -⟩ := Machine.step_cases hstep
  · cases ha
    exact ⟨by rw [Machine.pending, hnone]; rfl, rfl⟩
  all_goals cases ha

theorem pending_store (hstep : m.step .store = some m') :
    m.pending.toList.length = 1 ∧ m'.pending = none := by
  obtain ⟨_, ha, -⟩ | ⟨_, _, -, hsome, rfl⟩ | ⟨ha, -⟩ | ⟨_, ha, -⟩ := Machine.step_cases hstep
  · cases ha
  · exact ⟨by rw [Machine.pending, hsome]; rfl, rfl⟩
  all_goals cases ha

/-- The steps of the reader leave the writer where it is. -/
theorem pending_read {a : Diodes.Act α} (hstep : m.step a = some m')
    (ha : a = .swap ∨ a = .finish) : m'.pending = m.pending := by
  obtain ⟨_, rfl, -⟩ | ⟨_, _, rfl, -⟩ | ⟨-, -, rfl⟩ | ⟨_, -, -, rfl⟩ := Machine.step_cases hstep
  · simp at ha
  · simp at ha
  · rfl
  · rfl

/-- The value of the last read is the last one returned. -/
theorem returned_finish (hstep : m.step .finish = some m') :
    LossyQueue.returned m'.replies = LossyQueue.returned m.replies ++
      (m'.replies.getLast?.bind Diodes.Reply.data).toList := by
  obtain ⟨-, reply, hreplies⟩ := Machine.step_finish hstep
  rw [hreplies, LossyQueue.returned_concat, List.getLast?_concat, Option.bind_some]

end Diodes

/-! ## Timers -/

/-- What is recorded by a call. -/
def Call.recording : Call → Option (Bytes × GoMap Bytes Bytes × Int64)
  | .record sourceId tags value => some (sourceId, tags, value)
  | .rollup _ _ => none

/-- What is recorded of a timer in `totalRollup`, and in `durationRollup`. -/
def TimedEnvelope.total (e : TimedEnvelope) : Bytes × GoMap Bytes Bytes × Int64 :=
  (e.sourceId, e.tags, 1)

def TimedEnvelope.duration (e : TimedEnvelope) : Bytes × GoMap Bytes Bytes × Int64 :=
  (e.sourceId, e.tags, e.timer.stop - e.timer.start)

/-- The timer that has still to be recorded in `totalRollup`, and in `durationRollup`. -/
def Processor.untotalled : Processor → List TimedEnvelope
  | .next => []
  | .total e => [e]
  | .duration _ => []

def Processor.untimed : Processor → List TimedEnvelope
  | .next => []
  | .total e => [e]
  | .duration e => [e]

namespace Timers

variable {size : ℕ} [NeZero size] {s : Settings} {t t' : Timers size}

/-- The timers that `timerProcessor` has polled. -/
def polled (t : Timers size) : List TimedEnvelope := LossyQueue.returned t.buffer.replies

/-- Every timer polled was recorded once in each rollup, or is about to be. -/
structure Recorded (t : Timers size) : Prop where
  totals : t.totalCalls.filterMap Call.recording ++
    t.processor.untotalled.map TimedEnvelope.total = t.polled.map TimedEnvelope.total
  durations : t.durationCalls.filterMap Call.recording ++
    t.processor.untimed.map TimedEnvelope.duration = t.polled.map TimedEnvelope.duration

structure Inv (s : Settings) (t : Timers size) : Prop where
  buffer : Sound t.buffer
  totals : Keeps s.totalConfig (counterRollup s.totalConfig) t.totalCalls t.totalRollup
  durations : Keeps s.durationConfig (histogramRollup s.durationConfig s.floats) t.durationCalls
    t.durationRollup
  recorded : t.Recorded

theorem start_inv : (start : Timers size).Inv s :=
  ⟨fun _ => ⟨.start, Machine.start_rep⟩, keeps_new _ _, keeps_new _ _, rfl, rfl⟩

/-- A step of the diode that is not the end of a `TryNext`. -/
theorem Inv.access (h : t.Inv s) {a : Diodes.Act TimedEnvelope} (hstep : t.access a = some t')
    (hreplies : t'.buffer.replies = t.buffer.replies) : t'.Inv s := by
  obtain ⟨buffer, hbuffer, rfl⟩ := Option.map_eq_some_iff.mp hstep
  have hpolled : LossyQueue.returned buffer.replies = t.polled :=
    congrArg LossyQueue.returned hreplies
  refine ⟨h.buffer.step hbuffer, h.totals, h.durations, ?_, ?_⟩
  · show _ = (LossyQueue.returned buffer.replies).map _
    rw [hpolled]
    exact h.recorded.totals
  · show _ = (LossyQueue.returned buffer.replies).map _
    rw [hpolled]
    exact h.recorded.durations

theorem Inv.nextTimer (h : t.Inv s) (hstep : t.nextTimer = some t') :
    t'.Inv s ∧ t'.buffer.calls = t.buffer.calls := by
  unfold Timers.nextTimer at hstep
  split at hstep
  · next hnext =>
    obtain ⟨buffer, hbuffer, rfl⟩ := Option.map_eq_some_iff.mp hstep
    have hpolled := returned_finish hbuffer
    have htotals := h.recorded.totals
    have hdurations := h.recorded.durations
    rw [hnext] at htotals hdurations
    refine ⟨⟨h.buffer.step hbuffer, h.totals, h.durations, ?_, ?_⟩, (Machine.step_finish hbuffer).1⟩
    · show _ = (LossyQueue.returned buffer.replies).map _
      rw [hpolled, List.map_append]
      show _ = t.polled.map _ ++ _
      rw [← htotals, Processor.untotalled, List.map_nil, List.append_nil]
      cases buffer.replies.getLast?.bind Diodes.Reply.data with
      | none => rfl
      | some e => rfl
    · show _ = (LossyQueue.returned buffer.replies).map _
      rw [hpolled, List.map_append]
      show _ = t.polled.map _ ++ _
      rw [← hdurations, Processor.untimed, List.map_nil, List.append_nil]
      cases buffer.replies.getLast?.bind Diodes.Reply.data with
      | none => rfl
      | some e => rfl
  · cases hstep

theorem Inv.recordTotal (h : t.Inv s) (hstep : t.recordTotal s = some t') :
    t'.Inv s ∧ t'.buffer = t.buffer := by
  unfold Timers.recordTotal at hstep
  split at hstep
  · next e he =>
    cases hstep
    have htotals := h.recorded.totals
    have hdurations := h.recorded.durations
    rw [he] at htotals hdurations
    refine ⟨⟨h.buffer, keeps_record h.totals _ _ _, h.durations, ?_, hdurations⟩, rfl⟩
    show (t.totalCalls ++ [_]).filterMap Call.recording ++ [] = t.polled.map _
    rw [← htotals, List.filterMap_append, List.append_nil]
    rfl
  · cases hstep

theorem Inv.recordDuration (h : t.Inv s) (hstep : t.recordDuration s = some t') :
    t'.Inv s ∧ t'.buffer = t.buffer := by
  unfold Timers.recordDuration at hstep
  split at hstep
  · next e he =>
    cases hstep
    have htotals := h.recorded.totals
    have hdurations := h.recorded.durations
    rw [he] at htotals hdurations
    refine ⟨⟨h.buffer, h.totals, keeps_record h.durations _ _ _, htotals, ?_⟩, rfl⟩
    show (t.durationCalls ++ [_]).filterMap Call.recording ++ [] = t.polled.map _
    rw [← hdurations, List.filterMap_append, List.append_nil]
    rfl
  · cases hstep

theorem Inv.rollupTotals (h : t.Inv s) {order : MapOrder Bytes} {timestamp : Int64}
    {r : List PointsBatch × Timers size} (hstep : t.rollupTotals s order timestamp = some r) :
    r.2.Inv s ∧ r.2.buffer = t.buffer := by
  obtain ⟨batches, hrollup, -⟩ := rollup_emits h.totals order timestamp
  unfold Timers.rollupTotals at hstep
  rw [hrollup] at hstep
  cases hstep
  refine ⟨⟨h.buffer, keeps_rollup h.totals order timestamp, h.durations, ?_,
    h.recorded.durations⟩, rfl⟩
  refine Eq.trans ?_ h.recorded.totals
  show (t.totalCalls ++ [_]).filterMap Call.recording ++ _ = _
  rw [List.filterMap_append]
  show (_ ++ []) ++ _ = _
  rw [List.append_nil]

theorem Inv.rollupDurations (h : t.Inv s) {order : MapOrder Bytes} {timestamp : Int64}
    {r : List PointsBatch × Timers size} (hstep : t.rollupDurations s order timestamp = some r) :
    r.2.Inv s ∧ r.2.buffer = t.buffer := by
  obtain ⟨batches, hrollup, -⟩ := rollup_emits h.durations order timestamp
  unfold Timers.rollupDurations at hstep
  rw [hrollup] at hstep
  cases hstep
  refine ⟨⟨h.buffer, h.totals, keeps_rollup h.durations order timestamp, h.recorded.totals, ?_⟩,
    rfl⟩
  refine Eq.trans ?_ h.recorded.durations
  show (t.durationCalls ++ [_]).filterMap Call.recording ++ _ = _
  rw [List.filterMap_append]
  show (_ ++ []) ++ _ = _
  rw [List.append_nil]

/-- What the rollups return when they are asked. -/
structure Emits (s : Settings) (t : Timers size) : Prop where
  totals : ∀ order timestamp, ∃ batches t', t.rollupTotals s order timestamp = some (batches, t') ∧
    EmitsExactly s.totalConfig t.totalCalls
      (CounterBatch s.totalConfig t.totalCalls timestamp) batches
  durations : ∀ order timestamp, ∃ batches t',
    t.rollupDurations s order timestamp = some (batches, t') ∧
    EmitsExactly s.durationConfig t.durationCalls
      (HistogramBatch s.durationConfig t.durationCalls timestamp) batches

theorem Inv.emits (h : t.Inv s) : t.Emits s := by
  constructor
  · intro order timestamp
    obtain ⟨batches, hrollup, keys, hnodup, hkeys, hbatches⟩ :=
      rollup_emits h.totals order timestamp
    refine ⟨batches, _, by rw [Timers.rollupTotals, hrollup]; rfl, keys, hnodup, hkeys,
      hbatches.imp ?_⟩
    rintro key batch ⟨labels, hlabels, rfl⟩
    exact ⟨labels, hlabels, counterBatch_batch timestamp key labels⟩
  · intro order timestamp
    obtain ⟨batches, hrollup, keys, hnodup, hkeys, hbatches⟩ :=
      rollup_emits h.durations order timestamp
    refine ⟨batches, _, by rw [Timers.rollupDurations, hrollup]; rfl, keys, hnodup, hkeys,
      hbatches.imp ?_⟩
    rintro key batch ⟨labels, hlabels, rfl⟩
    exact ⟨labels, hlabels, histogramBatch_batch s.floats timestamp key labels⟩

end Timers

/-! ## Writers -/

namespace Writers

variable {s : Settings} {w w' : Writers} {taken : Multiset Rpc.Point}

/-- The points that writers have taken are in hand, written, or failed; the counters have the
    number of the points written, and of the failures. -/
structure Inv (taken : Multiset Rpc.Point) (w : Writers) : Prop where
  taken : taken = ↑w.inHand.flatten + ↑w.egressed.flatten + ↑w.failed.flatten
  points : w.egressPointsTotal = w.egressed.flatten.length
  errors : w.egressErrorsTotal = w.failed.length

theorem start_inv : start.Inv 0 := ⟨rfl, rfl, rfl⟩

theorem Inv.take (h : w.Inv taken) {points : List Rpc.Point} (hstep : w.take s points = some w') :
    w'.Inv (taken + points) := by
  unfold Writers.take at hstep
  split_ifs at hstep
  cases hstep
  refine ⟨?_, h.points, h.errors⟩
  rw [h.taken, List.flatten_append, List.flatten_singleton, ← Multiset.coe_add]
  abel

/-- One batch less in hand. -/
theorem flatten_eraseIdx {l : List (List Rpc.Point)} {i : ℕ} {points : List Rpc.Point}
    (hi : l[i]? = some points) :
    (l.flatten : Multiset Rpc.Point) = ↑(l.eraseIdx i).flatten + ↑points := by
  obtain ⟨hlt, rfl⟩ := List.getElem?_eq_some_iff.mp hi
  rw [Multiset.coe_add, Multiset.coe_eq_coe]
  have hperm : l.Perm (l[i] :: l.eraseIdx i) := (List.getElem_cons_eraseIdx_perm hlt).symm
  refine hperm.flatten.trans ?_
  rw [List.flatten_cons]
  exact List.perm_append_comm

theorem Inv.write (h : w.Inv taken) {worker : ℕ} {clientOk : Bool}
    (hstep : w.write worker clientOk = some w') : w'.Inv taken := by
  obtain ⟨points, hpoints, hw'⟩ := Option.map_eq_some_iff.mp hstep
  have hhand := flatten_eraseIdx hpoints
  split_ifs at hw' with hok
  · rw [← hw']
    refine ⟨?_, ?_, h.errors⟩
    · rw [h.taken, hhand, List.flatten_append, List.flatten_singleton, ← Multiset.coe_add]
      abel
    · rw [h.points, List.flatten_append, List.flatten_singleton, List.length_append]
  · rw [← hw']
    refine ⟨?_, h.points, ?_⟩
    · rw [h.taken, hhand, List.flatten_append, List.flatten_singleton, ← Multiset.coe_add]
      abel
    · rw [h.errors, List.length_append, List.length_singleton]

end Writers

/-! ## The whole -/

namespace NozzlePipeline

variable {size : ℕ} [NeZero size] {s : Settings} {p p' : NozzlePipeline size}

/-- The envelopes that `pointBatcher` has polled. -/
def polled (p : NozzlePipeline size) : List TimedEnvelope :=
  LossyQueue.returned p.ingressBuffer.replies

/-- The points made: of the envelopes polled, and by the rollups. -/
def made (s : Settings) (p : NozzlePipeline size) : Multiset Rpc.Point :=
  ↑(p.polled.flatMap s.pointsOf) + ↑(p.rolledUp.flatMap PointsBatch.points)

/-- The points of the envelope that `pointBatcher` has just polled. -/
def adding (s : Settings) (found : Option (Option TimedEnvelope)) : List Rpc.Point :=
  match found with
  | some (some envelope) => s.pointsOf envelope
  | _ => []

structure Inv (s : Settings) (p : NozzlePipeline size) : Prop where
  ingress : Sound p.ingressBuffer
  received : p.ingressEnvelopesTotal + p.ingressBuffer.pending.toList.length =
    p.ingressBuffer.calls.length
  timersSet : p.timers.buffer.calls = p.polled.filter s.rollsUp
  timers : p.timers.Inv s
  points : ∃ discarded : Multiset Rpc.Point, discarded.card = p.nozzle.dropped ∧
    p.made s = discarded + ↑(adding s p.found) + p.nozzle.holding
  writers : p.writers.Inv ↑p.nozzle.written.flatten

theorem start_inv : (start : NozzlePipeline size).Inv s :=
  ⟨fun _ => ⟨.start, Machine.start_rep⟩, rfl, rfl, Timers.start_inv, ⟨0, rfl, rfl⟩,
    Writers.start_inv⟩

/-- A step of `ingressBuffer` that is not the end of a `TryNext`. -/
theorem Inv.setIngress (h : p.Inv s) {m : Machine TimedEnvelope ingressBufferSize} {total : ℕ}
    (hm : Sound m) (hreplies : m.replies = p.ingressBuffer.replies)
    (hreceived : total + m.pending.toList.length = m.calls.length) :
    Inv s { p with ingressBuffer := m, ingressEnvelopesTotal := total } := by
  have hpolled : LossyQueue.returned m.replies = p.polled := congrArg LossyQueue.returned hreplies
  refine ⟨hm, hreceived, ?_, h.timers, ?_, h.writers⟩
  · show _ = (LossyQueue.returned m.replies).filter s.rollsUp
    rw [hpolled]
    exact h.timersSet
  · unfold made
    show ∃ _, _ ∧ ((LossyQueue.returned m.replies).flatMap s.pointsOf : Multiset Rpc.Point) + _ = _
    rw [hpolled]
    exact h.points

/-- A step of the timers that sets none of them. -/
theorem Inv.setTimers (h : p.Inv s) {t : Timers size} (ht : t.Inv s)
    (hcalls : t.buffer.calls = p.timers.buffer.calls) : Inv s { p with timers := t } :=
  ⟨h.ingress, h.received, hcalls.trans h.timersSet, ht, h.points, h.writers⟩

/-- The loops and the writers move points, and rollups may add some. -/
theorem Inv.setNozzle (h : p.Inv s) (found : Option (Option TimedEnvelope))
    (durationsAt : Option Int64) (batches : List PointsBatch) {n : Nozzle} {t : Timers size}
    {w : Writers} {added : Multiset Rpc.Point} {taken : List (List Rpc.Point)}
    (hmoves : p.nozzle.Moves n added taken)
    (hadded : (adding s found : Multiset Rpc.Point) + added =
      ↑(adding s p.found) + ↑(batches.flatMap PointsBatch.points))
    (ht : t.Inv s) (hbuffer : t.buffer = p.timers.buffer)
    (hw : w.Inv (↑p.nozzle.written.flatten + ↑taken.flatten)) :
    Inv s { p with
      nozzle := n
      found := found
      timers := t
      durationsAt := durationsAt
      rolledUp := p.rolledUp ++ batches
      writers := w } := by
  obtain ⟨hwritten, more, hdropped, hholding⟩ := hmoves
  obtain ⟨discarded, hcard, hmade⟩ := h.points
  refine ⟨h.ingress, h.received, (congrArg Machine.calls hbuffer).trans h.timersSet, ht,
    ⟨discarded + more, by rw [Multiset.card_add, hcard, hdropped], ?_⟩, ?_⟩
  · unfold made at hmade ⊢
    show (p.polled.flatMap s.pointsOf : Multiset Rpc.Point) + _ = _
    rw [List.flatMap_append, ← Multiset.coe_add, ← add_assoc, hmade]
    calc discarded + ↑(adding s p.found) + p.nozzle.holding +
          ↑(batches.flatMap PointsBatch.points)
        = discarded + (↑(adding s p.found) + ↑(batches.flatMap PointsBatch.points)) +
            p.nozzle.holding := by abel
      _ = discarded + ↑(adding s found) + (p.nozzle.holding + added) := by rw [← hadded]; abel
      _ = discarded + more + ↑(adding s found) + n.holding := by rw [← hholding]; abel
  · rw [hwritten, List.flatten_append, ← Multiset.coe_add]
    exact hw

/-- No rollup is asked. -/
theorem Inv.moves (h : p.Inv s) (n : Nozzle) (found : Option (Option TimedEnvelope))
    (w : Writers) {added : Multiset Rpc.Point} {taken : List (List Rpc.Point)}
    (hmoves : p.nozzle.Moves n added taken)
    (hadded : (adding s found : Multiset Rpc.Point) + added = ↑(adding s p.found))
    (hw : w.Inv (↑p.nozzle.written.flatten + ↑taken.flatten)) :
    Inv s { p with nozzle := n, found := found, writers := w } := by
  have hinv := h.setNozzle found p.durationsAt [] hmoves (hadded.trans (by simp)) h.timers rfl hw
  rw [List.append_nil] at hinv
  exact hinv

theorem found_inv (h : p.Inv s) (hfound : p.found = none)
    {m : Machine TimedEnvelope ingressBufferSize} (hm : p.ingressBuffer.step .finish = some m)
    {t : Timers size} (ht : t.Inv s)
    (hcalls : t.buffer.calls = p.timers.buffer.calls ++
      (m.replies.getLast?.bind Diodes.Reply.data).toList.filter s.rollsUp) :
    Inv s { p with
      ingressBuffer := m
      found := some (m.replies.getLast?.bind Diodes.Reply.data)
      timers := t } := by
  have hpolled := returned_finish hm
  refine ⟨h.ingress.step hm, ?_, ?_, ht, ?_, h.writers⟩
  · rw [pending_read hm (.inr rfl), (Machine.step_finish hm).1]
    exact h.received
  · show _ = (LossyQueue.returned m.replies).filter s.rollsUp
    rw [hcalls, hpolled, List.filter_append, h.timersSet]
    rfl
  · obtain ⟨discarded, hcard, hmade⟩ := h.points
    refine ⟨discarded, hcard, ?_⟩
    unfold made at hmade ⊢
    show ((LossyQueue.returned m.replies).flatMap s.pointsOf : Multiset Rpc.Point) + _ = _
    rw [hpolled, List.flatMap_append, ← Multiset.coe_add, add_right_comm]
    refine (congrArg (· + _) hmade).trans ?_
    rw [hfound]
    cases m.replies.getLast?.bind Diodes.Reply.data with
    | none => simp [adding]
    | some envelope =>
      simp only [adding, Option.toList_some, List.flatMap_singleton, Multiset.coe_nil, add_zero]
      abel

theorem step_inv (h : p.Inv s) {a : NozzleAct} (hstep : p.step s a = some p') : p'.Inv s := by
  have hreceived := h.received
  cases a with
  | receive envelope =>
    obtain ⟨m, hm, rfl⟩ := Option.map_eq_some_iff.mp hstep
    obtain ⟨hcalls, hreplies⟩ := Machine.step_set hm
    obtain ⟨hnone, hsome⟩ := pending_set hm
    apply h.setIngress (h.ingress.step hm) hreplies
    rw [hnone] at hreceived
    rw [hsome, hcalls, List.length_append, ← hreceived]
    rfl
  | received =>
    obtain ⟨m, hm, rfl⟩ := Option.map_eq_some_iff.mp hstep
    obtain ⟨hcalls, hreplies⟩ := Machine.step_history hm (.inl rfl)
    obtain ⟨hsome, hnone⟩ := pending_store hm
    apply h.setIngress (h.ingress.step hm) hreplies
    rw [hsome] at hreceived
    rw [hnone, hcalls]
    exact hreceived
  | swap =>
    simp only [step] at hstep
    split at hstep
    · cases hstep
    · obtain ⟨m, hm, rfl⟩ := Option.map_eq_some_iff.mp hstep
      obtain ⟨hcalls, hreplies⟩ := Machine.step_history hm (.inr rfl)
      apply h.setIngress (h.ingress.step hm) hreplies
      rw [pending_read hm (.inl rfl), hcalls]
      exact hreceived
  | found =>
    simp only [step] at hstep
    split at hstep
    · cases hstep
    · next hfound =>
      obtain ⟨m, hm, hstep⟩ := Option.bind_eq_some_iff.mp hstep
      cases hdata : m.replies.getLast?.bind Diodes.Reply.data with
      | none =>
        rw [hdata] at hstep
        have hinv := found_inv h hfound hm h.timers (by rw [hdata]; simp)
        rw [hdata] at hinv
        cases hstep
        exact hinv
      | some envelope =>
        simp only [hdata] at hstep
        split_ifs at hstep with hrolls
        · obtain ⟨t, ht, rfl⟩ := Option.map_eq_some_iff.mp hstep
          obtain ⟨buffer, hbuffer, rfl⟩ := Option.map_eq_some_iff.mp ht
          obtain ⟨hcalls, hreplies⟩ := Machine.step_set hbuffer
          have hinv := found_inv h hfound hm (h.timers.access ht hreplies)
            (by rw [hdata, hcalls]; simp [hrolls])
          rw [hdata] at hinv
          exact hinv
        · have hinv := found_inv h hfound hm h.timers (by rw [hdata]; simp [hrolls])
          rw [hdata] at hinv
          cases hstep
          exact hinv
  | storeTimer =>
    obtain ⟨t, ht, rfl⟩ := Option.map_eq_some_iff.mp hstep
    obtain ⟨buffer, hbuffer, rfl⟩ := Option.map_eq_some_iff.mp ht
    obtain ⟨hcalls, hreplies⟩ := Machine.step_history hbuffer (.inl rfl)
    exact h.setTimers (h.timers.access ht hreplies) hcalls
  | select fired =>
    simp only [step] at hstep
    split at hstep
    · next found hfound _ =>
      cases hstep
      have hmoves := Nozzle.pointBatcher_moves p.nozzle s.float64
        (found.map TimedEnvelope.toEnvelope) fired
      refine h.moves _ none p.writers hmoves ?_ (by simpa using h.writers)
      rw [hfound]
      cases found with
      | none => rfl
      | some envelope => simp [adding, Settings.pointsOf]
    · cases hstep
  | swapTimer =>
    simp only [step] at hstep
    split at hstep
    · obtain ⟨t, ht, rfl⟩ := Option.map_eq_some_iff.mp hstep
      obtain ⟨buffer, hbuffer, rfl⟩ := Option.map_eq_some_iff.mp ht
      obtain ⟨hcalls, hreplies⟩ := Machine.step_history hbuffer (.inr rfl)
      exact h.setTimers (h.timers.access ht hreplies) hcalls
    · cases hstep
  | nextTimer =>
    obtain ⟨t, ht, rfl⟩ := Option.map_eq_some_iff.mp hstep
    obtain ⟨hinv, hcalls⟩ := h.timers.nextTimer ht
    exact h.setTimers hinv hcalls
  | recordTotal =>
    obtain ⟨t, ht, rfl⟩ := Option.map_eq_some_iff.mp hstep
    obtain ⟨hinv, hbuffer⟩ := h.timers.recordTotal ht
    exact h.setTimers hinv (congrArg Machine.calls hbuffer)
  | recordDuration =>
    obtain ⟨t, ht, rfl⟩ := Option.map_eq_some_iff.mp hstep
    obtain ⟨hinv, hbuffer⟩ := h.timers.recordDuration ht
    exact h.setTimers hinv (congrArg Machine.calls hbuffer)
  | rollupTotals order timestamp =>
    simp only [step] at hstep
    split at hstep
    · cases hstep
    · next hnone =>
      obtain ⟨⟨batches, t⟩, ht, rfl⟩ := Option.map_eq_some_iff.mp hstep
      obtain ⟨hinv, hbuffer⟩ := h.timers.rollupTotals ht
      have hmoves := Nozzle.setEmitter_moves p.nozzle (c := ⟨[], 0⟩) (by rw [hnone]; rfl) batches
      exact h.setNozzle p.found (some timestamp) batches hmoves rfl hinv hbuffer
        (by simpa using h.writers)
  | rollupDurations order =>
    simp only [step] at hstep
    split at hstep
    · next c timestamp hsome _ =>
      obtain ⟨⟨batches, t⟩, ht, rfl⟩ := Option.map_eq_some_iff.mp hstep
      obtain ⟨hinv, hbuffer⟩ := h.timers.rollupDurations ht
      have hmoves := Nozzle.setEmitter_moves p.nozzle (c := c)
        (by rw [hsome]; simp [Nozzle.emitting]) batches
      exact h.setNozzle p.found none batches hmoves rfl hinv hbuffer (by simpa using h.writers)
    · cases hstep
  | emit =>
    simp only [step] at hstep
    split at hstep
    · cases hstep
    · next e hsome _ =>
      cases hstep
      exact h.moves _ p.found p.writers (Nozzle.timerEmitter_moves hsome) (add_zero _)
        (by simpa using h.writers)
    · cases hstep
  | take =>
    simp only [step] at hstep
    split at hstep
    · cases hstep
    · next points ch hch =>
      obtain ⟨w, hw, rfl⟩ := Option.map_eq_some_iff.mp hstep
      refine h.moves _ p.found w (Nozzle.take_moves hch) (add_zero _) ?_
      rw [List.flatten_singleton]
      exact h.writers.take hw
  | write worker clientOk =>
    obtain ⟨w, hw, rfl⟩ := Option.map_eq_some_iff.mp hstep
    exact ⟨h.ingress, h.received, h.timersSet, h.timers, h.points, h.writers.write hw⟩

end NozzlePipeline

/-! ## Conservation -/

namespace NozzlePipeline

variable {size : ℕ} [NeZero size]

/-- Where the points made are, unless they were dropped: with `pointBatcher` or `timerEmitter`,
    in the channel, with a writer, written, or given up. -/
def places (s : Settings) (p : NozzlePipeline size) : List Rpc.Point :=
  adding s p.found ++ p.nozzle.batcher.points ++ Nozzle.emitting p.nozzle.emitter ++
    p.nozzle.ch.flatten ++ p.writers.inHand.flatten ++ p.writers.egressed.flatten ++
    p.writers.failed.flatten

/-- What became of everything that the nozzle has received. -/
structure Conserves (s : Settings) (p : NozzlePipeline size) : Prop where
  /-- All envelopes received are counted, once they are in the diode. -/
  received : p.ingressEnvelopesTotal + p.ingressBuffer.pending.toList.length =
    p.ingressBuffer.calls.length
  /-- `ingressBuffer` returns them in order, and reports those missed. -/
  envelopes : DiodeAccounts p.ingressBuffer
  /-- The timers set in `timerBuffer` are those polled that are rolled up. -/
  timersSet : p.timers.buffer.calls = p.polled.filter s.rollsUp
  /-- `timerBuffer` returns them in order, and reports those missed. -/
  timers : DiodeAccounts p.timers.buffer
  /-- Each timer returned is recorded once in both rollups. -/
  recorded : p.timers.Recorded
  /-- The points made are dropped and counted, or at one of the places. -/
  points : ∃ discarded : List Rpc.Point, discarded.length = p.nozzle.dropped ∧
    (p.polled.flatMap s.pointsOf ++ p.rolledUp.flatMap PointsBatch.points).Perm
      (discarded ++ p.places s)
  /-- The counters of the writers. -/
  egressPoints : p.writers.egressPointsTotal = p.writers.egressed.flatten.length
  egressErrors : p.writers.egressErrorsTotal = p.writers.failed.length

theorem Inv.places {s : Settings} {p : NozzlePipeline size} (h : p.Inv s) :
    ∃ discarded : List Rpc.Point, discarded.length = p.nozzle.dropped ∧
      (p.polled.flatMap s.pointsOf ++ p.rolledUp.flatMap PointsBatch.points).Perm
        (discarded ++ p.places s) := by
  obtain ⟨discarded, hcard, hmade⟩ := h.points
  obtain ⟨discarded, rfl⟩ := Quot.exists_rep discarded
  refine ⟨discarded, hcard, ?_⟩
  unfold made Nozzle.holding at hmade
  rw [h.writers.taken] at hmade
  apply Multiset.coe_eq_coe.mp
  unfold NozzlePipeline.places
  simp only [← Multiset.coe_add]
  rw [hmade]
  show (discarded : Multiset Rpc.Point) + _ + _ = _
  abel

end NozzlePipeline

/-- **What becomes of the envelopes of the stream.** At every moment of every run of the
    goroutines of a nozzle, as long as fewer than `2 ^ 63` envelopes were received:

    The envelopes that `pointBatcher` has polled are a part of those received, in order, and
    between two reads the others up to the last one polled are those reported by the diode. Of
    the polled ones, the timers that are rolled up were set in the second diode; those that
    `timerProcessor` has polled are again a part of them, the others being reported, and were
    recorded once in each rollup, apart from the one it has in hand. The points of the polled
    envelopes and of the batches of the rollups are each at one place, with a loop, in the
    channel, with a writer, written or given up, or were dropped and counted.

    `timerEmitter` gets, whenever it asks a rollup, one batch for each key recorded since it last
    asked, with the number of all timers recorded for the key. -/
theorem nozzle_conserves {size : ℕ} [NeZero size] {s : Settings} {acts : List NozzleAct}
    {p : NozzlePipeline size} (hrun : run (NozzlePipeline.step s) .start acts = some p)
    (hlimit : p.ingressBuffer.calls.length < 2 ^ 63) :
    p.Conserves s ∧ p.timers.Emits s := by
  have hinv : p.Inv s := run_preserves (NozzlePipeline.step s)
    (fun _ _ _ hi hstep => NozzlePipeline.step_inv hi hstep) NozzlePipeline.start_inv hrun
  have henvelopes : DiodeAccounts p.ingressBuffer := hinv.ingress.accounts hlimit
  have htimers : p.timers.buffer.calls.length < Diodes.indexLimit := by
    have hset : p.timers.buffer.calls.length ≤ p.polled.length := by
      rw [hinv.timersSet]
      exact List.length_filter_le _ _
    have hpolled : p.polled.length ≤ p.ingressBuffer.calls.length := henvelopes.sublist.length_le
    show _ < 2 ^ 63
    omega
  exact ⟨⟨hinv.received, henvelopes, hinv.timersSet, hinv.timers.buffer.accounts htimers,
    hinv.timers.recorded, hinv.places, hinv.writers.points, hinv.writers.errors⟩,
    hinv.timers.emits⟩

/-- A nozzle that rolls up the timers with the name `http` by their source. -/
def httpSettings : Settings where
  nodeIndex := lit "0"
  rollupMetricName := lit "http"
  totalRollupTags := []
  durationRollupTags := []
  workers := 2
  float64 total := Float64.ofInt total.toNat
  floats := ⟨fun _ _ => true, fun _ y => y, fun x _ => x, fun _ => []⟩
  toLower := id

/-- A counter and a timer are received. The batch with the counter is written; the timer is
    recorded, and `timerEmitter` sends what the rollups have, which cannot be written. -/
def twoEnvelopes : List NozzleAct :=
  let counter : TimedEnvelope := ⟨⟨1, lit "router", ∅, .counter (lit "requests") 7⟩, ⟨[], 0, 0⟩⟩
  let timer : TimedEnvelope := ⟨⟨2, lit "router", ∅, .timer⟩, ⟨lit "http", 10, 15⟩⟩
  let order : MapOrder Bytes := ⟨id, List.Perm.refl⟩
  [.receive counter, .received, .swap, .receive timer, .found, .select true, .received, .swap,
    .found, .take, .storeTimer, .swapTimer, .select false, .nextTimer, .recordTotal,
    .rollupTotals order 20, .recordDuration, .emit, .rollupDurations order, .emit, .emit,
    .write 0 true, .take, .write 0 false]

theorem nozzle_conserves_twoEnvelopes :
    ∃ p : NozzlePipeline 4, run (NozzlePipeline.step httpSettings) .start twoEnvelopes = some p ∧
      (p.ingressEnvelopesTotal, p.polled.length, p.timers.polled.length) = (2, 2, 1) ∧
      (p.writers.egressPointsTotal, p.writers.egressErrorsTotal,
        p.writers.failed.flatten.length, p.nozzle.dropped) = (1, 1, 15, 0) ∧
      p.Conserves httpSettings ∧ p.timers.Emits httpSettings := by
  have hvalues : (run (NozzlePipeline.step httpSettings) (.start : NozzlePipeline 4)
      twoEnvelopes).map (fun p => (p.ingressBuffer.calls.length,
        (p.ingressEnvelopesTotal, p.polled.length, p.timers.polled.length),
        (p.writers.egressPointsTotal, p.writers.egressErrorsTotal,
          p.writers.failed.flatten.length, p.nozzle.dropped))) =
      some (2, (2, 2, 1), (1, 1, 15, 0)) := by decide +kernel
  obtain ⟨p, hp, hp'⟩ := Option.map_eq_some_iff.mp hvalues
  obtain ⟨hcalls, hp'⟩ := Prod.mk.inj hp'
  obtain ⟨hcounts, hwriters⟩ := Prod.mk.inj hp'
  have hlimit : p.ingressBuffer.calls.length < 2 ^ 63 := by
    rw [hcalls]
    decide
  exact ⟨p, hp, hcounts, hwriters, nozzle_conserves hp hlimit⟩

end MetricStore.Ingress
