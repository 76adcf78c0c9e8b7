import MetricStore.Common.Run
import MetricStore.Common.Slice
import MetricStore.Persistence.PointTranslator

/-!
# The batcher

Model of `Batcher` (`internal/batch/batcher.go`). One goroutine polls points from a diode,
collects them into a batch, and sends the batch into a channel when the flush timer fires
or the batch is large enough; if the channel is full the batch is dropped, and the number
of its points reported. Another goroutine takes batches out of the channel and hands them to
the writer.

A step is an iteration of the loop, with what it polls and the branch of its `select`, or
the writer taking a batch. Between two iterations nothing but the channel changes, so this
is every interleaving. Batches are slices, and an append may write into the array of an
earlier one (`Common.Slice`).

Results:
* `points_conserved`: the points polled are those of the batches, in order, and of the
  current one; the batches were sent or dropped; what has been delivered and what is in the
  channel are the ones sent; the size is that of the current batch, and no batch is too
  large before its last point.
-/

namespace MetricStore.Batch

open MetricStore.Common MetricStore.Persistence

/-! ## Model -/

/-- `estimatePointSize` (lines 112–124). -/
def estimatePointSize (point : Rpc.Point) : ℕ :=
  point.name.length + 16 + (point.labels.pairs.map fun e => e.1.length + e.2.length).sum

/-- The size of a batch: the sum over its points. -/
def estimateBatchSize (points : List Rpc.Point) : ℕ := (points.map estimatePointSize).sum

/-- `CHANNEL_SIZE`. -/
def channelSize : ℕ := 512

/-- The variables of the loop of `Start` (lines 56–59). -/
structure Collecting where
  points : Slice
  size : ℕ

/-- A batch that was sent or dropped, with its points at that moment. -/
structure Emitted where
  sent : Bool
  points : List Rpc.Point

/-- `Batcher`: the backing arrays, the variables of the loop until it returns, and the channel
    `output`. Then what has happened: the points polled, the batches handed to the writer, the
    numbers reported to `droppedMetricFunc`, and the batches emitted. -/
structure Batcher where
  arrays : Arrays Rpc.Point
  loop : Option Collecting
  output : List Slice
  polled : List Rpc.Point
  delivered : List Slice
  reported : List ℕ
  emitted : List Emitted

/-- The branches of the `select` (lines 71–93). -/
inductive Branch
  | done
  | tick
  | default
  deriving DecidableEq, Repr

inductive Event
  | iterate (found : Option Rpc.Point) (branch : Branch)
  | write

namespace Batcher

/-- `Start`, before the loop. -/
def start : Batcher where
  arrays := (Arrays.empty.make).2
  loop := some ⟨(Arrays.empty (α := Rpc.Point)).make.1, 0⟩
  output := []
  polled := []
  delivered := []
  reported := []
  emitted := []

/-- `writeToChannelOrDiscard` (lines 100–110): the slice to go on with. -/
def writeToChannelOrDiscard (b : Batcher) (points : Slice) : Slice × Batcher :=
  if b.output.length < channelSize then
    (b.arrays.make.1, { b with
      arrays := b.arrays.make.2
      output := b.output ++ [points]
      emitted := b.emitted ++ [⟨true, b.arrays.read points⟩] })
  else
    (Arrays.truncate points, { b with
      reported := b.reported ++ [points.len]
      emitted := b.emitted ++ [⟨false, b.arrays.read points⟩] })

/-- The point that `TryNext` found is added to the batch (lines 62–68). -/
def poll (grow : ℕ → ℕ) (b : Batcher) (c : Collecting) : Option Rpc.Point → Collecting × Batcher
  | none => (c, b)
  | some point =>
    let r := b.arrays.append grow c.points point
    (⟨r.1, c.size + estimatePointSize point⟩,
      { b with arrays := r.2, polled := b.polled ++ [point] })

/-- The batch is emitted, and the loop goes on with an empty one. -/
def flush (b : Batcher) (c : Collecting) : Batcher :=
  let r := b.writeToChannelOrDiscard c.points
  { r.2 with loop := some ⟨r.1, 0⟩ }

/-- The `select` of an iteration (lines 71–93). -/
def select (maxSizeInBytes : ℤ) (b : Batcher) (c : Collecting) : Branch → Batcher
  | .done => { (b.writeToChannelOrDiscard c.points).2 with loop := none }
  | .tick => if c.points.len > 0 then b.flush c else { b with loop := some ⟨c.points, 0⟩ }
  | .default => if c.size ≥ maxSizeInBytes then b.flush c else { b with loop := some c }

/-- An iteration of the loop, or of `pointWriter` (lines 47–52); `none` if the loop has
    returned or the channel is empty. `grow` is the growth of slices. -/
def step (grow : ℕ → ℕ) (maxSizeInBytes : ℤ) (b : Batcher) : Event → Option Batcher
  | .iterate found branch => b.loop.map fun c =>
      let r := b.poll grow c found
      r.2.select maxSizeInBytes r.1 branch
  | .write =>
    match b.output with
    | [] => none
    | points :: output => some { b with output := output, delivered := b.delivered ++ [points] }

/-- The points of the current batch. -/
def current (b : Batcher) : List Rpc.Point :=
  match b.loop with
  | none => []
  | some c => b.arrays.read c.points

/-- The points of the batches handed to the writer, and of those in the channel. -/
def deliveredBatches (b : Batcher) : List (List Rpc.Point) := b.delivered.map b.arrays.read

def queuedBatches (b : Batcher) : List (List Rpc.Point) := b.output.map b.arrays.read

/-- The batches that were sent, and those that were dropped, in order. -/
def sentBatches (b : Batcher) : List (List Rpc.Point) :=
  (b.emitted.filter fun e => e.sent).map Emitted.points

def droppedBatches (b : Batcher) : List (List Rpc.Point) :=
  (b.emitted.filter fun e => !e.sent).map Emitted.points

/-! ## The books -/

/-- Every point that was polled is accounted for: it is in a batch that was emitted, or one of
    `rest`. -/
structure Booked (b : Batcher) (rest : List Rpc.Point) : Prop where
  valid : ∀ s ∈ b.delivered ++ b.output, b.arrays.Valid s
  sent : b.sentBatches = b.deliveredBatches ++ b.queuedBatches
  reported : b.reported = b.droppedBatches.map List.length
  polled : b.polled = b.emitted.flatMap Emitted.points ++ rest
  capacity : b.output.length ≤ channelSize

/-- The current batch has an array of its own, and the size is that of its points. -/
structure Owned (b : Batcher) (c : Collecting) : Prop where
  valid : b.arrays.Valid c.points
  apart : ∀ s ∈ b.delivered ++ b.output, s.array ≠ c.points.array
  size : c.size = estimateBatchSize (b.arrays.read c.points)

/-- Batches are not larger than the maximum before their last point. -/
def Bounded (maxSizeInBytes : ℤ) (b : Batcher) : Prop :=
  ∀ e ∈ b.emitted, (estimateBatchSize e.points.dropLast : ℤ) < maxSizeInBytes

variable {grow : ℕ → ℕ} {maxSizeInBytes : ℤ} {b b' : Batcher} {c : Collecting}

theorem estimateBatchSize_concat (points : List Rpc.Point) (p : Rpc.Point) :
    estimateBatchSize (points ++ [p]) = estimateBatchSize points + estimatePointSize p := by
  simp [estimateBatchSize]

theorem estimateBatchSize_dropLast_le (points : List Rpc.Point) :
    estimateBatchSize points.dropLast ≤ estimateBatchSize points :=
  ((List.dropLast_sublist points).map estimatePointSize).sum_le_sum fun _ _ => Nat.zero_le _

/-! ## Polling -/

theorem poll_emitted (found : Option Rpc.Point) : (b.poll grow c found).2.emitted = b.emitted := by
  cases found <;> rfl

theorem read_poll (ho : b.Owned c) (p : Rpc.Point) :
    (b.poll grow c (some p)).2.arrays.read (b.poll grow c (some p)).1.points =
      b.arrays.read c.points ++ [p] :=
  Arrays.read_append ho.valid

theorem poll_booked (h : b.Booked (b.arrays.read c.points)) (ho : b.Owned c)
    (found : Option Rpc.Point) :
    (b.poll grow c found).2.Booked
      ((b.poll grow c found).2.arrays.read (b.poll grow c found).1.points) := by
  cases found with
  | none => exact h
  | some p =>
    have hsame : ∀ s ∈ b.delivered ++ b.output,
        (b.arrays.append grow c.points p).2.read s = b.arrays.read s :=
      fun s hs => Arrays.read_append_of_ne (h.valid s hs) (ho.apart s hs)
    refine ⟨fun s hs => (h.valid s hs).append_of_ne (ho.apart s hs), ?_, h.reported, ?_, h.capacity⟩
    · -- what was sent is in other arrays
      have hdelivered : b.delivered.map (b.arrays.append grow c.points p).2.read =
          b.deliveredBatches :=
        List.map_congr_left fun s hs => hsame s (List.mem_append_left _ hs)
      have hqueued : b.output.map (b.arrays.append grow c.points p).2.read = b.queuedBatches :=
        List.map_congr_left fun s hs => hsame s (List.mem_append_right _ hs)
      show b.sentBatches = _ ++ _
      rw [h.sent]
      exact (congrArg₂ (· ++ ·) hdelivered hqueued).symm
    · rw [read_poll ho]
      show b.polled ++ [p] = b.emitted.flatMap Emitted.points ++ _
      rw [h.polled, List.append_assoc]

theorem poll_owned (h : b.Booked (b.arrays.read c.points)) (ho : b.Owned c)
    (found : Option Rpc.Point) : (b.poll grow c found).2.Owned (b.poll grow c found).1 := by
  cases found with
  | none => exact ho
  | some p =>
    refine ⟨Arrays.valid_append ho.valid, fun s hs => ?_, ?_⟩
    · rcases Arrays.append_array grow b.arrays c.points p with harray | harray
      · exact fun heq => ho.apart s hs (heq.trans harray)
      · exact fun heq => (h.valid s hs).allocated.ne (heq.trans harray)
    · rw [read_poll ho, estimateBatchSize_concat, ← ho.size]
      rfl

variable (grow) in
/-- Before its last point, the batch is not larger than it was before. -/
theorem poll_dropLast (ho : b.Owned c) (found : Option Rpc.Point) :
    estimateBatchSize
      ((b.poll grow c found).2.arrays.read (b.poll grow c found).1.points).dropLast ≤ c.size := by
  cases found with
  | none =>
    rw [ho.size]
    exact estimateBatchSize_dropLast_le _
  | some p =>
    rw [read_poll ho, List.dropLast_concat, ho.size]

/-! ## Emitting -/

theorem write_emitted (b : Batcher) (points : Slice) :
    ∃ sent, (b.writeToChannelOrDiscard points).2.emitted =
      b.emitted ++ [⟨sent, b.arrays.read points⟩] := by
  unfold writeToChannelOrDiscard
  split_ifs
  · exact ⟨true, rfl⟩
  · exact ⟨false, rfl⟩

theorem write_booked (h : b.Booked (b.arrays.read c.points)) (ho : b.Owned c) :
    (b.writeToChannelOrDiscard c.points).2.Booked [] := by
  unfold writeToChannelOrDiscard
  split_ifs with hroom
  · refine ⟨fun s hs => ?_, ?_, ?_, ?_, ?_⟩
    · rw [← List.append_assoc, List.mem_append, List.mem_singleton] at hs
      rcases hs with hs | rfl
      · exact (h.valid s hs).make
      · exact ho.valid.make
    · have hsent := h.sent
      unfold sentBatches deliveredBatches queuedBatches at hsent ⊢
      simp only [List.filter_append, List.map_append, hsent, List.append_assoc]
      rfl
    · have hreported := h.reported
      unfold droppedBatches at hreported ⊢
      simpa using hreported
    · rw [h.polled, List.append_nil, List.flatMap_append]
      simp
    · rw [List.length_append, List.length_singleton]
      omega
  · refine ⟨h.valid, ?_, ?_, ?_, h.capacity⟩
    · refine Eq.trans ?_ h.sent
      unfold sentBatches
      simp
    · have hreported := h.reported
      unfold droppedBatches at hreported ⊢
      simp [hreported, ho.valid.length_read]
    · rw [h.polled, List.append_nil, List.flatMap_append]
      simp

/-- The loop goes on with an empty batch: a new slice, or the one that was not sent. -/
theorem write_owned (h : b.Booked (b.arrays.read c.points)) (ho : b.Owned c) :
    (b.writeToChannelOrDiscard c.points).2.Owned ⟨(b.writeToChannelOrDiscard c.points).1, 0⟩ := by
  unfold writeToChannelOrDiscard
  split_ifs with hroom
  · refine ⟨Arrays.valid_make _, fun s hs => ?_, ?_⟩
    · rw [← List.append_assoc, List.mem_append, List.mem_singleton] at hs
      rcases hs with hs | rfl
      · exact (h.valid s hs).allocated.ne
      · exact ho.valid.allocated.ne
    · show 0 = estimateBatchSize (b.arrays.make.2.read b.arrays.make.1)
      rw [Arrays.read_make]
      rfl
  · refine ⟨ho.valid.truncate, ho.apart, ?_⟩
    show 0 = estimateBatchSize (b.arrays.read (Arrays.truncate c.points))
    rw [Arrays.read_truncate]
    rfl

theorem write_bounded (h : b.Bounded maxSizeInBytes)
    (hlast : (estimateBatchSize (b.arrays.read c.points).dropLast : ℤ) < maxSizeInBytes) :
    (b.writeToChannelOrDiscard c.points).2.Bounded maxSizeInBytes := by
  obtain ⟨sent, heq⟩ := b.write_emitted c.points
  intro e he
  rw [heq, List.mem_append, List.mem_singleton] at he
  rcases he with he | rfl
  · exact h e he
  · exact hlast

/-! ## Runs -/

/-- The invariant of every run. -/
structure Inv (maxSizeInBytes : ℤ) (b : Batcher) : Prop where
  booked : b.Booked b.current
  owned : ∀ c ∈ b.loop, b.Owned c
  bounded : 0 < maxSizeInBytes → b.Bounded maxSizeInBytes
  small : 0 < maxSizeInBytes → ∀ c ∈ b.loop, (c.size : ℤ) < maxSizeInBytes

/-- `loop` plays no part in the books. -/
theorem Booked.setLoop {rest : List Rpc.Point} (h : b.Booked rest) (loop : Option Collecting) :
    Booked { b with loop := loop } rest :=
  ⟨h.valid, h.sent, h.reported, h.polled, h.capacity⟩

theorem Owned.setLoop (h : b.Owned c) (loop : Option Collecting) :
    Owned { b with loop := loop } c :=
  ⟨h.valid, h.apart, h.size⟩

/-- The loop goes on with the batch `c`. -/
theorem Booked.continue (h : b.Booked (b.arrays.read c.points)) (ho : b.Owned c)
    (hbounded : 0 < maxSizeInBytes → b.Bounded maxSizeInBytes)
    (hsmall : 0 < maxSizeInBytes → (c.size : ℤ) < maxSizeInBytes) :
    Inv maxSizeInBytes { b with loop := some c } where
  booked := h.setLoop _
  owned c' hc' := by cases hc'; exact ho.setLoop _
  bounded := hbounded
  small hmax c' hc' := by cases hc'; exact hsmall hmax

section Select

variable (h : b.Booked (b.arrays.read c.points)) (ho : b.Owned c)
  (hbounded : 0 < maxSizeInBytes → b.Bounded maxSizeInBytes)
  (hlast : 0 < maxSizeInBytes →
    (estimateBatchSize (b.arrays.read c.points).dropLast : ℤ) < maxSizeInBytes)

include h ho hbounded hlast

theorem flush_inv : (b.flush c).Inv maxSizeInBytes := by
  have howned := write_owned h ho
  have hempty : (b.writeToChannelOrDiscard c.points).2.arrays.read
      (b.writeToChannelOrDiscard c.points).1 = [] :=
    List.length_eq_zero_iff.mp (by
      rw [howned.valid.length_read]
      unfold writeToChannelOrDiscard
      split_ifs <;> rfl)
  refine Booked.continue (c := ⟨_, 0⟩) ?_ howned
    (fun hmax => write_bounded (hbounded hmax) (hlast hmax)) (fun hmax => hmax)
  rw [hempty]
  exact write_booked h ho

/-- Every branch of the `select`. -/
theorem select_inv (branch : Branch) : (b.select maxSizeInBytes c branch).Inv maxSizeInBytes := by
  cases branch with
  | done =>
    refine ⟨(write_booked h ho).setLoop none, nofun, fun hmax => ?_, fun _ => nofun⟩
    exact write_bounded (hbounded hmax) (hlast hmax)
  | tick =>
    rw [select]
    split_ifs with hlen
    · exact flush_inv h ho hbounded hlast
    · -- the batch is empty, and so was its size
      have hnil : b.arrays.read c.points = [] :=
        List.length_eq_zero_iff.mp (by rw [ho.valid.length_read]; omega)
      have hzero : c.size = 0 := by rw [ho.size, hnil]; rfl
      have heq : c = ⟨c.points, 0⟩ := by rw [← hzero]
      rw [← heq]
      exact h.continue ho hbounded fun hmax => by rw [hzero]; exact hmax
  | default =>
    rw [select]
    split_ifs with hlarge
    · exact flush_inv h ho hbounded hlast
    · exact h.continue ho hbounded fun _ => not_le.mp hlarge

end Select

theorem iterate_inv (hi : b.Inv maxSizeInBytes) (hc : b.loop = some c) (found : Option Rpc.Point)
    (branch : Branch) :
    ((b.poll grow c found).2.select maxSizeInBytes (b.poll grow c found).1 branch).Inv
      maxSizeInBytes := by
  have ho := hi.owned c hc
  have hbooked : b.Booked (b.arrays.read c.points) := by
    have := hi.booked
    unfold current at this
    rwa [hc] at this
  refine select_inv (poll_booked hbooked ho found) (poll_owned hbooked ho found) (fun hmax => ?_)
    (fun hmax => ?_) branch
  · intro e he
    rw [poll_emitted] at he
    exact hi.bounded hmax e he
  · have hle := poll_dropLast grow ho found
    have hsmall := hi.small hmax c hc
    omega

theorem pointWriter_inv (hi : b.Inv maxSizeInBytes) {points : Slice} {output : List Slice}
    (hout : b.output = points :: output) :
    Inv maxSizeInBytes { b with output := output, delivered := b.delivered ++ [points] } := by
  have hsame : (b.delivered ++ [points]) ++ output = b.delivered ++ b.output := by
    rw [hout, List.append_assoc, List.singleton_append]
  refine ⟨⟨?_, ?_, hi.booked.reported, hi.booked.polled, ?_⟩, fun c hc => ?_, hi.bounded, hi.small⟩
  · rw [hsame]
    exact hi.booked.valid
  · refine hi.booked.sent.trans ?_
    unfold deliveredBatches queuedBatches
    rw [← List.map_append, ← List.map_append, hsame]
  · have hcap := hi.booked.capacity
    rw [hout, List.length_cons] at hcap
    dsimp only
    omega
  · have ho := hi.owned c hc
    exact ⟨ho.valid, by rw [hsame]; exact ho.apart, ho.size⟩

theorem step_inv (hi : b.Inv maxSizeInBytes) {event : Event}
    (hstep : b.step grow maxSizeInBytes event = some b') : b'.Inv maxSizeInBytes := by
  cases event with
  | iterate found branch =>
    obtain ⟨c, hc, rfl⟩ := Option.map_eq_some_iff.mp hstep
    exact iterate_inv hi hc found branch
  | write =>
    unfold step at hstep
    cases hout : b.output with
    | nil => simp [hout] at hstep
    | cons points output =>
      simp only [hout, Option.some.injEq] at hstep
      rw [← hstep]
      exact pointWriter_inv hi hout

theorem start_inv (maxSizeInBytes : ℤ) : start.Inv maxSizeInBytes := by
  have hvalid : start.arrays.Valid (Arrays.empty (α := Rpc.Point)).make.1 := Arrays.valid_make _
  refine Booked.continue (b := start) (c := ⟨_, 0⟩) ⟨by simp [start], rfl, rfl, rfl, Nat.zero_le _⟩
    ⟨hvalid, by simp [start], rfl⟩ (fun _ => by simp [Bounded, start]) (fun hmax => hmax)

end Batcher

/-- **The batcher conserves points.** In every run, at every step: the points polled are, in
    order, those of the batches emitted and of the current batch; the batches that were sent
    are, in order, those delivered to the writer and those in the channel, with the points they
    had when they were sent; the numbers reported are those of the batches dropped; and so
    what is delivered is a part of what was polled, in order. The size is the sum over the
    current batch. With a positive maximum, every batch was below it before its last
    point. -/
theorem points_conserved {grow : ℕ → ℕ} {maxSizeInBytes : ℤ} {events : List Event} {b : Batcher}
    (hrun : run (Batcher.step grow maxSizeInBytes) .start events = some b) :
    b.polled = b.emitted.flatMap Emitted.points ++ b.current ∧
    b.sentBatches = b.deliveredBatches ++ b.queuedBatches ∧
    b.reported = b.droppedBatches.map List.length ∧
    b.deliveredBatches.flatten.Sublist b.polled ∧
    (∀ c ∈ b.loop, c.size = estimateBatchSize b.current) ∧
    (0 < maxSizeInBytes → ∀ e ∈ b.emitted,
      (estimateBatchSize e.points.dropLast : ℤ) < maxSizeInBytes) := by
  have hi : b.Inv maxSizeInBytes := run_preserves (Batcher.step grow maxSizeInBytes)
    (fun _ _ _ hi hstep => Batcher.step_inv hi hstep) (Batcher.start_inv maxSizeInBytes) hrun
  refine ⟨hi.booked.polled, hi.booked.sent, hi.booked.reported, ?_, fun c hc => ?_, hi.bounded⟩
  · have hsent : b.deliveredBatches.Sublist b.sentBatches := by
      rw [hi.booked.sent]
      exact List.sublist_append_left _ _
    have hemitted : b.sentBatches.Sublist (b.emitted.map Emitted.points) :=
      List.filter_sublist.map _
    rw [hi.booked.polled, List.flatMap]
    exact ((hsent.trans hemitted).flatten).trans (List.sublist_append_left _ _)
  · have hsize := (hi.owned c hc).size
    unfold Batcher.current
    rwa [show b.loop = some c from hc]

/-- A point whose estimated size is 20. -/
def smallPoint (timestamp : Int64) : Rpc.Point := ⟨lit "load", timestamp, 0, ∅⟩

/-- Two points make a batch, one more is flushed by the timer, and one is left; the writer
    takes the first batch. -/
def smallRun : List Event :=
  [.iterate (some (smallPoint 1)) .default, .iterate (some (smallPoint 2)) .default,
    .iterate (some (smallPoint 3)) .tick, .iterate none .tick, .write,
    .iterate (some (smallPoint 4)) .default]

theorem points_conserved_smallRun :
    ∃ b, run (Batcher.step (2 * · + 1) 40) .start smallRun = some b ∧
      b.deliveredBatches = [[smallPoint 1, smallPoint 2]] ∧ b.queuedBatches = [[smallPoint 3]] ∧
      b.polled = b.emitted.flatMap Emitted.points ++ b.current ∧
      ∀ e ∈ b.emitted, (estimateBatchSize e.points.dropLast : ℤ) < 40 := by
  obtain ⟨b, hb⟩ : ∃ b, run (Batcher.step (2 * · + 1) 40) .start smallRun = some b := ⟨_, rfl⟩
  obtain ⟨hpolled, -, -, -, -, hbounded⟩ := points_conserved hb
  cases hb
  exact ⟨_, rfl, rfl, rfl, hpolled, hbounded (by norm_num)⟩

end MetricStore.Batch
