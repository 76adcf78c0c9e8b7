import MetricStore.Diodes.OneToOne
import MetricStore.Handoff.WriteReplayer
import MetricStore.Ingress.MessageSize
import MetricStore.Storage.Listeners

/-!
# From a commit to the other node

What a `RemoteAppender` (`internal/storage/remote_appender.go`) does with the points for
another node. `Commit` sets them in the diode `nodeBuffer` (lines 185–196). The batcher polls
the diode and sends batches into a channel. Its writer (lines 121–148) takes a batch out,
encodes it and writes it to the connection; if that fails, the batch goes to the write
replayer, whose loop sends it later. `createWriter` (lines 109–164) starts all that once the
connection is there; until then the points stay in the diode.

`Add` and `Commit` hold `a.mu` (lines 167, 186), so the diode has one writer; its reader is the
loop of the batcher. A step is an `Add`, a step of `Commit` with the steps of `Set` in it, a
step of the loop with those of `TryNext` in it, the writer taking a batch or finishing with it,
a `SendWrite`, or what follows when `done` is closed. The answers of the connection are inputs.
There are no errors of the disk, and nothing is purged: with the intervals of
`NewWriteReplayer`, it never is (`Handoff.WriteReplayer.purge_starved`). `gob` is a parameter.

The state has a history: what became of each batch that the writer took (`journal`).

Results:
* `remote_appender_conserves`: every point that was set in the diode is at one place: still in
  the diode, in the current batch, in the channel, with the writer or in its journal, or counted
  in `metric_store_dropped_points_total`. What is not dropped keeps its order. The payloads that
  the replayer has sent are those of the first batches handed to it.
-/

namespace MetricStore.Storage

open MetricStore.Common MetricStore.Influx MetricStore.Persistence MetricStore.Batch
open MetricStore.Ingress
open MetricStore.Diodes (Machine LossyQueue)
open MetricStore.Handoff (WriteReplayer)

/-! ## Model -/

/-- The size of `nodeBuffer` (line 72). -/
def nodeBufferSize : ℕ := 16384

instance : NeZero nodeBufferSize := ⟨by decide⟩

/-- What became of a batch in the writer: the connection took it, the replayer took it, or an
    error was logged. -/
inductive Fate
  | sent
  | handedOff
  | lost
  deriving DecidableEq, Repr

/-- What `createWriter` has started: the batcher, the batch that the writer has taken, and the
    replayer, whose loop runs until `done` is closed. Then the batches that the writer is done
    with. -/
structure Writing where
  batcher : Batcher
  taken : Option Slice
  replayer : WriteReplayer.History
  replaying : Bool
  journal : List (Fate × List Rpc.Point)

/-- A remote appender. `committing` are the points that a `Commit` in progress has still to
    set; `isDone` says that `done` is closed. -/
structure RemotePipeline where
  appender : RemoteAppender
  committing : Option (List Rpc.Point)
  nodeBuffer : Machine Rpc.Point nodeBufferSize
  writing : Option Writing
  isDone : Bool

/-- What happens: the calls of `Add` and the steps of `Commit`; `createWriter`; the steps of
    the loop of the batcher, of its writer, and of the replayer; the closing of `done`. -/
inductive PipelineAct
  | add (l : Labels) (time : Int64) (value : Float64)
  | commit
  | set
  | store
  | committed
  | createWriter
  | swap
  | iterate (branch : Batch.Branch)
  | take
  | write (clientOk : Bool)
  | sendWrite (clientOk : Bool)
  | close
  | closeReplayer

section Model

variable (encode : List Rpc.Point → Option Bytes)

/-- The writer (lines 121–148), with the answer of the connection. -/
def writer (h : WriteReplayer.History) (clientOk : Bool) (points : List Rpc.Point) :
    Option (Fate × WriteReplayer.History) :=
  if (encode points).isNone then some (.lost, h)
  else if clientOk then some (.sent, h)
  else (h.step encode (.write points)).map fun h' =>
    (if (h.replayer.write encode {} points).1 = none then .handedOff else .lost, h')

namespace Writing

/-- The batcher and the replayer start; the handoff directory is empty. -/
def start (w : WriteReplayer) : Writing := ⟨.start, none, ⟨w, [], []⟩, true, []⟩

/-- The branches of the `select` that are possible: `done` is closed for good, and `default`
    is taken only if no other branch can be. -/
def selects (isDone : Bool) : Batch.Branch → Bool
  | .done => isDone
  | .tick => true
  | .default => !isDone

/-- An iteration of the loop, with what `TryNext` has returned. -/
def iterate (grow : ℕ → ℕ) (isDone : Bool) (w : Writing) (found : Option Rpc.Point)
    (branch : Batch.Branch) : Option Writing :=
  if selects isDone branch then
    (w.batcher.step grow maxBatchSizeInBytes (.iterate found branch)).map fun batcher =>
      { w with batcher := batcher }
  else none

/-- The writer takes a batch out of the channel. -/
def take (grow : ℕ → ℕ) (w : Writing) : Option Writing :=
  match w.taken with
  | some _ => none
  | none => (w.batcher.step grow maxBatchSizeInBytes .write).map fun batcher =>
      { w with batcher := batcher, taken := batcher.delivered.getLast? }

/-- The writer is done with the batch. -/
def write (w : Writing) (clientOk : Bool) : Option Writing :=
  w.taken.bind fun s =>
    (writer encode w.replayer clientOk (w.batcher.arrays.read s)).map fun r =>
      { w with
        taken := none
        replayer := r.2
        journal := w.journal ++ [(r.1, w.batcher.arrays.read s)] }

/-- The loop of the replayer sends. -/
def sendWrite (w : Writing) (clientOk : Bool) : Option Writing :=
  if w.replaying then
    (w.replayer.step encode (.sendWrite clientOk)).map fun h => { w with replayer := h }
  else none

/-- The loop of the replayer returns, and closes the queue. -/
def closeReplayer (w : Writing) : Option Writing :=
  if w.replaying then
    some { w with
      replayer := { w.replayer with
        replayer := { w.replayer.replayer with queue := w.replayer.replayer.queue.closeQueue } }
      replaying := false }
  else none

end Writing

namespace RemotePipeline

/-- `NewRemoteAppender` (lines 56–83). -/
def start : RemotePipeline := ⟨⟨[], []⟩, none, .start, none, false⟩

/-- A step; `none` if a call does not return, or nobody is at this step. `grow` is the growth
    of slices. -/
def step (grow : ℕ → ℕ) (maxSize : Int64) (clock : ℤ) (p : RemotePipeline) :
    PipelineAct → Option RemotePipeline
  | .add l time value =>
    match p.committing with
    | some _ => none
    | none => some { p with appender := p.appender.add l time value }
  | .commit =>
    match p.committing with
    | some _ => none
    | none => some { p with committing := some p.appender.points }
  | .set =>
    match p.committing with
    | some (point :: left) => (p.nodeBuffer.step (.set point)).map fun m =>
        { p with nodeBuffer := m, committing := some left }
    | _ => none
  | .store => (p.nodeBuffer.step .store).map fun m => { p with nodeBuffer := m }
  | .committed =>
    match p.committing, p.nodeBuffer.storing with
    | some [], none => some { p with appender := p.appender.commit, committing := none }
    | _, _ => none
  | .createWriter =>
    match p.writing with
    | some _ => none
    | none => (WriteReplayer.openReplayer ∅ maxSize clock).map fun w =>
        { p with writing := some (.start w) }
  | .swap =>
    p.writing.bind fun w =>
      if w.batcher.loop.isSome then
        (p.nodeBuffer.step .swap).map fun m => { p with nodeBuffer := m }
      else none
  | .iterate branch =>
    p.writing.bind fun w => (p.nodeBuffer.step .finish).bind fun m =>
      (w.iterate grow p.isDone (m.replies.getLast?.bind Diodes.Reply.data) branch).map fun w =>
        { p with nodeBuffer := m, writing := some w }
  | .take => p.writing.bind fun w => (w.take grow).map fun w => { p with writing := some w }
  | .write clientOk =>
    p.writing.bind fun w => (w.write encode clientOk).map fun w => { p with writing := some w }
  | .sendWrite clientOk =>
    p.writing.bind fun w => (w.sendWrite encode clientOk).map fun w => { p with writing := some w }
  | .close => if p.isDone then none else some { p with isDone := true }
  | .closeReplayer =>
    if p.isDone then
      p.writing.bind fun w => w.closeReplayer.map fun w => { p with writing := some w }
    else none

end RemotePipeline

end Model

/-! ## The batcher's history -/

section Batches

variable {grow : ℕ → ℕ} {b b' : Batcher}

/-- What has been delivered is the first part of what was sent. -/
theorem deliveredBatches_eq_take {rest : List Rpc.Point} (h : b.Booked rest) :
    b.deliveredBatches = b.sentBatches.take b.delivered.length := by
  have hlength : b.deliveredBatches.length = b.delivered.length := List.length_map _
  rw [h.sent, ← hlength, List.take_left]

theorem writeToChannelOrDiscard_history (b : Batcher) (points : Slice) :
    (b.writeToChannelOrDiscard points).2.polled = b.polled ∧
      (b.writeToChannelOrDiscard points).2.delivered = b.delivered ∧
      b.sentBatches <+: (b.writeToChannelOrDiscard points).2.sentBatches := by
  unfold Batcher.writeToChannelOrDiscard Batcher.sentBatches
  split_ifs
  · refine ⟨rfl, rfl, ?_⟩
    rw [List.filter_append, List.map_append]
    exact List.prefix_append _ _
  · refine ⟨rfl, rfl, ?_⟩
    rw [List.filter_append, List.map_append]
    exact List.prefix_append _ _

theorem select_history (maxSizeInBytes : ℤ) (b : Batcher) (c : Collecting)
    (branch : Batch.Branch) :
    (b.select maxSizeInBytes c branch).polled = b.polled ∧
      (b.select maxSizeInBytes c branch).delivered = b.delivered ∧
      b.sentBatches <+: (b.select maxSizeInBytes c branch).sentBatches := by
  have hwrite := writeToChannelOrDiscard_history b c.points
  cases branch with
  | done => exact hwrite
  | tick =>
    rw [Batcher.select]
    split_ifs
    · exact hwrite
    · exact ⟨rfl, rfl, List.prefix_refl _⟩
  | default =>
    rw [Batcher.select]
    split_ifs
    · exact hwrite
    · exact ⟨rfl, rfl, List.prefix_refl _⟩

/-- An iteration polls what was found, and leaves what has been delivered. -/
theorem iterate_history {maxSizeInBytes : ℤ} {found : Option Rpc.Point} {branch : Batch.Branch}
    (hi : b.Inv maxSizeInBytes)
    (hstep : b.step grow maxSizeInBytes (.iterate found branch) = some b') :
    b'.polled = b.polled ++ found.toList ∧ b'.delivered = b.delivered ∧
      b'.deliveredBatches = b.deliveredBatches := by
  have hi' := Batcher.step_inv hi hstep
  obtain ⟨c, -, hb'⟩ := Option.map_eq_some_iff.mp hstep
  have hpoll : (b.poll grow c found).2.polled = b.polled ++ found.toList ∧
      (b.poll grow c found).2.delivered = b.delivered ∧
      (b.poll grow c found).2.sentBatches = b.sentBatches := by
    cases found with
    | none => exact ⟨(List.append_nil _).symm, rfl, rfl⟩
    | some point => exact ⟨rfl, rfl, rfl⟩
  obtain ⟨hpolled, hdelivered, hsent⟩ := hpoll
  obtain ⟨hpolled', hdelivered', hinitial⟩ :=
    select_history maxSizeInBytes (b.poll grow c found).2 (b.poll grow c found).1 branch
  dsimp only at hb'
  rw [hb'] at hpolled' hdelivered' hinitial
  have hsame : b'.delivered = b.delivered := hdelivered'.trans hdelivered
  refine ⟨hpolled'.trans hpolled, hsame, ?_⟩
  have hle : b.delivered.length ≤ b.sentBatches.length := by
    have hlength := congrArg List.length hi.booked.sent
    unfold Batcher.deliveredBatches at hlength
    rw [List.length_append, List.length_map] at hlength
    omega
  rw [deliveredBatches_eq_take hi'.booked, deliveredBatches_eq_take hi.booked, hsame]
  rw [hsent] at hinitial
  obtain ⟨rest, hrest⟩ := hinitial
  rw [← hrest, List.take_append_of_le_length hle]

/-- The writer takes the first batch of the channel. -/
theorem write_history {maxSizeInBytes : ℤ}
    (hstep : b.step grow maxSizeInBytes .write = some b') :
    ∃ s, b'.delivered = b.delivered ++ [s] ∧ b'.arrays = b.arrays ∧ b'.polled = b.polled := by
  unfold Batcher.step at hstep
  cases hout : b.output with
  | nil => simp [hout] at hstep
  | cons s output =>
    simp only [hout, Option.some.injEq] at hstep
    rw [← hstep]
    exact ⟨s, rfl, rfl, rfl⟩

/-- The points of the batches emitted, by number. -/
theorem length_emitted (emitted : List Emitted) :
    (emitted.flatMap Emitted.points).length =
      ((emitted.filter fun e => e.sent).map Emitted.points).flatten.length +
        (((emitted.filter fun e => !e.sent).map Emitted.points).map List.length).sum := by
  induction emitted with
  | nil => rfl
  | cons e emitted ih =>
    rw [List.flatMap_cons, List.length_append, ih]
    cases hsent : e.sent with
    | false =>
      simp only [List.filter_cons, hsent, Bool.false_eq_true, if_false, Bool.not_false, if_true,
        List.map_cons, List.sum_cons]
      omega
    | true =>
      simp only [List.filter_cons, hsent, if_true, Bool.not_true, Bool.false_eq_true, if_false,
        List.map_cons, List.flatten_cons, List.length_append]
      omega

end Batches

/-! ## The writer and the replayer -/

section Replay

variable {encode : List Rpc.Point → Option Bytes}

/-- The queue is open and holds what has not been sent, or it is closed. -/
def Replayed (h : WriteReplayer.History) (replaying : Bool) : Prop :=
  if replaying then WriteReplayer.Inv h
  else h.replayer.queue.tail = none ∧ h.sent <+: h.accepted

theorem Replayed.sent_isPrefix {h : WriteReplayer.History} {replaying : Bool}
    (hr : Replayed h replaying) : h.sent <+: h.accepted := by
  unfold Replayed at hr
  split_ifs at hr
  · obtain ⟨-, -, -, todo, -, hfifo⟩ := hr
    exact ⟨_, hfifo.symm⟩
  · exact hr.2

theorem openReplayer_replayed {maxSize : Int64} {clock : ℤ} {w : WriteReplayer}
    (h : WriteReplayer.openReplayer ∅ maxSize clock = some w) : Replayed ⟨w, [], []⟩ true := by
  obtain ⟨q, name, hopen, hnames, hrep⟩ :=
    Handoff.Queue.openQueue_empty (q := Handoff.Queue.newQueue ∅ maxSize clock) rfl
  unfold WriteReplayer.openReplayer at h
  rw [hopen] at h
  cases h
  exact ⟨rfl, (Handoff.Queue.openQueue_shape hopen).2.1, _, _, hrep,
    by simp [Handoff.Queue.unread]⟩

theorem sendWrite_accepted {h h' : WriteReplayer.History} {clientOk : Bool}
    (hstep : h.step encode (.sendWrite clientOk) = some h') : h'.accepted = h.accepted := by
  unfold WriteReplayer.History.step at hstep
  dsimp only at hstep
  split at hstep
  · cases hstep
  · cases hstep
    rfl
  · cases hstep
    rfl

/-- `Write` on a closed queue fails. -/
theorem write_closed (encode : List Rpc.Point → Option Bytes) {w : WriteReplayer}
    (h : w.queue.tail = none) (points : List Rpc.Point) :
    (w.write encode {} points).1 ≠ none ∧ (w.write encode {} points).2 = w := by
  unfold WriteReplayer.write
  split_ifs with hopen
  · exact ⟨nofun, rfl⟩
  · cases hencode : encode points with
    | none => exact ⟨nofun, rfl⟩
    | some payload =>
      have happend : w.queue.append {} payload = (some .notOpen, w.queue) := by
        unfold Handoff.Queue.append Handoff.Queue.appendWith
        rw [h]
      dsimp only
      rw [happend]
      exact ⟨nofun, rfl⟩

/-- What the writer does to the replayer: the payload is accepted exactly if the batch was
    handed off. -/
theorem writer_spec {h h' : WriteReplayer.History} {replaying clientOk : Bool}
    {points : List Rpc.Point} {fate : Fate} (hr : Replayed h replaying)
    (hw : writer encode h clientOk points = some (fate, h')) :
    Replayed h' replaying ∧ h'.accepted = h.accepted ++
      (if fate = .handedOff then (encode points).toList else []) := by
  unfold writer at hw
  by_cases hnone : (encode points).isNone = true
  · rw [if_pos hnone] at hw
    cases hw
    exact ⟨hr, (List.append_nil _).symm⟩
  rw [if_neg hnone] at hw
  by_cases hok : clientOk = true
  · rw [if_pos hok] at hw
    cases hw
    exact ⟨hr, (List.append_nil _).symm⟩
  · rw [if_neg hok] at hw
    obtain ⟨h₁, hstep, heq⟩ := Option.map_eq_some_iff.mp hw
    obtain ⟨hfate, rfl⟩ := Prod.mk.inj heq
    have hh₁ : h₁ = { h with
        replayer := (h.replayer.write encode {} points).2
        accepted := if (h.replayer.write encode {} points).1 = none then
          h.accepted ++ (encode points).toList else h.accepted } := (Option.some.inj hstep).symm
    have haccepted : h₁.accepted = h.accepted ++
        (if fate = .handedOff then (encode points).toList else []) := by
      rw [hh₁, ← hfate]
      dsimp only
      by_cases hwrite : (h.replayer.write encode {} points).1 = none
      · rw [if_pos hwrite, if_pos hwrite, if_pos rfl]
      · rw [if_neg hwrite, if_neg hwrite, if_neg nofun, List.append_nil]
    refine ⟨?_, haccepted⟩
    unfold Replayed at hr ⊢
    split_ifs at hr ⊢
    · obtain ⟨h₂, hstep₂, hinv⟩ := WriteReplayer.write_inv encode hr points
      cases hstep.symm.trans hstep₂
      exact hinv
    · obtain ⟨hne, hsame⟩ := write_closed encode hr.1 points
      rw [hh₁]
      dsimp only
      rw [hsame, if_neg hne]
      exact hr

end Replay

/-! ## The invariant -/

namespace Writing

variable {encode : List Rpc.Point → Option Bytes} {grow : ℕ → ℕ} {w w' : Writing}
  {polled : List Rpc.Point}

/-- The batch that the writer has in hand. -/
def inHand (w : Writing) : List (List Rpc.Point) := (w.taken.map w.batcher.arrays.read).toList

/-- The payloads of the batches that were handed to the replayer. -/
def handedOff (encode : List Rpc.Point → Option Bytes) (w : Writing) : List Bytes :=
  w.journal.flatMap fun e => if e.1 = .handedOff then (encode e.2).toList else []

/-- The batcher has polled `polled`; the writer has the batches that were delivered. -/
structure Inv (encode : List Rpc.Point → Option Bytes) (polled : List Rpc.Point) (w : Writing) :
    Prop where
  batcher : w.batcher.Inv maxBatchSizeInBytes
  polled : w.batcher.polled = polled
  taken : ∀ s ∈ w.taken, w.batcher.delivered.getLast? = some s
  journal : w.journal.map Prod.snd ++ w.inHand = w.batcher.deliveredBatches
  accepted : w.replayer.accepted = w.handedOff encode
  replayed : Replayed w.replayer w.replaying

theorem start_inv {maxSize : Int64} {clock : ℤ} {r : WriteReplayer}
    (hopen : WriteReplayer.openReplayer ∅ maxSize clock = some r) :
    (start r).Inv encode [] := by
  refine ⟨Batcher.start_inv _, rfl, nofun, rfl, rfl, ?_⟩
  exact openReplayer_replayed hopen

theorem iterate_inv {isDone : Bool} {found : Option Rpc.Point} {branch : Batch.Branch}
    (h : w.Inv encode polled) (hstep : w.iterate grow isDone found branch = some w') :
    w'.Inv encode (polled ++ found.toList) := by
  unfold iterate at hstep
  split_ifs at hstep
  obtain ⟨batcher, hb, rfl⟩ := Option.map_eq_some_iff.mp hstep
  obtain ⟨hpolled, hdelivered, hbatches⟩ := iterate_history h.batcher hb
  refine ⟨Batcher.step_inv h.batcher hb, ?_, ?_, ?_, h.accepted, h.replayed⟩
  · rw [hpolled, h.polled]
  · intro s hs
    rw [hdelivered]
    exact h.taken s hs
  · -- the batch in hand is the last one delivered
    refine Eq.trans ?_ (h.journal.trans hbatches.symm)
    congr 1
    unfold inHand
    cases htaken : w.taken with
    | none => rfl
    | some s =>
      have hlast := h.taken s htaken
      have hread : some (batcher.arrays.read s) = some (w.batcher.arrays.read s) := by
        have := congrArg List.getLast? hbatches
        unfold Batcher.deliveredBatches at this
        rw [List.getLast?_map, List.getLast?_map, hdelivered, hlast] at this
        exact this
      rw [Option.map_some, Option.map_some, hread]

theorem take_inv (h : w.Inv encode polled) (hstep : w.take grow = some w') :
    w'.Inv encode polled := by
  unfold take at hstep
  split at hstep
  · cases hstep
  · next htaken =>
    obtain ⟨batcher, hb, rfl⟩ := Option.map_eq_some_iff.mp hstep
    obtain ⟨s, hdelivered, harrays, hpolled⟩ := write_history hb
    have hlast : batcher.delivered.getLast? = some s := by rw [hdelivered, List.getLast?_concat]
    refine ⟨Batcher.step_inv h.batcher hb, hpolled.trans h.polled, fun _ hs => hs, ?_, h.accepted,
      h.replayed⟩
    have hjournal := h.journal
    unfold inHand Batcher.deliveredBatches at hjournal ⊢
    rw [htaken, Option.map_none, Option.toList_none, List.append_nil] at hjournal
    rw [hlast, hdelivered, harrays, List.map_append, ← hjournal]
    rfl

theorem write_inv {clientOk : Bool} (h : w.Inv encode polled)
    (hstep : w.write encode clientOk = some w') : w'.Inv encode polled := by
  obtain ⟨s, htaken, hstep⟩ := Option.bind_eq_some_iff.mp hstep
  obtain ⟨⟨fate, h'⟩, hwriter, rfl⟩ := Option.map_eq_some_iff.mp hstep
  obtain ⟨hreplayed, haccepted⟩ := writer_spec h.replayed hwriter
  refine ⟨h.batcher, h.polled, nofun, ?_, ?_, hreplayed⟩
  · rw [← h.journal]
    simp [inHand, htaken]
  · rw [haccepted, h.accepted]
    simp [handedOff]

theorem sendWrite_inv {clientOk : Bool} (h : w.Inv encode polled)
    (hstep : w.sendWrite encode clientOk = some w') : w'.Inv encode polled := by
  unfold sendWrite at hstep
  split_ifs at hstep with hreplaying
  obtain ⟨h', hh', rfl⟩ := Option.map_eq_some_iff.mp hstep
  have hreplayed := h.replayed
  unfold Replayed at hreplayed
  rw [if_pos hreplaying] at hreplayed
  obtain ⟨h₂, hstep₂, hinv⟩ := WriteReplayer.sendWrite_inv encode hreplayed clientOk
  cases hh'.symm.trans hstep₂
  refine ⟨h.batcher, h.polled, h.taken, h.journal, ?_, ?_⟩
  · refine Eq.trans ?_ h.accepted
    exact sendWrite_accepted hh'
  · unfold Replayed
    rw [if_pos hreplaying]
    exact hinv

theorem closeReplayer_inv (h : w.Inv encode polled) (hstep : w.closeReplayer = some w') :
    w'.Inv encode polled := by
  unfold closeReplayer at hstep
  split_ifs at hstep with hreplaying
  cases hstep
  exact ⟨h.batcher, h.polled, h.taken, h.journal, h.accepted, rfl, h.replayed.sent_isPrefix⟩

end Writing

namespace RemotePipeline

variable {encode : List Rpc.Point → Option Bytes} {grow : ℕ → ℕ} {maxSize : Int64} {clock : ℤ}
  {p p' : RemotePipeline}

/-- The points set in the diode are those of the commits that are over, and of the one in
    progress as far as it has come. -/
def Committed (p : RemotePipeline) : Prop :=
  match p.committing with
  | none => p.nodeBuffer.calls = p.appender.nodeBuffer
  | some left => p.nodeBuffer.calls ++ left = p.appender.nodeBuffer ++ p.appender.points

/-- What has been read from the diode has been polled by the batcher. -/
def Polled (encode : List Rpc.Point → Option Bytes) (p : RemotePipeline) : Prop :=
  match p.writing with
  | none => p.nodeBuffer.replies = []
  | some w => w.Inv encode (LossyQueue.returned p.nodeBuffer.replies)

structure Inv (encode : List Rpc.Point → Option Bytes) (p : RemotePipeline) : Prop where
  committed : p.Committed
  diode : p.nodeBuffer.calls.length < Diodes.indexLimit → ∃ q, p.nodeBuffer.Rep q
  polled : p.Polled encode

theorem start_inv : start.Inv encode := ⟨rfl, fun _ => ⟨.start, Machine.start_rep⟩, rfl⟩

/-- A step of the diode keeps what it stands for. -/
theorem Inv.diode_step (h : p.Inv encode) {a : Diodes.Act Rpc.Point}
    {m : Machine Rpc.Point nodeBufferSize} (hm : p.nodeBuffer.step a = some m) :
    m.calls.length < Diodes.indexLimit → ∃ q, m.Rep q := by
  intro hlimit
  have hle := (Machine.calls_isPrefix hm).length_le
  obtain ⟨q, hq⟩ := h.diode (by omega)
  exact ⟨_, Machine.step_rep hq (by omega) hm⟩

/-- A step of what `createWriter` has started, on a diode that is not read. -/
theorem Inv.setWriting (h : p.Inv encode) {w w' : Writing} (hw : p.writing = some w)
    (hstep : ∀ polled, w.Inv encode polled → w'.Inv encode polled) :
    Inv encode { p with writing := some w' } := by
  have hpolled := h.polled
  unfold Polled at hpolled
  rw [hw] at hpolled
  exact ⟨h.committed, h.diode, hstep _ hpolled⟩

/-- A step of the diode that is neither the beginning of `Set` nor the end of `TryNext`. -/
theorem Inv.setDiode (h : p.Inv encode) {a : Diodes.Act Rpc.Point}
    {m : Machine Rpc.Point nodeBufferSize} (hm : p.nodeBuffer.step a = some m)
    (ha : a = .store ∨ a = .swap) : Inv encode { p with nodeBuffer := m } := by
  obtain ⟨hcalls, hreplies⟩ := Machine.step_history hm ha
  have hcommitted := h.committed
  have hpolled := h.polled
  unfold Committed at hcommitted
  unfold Polled at hpolled
  rw [← hcalls] at hcommitted
  rw [← hreplies] at hpolled
  exact ⟨hcommitted, h.diode_step hm, hpolled⟩

theorem set_inv (h : p.Inv encode) {point : Rpc.Point} {left : List Rpc.Point}
    (hleft : p.committing = some (point :: left)) {m : Machine Rpc.Point nodeBufferSize}
    (hm : p.nodeBuffer.step (.set point) = some m) :
    Inv encode { p with nodeBuffer := m, committing := some left } := by
  obtain ⟨hcalls, hreplies⟩ := Machine.step_set hm
  have hcommitted := h.committed
  have hpolled := h.polled
  unfold Committed at hcommitted
  unfold Polled at hpolled
  rw [hleft] at hcommitted
  rw [← hreplies] at hpolled
  refine ⟨?_, h.diode_step hm, hpolled⟩
  show m.calls ++ left = _
  rw [hcalls, List.append_assoc, List.singleton_append]
  exact hcommitted

theorem iterate_inv (h : p.Inv encode) {w w' : Writing} (hw : p.writing = some w)
    {m : Machine Rpc.Point nodeBufferSize} (hm : p.nodeBuffer.step .finish = some m)
    {branch : Batch.Branch} (hstep : w.iterate grow p.isDone
      (m.replies.getLast?.bind Diodes.Reply.data) branch = some w') :
    Inv encode { p with nodeBuffer := m, writing := some w' } := by
  obtain ⟨hcalls, reply, hreplies⟩ := Machine.step_finish hm
  have hcommitted := h.committed
  have hpolled := h.polled
  unfold Committed at hcommitted
  unfold Polled at hpolled
  rw [hw] at hpolled
  rw [← hcalls] at hcommitted
  refine ⟨hcommitted, h.diode_step hm, ?_⟩
  have hinv := Writing.iterate_inv hpolled hstep
  rw [hreplies, List.getLast?_concat, Option.bind_some, ← LossyQueue.returned_concat,
    ← hreplies] at hinv
  exact hinv

theorem step_inv (h : p.Inv encode) {a : PipelineAct}
    (hstep : p.step encode grow maxSize clock a = some p') : p'.Inv encode := by
  have hcommitted := h.committed
  unfold Committed at hcommitted
  cases a with
  | add l time value =>
    cases hc : p.committing with
    | some left => simp [step, hc] at hstep
    | none =>
      rw [hc] at hcommitted
      simp only [step, hc, Option.some.injEq] at hstep
      rw [← hstep]
      exact ⟨hcommitted, h.diode, h.polled⟩
  | commit =>
    cases hc : p.committing with
    | some left => simp [step, hc] at hstep
    | none =>
      rw [hc] at hcommitted
      simp only [step, hc, Option.some.injEq] at hstep
      rw [← hstep]
      exact ⟨congrArg (· ++ p.appender.points) hcommitted, h.diode, h.polled⟩
  | set =>
    cases hc : p.committing with
    | none => simp [step, hc] at hstep
    | some left =>
      cases left with
      | nil => simp [step, hc] at hstep
      | cons point left =>
        simp only [step, hc] at hstep
        obtain ⟨m, hm, rfl⟩ := Option.map_eq_some_iff.mp hstep
        exact set_inv h hc hm
  | store =>
    obtain ⟨m, hm, rfl⟩ := Option.map_eq_some_iff.mp hstep
    exact h.setDiode hm (.inl rfl)
  | committed =>
    simp only [step] at hstep
    split at hstep
    · next hc _ =>
      rw [hc] at hcommitted
      cases hstep
      exact ⟨(List.append_nil _).symm.trans hcommitted, h.diode, h.polled⟩
    · cases hstep
  | createWriter =>
    cases hw : p.writing with
    | some w => simp [step, hw] at hstep
    | none =>
      simp only [step, hw] at hstep
      obtain ⟨r, hr, rfl⟩ := Option.map_eq_some_iff.mp hstep
      have hpolled := h.polled
      unfold Polled at hpolled
      rw [hw] at hpolled
      refine ⟨h.committed, h.diode, ?_⟩
      show (Writing.start r).Inv encode (LossyQueue.returned p.nodeBuffer.replies)
      rw [hpolled]
      exact Writing.start_inv hr
  | swap =>
    obtain ⟨w, -, hstep⟩ := Option.bind_eq_some_iff.mp hstep
    split_ifs at hstep
    obtain ⟨m, hm, rfl⟩ := Option.map_eq_some_iff.mp hstep
    exact h.setDiode hm (.inr rfl)
  | iterate branch =>
    obtain ⟨w, hw, hstep⟩ := Option.bind_eq_some_iff.mp hstep
    obtain ⟨m, hm, hstep⟩ := Option.bind_eq_some_iff.mp hstep
    obtain ⟨w', hw', rfl⟩ := Option.map_eq_some_iff.mp hstep
    exact iterate_inv h hw hm hw'
  | take =>
    obtain ⟨w, hw, hstep⟩ := Option.bind_eq_some_iff.mp hstep
    obtain ⟨w', hw', rfl⟩ := Option.map_eq_some_iff.mp hstep
    exact h.setWriting hw fun _ hi => Writing.take_inv hi hw'
  | write clientOk =>
    obtain ⟨w, hw, hstep⟩ := Option.bind_eq_some_iff.mp hstep
    obtain ⟨w', hw', rfl⟩ := Option.map_eq_some_iff.mp hstep
    exact h.setWriting hw fun _ hi => Writing.write_inv hi hw'
  | sendWrite clientOk =>
    obtain ⟨w, hw, hstep⟩ := Option.bind_eq_some_iff.mp hstep
    obtain ⟨w', hw', rfl⟩ := Option.map_eq_some_iff.mp hstep
    exact h.setWriting hw fun _ hi => Writing.sendWrite_inv hi hw'
  | close =>
    simp only [step] at hstep
    split_ifs at hstep
    cases hstep
    exact ⟨h.committed, h.diode, h.polled⟩
  | closeReplayer =>
    simp only [step] at hstep
    split_ifs at hstep
    obtain ⟨w, hw, hstep⟩ := Option.bind_eq_some_iff.mp hstep
    obtain ⟨w', hw', rfl⟩ := Option.map_eq_some_iff.mp hstep
    exact h.setWriting hw fun _ hi => Writing.closeReplayer_inv hi hw'

end RemotePipeline

/-! ## Conservation -/

namespace Writing

variable {encode : List Rpc.Point → Option Bytes} {w : Writing} {polled : List Rpc.Point}

/-- The points that the batcher has polled and not dropped, in their order: the writer is done
    with them, has them in hand, they are in the channel, or in the current batch. -/
def kept (w : Writing) : List Rpc.Point :=
  (w.journal.map Prod.snd ++ w.inHand ++ w.batcher.queuedBatches).flatten ++ w.batcher.current

theorem Inv.kept_eq (h : w.Inv encode polled) :
    w.kept = w.batcher.sentBatches.flatten ++ w.batcher.current := by
  rw [kept, h.journal, ← h.batcher.booked.sent]

theorem Inv.kept_sublist (h : w.Inv encode polled) : w.kept.Sublist polled := by
  have hsent : w.batcher.sentBatches.Sublist (w.batcher.emitted.map Emitted.points) :=
    List.filter_sublist.map _
  rw [h.kept_eq, ← h.polled, h.batcher.booked.polled, List.flatMap]
  exact hsent.flatten.append (List.Sublist.refl _)

/-- What is not kept was dropped because the channel was full, and counted. -/
theorem Inv.length_polled (h : w.Inv encode polled) :
    polled.length = w.kept.length + w.batcher.reported.sum := by
  have hemitted := length_emitted w.batcher.emitted
  rw [h.kept_eq, ← h.polled, h.batcher.booked.polled, h.batcher.booked.reported,
    List.length_append, List.length_append, hemitted]
  unfold Batcher.sentBatches Batcher.droppedBatches
  omega

end Writing

/-- **What becomes of the points for another node.** At every moment of every run, as long as
    fewer than `2 ^ 63` points have been set in the diode:

    Between two commits, the points set in the diode are those committed. Before `createWriter`
    nothing is read from it. Afterwards, the points that the writer is done with, those it has
    in hand, those in the channel and those in the current batch are, one after the other, a
    part of the points set, in order. Between two reads, together with the numbers that were
    added to `metric_store_dropped_points_total`, by the diode and by the batcher, they make the
    reader's index of the diode, and what is beyond that index is still to be read; if nothing
    was counted as dropped, they are the first points set, without a gap.

    The replayer has accepted the payloads of the batches that were handed to it, and those sent
    are the first of them. -/
theorem remote_appender_conserves {encode : List Rpc.Point → Option Bytes} {grow : ℕ → ℕ}
    {maxSize : Int64} {clock : ℤ} {acts : List PipelineAct} {p : RemotePipeline}
    (hrun : run (RemotePipeline.step encode grow maxSize clock) .start acts = some p)
    (hlimit : p.nodeBuffer.calls.length < 2 ^ 63) :
    (p.committing = none → p.nodeBuffer.calls = p.appender.nodeBuffer) ∧
    (p.writing = none → p.nodeBuffer.replies = []) ∧
    ∀ w, p.writing = some w →
      w.kept.Sublist p.nodeBuffer.calls ∧
      (p.nodeBuffer.swapped = none →
        (w.kept.length + w.batcher.reported.sum : ℤ) + LossyQueue.reported p.nodeBuffer.replies =
          p.nodeBuffer.diode.readIndex.toNat ∧
        p.nodeBuffer.diode.readIndex.toNat ≤ p.nodeBuffer.calls.length ∧
        (LossyQueue.reported p.nodeBuffer.replies = 0 → w.batcher.reported.sum = 0 →
          w.kept <+: p.nodeBuffer.calls)) ∧
      w.replayer.accepted = w.handedOff encode ∧
      w.replayer.sent <+: w.replayer.accepted := by
  have hinv : p.Inv encode := run_preserves (RemotePipeline.step encode grow maxSize clock)
    (fun _ _ _ hi hstep => RemotePipeline.step_inv hi hstep) RemotePipeline.start_inv hrun
  obtain ⟨q, hq⟩ := hinv.diode hlimit
  have hcommitted := hinv.committed
  have hpolled := hinv.polled
  unfold RemotePipeline.Committed at hcommitted
  unfold RemotePipeline.Polled at hpolled
  refine ⟨fun hnone => ?_, fun hnone => ?_, fun w hw => ?_⟩
  · rw [hnone] at hcommitted
    exact hcommitted
  · rw [hnone] at hpolled
    exact hpolled
  rw [hw] at hpolled
  have hlength := hpolled.length_polled
  refine ⟨hpolled.kept_sublist.trans hq.returned_sublist, fun hswapped => ?_, hpolled.accepted,
    hpolled.replayed.sent_isPrefix⟩
  have hcount := hq.count hswapped
  have hread := hq.accounted.read_le
  have hwritten := hq.written_le
  rw [hq.readIndex hswapped hlimit]
  refine ⟨by omega, by omega, fun hdiode hbatcher => ?_⟩
  have hkept : w.kept = LossyQueue.returned p.nodeBuffer.replies :=
    hpolled.kept_sublist.eq_of_length (by omega)
  rw [hkept]
  exact hq.returned_isPrefix hswapped hdiode

/-- Two points are committed. The first is polled before the second is stored; the connection
    fails, and the batch of the first point is handed to the replayer, which sends it. The
    second is in the current batch. -/
def handoffRun : List PipelineAct :=
  [.add [] 1 0, .add [] 2 0, .commit, .set, .store, .createWriter, .swap, .set, .iterate .tick,
    .store, .committed, .take, .write false, .swap, .iterate .default, .sendWrite true]

/-- A `gob` with one byte for each point. -/
def byteForEach (points : List Rpc.Point) : Option Bytes := some (List.replicate points.length 1)

theorem remote_appender_conserves_handoffRun :
    ∃ p w, run (RemotePipeline.step byteForEach (2 * · + 1) 1000 0) .start handoffRun = some p ∧
      p.writing = some w ∧ w.replayer.sent = [[1]] ∧ w.kept.length = 2 ∧
      w.kept <+: p.nodeBuffer.calls ∧ w.replayer.sent <+: w.replayer.accepted := by
  obtain ⟨p, hp⟩ : ∃ p, run (RemotePipeline.step byteForEach (2 * · + 1) 1000 0) .start handoffRun =
      some p := ⟨_, rfl⟩
  obtain ⟨-, -, hwriting⟩ := remote_appender_conserves hp (by cases hp; decide)
  cases hp
  obtain ⟨-, hcount, -, hsent⟩ := hwriting _ rfl
  exact ⟨_, _, rfl, rfl, rfl, rfl, (hcount rfl).2.2 rfl rfl, hsent⟩

end MetricStore.Storage
