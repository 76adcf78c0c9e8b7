import MetricStore.Handoff.QueueFifo

/-!
# The write replayer

Model of `WriteReplayer` (`internal/handoff/write_replayer.go`): `Write` encodes
a batch of points and appends it to the handoff queue, `SendWrite` reads the
first queued payload, hands it to the client and advances past it if the client
accepted it. Both hold `w.mu`, so an interleaving of goroutines is a sequence of
whole calls.

The gob encoder is a parameter: it gives the payload of a batch or fails. The
client's answer is an input of each call of `SendWrite`. The metrics and the log
are left out; nothing is computed from them.

Results:
* `replay_in_order`: from `Open` on an empty directory, every call returns, and
  the payloads the client has accepted are a prefix of the payloads `Write` has
  accepted, at every point of every interleaving.
-/

namespace MetricStore.Handoff

open MetricStore.Common

/-! ## Model -/

/-- `WriteReplayer` (lines 47–68); `isOpen` is `done != nil`. -/
structure WriteReplayer where
  isOpen : Bool
  queue : Queue

/-- The errors of `Write`. -/
inductive WriteError
  | closed
  | encode
  | queue (e : Err)
  deriving DecidableEq, Repr

/-- What a call of `SendWrite` does. -/
inductive SendResult
  | readError (e : Err)
  | panicked
  | clientError (payload : Bytes)
  | sent (payload : Bytes)
  deriving DecidableEq, Repr

namespace WriteReplayer

/-- `Open` (lines 116–149) on the directory `dir`. `none` if the queue cannot be
    opened. -/
def openReplayer (dir : AList (fun _ : String => File)) (maxSize : Int64) (clock : ℤ) :
    Option WriteReplayer :=
  match (Queue.newQueue dir maxSize clock).openQueue with
  | some (none, q) => some ⟨true, q⟩
  | _ => none

section Replay

variable {Point : Type*} (encode : List Point → Option Bytes)

/-- `Write` (lines 155–181). -/
def write (io : Queue.QueueIO) (w : WriteReplayer) (points : List Point) :
    Option WriteError × WriteReplayer :=
  if !w.isOpen then (some .closed, w)
  else
    match encode points with
    | none => (some .encode, w)
    | some payload =>
      let r := w.queue.append io payload
      (r.1.map .queue, { w with queue := r.2 })

/-- `SendWrite` (lines 223–257), with the client's answer. -/
def sendWrite (w : WriteReplayer) (clientOk : Bool) : SendResult × WriteReplayer :=
  match w.queue.current with
  | (.panicked, q) => (.panicked, { w with queue := q })
  | (.error e, q) => (.readError e, { w with queue := q })
  | (.record payload, q) =>
    if !clientOk then (.clientError payload, { w with queue := q })
    else (.sent payload, { w with queue := q.advance.2 })

/-- A call by some goroutine. -/
inductive Act (Point : Type*)
  | write (points : List Point)
  | sendWrite (clientOk : Bool)
  deriving DecidableEq, Repr

/-- The replayer with the payloads `Write` has accepted so far and those the
    client has accepted. -/
structure History where
  replayer : WriteReplayer
  accepted : List Bytes
  sent : List Bytes

/-- One call, without disk errors; `none` if it panics. -/
def History.step (h : History) : Act Point → Option History
  | .write points =>
    let r := h.replayer.write encode {} points
    some { h with
      replayer := r.2
      accepted := if r.1 = none then h.accepted ++ (encode points).toList else h.accepted }
  | .sendWrite clientOk =>
    match h.replayer.sendWrite clientOk with
    | (.panicked, _) => none
    | (.sent payload, w) => some { h with replayer := w, sent := h.sent ++ [payload] }
    | (_, w) => some { h with replayer := w }

/-! ## The replayer as a FIFO queue -/

/-- What has been accepted is what has been sent and what is still unread. -/
structure Inv (h : History) : Prop where
  isOpen : h.replayer.isOpen = true
  tail : h.replayer.queue.tail = h.replayer.queue.segments.getLast?
  fifo : ∃ done todo, h.replayer.queue.Rep done todo ∧
    h.accepted = h.sent ++ Queue.unread h.replayer.queue.names todo

theorem readRecord_eq_record {maxSize : Int64} {r b : Bytes} (h : readRecord maxSize r = .record b) :
    b = r := by
  unfold readRecord at h
  split_ifs at h
  exact (ReadResult.record.inj h).symm

theorem write_inv {h : History} (hi : Inv h) (points : List Point) :
    ∃ h', h.step encode (.write points) = some h' ∧ Inv h' := by
  obtain ⟨hopen, htail, done, todo, hrep, hfifo⟩ := hi
  refine ⟨_, rfl, ?_⟩
  unfold write
  simp only [hopen, Bool.not_true, Bool.false_eq_true, if_false]
  cases hp : encode points with
  | none => exact ⟨hopen, htail, done, todo, hrep, by simpa using hfifo⟩
  | some payload =>
    obtain ⟨done', todo', hrep', hunread, -, -⟩ := hrep.append htail payload
    have hmoves : Queue.Moves False _ _ := Queue.append_moves {} h.replayer.queue payload
    refine ⟨rfl, (hmoves.core_tail ⟨hrep.toCore, htail⟩).2, done', todo', hrep', ?_⟩
    rw [hunread, hfifo]
    simp only [Option.map_eq_none_iff]
    split_ifs <;> simp

theorem sendWrite_inv {h : History} (hi : Inv h) (clientOk : Bool) :
    ∃ h', h.step encode (.sendWrite clientOk) = some h' ∧ Inv h' := by
  obtain ⟨hopen, htail, done, todo, hrep, hfifo⟩ := hi
  obtain ⟨name, l, hnames, hres, hrep₁, hcached⟩ := hrep.current
  have hf := h.replayer.queue.current_frame
  have hn := hf.names
  have htail₁ : h.replayer.queue.current.2.tail = h.replayer.queue.current.2.segments.getLast? := by
    rw [hf.tail, hf.segments, htail]
  have hpanic := Queue.readFirst_ne_panicked h.replayer.queue.maxSegmentSize (todo name)
  unfold History.step sendWrite
  generalize h.replayer.queue.current = r at *
  obtain ⟨res, q⟩ := r
  obtain rfl : res = _ := hres
  -- whatever was read, the records are the same until the queue is advanced
  have hstay : Inv { h with replayer := { h.replayer with queue := q } } :=
    ⟨hopen, htail₁, done, todo, hrep₁, by rw [hn]; exact hfifo⟩
  cases hread : Queue.readFirst h.replayer.queue.maxSegmentSize (todo name) with
  | panicked => exact absurd hread hpanic
  | error e => exact ⟨_, rfl, hstay⟩
  | record payload =>
    cases clientOk with
    | false => exact ⟨_, rfl, hstay⟩
    | true =>
      refine ⟨_, rfl, hopen, ?_, _, _, (hrep₁.advance hcached (hn.trans hnames)).1, ?_⟩
      · have hmoves : Queue.Moves False _ _ := Queue.advance_moves q
        exact (hmoves.core_tail ⟨hrep₁.toCore, htail₁⟩).2
      · rw [(hrep₁.advance hcached (hn.trans hnames)).2,
          Queue.unread_advance (hn.trans hnames) hrep₁.paths]
        cases ht : todo name with
        | nil => rw [ht] at hread; cases hread
        | cons r rest =>
          rw [ht, Queue.readFirst_cons] at hread
          obtain rfl := readRecord_eq_record hread
          rw [hfifo, hnames]
          simp [Queue.unread, ht]

/-- **Ordered, exactly-once replay.** Every interleaving of `Write` and
    `SendWrite` from `Open` on an empty directory runs through, and what the
    client has accepted is a prefix of what `Write` has accepted. -/
theorem replay_in_order (maxSize : Int64) (clock : ℤ) (acts : List (Act Point)) :
    ∃ w h, openReplayer ∅ maxSize clock = some w ∧
      run (History.step encode) ⟨w, [], []⟩ acts = some h ∧ h.sent <+: h.accepted := by
  obtain ⟨q, name, hopen, hnames, hrep⟩ :=
    Queue.openQueue_empty (q := Queue.newQueue ∅ maxSize clock) rfl
  have hinit : Inv ⟨⟨true, q⟩, [], []⟩ :=
    ⟨rfl, (Queue.openQueue_shape hopen).2.1, _, _, hrep, by simp [Queue.unread]⟩
  have hstep : ∀ h act, Inv h → ∃ h', History.step encode h act = some h' ∧ Inv h' := by
    intro h act hi
    cases act with
    | write points => exact write_inv encode hi points
    | sendWrite clientOk => exact sendWrite_inv encode hi clientOk
  obtain ⟨h, hrun, hinv⟩ := run_total (History.step encode) hstep acts hinit
  refine ⟨⟨true, q⟩, h, by unfold openReplayer; rw [hopen], hrun, ?_⟩
  obtain ⟨-, -, -, todo, -, hfifo⟩ := hinv
  exact ⟨_, hfifo.symm⟩

end Replay

end WriteReplayer

end MetricStore.Handoff
