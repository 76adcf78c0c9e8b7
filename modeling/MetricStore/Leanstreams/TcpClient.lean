import MetricStore.Common.Bytes
import MetricStore.Common.Run

/-!
# Concurrent writers on one `TCPClient`

Model of `TCPClient.Write` (`pkg/leanstreams/tcpclient.go`, lines 164–236). A
message is sent as a frame: an 8-byte header with the varint of the length, and
the message. After each `socket.Write` of (a part of) the frame an empty frame is
written.

The frame is staged in the field `outgoingDataBuffer`, which all goroutines that
use the client share; `writeLock` is never taken. The atomic steps of a call are
the building of the frame, each `socket.Write` of a slice of the shared buffer,
and the `socket.Write` of the empty frame that follows it. There are no socket
errors, and a `socket.Write` puts its whole slice on the stream.

Results:
* `length_frame`: a frame is 8 bytes longer than its message.
* `serial_writes_delivered`: in every interleaving in which a call of `Write` begins
  only while no other is in progress, the stream of every quiet state is a
  concatenation of frames whose non-empty payloads are the messages written.
* `overlapping_writes_lose_message`: two overlapping calls that send one message
  twice and the other not at all.
-/

namespace MetricStore.Leanstreams

open MetricStore.Common

/-! ## Frames -/

/-- `headerByteSize` (`tcpserver.go`, line 13). -/
def headerByteSize : ℕ := 8

/-- The loop of `binary.PutUvarint`: seven bits a byte, low bits first, the high bit
    set on all but the last. A `uint64` has at most 10 of them (`fuel`). -/
def uvarint : ℕ → ℕ → Bytes
  | 0, _ => []
  | fuel + 1, x =>
    if 128 ≤ x then UInt8.ofNat (x % 128 + 128) :: uvarint fuel (x / 128) else [UInt8.ofNat x]

/-- The zig-zag encoding of `binary.PutVarint`. -/
def zigzag (x : ℤ) : ℕ := if 0 ≤ x then (2 * x).toNat else (-2 * x - 1).toNat

/-- `int64ToByteArray` (`util.go`, lines 11–15); `none` if the varint does not fit
    the buffer, which makes the runtime panic. -/
def int64ToByteArray (value : ℤ) (bufferSize : ℕ) : Option Bytes :=
  let b := uvarint 10 (zigzag value)
  if b.length ≤ bufferSize then some (b ++ List.replicate (bufferSize - b.length) 0) else none

/-- The frame of a message (line 167). -/
def frame (data : Bytes) : Option Bytes :=
  (int64ToByteArray data.length headerByteSize).map (· ++ data)

/-- `emptyBuffer` (line 168). -/
def emptyBuffer : Bytes := List.replicate headerByteSize 0

/-- The frames of a list of payloads, one after the other. -/
def frames : List Bytes → Option Bytes
  | [] => some []
  | m :: ms => do
    let f ← frame m
    let rest ← frames ms
    return f ++ rest

theorem frame_nil : frame [] = some emptyBuffer := by decide

theorem length_frame {m f : Bytes} (h : frame m = some f) : f.length = headerByteSize + m.length := by
  unfold frame int64ToByteArray at h
  dsimp only at h
  split_ifs at h with hfit
  · rw [Option.map_some, Option.some.injEq] at h
    rw [← h]
    simp only [List.length_append, List.length_replicate]
    omega
  · cases h

theorem frames_concat {ms : List Bytes} {m s f : Bytes} (hs : frames ms = some s)
    (hf : frame m = some f) : frames (ms ++ [m]) = some (s ++ f) := by
  induction ms generalizing s with
  | nil =>
    obtain rfl : [] = s := Option.some.inj hs
    simp [frames, hf]
  | cons m' ms ih =>
    simp only [frames, Option.bind_eq_bind, Option.bind_eq_some_iff, Option.pure_def,
      Option.some.injEq, List.cons_append] at hs ⊢
    obtain ⟨f', hf', rest, hrest, rfl⟩ := hs
    exact ⟨f', hf', rest ++ f, ih hrest, by simp⟩

/-- The length of a concatenation of frames. -/
theorem length_frames {ms : List Bytes} {s : Bytes} (h : frames ms = some s) :
    s.length = headerByteSize * ms.length + (ms.map List.length).sum := by
  induction ms generalizing s with
  | nil =>
    obtain rfl : [] = s := Option.some.inj h
    rfl
  | cons m ms ih =>
    simp only [frames, Option.bind_eq_bind, Option.bind_eq_some_iff, Option.pure_def,
      Option.some.injEq] at h
    obtain ⟨f, hf, rest, hrest, rfl⟩ := h
    have hlen := length_frame hf
    have hrest' := ih hrest
    simp only [List.length_append, List.map_cons, List.sum_cons, List.length_cons]
    rw [hlen, hrest', Nat.mul_succ]
    omega

/-! ## The client and its callers -/

/-- Where a goroutine is in `write`: outside, before a `socket.Write` of
    `outgoingDataBuffer[totalBytesWritten:]`, or before the `socket.Write` of the empty
    frame. -/
inductive Pc
  | idle
  | send (toWriteLen totalBytesWritten : ℕ)
  | sendEmpty (toWriteLen totalBytesWritten bytesWritten : ℕ)
  deriving DecidableEq, Repr

/-- The client, the goroutines that use it, the bytes put on the socket and the
    messages passed to `Write` so far. -/
structure Client (ι : Type*) where
  outgoingDataBuffer : Bytes
  stream : Bytes
  pc : ι → Pc
  passed : List Bytes

/-- A goroutine calls `Write` and builds its frame, or takes its next step. -/
inductive Act (ι : Type*)
  | call (i : ι) (data : Bytes)
  | next (i : ι)
  deriving DecidableEq, Repr

variable {ι : Type*} [DecidableEq ι]

/-- A client before the first call; `newTCPClient` makes a buffer of zeros. -/
def newTCPClient (ι : Type*) (maxMessageSize : ℕ) : Client ι :=
  ⟨List.replicate maxMessageSize 0, [], fun _ => .idle, []⟩

/-- An atomic step of `write` (lines 164–218). `none` if the goroutine panics (the
    header or the slice is out of range), or if it cannot take the step: it is in the
    middle of a call, or has no next step. -/
def step (c : Client ι) : Act ι → Option (Client ι)
  | .call i data =>
    match c.pc i with
    | .idle => (frame data).map fun f =>
        { c with
          outgoingDataBuffer := f
          pc := Function.update c.pc i (.send f.length 0)
          passed := c.passed ++ [data] }
    | _ => none
  | .next i =>
    match c.pc i with
    | .idle => none
    | .send toWriteLen total =>
      if c.outgoingDataBuffer.length < total then none
      else some { c with
        stream := c.stream ++ c.outgoingDataBuffer.drop total
        pc := Function.update c.pc i
          (.sendEmpty toWriteLen total (c.outgoingDataBuffer.length - total)) }
    | .sendEmpty toWriteLen total n =>
      some { c with
        stream := c.stream ++ emptyBuffer
        pc := Function.update c.pc i
          (if total + n < toWriteLen then .send toWriteLen (total + n) else .idle) }

/-- No call is in progress. -/
def Client.Quiet (c : Client ι) : Prop := ∀ i, c.pc i = .idle

instance [Fintype ι] (c : Client ι) : Decidable c.Quiet :=
  inferInstanceAs (Decidable (∀ i, c.pc i = .idle))

/-- The stream is a concatenation of whole frames, and the non-empty payloads are
    the non-empty messages passed to `Write`, each once, in some order. -/
def Client.Delivered (c : Client ι) : Prop :=
  ∃ payloads, frames payloads = some c.stream ∧
    (payloads.filter (· ≠ [])).Perm (c.passed.filter (· ≠ []))

/-- A call begins only while no other is in progress. -/
def Serial (c : Client ι) : Act ι → Prop
  | .call _ _ => c.Quiet
  | .next _ => True

instance [Fintype ι] (c : Client ι) : DecidablePred (Serial c)
  | .call _ _ => inferInstanceAs (Decidable c.Quiet)
  | .next _ => isTrue trivial

/-! ## One call at a time -/

/-- The stream holds the frames of `payloads`, and the non-empty ones are the messages
    `sent`. -/
def Framed (stream : Bytes) (sent : List Bytes) : Prop :=
  ∃ payloads, frames payloads = some stream ∧
    payloads.filter (· ≠ []) = sent.filter (· ≠ [])

theorem Framed.concat {stream : Bytes} {sent : List Bytes} (h : Framed stream sent) {m f : Bytes}
    (hf : frame m = some f) : Framed (stream ++ f) (sent ++ [m]) := by
  obtain ⟨payloads, hs, hsent⟩ := h
  refine ⟨payloads ++ [m], frames_concat hs hf, ?_⟩
  rw [List.filter_append, List.filter_append, hsent]

/-- The empty frame adds no message. -/
theorem Framed.concat_empty {stream : Bytes} {sent : List Bytes} (h : Framed stream sent) :
    Framed (stream ++ emptyBuffer) sent := by
  obtain ⟨payloads, hs, hsent⟩ := h
  refine ⟨payloads ++ [[]], frames_concat hs frame_nil, ?_⟩
  rw [List.filter_append, hsent]
  simp

/-- The goroutine `i` is in the middle of sending the message `m`, whose frame `f` is
    in the shared buffer. -/
structure Sending (c : Client ι) (i : ι) (sent : List Bytes) (m f : Bytes) : Prop where
  others : ∀ j, j ≠ i → c.pc j = .idle
  passed : c.passed = sent ++ [m]
  frame : frame m = some f
  buffer : c.outgoingDataBuffer = f
  position : c.pc i = .send f.length 0 ∧ Framed c.stream sent ∨
    c.pc i = .sendEmpty f.length 0 f.length ∧ Framed c.stream (sent ++ [m])

/-- No call is in progress and the messages are on the stream, or one call is. -/
def Inv (c : Client ι) : Prop :=
  c.Quiet ∧ Framed c.stream c.passed ∨ ∃ i sent m f, Sending c i sent m f

theorem call_inv {c c' : Client ι} {i : ι} {data : Bytes} (hquiet : c.Quiet)
    (hframed : Framed c.stream c.passed) (hstep : step c (.call i data) = some c') : Inv c' := by
  simp only [step, hquiet i] at hstep
  obtain ⟨f, hf, rfl⟩ := Option.map_eq_some_iff.mp hstep
  refine .inr ⟨i, c.passed, data, f, ?_, rfl, hf, rfl, .inl ⟨?_, hframed⟩⟩
  · intro j hj
    show Function.update c.pc i _ j = _
    rw [Function.update_of_ne hj, hquiet j]
  · exact Function.update_self _ _ _

theorem next_inv {c c' : Client ι} {i j : ι} {sent : List Bytes} {m f : Bytes}
    (h : Sending c i sent m f) (hstep : step c (.next j) = some c') : Inv c' := by
  obtain ⟨hothers, hpassed, hf, hbuf, hpos⟩ := h
  by_cases hj : j = i
  swap
  · -- the other goroutines have nothing to do
    simp only [step, hothers j hj] at hstep
    cases hstep
  subst hj
  rcases hpos with ⟨hpc, hframed⟩ | ⟨hpc, hframed⟩
  · -- the whole frame goes out at once
    simp only [step, hpc, hbuf, Nat.not_lt_zero, if_false, Option.some.injEq] at hstep
    subst hstep
    refine .inr ⟨j, sent, m, f, ?_, hpassed, hf, rfl, .inr ⟨?_, ?_⟩⟩
    · intro k hk
      show Function.update c.pc j _ k = _
      rw [Function.update_of_ne hk, hothers k hk]
    · exact Function.update_self _ _ _
    · exact hframed.concat hf
  · simp only [step, hpc, Nat.zero_add, Nat.lt_irrefl, if_false, Option.some.injEq] at hstep
    subst hstep
    refine .inl ⟨?_, ?_⟩
    · intro k
      show Function.update c.pc j _ k = _
      by_cases hk : k = j
      · subst hk; exact Function.update_self _ _ _
      · rw [Function.update_of_ne hk, hothers k hk]
    · rw [hpassed]; exact hframed.concat_empty

theorem step_inv {c c' : Client ι} {a : Act ι} (hi : Inv c) (hok : Serial c a)
    (hstep : step c a = some c') : Inv c' := by
  rcases hi with ⟨hquiet, hframed⟩ | ⟨i, sent, m, f, hsend⟩
  · cases a with
    | call i data => exact call_inv hquiet hframed hstep
    | next i =>
      simp only [step, hquiet i] at hstep
      cases hstep
  · cases a with
    | call j data =>
      -- a call in progress rules out another one
      have hidle := hok i
      rcases hsend.position with ⟨hpc, -⟩ | ⟨hpc, -⟩ <;> rw [hpc] at hidle <;> cases hidle
    | next j => exact next_inv hsend hstep

/-- **Serial writes are delivered.** If every call of `Write` begins while no other is
    in progress, then in every state without a call in progress the stream is a
    concatenation of whole frames with exactly the messages written. -/
theorem serial_writes_delivered {maxMessageSize : ℕ} {acts : List (Act ι)} {c : Client ι}
    (hok : Meets step Serial (newTCPClient ι maxMessageSize) acts)
    (hrun : run step (newTCPClient ι maxMessageSize) acts = some c) (hquiet : c.Quiet) :
    c.Delivered := by
  have hinit : Inv (newTCPClient ι maxMessageSize) := .inl ⟨fun _ => rfl, [], rfl, rfl⟩
  rcases run_invariant step (fun _ _ _ => step_inv) hinit hok hrun with
    ⟨-, payloads, hs, hp⟩ | ⟨i, sent, m, f, hsend⟩
  · exact ⟨payloads, hs, by rw [hp]⟩
  · have hidle := hquiet i
    rcases hsend.position with ⟨hpc, -⟩ | ⟨hpc, -⟩ <;> rw [hpc] at hidle <;> cases hidle

/-- Two goroutines, one after the other. -/
def serialRun : List (Act (Fin 2)) :=
  [.call 0 [1], .next 0, .next 0, .call 1 [2, 3], .next 1, .next 1, .call 0 [], .next 0, .next 0]

theorem serial_writes_delivered_serialRun :
    ∃ c, run step (newTCPClient (Fin 2) 16) serialRun = some c ∧ c.stream.length = 51 ∧
      c.Delivered := by
  have hall : Meets step Serial (newTCPClient (Fin 2) 16) serialRun ∧
      ∃ c ∈ run step (newTCPClient (Fin 2) 16) serialRun, c.Quiet ∧ c.stream.length = 51 := by
    decide
  obtain ⟨hok, c, hc, hquiet, hlen⟩ := hall
  exact ⟨c, hc, hlen, serial_writes_delivered hok hc hquiet⟩

/-- The second call replaces the shared buffer before the first one has sent it: the
    message `[2, 3]` goes out twice and `[1]` not at all. -/
theorem overlapping_writes_lose_message :
    ∃ c, run step (newTCPClient (Fin 2) 16) [.call 0 [1], .call 1 [2, 3], .next 0, .next 0,
        .next 1, .next 1] = some c ∧ c.Quiet ∧ c.passed = [[1], [2, 3]] ∧
      c.stream = [4, 0, 0, 0, 0, 0, 0, 0, 2, 3] ++ emptyBuffer ++
        [4, 0, 0, 0, 0, 0, 0, 0, 2, 3] ++ emptyBuffer ∧ ¬ c.Delivered := by
  have hall : ∃ c ∈ run step (newTCPClient (Fin 2) 16) [.call 0 [1], .call 1 [2, 3], .next 0,
      .next 0, .next 1, .next 1], c.Quiet ∧ c.passed = [[1], [2, 3]] ∧
      c.stream = [4, 0, 0, 0, 0, 0, 0, 0, 2, 3] ++ emptyBuffer ++
        [4, 0, 0, 0, 0, 0, 0, 0, 2, 3] ++ emptyBuffer := by decide
  obtain ⟨c, hc, hquiet, hpassed, hstream⟩ := hall
  refine ⟨c, hc, hquiet, hpassed, hstream, ?_⟩
  -- the lengths give it away: 36 bytes are not three bytes of payload and some headers
  rintro ⟨payloads, hframes, hperm⟩
  have hlen := length_frames hframes
  have hsum : (payloads.map List.length).sum = ((payloads.filter (· ≠ [])).map List.length).sum := by
    clear hframes hperm hlen
    induction payloads with
    | nil => rfl
    | cons m ms ih =>
      by_cases hm : m = []
      · simp [hm, ih]
      · simp [hm, ih]
  rw [hsum, (hperm.map List.length).sum_eq, hpassed, hstream] at hlen
  simp [emptyBuffer, headerByteSize] at hlen
  omega

end MetricStore.Leanstreams
