import MetricStore.Leanstreams.ReadBuffers

/-!
# Writes that reconnect

`TCPClient.Write` (`pkg/leanstreams/tcpclient.go`, lines 220–236) once more, now with a socket
that can fail. If the frame or the empty frame after it cannot be written, the socket is closed,
`Open` dials a new connection, and the whole frame is written again, once. So there are several
connections one after the other, each with a stream of its own, and the listener reads each of
them in a goroutine of its own.

A `socket.Write` either writes all its bytes, or some of them and returns an error; that is the
contract of `net.Conn`, by which the loop of `write` ends in its first round. On a closed socket it
writes nothing. `net.Dial` can fail at any time. Calls follow one another (overlapping calls are in
`Leanstreams.TcpClient`).

Results:
* `Carries.delivers`: of any part of a stream that has arrived, the listener's callback gets
  exactly the messages that are there as a whole, and never a part of one.
* `reconnecting_writes_received`: for every run and all failures, this is so for every
  connection; and on the connections taken together each message was sent at most twice, in
  order, and at least once if `Write` returned nil.
-/

namespace MetricStore.Leanstreams

open MetricStore.Common

/-! ## Model -/

/-- A connection that was dialed: the bytes put on it, and whether it has not been closed. -/
structure Socket where
  stream : Bytes
  isOpen : Bool
  deriving DecidableEq, Repr

/-- `socket.Write`: whether it returns nil, and the socket. All bytes go out, or an error is
    returned after `fails` bytes. -/
def Socket.write (s : Socket) (b : Bytes) (fails : Option ℕ) : Bool × Socket :=
  if s.isOpen then
    match fails with
    | none => (true, { s with stream := s.stream ++ b })
    | some n => (false, { s with stream := s.stream ++ b.take n })
  else (false, s)

/-- `socket.Close`. -/
def Socket.close (s : Socket) : Socket := { s with isOpen := false }

/-- `TCPClient`: the present socket, the streams of those before it, and whether `done` is
    closed. -/
structure TCPClient where
  past : List Bytes
  socket : Socket
  closing : Bool
  deriving DecidableEq, Repr

/-- The results of the two calls of `socket.Write` in `write`. -/
structure Attempt where
  frame : Option ℕ
  empty : Option ℕ
  deriving DecidableEq, Repr

namespace TCPClient

/-- `DialTCP` (lines 70–76), once the connection is there. -/
def dialed : TCPClient := ⟨[], ⟨[], true⟩, false⟩

/-- `write` (lines 164–218), with the frame in the outgoing buffer. -/
def write (c : TCPClient) (outgoing : Bytes) (a : Attempt) : Bool × TCPClient :=
  let r := c.socket.write outgoing a.frame
  if r.1 then
    let r' := r.2.write emptyBuffer a.empty
    if r'.1 then (true, { c with socket := r'.2 }) else (false, { c with socket := r'.2.close })
  else (false, { c with socket := r.2.close })

/-- `Open` (lines 97–126), with the result of dialing. -/
def openSocket (c : TCPClient) (dials : Bool) : Bool × TCPClient :=
  if c.closing || !dials then (false, c)
  else (true, { c with past := c.past ++ [c.socket.stream], socket := ⟨[], true⟩ })

/-- `Write` (lines 220–236): whether it returns nil. The frame is built again for the second
    attempt, and is the same. -/
def writeMessage (c : TCPClient) (outgoing : Bytes) (first : Attempt) (dials : Bool)
    (second : Attempt) : Bool × TCPClient :=
  let r := c.write outgoing first
  if r.1 then r
  else
    let o := r.2.openSocket dials
    if o.1 then o.2.write outgoing second else (false, o.2)

/-- `Reopen` (lines 130–140). Closing a socket twice is an error. -/
def reopen (c : TCPClient) (closes dials : Bool) : TCPClient :=
  let closed := { c with socket := c.socket.close }
  if c.socket.isOpen && closes then (closed.openSocket dials).2 else closed

/-- The streams of all connections, in the order in which they were dialed. -/
def streams (c : TCPClient) : List Bytes := c.past ++ [c.socket.stream]

end TCPClient

/-- A message that was passed to `Write`, and whether it has returned nil. -/
structure Logged where
  data : Bytes
  ok : Bool
  deriving DecidableEq, Repr

/-- The client, with the calls of `Write` so far. -/
structure Session where
  client : TCPClient
  log : List Logged
  deriving DecidableEq, Repr

/-- A call, with what the network makes of it. -/
inductive Call
  | write (data : Bytes) (first : Attempt) (dials : Bool) (second : Attempt)
  | reopen (closes dials : Bool)
  | close
  deriving DecidableEq, Repr

/-- The messages of the call are not longer than `limit`. -/
def Call.Fits (limit : ℕ) : Call → Prop
  | .write data _ _ _ => data.length ≤ limit
  | _ => True

instance (limit : ℕ) : DecidablePred (Call.Fits limit)
  | .write data _ _ _ => inferInstanceAs (Decidable (data.length ≤ limit))
  | .reopen _ _ => isTrue trivial
  | .close => isTrue trivial

namespace Session

def dialed : Session := ⟨.dialed, []⟩

/-- A call; `none` if it panics, since the header of the message does not fit or `done` is closed
    twice. -/
def step (s : Session) : Call → Option Session
  | .write data first dials second => (frame data).map fun f =>
      let r := s.client.writeMessage f first dials second
      ⟨r.2, s.log ++ [⟨data, r.1⟩]⟩
  | .reopen closes dials => some { s with client := s.client.reopen closes dials }
  | .close =>
    if s.client.closing then none
    else some { s with
      client := { s.client with closing := true, socket := s.client.socket.close } }

end Session

/-! ## What a connection carries -/

/-- The stream holds the frames of the messages `whole`, and of empty ones, and then perhaps a
    part of a frame. No payload is longer than `limit`. -/
structure Carries (limit : ℕ) (stream : Bytes) (whole : List Bytes) (cut : Bytes) : Prop where
  frames : ∃ payloads s, frames payloads = some s ∧ stream = s ++ cut ∧
    (∀ m ∈ payloads, m.length ≤ limit) ∧ payloads.filter (· ≠ []) = whole.filter (· ≠ [])
  part : cut = [] ∨ ∃ m f, frame m = some f ∧ m.length ≤ limit ∧ cut <+: f ∧ cut ≠ f

section Carries

variable {limit : ℕ} {stream : Bytes} {whole : List Bytes}

theorem carries_nil (limit : ℕ) : Carries limit [] [] [] :=
  ⟨⟨[], [], rfl, rfl, by simp, rfl⟩, .inl rfl⟩

/-- A frame goes out whole. -/
theorem Carries.concat (h : Carries limit stream whole []) {m f : Bytes} (hf : frame m = some f)
    (hm : m.length ≤ limit) : Carries limit (stream ++ f) (whole ++ [m]) [] := by
  obtain ⟨payloads, s, hs, hstream, hfits, hwhole⟩ := h.frames
  refine ⟨⟨payloads ++ [m], s ++ f, frames_concat hs hf, ?_, ?_, ?_⟩, .inl rfl⟩
  · rw [hstream, List.append_nil, List.append_nil]
  · intro p hp
    rcases List.mem_append.mp hp with hp | hp
    · exact hfits p hp
    · obtain rfl := List.mem_singleton.mp hp
      exact hm
  · rw [List.filter_append, List.filter_append, hwhole]

theorem Carries.concat_empty (h : Carries limit stream whole []) :
    Carries limit (stream ++ emptyBuffer) whole [] := by
  obtain ⟨⟨payloads, s, hs, hstream, hfits, hwhole⟩, -⟩ := h.concat frame_nil (Nat.zero_le _)
  refine ⟨⟨payloads, s, hs, hstream, hfits, hwhole.trans ?_⟩, .inl rfl⟩
  rw [List.filter_append]
  simp

/-- A frame is cut off, or goes out whole after all. -/
theorem Carries.concat_take (h : Carries limit stream whole []) {m f : Bytes}
    (hf : frame m = some f) (hm : m.length ≤ limit) (n : ℕ) :
    ∃ k cut, k ≤ 1 ∧ Carries limit (stream ++ f.take n) (whole ++ List.replicate k m) cut := by
  by_cases hn : f.length ≤ n
  · rw [List.take_of_length_le hn]
    exact ⟨1, [], Nat.le_refl 1, h.concat hf hm⟩
  · obtain ⟨payloads, s, hs, hstream, hfits, hwhole⟩ := h.frames
    refine ⟨0, f.take n, Nat.zero_le 1, ⟨payloads, s, hs, ?_, hfits, ?_⟩,
      .inr ⟨m, f, hf, hm, List.take_prefix n f, fun heq => ?_⟩⟩
    · rw [hstream, List.append_nil]
    · rw [List.replicate_zero, List.append_nil]
      exact hwhole
    · have hlength := congrArg List.length heq
      rw [List.length_take] at hlength
      omega

end Carries

/-! ## The receiver -/

/-- The messages, of those whose frames are on a stream one after the other, that lie within its
    first `n` bytes as a whole. -/
def wholeWithin : List Bytes → ℕ → List Bytes
  | [], _ => []
  | m :: payloads, n =>
    if headerByteSize + m.length ≤ n then
      m :: wholeWithin payloads (n - (headerByteSize + m.length))
    else []

/-- What the listener makes of a connection on which `whole` was sent, with empty messages in
    between. Of a part of the stream, in any pieces, its calls are the messages, not the empty
    ones, that lie in that part as a whole; or the first of these, if a read fails. All of them
    lie in the stream. -/
def Delivers (maxMessageSize : ℕ) (stream : Bytes) (whole : List Bytes) : Prop :=
  ∃ payloads, (∃ bytes, frames payloads = some bytes ∧ bytes <+: stream) ∧
    payloads.filter (· ≠ []) = whole.filter (· ≠ []) ∧
    wholeWithin payloads stream.length = payloads ∧
    ∀ socket, pending socket <+: stream →
      ∃ received conn, (newTCPServer maxMessageSize socket).readLoop = some (received, conn) ∧
        received <+: (wholeWithin payloads (pending socket).length).filter (· ≠ []) ∧
        ((∀ a ∈ socket, a.err = none) →
          received = (wholeWithin payloads (pending socket).length).filter (· ≠ []))

section Receiver

variable {limit : ℕ}

theorem exists_valid_frame {m f : Bytes} (hf : frame m = some f) (hm : m.length ≤ limit) :
    ∃ g : Frame, g.Valid limit ∧ g.header ++ g.body = f ∧ g.body = m := by
  obtain ⟨header, hheader, rfl, hlength⟩ := frame_eq_append hf
  exact ⟨⟨header, m⟩, ⟨hlength, decodeLength_header hheader hm⟩, rfl, rfl⟩

theorem exists_valid_frames {payloads : List Bytes} {s : Bytes} (h : frames payloads = some s)
    (hfits : ∀ m ∈ payloads, m.length ≤ limit) :
    ∃ gs : List Frame, (∀ g ∈ gs, g.Valid limit) ∧ frameBytes gs = s ∧
      gs.map Frame.body = payloads := by
  induction payloads generalizing s with
  | nil =>
    cases h
    exact ⟨[], by simp, rfl, rfl⟩
  | cons m payloads ih =>
    simp only [frames, Option.bind_eq_bind, Option.bind_eq_some_iff, Option.pure_def,
      Option.some.injEq] at h
    obtain ⟨f, hf, rest, hrest, rfl⟩ := h
    obtain ⟨hm, hrestFits⟩ := List.forall_mem_cons.1 hfits
    obtain ⟨gs, hgs, rfl, rfl⟩ := ih hrest hrestFits
    obtain ⟨g, hg, rfl, rfl⟩ := exists_valid_frame hf hm
    exact ⟨g :: gs, List.forall_mem_cons.2 ⟨hg, hgs⟩, rfl, rfl⟩

/-- A frame that was cut off is not there as a whole. -/
theorem not_frameAhead_of_part {g : Frame} {cut : Bytes} (hg : g.Valid limit)
    (hpart : cut <+: g.header ++ g.body) (hne : cut ≠ g.header ++ g.body) :
    ¬ TCPServer.FrameAhead headerByteSize limit cut := by
  rintro ⟨header, body, rest, rfl, hheader, hdecodes⟩
  obtain ⟨y, hy⟩ := hpart
  have hf : Frame.Valid limit ⟨header, body⟩ := ⟨hheader, hdecodes⟩
  have heq : header ++ (body ++ (rest ++ y)) = g.header ++ (g.body ++ []) := by
    rw [List.append_nil, ← hy]
    simp only [List.append_assoc]
  have hrest := (hf.append_inj hg heq).2
  rw [(List.append_eq_nil_iff.mp hrest).2, List.append_nil] at hy
  exact hne hy

theorem frameBytes_append (fs gs : List Frame) :
    frameBytes (fs ++ gs) = frameBytes fs ++ frameBytes gs :=
  List.flatMap_append

theorem wholeWithin_append {fs : List Frame} (hfs : ∀ f ∈ fs, f.Valid limit)
    (payloads : List Bytes) (n : ℕ) :
    wholeWithin (fs.map Frame.body ++ payloads) ((frameBytes fs).length + n) =
      fs.map Frame.body ++ wholeWithin payloads n := by
  induction fs with
  | nil => rw [frameBytes_nil, List.length_nil, Nat.zero_add]; rfl
  | cons f fs ih =>
    obtain ⟨hf, hrest⟩ := List.forall_mem_cons.1 hfs
    have hlength : (frameBytes (f :: fs)).length + n =
        headerByteSize + f.body.length + ((frameBytes fs).length + n) := by
      rw [frameBytes_cons, List.length_append, List.length_append, hf.length_header]
      omega
    rw [List.map_cons, List.cons_append, wholeWithin, hlength, if_pos (Nat.le_add_right _ _),
      Nat.add_sub_cancel_left, ih hrest]
    rfl

/-- Without a frame ahead, the first message on the stream is not there as a whole. -/
theorem wholeWithin_of_not_ahead {gs : List Frame} {cut rest late : Bytes}
    (hgs : ∀ g ∈ gs, g.Valid limit) (heq : rest ++ late = frameBytes gs ++ cut)
    (hahead : ¬ TCPServer.FrameAhead headerByteSize limit rest) :
    wholeWithin (gs.map Frame.body) rest.length = [] := by
  cases gs with
  | nil => rfl
  | cons g gs =>
    obtain ⟨hg, -⟩ := List.forall_mem_cons.1 hgs
    refine if_neg fun hfits => hahead ?_
    have hfirst : g.header ++ g.body <+: rest ++ late := by
      rw [heq, frameBytes_cons, List.append_assoc]
      exact List.prefix_append _ _
    obtain ⟨more, rfl⟩ := List.prefix_of_prefix_length_le hfirst (List.prefix_append _ _)
      (by rw [List.length_append, hg.length_header]; exact hfits)
    exact ⟨g.header, g.body, more, List.append_assoc _ _ _, hg.length_header, hg.decodes⟩

/-- **What the listener makes of a connection**, of which any part has arrived in any pieces:
    its calls are the messages that have arrived as a whole; or the first of these, if a read
    fails. -/
theorem Carries.delivers {maxMessageSize : ℕ} {stream cut : Bytes} {whole : List Bytes}
    (hlimit : limit = (newTCPServer maxMessageSize []).maxMessageSize)
    (h : Carries limit stream whole cut) : Delivers maxMessageSize stream whole := by
  obtain ⟨payloads, s, hs, hstream, hfits, hwhole⟩ := h.frames
  obtain ⟨gs, hgs, rfl, rfl⟩ := exists_valid_frames hs hfits
  have hcut : ¬ TCPServer.FrameAhead headerByteSize limit cut := by
    rcases h.part with rfl | ⟨m, f, hf, hm, hinitial, hne⟩
    · exact TCPServer.not_frameAhead_of_short (by decide)
    · obtain ⟨g, hg, rfl, -⟩ := exists_valid_frame hf hm
      exact not_frameAhead_of_part hg hinitial hne
  refine ⟨gs.map Frame.body, ⟨frameBytes gs, hs, hstream ▸ List.prefix_append _ _⟩, hwhole, ?_, ?_⟩
  · have hall := wholeWithin_append hgs [] cut.length
    rw [List.append_nil, wholeWithin, List.append_nil] at hall
    rw [hstream, List.length_append]
    exact hall
  · intro socket harrived
    obtain ⟨fs, conn, rest, hloop, -, hvalid, hpending, hahead⟩ := TCPServer.readMessages_spec
      (List.replicate (newTCPServer maxMessageSize socket).maxMessageSize 0)
      (newTCPServer maxMessageSize socket) (List.length_replicate ..)
    rw [List.length_replicate, show (newTCPServer maxMessageSize socket).maxMessageSize = limit
      from hlimit.symm] at hvalid hahead
    have hpending : pending socket = frameBytes fs ++ rest := hpending
    obtain ⟨late, hlate⟩ := harrived
    have hbytes : frameBytes fs ++ (rest ++ late) = frameBytes gs ++ cut := by
      rw [← List.append_assoc, ← hpending, hlate, hstream]
    obtain ⟨more, rfl⟩ : fs <+: gs := isPrefix_of_not_frameAhead hgs hcut hvalid hbytes
    have hmore := (List.forall_mem_append.1 hgs).2
    have hwithin : wholeWithin ((fs ++ more).map Frame.body) (pending socket).length =
        fs.map Frame.body ++ wholeWithin (more.map Frame.body) rest.length := by
      rw [hpending, List.length_append, List.map_append]
      exact wholeWithin_append hvalid _ _
    rw [hwithin, List.filter_append]
    refine ⟨messages fs, conn, hloop, List.prefix_append _ _, fun hclean => ?_⟩
    rw [frameBytes_append, List.append_assoc] at hbytes
    rw [wholeWithin_of_not_ahead hmore (List.append_cancel_left hbytes) (hahead hclean),
      List.filter_nil, List.append_nil]
    rfl

end Receiver

/-! ## The calls of `Write` -/

section Writes

variable {limit : ℕ} {c : TCPClient} {m f : Bytes} {whole : List Bytes} {cut : Bytes}

/-- The present socket carries whole frames as long as it is open. -/
def Socket.Carrying (limit : ℕ) (s : Socket) (whole : List Bytes) : Prop :=
  ∃ cut, Carries limit s.stream whole cut ∧ (s.isOpen = true → cut = [])

theorem Socket.Carrying.close {s : Socket} (h : s.Carrying limit whole) :
    s.close.Carrying limit whole := by
  obtain ⟨cut, hcut, -⟩ := h
  exact ⟨cut, hcut, nofun⟩

theorem write_past (c : TCPClient) (f : Bytes) (a : Attempt) : (c.write f a).2.past = c.past := by
  unfold TCPClient.write
  dsimp only
  split_ifs <;> rfl

/-- An attempt puts the frame on the stream or not. If it returns nil, it has. -/
theorem write_carrying (h : c.socket.Carrying limit whole) (hf : frame m = some f)
    (hm : m.length ≤ limit) (a : Attempt) :
    ∃ k, k ≤ 1 ∧ ((c.write f a).1 = true → k = 1) ∧
      (c.write f a).2.socket.Carrying limit (whole ++ List.replicate k m) := by
  obtain ⟨cut, hcarries, hopen⟩ := h
  by_cases hisOpen : c.socket.isOpen = true
  · obtain rfl := hopen hisOpen
    cases hframe : a.frame with
    | some n =>
      obtain ⟨k, cut, hk, hcut⟩ := hcarries.concat_take hf hm n
      simp only [TCPClient.write, Socket.write, hisOpen, hframe, if_true, Bool.false_eq_true,
        if_false]
      exact ⟨k, hk, nofun, cut, hcut, nofun⟩
    | none =>
      have hwhole := hcarries.concat hf hm
      cases hempty : a.empty with
      | some n =>
        obtain ⟨k, cut, -, hcut⟩ := hwhole.concat_take frame_nil (Nat.zero_le _) n
        have hsame : Carries limit (c.socket.stream ++ f ++ emptyBuffer.take n) (whole ++ [m])
            cut := by
          obtain ⟨⟨payloads, s, hs, hstream, hfits, hfilter⟩, hpart⟩ := hcut
          refine ⟨⟨payloads, s, hs, hstream, hfits, hfilter.trans ?_⟩, hpart⟩
          rw [List.filter_append, List.filter_replicate]
          simp
        simp only [TCPClient.write, Socket.write, hisOpen, hframe, hempty, if_true,
          Bool.false_eq_true, if_false]
        exact ⟨1, Nat.le_refl 1, nofun, cut, hsame, nofun⟩
      | none =>
        simp only [TCPClient.write, Socket.write, hisOpen, hframe, hempty, if_true]
        exact ⟨1, Nat.le_refl 1, fun _ => rfl, [], hwhole.concat_empty, fun _ => rfl⟩
  · simp only [TCPClient.write, Socket.write, hisOpen, Bool.false_eq_true, if_false]
    refine ⟨0, Nat.zero_le 1, nofun, cut, ?_, nofun⟩
    rw [List.replicate_zero, List.append_nil]
    exact hcarries

/-- What was sent on the connections, the last of which is the present one: the frames of
    `before` on those in the past, and of `whole` on the present one. -/
structure TCPClient.Sent (limit : ℕ) (c : TCPClient) (before : List (List Bytes))
    (whole : List Bytes) : Prop where
  past : List.Forall₂ (fun stream whole => ∃ cut, Carries limit stream whole cut) c.past before
  present : c.socket.Carrying limit whole

theorem TCPClient.Sent.openSocket {before : List (List Bytes)} (h : c.Sent limit before whole)
    (dials : Bool) :
    ((c.openSocket dials).1 = false ∧ (c.openSocket dials).2 = c) ∨
      ((c.openSocket dials).1 = true ∧
        (c.openSocket dials).2.Sent limit (before ++ [whole]) []) := by
  unfold TCPClient.openSocket
  split_ifs
  · exact .inl ⟨rfl, rfl⟩
  · obtain ⟨cut, hcut, -⟩ := h.present
    refine .inr ⟨rfl, ?_, [], carries_nil limit, fun _ => rfl⟩
    exact List.rel_append h.past (.cons ⟨cut, hcut⟩ .nil)

/-- The messages on all connections, in the order in which they were sent. -/
def sentInOrder (before : List (List Bytes)) (whole : List Bytes) : List Bytes :=
  before.flatten ++ whole

/-- **A call of `Write`.** The frame has been sent at most twice, and at least once if nil is
    returned. -/
theorem TCPClient.Sent.writeMessage {before : List (List Bytes)} (h : c.Sent limit before whole)
    (hf : frame m = some f) (hm : m.length ≤ limit) (first : Attempt) (dials : Bool)
    (second : Attempt) :
    ∃ before' whole' k, (c.writeMessage f first dials second).2.Sent limit before' whole' ∧
      sentInOrder before' whole' = sentInOrder before whole ++ List.replicate k m ∧ k ≤ 2 ∧
      ((c.writeMessage f first dials second).1 = true → 1 ≤ k) := by
  obtain ⟨k₁, hk₁, hok₁, hcarrying₁⟩ := write_carrying h.present hf hm first
  have hsent₁ : (c.write f first).2.Sent limit before (whole ++ List.replicate k₁ m) :=
    ⟨by rw [write_past]; exact h.past, hcarrying₁⟩
  have horder₁ : sentInOrder before (whole ++ List.replicate k₁ m) =
      sentInOrder before whole ++ List.replicate k₁ m := (List.append_assoc _ _ _).symm
  unfold TCPClient.writeMessage
  dsimp only
  by_cases hwritten : (c.write f first).1 = true
  · rw [if_pos hwritten]
    exact ⟨before, _, k₁, hsent₁, horder₁, by omega, fun _ => (hok₁ hwritten).ge⟩
  rw [if_neg hwritten]
  rcases hsent₁.openSocket dials with ⟨hno, hsame⟩ | ⟨hyes, hopened⟩
  · rw [hno, hsame, if_neg Bool.false_ne_true]
    exact ⟨before, _, k₁, hsent₁, horder₁, by omega, nofun⟩
  · -- the second attempt is on a connection of its own
    rw [if_pos hyes]
    obtain ⟨k₂, hk₂, hok₂, hcarrying₂⟩ := write_carrying hopened.present hf hm second
    refine ⟨before ++ [whole ++ List.replicate k₁ m], _, k₁ + k₂,
      ⟨by rw [write_past]; exact hopened.past, hcarrying₂⟩, ?_, by omega, fun hok => ?_⟩
    · unfold sentInOrder
      rw [List.flatten_append, List.flatten_singleton, List.replicate_add]
      simp only [List.nil_append, List.append_assoc]
    · have := hok₂ hok
      omega

end Writes

/-! ## Runs -/

/-- How often each message was sent: at most twice, and at least once if `Write` returned
    nil. -/
structure Counted (log : List Logged) (entries : List (Logged × ℕ)) (sent : List Bytes) :
    Prop where
  log : entries.map Prod.fst = log
  copies : ∀ e ∈ entries, e.2 ≤ 2 ∧ (e.1.ok = true → 1 ≤ e.2)
  sent : sent = entries.flatMap fun e => List.replicate e.2 e.1.data

theorem Counted.concat {log : List Logged} {entries : List (Logged × ℕ)} {sent : List Bytes}
    (h : Counted log entries sent) {e : Logged} {k : ℕ} (hk : k ≤ 2) (hok : e.ok = true → 1 ≤ k) :
    Counted (log ++ [e]) (entries ++ [(e, k)]) (sent ++ List.replicate k e.data) := by
  refine ⟨?_, ?_, ?_⟩
  · rw [List.map_append, h.log]
    rfl
  · intro e' he'
    rcases List.mem_append.mp he' with he' | he'
    · exact h.copies e' he'
    · obtain rfl := List.mem_singleton.mp he'
      exact ⟨hk, hok⟩
  · rw [List.flatMap_append, ← h.sent, List.flatMap_singleton]

/-- The invariant of every run. -/
def Session.Inv (limit : ℕ) (s : Session) : Prop :=
  ∃ before whole entries, s.client.Sent limit before whole ∧
    Counted s.log entries (sentInOrder before whole)

theorem Session.step_inv {limit : ℕ} {s s' : Session} {call : Call} (h : s.Inv limit)
    (hfits : call.Fits limit) (hstep : s.step call = some s') : s'.Inv limit := by
  obtain ⟨before, whole, entries, hsent, hcounted⟩ := h
  cases call with
  | write data first dials second =>
    obtain ⟨f, hf, rfl⟩ := Option.map_eq_some_iff.mp hstep
    obtain ⟨before', whole', k, hsent', horder, hk, hok⟩ :=
      hsent.writeMessage hf hfits first dials second
    have hlogged := hcounted.concat
      (e := ⟨data, (s.client.writeMessage f first dials second).1⟩) hk hok
    rw [← horder] at hlogged
    exact ⟨before', whole', _, hsent', hlogged⟩
  | reopen closes dials =>
    cases hstep
    have hclosed : TCPClient.Sent limit { s.client with socket := s.client.socket.close }
        before whole := ⟨hsent.past, hsent.present.close⟩
    unfold TCPClient.reopen
    dsimp only
    by_cases hreopens : (s.client.socket.isOpen && closes) = true
    · rw [if_pos hreopens]
      rcases hclosed.openSocket dials with ⟨-, hsame⟩ | ⟨-, hopened⟩
      · rw [hsame]
        exact ⟨before, whole, entries, hclosed, hcounted⟩
      · refine ⟨_, _, entries, hopened, ?_⟩
        have horder : sentInOrder (before ++ [whole]) [] = sentInOrder before whole := by
          simp [sentInOrder]
        rw [horder]
        exact hcounted
    · rw [if_neg hreopens]
      exact ⟨before, whole, entries, hclosed, hcounted⟩
  | close =>
    simp only [step] at hstep
    split_ifs at hstep
    cases hstep
    exact ⟨before, whole, entries, ⟨hsent.past, hsent.present.close⟩, hcounted⟩

theorem Session.dialed_inv (limit : ℕ) : dialed.Inv limit :=
  ⟨[], [], [], ⟨.nil, [], carries_nil limit, fun _ => rfl⟩, rfl, by simp, rfl⟩

/-- **Messages survive broken connections.** For every run of `Write`, `Reopen` and `Close`, with
    every failure of the network and with messages that the server admits, there are numbers of
    copies, at most two for each call of `Write` and at least one if it has returned nil, and a
    division of these copies, in the order of the calls, among the connections, such that for
    each connection, whatever part of its stream has arrived, in any pieces, the calls that the
    listener makes are its copies that have arrived as a whole, without the empty messages; if a
    read fails, the first of these. -/
theorem reconnecting_writes_received {maxMessageSize : ℕ} {calls : List Call} {s : Session}
    (hrun : run Session.step .dialed calls = some s)
    (hfits : ∀ call ∈ calls, call.Fits (newTCPServer maxMessageSize []).maxMessageSize) :
    ∃ (sent : List (List Bytes)) (entries : List (Logged × ℕ)),
      entries.map Prod.fst = s.log ∧
      (∀ e ∈ entries, e.2 ≤ 2 ∧ (e.1.ok = true → 1 ≤ e.2)) ∧
      sent.flatten = (entries.flatMap fun e => List.replicate e.2 e.1.data) ∧
      List.Forall₂ (Delivers maxMessageSize) s.client.streams sent := by
  obtain ⟨before, whole, entries, hsent, hcounted⟩ :=
    run_invariant Session.step (I := Session.Inv (newTCPServer maxMessageSize []).maxMessageSize)
      (fun _ _ _ hi hfits hstep => Session.step_inv hi hfits hstep) (Session.dialed_inv _)
      (meets_of_forall_mem Session.step (fun _ => hfits) .dialed) hrun
  refine ⟨before ++ [whole], entries, hcounted.log, hcounted.copies, ?_, ?_⟩
  · rw [← hcounted.sent]
    simp [sentInOrder]
  · obtain ⟨cut, hcut, -⟩ := hsent.present
    have hall : List.Forall₂ (fun stream whole =>
        ∃ cut, Carries (newTCPServer maxMessageSize []).maxMessageSize stream whole cut)
        s.client.streams (before ++ [whole]) := List.rel_append hsent.past (.cons ⟨cut, hcut⟩ .nil)
    exact hall.imp fun stream whole ⟨_, hcarries⟩ => hcarries.delivers rfl

/-- The second message is cut off after 9 bytes and sent again on a new connection; of the third
    one the empty frame is cut off, and it is sent twice. -/
def brokenRun : List Call :=
  [.write [1] ⟨none, none⟩ true ⟨none, none⟩, .write [2, 3] ⟨some 9, none⟩ true ⟨none, none⟩,
    .write [4] ⟨none, some 1⟩ true ⟨none, none⟩]

theorem reconnecting_writes_received_brokenRun :
    ∃ s, run Session.step .dialed brokenRun = some s ∧
      s.log = [⟨[1], true⟩, ⟨[2, 3], true⟩, ⟨[4], true⟩] ∧
      s.client.streams.map List.length = [26, 28, 17] ∧
      ∃ (sent : List (List Bytes)) (entries : List (Logged × ℕ)),
        entries.map Prod.fst = s.log ∧
        (∀ e ∈ entries, e.2 ≤ 2 ∧ (e.1.ok = true → 1 ≤ e.2)) ∧
        sent.flatten = (entries.flatMap fun e => List.replicate e.2 e.1.data) ∧
        List.Forall₂ (Delivers 16) s.client.streams sent := by
  obtain ⟨s, hs⟩ : ∃ s, run Session.step .dialed brokenRun = some s := ⟨_, rfl⟩
  have hfits : ∀ call ∈ brokenRun, call.Fits (newTCPServer 16 []).maxMessageSize := by decide
  obtain ⟨sent, entries, hlog, hcopies, hsent, hdelivers⟩ := reconnecting_writes_received hs hfits
  refine ⟨s, hs, ?_, ?_, sent, entries, hlog, hcopies, hsent, hdelivers⟩
  · cases hs
    rfl
  · cases hs
    rfl

end MetricStore.Leanstreams
