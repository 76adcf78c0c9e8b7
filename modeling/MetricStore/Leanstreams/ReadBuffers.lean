import MetricStore.Common.Slice
import MetricStore.Leanstreams.TcpListener

/-!
# The buffers of the receiving side

`TCPServer.Read` and `TCPListener.readLoop` (`pkg/leanstreams/tcpserver.go`, lines 81–145, and
`tcplistener.go`, lines 245–289) once more, now with the two buffers they read into: the
header buffer of 8 bytes and the data buffer of `MaxMessageSize` bytes. Every slice expression
is checked as the runtime checks it, and `none` is the panic of one that is out of range.

The socket is a list of arrivals: some bytes, and the error that the read reports which takes
the last of them. A read into `n` bytes takes no more than `n` bytes of the first arrival.
After the last arrival a read reports `io.EOF`. An error can come at any point, also from a
listener that is shut down. The arrivals are arbitrary, so they stand for every stream and
every way to split it; the bytes that were to come later belong to arrivals that are not in
the list.

An `int` has 64 bits. A negative `MaxMessageSize` makes `newTCPServer` panic, so that no
connection has one. The callback gets a slice of the data buffer, which the next message
overwrites; its contents are those at the time of the call.

Results:
* `lowLevelRead_fills`, `read_spec`: what the two functions read, whatever arrives.
* `readLoop_survives`: the loop does not panic; every call gets a message of between 1 and
  `MaxMessageSize` bytes, those after its header in the stream; it ends with the connection
  closed, and makes no call after a header that is not that of such a message.
* `readLoop_calls_eq`: without errors of the socket the calls are those of `readLoop` over
  chunks.
-/

namespace MetricStore.Leanstreams

open MetricStore.Common

/-! ## Specification -/

/-- A header, and the bytes that follow it. -/
@[ext]
structure Frame where
  header : Bytes
  body : Bytes
  deriving DecidableEq, Repr

/-- The header has 8 bytes and gives the length of the body, which fits the buffer. -/
structure Frame.Valid (maxMessageSize : ℕ) (f : Frame) : Prop where
  length_header : f.header.length = headerByteSize
  decodes : decodeLength maxMessageSize f.header = some f.body.length

/-- A stream begins with at most one frame. -/
theorem Frame.Valid.append_inj {maxMessageSize : ℕ} {f g : Frame} {s t : Bytes}
    (hf : f.Valid maxMessageSize) (hg : g.Valid maxMessageSize)
    (heq : f.header ++ (f.body ++ s) = g.header ++ (g.body ++ t)) : f = g ∧ s = t := by
  obtain ⟨hheader, hrest⟩ := List.append_inj heq (hf.length_header.trans hg.length_header.symm)
  have hlength : f.body.length = g.body.length := by
    have hdecodes := hf.decodes
    rw [hheader, hg.decodes] at hdecodes
    exact (Option.some.inj hdecodes).symm
  obtain ⟨hbody, hst⟩ := List.append_inj hrest hlength
  exact ⟨Frame.ext hheader hbody, hst⟩

/-- The bytes of frames that follow one another. -/
def frameBytes (fs : List Frame) : Bytes := fs.flatMap fun f => f.header ++ f.body

/-- The messages of frames that are not empty. -/
def messages (fs : List Frame) : List Bytes := (fs.map Frame.body).filter (· ≠ [])

theorem frameBytes_nil : frameBytes [] = [] := rfl

theorem frameBytes_cons (f : Frame) (fs : List Frame) :
    frameBytes (f :: fs) = f.header ++ f.body ++ frameBytes fs :=
  rfl

theorem messages_cons (f : Frame) (fs : List Frame) :
    messages (f :: fs) = if f.body = [] then messages fs else f.body :: messages fs := by
  unfold messages
  rw [List.map_cons, List.filter_cons]
  by_cases h : f.body = [] <;> simp [h]

/-! ## The socket -/

/-- Some bytes, and the error that is reported with the last of them. -/
structure Arrival where
  bytes : Bytes
  err : Option Bytes := none
  deriving DecidableEq, Repr

/-- The bytes that have not been read. -/
def pending (socket : List Arrival) : Bytes := (socket.map Arrival.bytes).flatten

/-- The text of `io.EOF`. -/
def eofText : Bytes := lit "EOF"

/-- `socket.Read` into `room` bytes: the bytes, the error, and what is left. A read into no
    bytes gets none; it can fail, if the connection has been closed. -/
def socketRead : ℕ → List Arrival → (Bytes × Option Bytes) × List Arrival
  | 0, ⟨[], some err⟩ :: socket => (([], some err), socket)
  | 0, socket => (([], none), socket)
  | _ + 1, [] => (([], some eofText), [])
  | room + 1, a :: socket =>
    if a.bytes.length ≤ room + 1 then ((a.bytes, a.err), socket)
    else ((a.bytes.take (room + 1), none), ⟨a.bytes.drop (room + 1), a.err⟩ :: socket)

/-- `b[low:high]`; the runtime panics if the bounds are not in order. -/
def slice (b : Bytes) (low high : ℤ) : Option Bytes :=
  if 0 ≤ low ∧ low ≤ high ∧ high ≤ b.length then some ((b.drop low.toNat).take (high - low).toNat)
  else none

/-! ## `lowLevelRead` -/

/-- The variables of `lowLevelRead`: the buffer, `totalBytesRead` and `err`; and the socket. -/
structure Filling where
  buffer : Bytes
  total : ℕ
  err : Option Bytes
  socket : List Arrival
  deriving DecidableEq, Repr

namespace Filling

/-- One `socket.Read` into the `room` bytes after those that have been read. -/
def readInto (r : Filling) (room : ℕ) : Filling :=
  let read := socketRead room r.socket
  ⟨Arrays.overwrite r.buffer r.total read.1.1, r.total + read.1.1.length, read.1.2, read.2⟩

/-- What every round of the loop makes smaller. -/
def left (r : Filling) : ℕ :=
  r.socket.length + (r.buffer.length - r.total) + if r.err = none then 1 else 0

end Filling

/-- What a read takes is the first of the pending bytes, and not more than there is room for.
    Without errors among the arrivals it only fails at the end. -/
theorem socketRead_spec (room : ℕ) (socket : List Arrival) :
    (socketRead room socket).1.1.length ≤ room ∧
    pending socket = (socketRead room socket).1.1 ++ pending (socketRead room socket).2 ∧
    ((∀ a ∈ socket, a.err = none) → (∀ a ∈ (socketRead room socket).2, a.err = none) ∧
      ((socketRead room socket).1.2 = none ∨ (socketRead room socket).1 = ([], some eofText) ∧
        socket = [] ∧ 0 < room)) := by
  unfold socketRead
  split
  · refine ⟨le_rfl, rfl, fun hclean => ?_⟩
    cases hclean _ List.mem_cons_self
  · exact ⟨le_rfl, rfl, fun hclean => ⟨hclean, .inl rfl⟩⟩
  · exact ⟨Nat.zero_le _, rfl, fun hclean => ⟨hclean, .inr ⟨rfl, rfl, Nat.succ_pos _⟩⟩⟩
  · rename_i room a socket
    split_ifs with hfits
    · refine ⟨hfits, rfl, fun hclean => ?_⟩
      obtain ⟨ha, hsocket⟩ := List.forall_mem_cons.1 hclean
      exact ⟨hsocket, .inl ha⟩
    · refine ⟨List.length_take_le _ _, ?_, fun hclean => ?_⟩
      · show a.bytes ++ pending socket = _ ++ (a.bytes.drop (room + 1) ++ pending socket)
        rw [← List.append_assoc, List.take_append_drop]
      · obtain ⟨ha, hsocket⟩ := List.forall_mem_cons.1 hclean
        exact ⟨List.forall_mem_cons.2 ⟨ha, hsocket⟩, .inl rfl⟩

/-- A read with room takes an arrival, or fills the room, or fails. -/
theorem socketRead_progress {room : ℕ} (hroom : 0 < room) (socket : List Arrival) :
    (socketRead room socket).2.length < socket.length ∨
    (socketRead room socket).2.length = socket.length ∧
      ((socketRead room socket).1.1.length = room ∨ (socketRead room socket).1.2 ≠ none) := by
  obtain ⟨room, rfl⟩ : ∃ k, room = k + 1 := ⟨room - 1, by omega⟩
  cases socket with
  | nil => exact .inr ⟨rfl, .inr (Option.some_ne_none _)⟩
  | cons a socket =>
    rw [socketRead]
    split_ifs with hfits
    · exact .inl (Nat.lt_succ_self _)
    · refine .inr ⟨rfl, .inl ?_⟩
      rw [List.length_take]
      omega

theorem slice_of_le {b : Bytes} {low high : ℕ} (h : low ≤ high) (h' : high ≤ b.length) :
    slice b low high = some ((b.drop low).take (high - low)) := by
  unfold slice
  rw [if_pos (by omega), Int.toNat_natCast, ← Nat.cast_sub h, Int.toNat_natCast]

theorem slice_to {b : Bytes} {high : ℕ} (h : high ≤ b.length) :
    slice b 0 high = some (b.take high) :=
  slice_of_le (Nat.zero_le high) h

theorem left_readInto_lt {r : Filling} {room : ℕ} (hroom : r.total + room = r.buffer.length)
    (hpos : 0 < room) (herr : r.err = none) : (r.readInto room).left < r.left := by
  obtain ⟨hle, -, -⟩ := socketRead_spec room r.socket
  have hlength : (Arrays.overwrite r.buffer r.total (socketRead room r.socket).1.1).length =
      r.buffer.length := Arrays.length_overwrite (by omega)
  unfold Filling.left Filling.readInto
  dsimp only
  rw [hlength, if_pos herr]
  rcases socketRead_progress hpos r.socket with htaken | ⟨hsame, hfull | hfailed⟩
  · split_ifs <;> omega
  · split_ifs <;> omega
  · rw [if_neg hfailed]
    omega

/-- The loop of `lowLevelRead` (lines 90–93). -/
def lowLevelReadLoop (r : Filling) : Option Filling :=
  if _h : r.total < r.buffer.length ∧ r.err = none then
    match _hroom : slice r.buffer r.total r.buffer.length with
    | none => none
    | some room => lowLevelReadLoop (r.readInto room.length)
  else some r
termination_by r.left
decreasing_by
  rw [slice_of_le _h.1.le le_rfl] at _hroom
  cases _hroom
  rw [List.length_take, List.length_drop]
  exact left_readInto_lt (by omega) (by omega) _h.2

/-- `lowLevelRead` (lines 81–108). Its two branches for an error return the same. -/
def TCPServer.lowLevelRead (buffer : Bytes) (socket : List Arrival) : Option Filling :=
  lowLevelReadLoop (Filling.readInto ⟨buffer, 0, none, socket⟩ buffer.length)

namespace Filling

/-- The bytes `got` have been taken from the socket and put behind those that were read
    before. -/
structure Extends (r r' : Filling) (got : Bytes) : Prop where
  taken : pending r.socket = got ++ pending r'.socket
  put : r'.buffer = Arrays.overwrite r.buffer r.total got
  counted : r'.total = r.total + got.length
  fits : r'.total ≤ r.buffer.length

/-- No arrival has an error, and the only one that was reported is that of the end. -/
structure Clean (r : Filling) : Prop where
  arrivals : ∀ a ∈ r.socket, a.err = none
  ended : r.err = none ∨ pending r.socket = [] ∧ r.total < r.buffer.length

theorem Extends.refl {r : Filling} (h : r.total ≤ r.buffer.length) : r.Extends r [] :=
  ⟨rfl, by simp [Arrays.overwrite], rfl, h⟩

theorem Extends.length_buffer {r r' : Filling} {got : Bytes} (h : r.Extends r' got) :
    r'.buffer.length = r.buffer.length := by
  rw [h.put, Arrays.length_overwrite (h.counted ▸ h.fits)]

theorem Extends.trans {r r' r'' : Filling} {got got' : Bytes} (h : r.Extends r' got)
    (h' : r'.Extends r'' got') : r.Extends r'' (got ++ got') := by
  have hfits : r.total + got.length ≤ r.buffer.length := h.counted ▸ h.fits
  refine ⟨?_, ?_, ?_, ?_⟩
  · rw [h.taken, h'.taken, List.append_assoc]
  · rw [h'.put, h.put, h.counted, Arrays.overwrite_overwrite hfits]
  · rw [h'.counted, h.counted, List.length_append, Nat.add_assoc]
  · rw [← h.length_buffer]
    exact h'.fits

theorem readInto_spec {r : Filling} {room : ℕ} (hroom : r.total + room = r.buffer.length) :
    (∃ got, r.Extends (r.readInto room) got) ∧
      ((∀ a ∈ r.socket, a.err = none) → (r.readInto room).Clean) := by
  obtain ⟨hle, htaken, hclean⟩ := socketRead_spec room r.socket
  have hfits : r.total + (socketRead room r.socket).1.1.length ≤ r.buffer.length := by omega
  refine ⟨⟨_, htaken, rfl, rfl, hfits⟩, fun harrivals => ?_⟩
  obtain ⟨harrivals', hnone | ⟨heof, hnil, hpos⟩⟩ := hclean harrivals
  · exact ⟨harrivals', .inl hnone⟩
  · refine ⟨harrivals', .inr ⟨?_, ?_⟩⟩
    · rw [heof, List.nil_append] at htaken
      show pending (socketRead room r.socket).2 = []
      rw [← htaken, hnil]
      rfl
    · show r.total + (socketRead room r.socket).1.1.length < (Arrays.overwrite _ _ _).length
      rw [Arrays.length_overwrite hfits, heof]
      show r.total + 0 < r.buffer.length
      omega

end Filling

/-- The loop ends with a full buffer or an error. -/
theorem lowLevelReadLoop_spec (r : Filling) (hle : r.total ≤ r.buffer.length) :
    ∃ r' got, lowLevelReadLoop r = some r' ∧ r.Extends r' got ∧
      (r'.err = none → r'.total = r.buffer.length) ∧ (r.Clean → r'.Clean) := by
  induction hleft : r.left using Nat.strong_induction_on generalizing r with
  | h left ih =>
    unfold lowLevelReadLoop
    split_ifs with hround
    · have hroom : r.total + (r.buffer.length - r.total) = r.buffer.length := by omega
      obtain ⟨⟨got, hextends⟩, hclean⟩ := Filling.readInto_spec hroom
      have hlength := hextends.length_buffer
      obtain ⟨r', got', hloop, hextends', hfull, hclean'⟩ :=
        ih _ (hleft ▸ left_readInto_lt hroom (by omega) hround.2)
          (r.readInto (r.buffer.length - r.total)) (hextends.fits.trans_eq hlength.symm) rfl
      refine ⟨r', got ++ got', ?_, hextends.trans hextends', ?_, ?_⟩
      · split
        · rename_i hnone
          rw [slice_of_le hround.1.le le_rfl] at hnone
          cases hnone
        · rename_i room hsome
          rw [slice_of_le hround.1.le le_rfl] at hsome
          cases hsome
          rw [List.length_take, List.length_drop, min_self]
          exact hloop
      · rwa [hlength] at hfull
      · exact fun h => hclean' (hclean h.arrivals)
    · refine ⟨r, [], rfl, .refl hle, fun herr => ?_, id⟩
      have : ¬ r.total < r.buffer.length := fun hlt => hround ⟨hlt, herr⟩
      omega

/-- **`lowLevelRead` does not panic.** It puts the next pending bytes at the front of its
    buffer, and fills it if it reports no error; without errors among the arrivals it only
    fails if there are not enough of them. -/
theorem lowLevelRead_fills (buffer : Bytes) (socket : List Arrival) :
    ∃ r got, TCPServer.lowLevelRead buffer socket = some r ∧
      pending socket = got ++ pending r.socket ∧ r.total = got.length ∧
      r.buffer = got ++ buffer.drop got.length ∧ got.length ≤ buffer.length ∧
      (r.err = none → got.length = buffer.length) ∧
      ((∀ a ∈ socket, a.err = none) → (∀ a ∈ r.socket, a.err = none) ∧
        (r.err = none ∨ (pending socket).length < buffer.length)) := by
  obtain ⟨⟨got, hextends⟩, hclean⟩ :=
    Filling.readInto_spec (r := ⟨buffer, 0, none, socket⟩) (Nat.zero_add buffer.length)
  have hlength := hextends.length_buffer
  obtain ⟨r, got', hloop, hextends', hfull, hclean'⟩ :=
    lowLevelReadLoop_spec _ (hextends.fits.trans_eq hlength.symm)
  have hall := hextends.trans hextends'
  have htotal : r.total = (got ++ got').length := by rw [hall.counted, Nat.zero_add]
  have hfits : (got ++ got').length ≤ buffer.length := by
    rw [← htotal]
    exact hall.fits
  have hbuffer : r.buffer = got ++ got' ++ buffer.drop (got ++ got').length := by
    rw [hall.put, Arrays.overwrite, Nat.zero_add]
    rfl
  refine ⟨r, got ++ got', hloop, hall.taken, htotal, hbuffer, hfits, ?_, fun harrivals => ?_⟩
  · intro herr
    rw [← htotal, hfull herr, hlength]
  · obtain ⟨harrivals', hnone | ⟨hend, hshort⟩⟩ := hclean' (hclean harrivals)
    · exact ⟨harrivals', .inl hnone⟩
    · refine ⟨harrivals', .inr ?_⟩
      have htaken := hall.taken
      rw [hbuffer, List.length_append, List.length_drop] at hshort
      change pending socket = _ at htaken
      rw [htaken, hend, List.append_nil]
      omega

/-! ## `Read` -/

/-- The text of an error of `Read` (lines 16–21, 127, 133). -/
def ReadError.text : ReadError → Bytes
  | .eof => eofText
  | .zeroBytesReadHeader => lit "0 Bytes parsed from header. Connection Closed"
  | .lessThanZeroBytesReadHeader =>
    lit "Less than zero bytes parsed from header. Connection Closed"
  | .invalidLength msgLength => lit "Message length in header is invalid: " ++ formatInt msgLength
  | .tooLong msgLength => lit "Message is too long: " ++ formatInt msgLength ++ lit " bytes"

/-- The fields of `TCPServer` (lines 26–40) that reading uses, and whether `Close` has been
    called. -/
structure TCPServer where
  incomingHeaderBuffer : Bytes
  maxMessageSize : ℕ
  socket : List Arrival
  closed : Bool
  deriving DecidableEq, Repr

/-- `DefaultMaxMessageSize` (`leanstreams.go`, line 11). -/
def defaultMaxMessageSize : ℕ := 4096

/-- `newTCPServer` (lines 54–70) with the socket that `blockListen` gives it. -/
def newTCPServer (maxMessageSize : ℕ) (socket : List Arrival) : TCPServer where
  incomingHeaderBuffer := List.replicate headerByteSize 0
  maxMessageSize := if maxMessageSize = 0 then defaultMaxMessageSize else maxMessageSize
  socket := socket
  closed := false

/-- What `Read` returns, with the buffer it was given and the connection. -/
structure Received where
  b : Bytes
  n : ℕ
  err : Option Bytes
  conn : TCPServer
  deriving DecidableEq, Repr

namespace TCPServer

/-- `Close` (lines 77–79). -/
def close (c : TCPServer) : TCPServer := { c with closed := true }

/-- `Read` (lines 110–145). -/
def read (c : TCPServer) (b : Bytes) : Option Received :=
  match lowLevelRead c.incomingHeaderBuffer c.socket with
  | none => none
  | some h =>
    let c := { c with incomingHeaderBuffer := h.buffer, socket := h.socket }
    if h.err ≠ none then some ⟨b, h.total, h.err, c⟩
    else
      let (msgLength, bytesParsed) := byteArrayToInt64 c.incomingHeaderBuffer
      if bytesParsed = 0 then some ⟨b, h.total, some ReadError.zeroBytesReadHeader.text, c.close⟩
      else if bytesParsed < 0 then
        some ⟨b, h.total, some ReadError.lessThanZeroBytesReadHeader.text, c.close⟩
      else if msgLength < 0 then
        some ⟨b, 0, some (ReadError.invalidLength msgLength).text, c.close⟩
      else if b.length < msgLength then
        some ⟨b, 0, some (ReadError.tooLong msgLength).text, c.close⟩
      else
        match slice b 0 msgLength with
        | none => none
        | some body =>
          match lowLevelRead body c.socket with
          | none => none
          | some r =>
            let c := { c with socket := r.socket }
            -- the body is a slice of `b`
            some ⟨Arrays.overwrite b 0 r.buffer, r.total, r.err,
              if r.err ≠ none then c.close else c⟩

/-- There is a whole frame at the front of the stream. -/
def FrameAhead (headerSize maxMessageSize : ℕ) (s : Bytes) : Prop :=
  ∃ header body rest, s = header ++ (body ++ rest) ∧ header.length = headerSize ∧
    decodeLength maxMessageSize header = some body.length

/-- What a call of `Read` has done. -/
inductive ReadOutcome (c : TCPServer) (b : Bytes) (r : Received) : Prop
  /-- A frame has been read, and its body is at the front of the buffer. -/
  | message (header : Bytes) (hheader : header.length = c.incomingHeaderBuffer.length)
      (hdecodes : decodeLength b.length header = some r.n)
      (hstream : pending c.socket = header ++ (r.b.take r.n ++ pending r.conn.socket))
      (hn : r.n ≤ r.b.length) (herr : r.err = none)
  /-- The header is not that of a message that fits, and nothing after it has been read. -/
  | refused (header : Bytes) (hheader : header.length = c.incomingHeaderBuffer.length)
      (hdecodes : decodeLength b.length header = none)
      (hstream : pending c.socket = header ++ pending r.conn.socket)
      (herr : r.err ≠ none) (hclosed : r.conn.closed = true)
  /-- The socket has failed. -/
  | failed (herr : r.err ≠ none)
      (hshort : (∀ a ∈ c.socket, a.err = none) →
        ¬ FrameAhead c.incomingHeaderBuffer.length b.length (pending c.socket))

/-- What a call of `Read` does, whatever it finds: it does not panic. -/
structure ReadSpec (c : TCPServer) (b : Bytes) (r : Received) : Prop where
  length_b : r.b.length = b.length
  length_header : r.conn.incomingHeaderBuffer.length = c.incomingHeaderBuffer.length
  arrivals : (∀ a ∈ c.socket, a.err = none) → ∀ a ∈ r.conn.socket, a.err = none
  outcome : ReadOutcome c b r

theorem not_frameAhead_of_short {headerSize maxMessageSize : ℕ} {s : Bytes}
    (h : s.length < headerSize) : ¬ FrameAhead headerSize maxMessageSize s := by
  rintro ⟨header, body, rest, rfl, hheader, -⟩
  rw [List.length_append] at h
  omega

/-- Behind a header there is a whole frame if the header decodes and its message is there. -/
theorem frameAhead_append_iff {maxMessageSize : ℕ} {header s : Bytes} :
    FrameAhead header.length maxMessageSize (header ++ s) ↔
      ∃ n, decodeLength maxMessageSize header = some n ∧ n ≤ s.length := by
  constructor
  · rintro ⟨header', body, rest, heq, hheader, hdecodes⟩
    obtain ⟨rfl, rfl⟩ := List.append_inj heq hheader.symm
    refine ⟨body.length, hdecodes, ?_⟩
    rw [List.length_append]
    omega
  · rintro ⟨n, hdecodes, hle⟩
    refine ⟨header, s.take n, s.drop n, ?_, rfl, ?_⟩
    · rw [List.take_append_drop]
    · rw [hdecodes, List.length_take_of_le hle]

theorem not_frameAhead_of_cut {maxMessageSize n : ℕ} {header s : Bytes}
    (hdecodes : decodeLength maxMessageSize header = some n) (hcut : s.length < n) :
    ¬ FrameAhead header.length maxMessageSize (header ++ s) := by
  rw [frameAhead_append_iff, hdecodes]
  rintro ⟨m, hm, hle⟩
  cases hm
  omega

theorem not_frameAhead_of_refused {maxMessageSize : ℕ} {header s : Bytes}
    (hdecodes : decodeLength maxMessageSize header = none) :
    ¬ FrameAhead header.length maxMessageSize (header ++ s) := by
  rw [frameAhead_append_iff, hdecodes]
  rintro ⟨_, hsome, -⟩
  cases hsome

/-- The body is read into the front of the buffer. -/
theorem lowLevelRead_body {b : Bytes} {n : ℕ} (hn : n ≤ b.length) (socket : List Arrival) :
    ∃ r body, lowLevelRead (b.take n) socket = some r ∧
      pending socket = body ++ pending r.socket ∧ r.total = body.length ∧ body.length ≤ n ∧
      (Arrays.overwrite b 0 r.buffer).length = b.length ∧
      (r.err = none → body.length = n ∧ (Arrays.overwrite b 0 r.buffer).take n = body) ∧
      ((∀ a ∈ socket, a.err = none) → (∀ a ∈ r.socket, a.err = none) ∧
        (r.err = none ∨ (pending socket).length < n)) := by
  obtain ⟨r, body, hlow, htaken, htotal, hbuffer, hfits, hfull, hclean⟩ :=
    lowLevelRead_fills (b.take n) socket
  rw [List.length_take_of_le hn] at hfits hfull hclean
  have hlength : r.buffer.length = n := by
    rw [hbuffer, List.length_append, List.length_drop, List.length_take_of_le hn]
    omega
  refine ⟨r, body, hlow, htaken, htotal, hfits, Arrays.length_overwrite (by omega), ?_, hclean⟩
  intro herr
  have hn' := hfull herr
  rw [List.drop_eq_nil_of_le (by rw [List.length_take]; omega), List.append_nil] at hbuffer
  refine ⟨hn', ?_⟩
  rw [hbuffer, Arrays.overwrite, List.take_zero, List.nil_append, List.take_left' hn']

section Body

variable {c : TCPServer} {b header : Bytes} {socket : List Arrival} {n : ℕ}

/-- What `Read` does after a header with the length of a message that fits. -/
theorem readSpec_of_decodes (hheader : header.length = c.incomingHeaderBuffer.length)
    (hdecodes : decodeLength b.length header = some n)
    (htaken : pending c.socket = header ++ pending socket)
    (hclean : (∀ a ∈ c.socket, a.err = none) → ∀ a ∈ socket, a.err = none) :
    ∃ r, lowLevelRead (b.take n) socket = some r ∧
      ∀ conn, conn.incomingHeaderBuffer = header → conn.socket = r.socket →
        ReadSpec c b ⟨Arrays.overwrite b 0 r.buffer, r.total, r.err, conn⟩ := by
  have hn : n ≤ b.length := (decodeLength_eq_some.1 hdecodes).2.2
  obtain ⟨r, body, hlow, htaken', htotal, hle, hlength, hfull, hclean'⟩ :=
    lowLevelRead_body hn socket
  refine ⟨r, hlow, fun conn hconn hsocket => ⟨hlength, ?_, fun hc => ?_, ?_⟩⟩
  · rw [hconn, hheader]
  · rw [hsocket]
    exact (hclean' (hclean hc)).1
  · by_cases herr : r.err = none
    · obtain ⟨hn', hfront⟩ := hfull herr
      have htotal' : r.total = n := htotal.trans hn'
      have hroom : r.total ≤ (Arrays.overwrite b 0 r.buffer).length := by omega
      refine .message header hheader (htotal' ▸ hdecodes) ?_ hroom herr
      rw [hsocket, htotal', hfront, htaken, htaken']
    · refine .failed herr fun hc => ?_
      rw [htaken, ← hheader]
      exact not_frameAhead_of_cut hdecodes ((hclean' (hclean hc)).2.resolve_left herr)

end Body

/-- **`Read` does not panic**, and it reads a frame, refuses a header or reports an error of the
    socket. -/
theorem read_spec (c : TCPServer) (b : Bytes) : ∃ r, c.read b = some r ∧ ReadSpec c b r := by
  obtain ⟨h, header, hlow, htaken, -, hbuffer, hfits, hfull, hclean⟩ :=
    lowLevelRead_fills c.incomingHeaderBuffer c.socket
  have hlength : h.buffer.length = c.incomingHeaderBuffer.length := by
    rw [hbuffer, List.length_append, List.length_drop]
    omega
  unfold read
  rw [hlow]
  dsimp only
  by_cases herr : h.err = none
  · have hheader := hfull herr
    rw [if_neg (not_not.mpr herr)]
    have heq : h.buffer = header := by
      rw [hbuffer, hheader, List.drop_length, List.append_nil]
    rw [heq] at hlength ⊢
    -- the four tests refuse the headers that do not decode
    have hrefused : ∀ n err, decodeLength b.length header = none →
        ReadSpec c b ⟨b, n, some err, close
          { c with incomingHeaderBuffer := header, socket := h.socket }⟩ := fun n err hnone =>
      ⟨rfl, hheader, fun hc => (hclean hc).1,
        .refused header hheader hnone htaken (Option.some_ne_none _) rfl⟩
    split_ifs with hzero hneg hinvalid hlong
    · exact ⟨_, rfl, hrefused _ _ (decodeLength_eq_none.2 (by omega))⟩
    · exact ⟨_, rfl, hrefused _ _ (decodeLength_eq_none.2 (by omega))⟩
    · exact ⟨_, rfl, hrefused _ _ (decodeLength_eq_none.2 (by omega))⟩
    · exact ⟨_, rfl, hrefused _ _ (decodeLength_eq_none.2 (by omega))⟩
    · obtain ⟨n, hn⟩ := Int.eq_ofNat_of_zero_le (not_lt.mp hinvalid)
      rw [hn] at hlong ⊢
      have hnb : n ≤ b.length := by omega
      have hdecodes : decodeLength b.length header = some n :=
        decodeLength_eq_some.2 ⟨by omega, hn, hnb⟩
      obtain ⟨r, hlow', hspec⟩ :=
        readSpec_of_decodes hheader hdecodes htaken fun hc => (hclean hc).1
      rw [slice_to hnb]
      dsimp only
      rw [hlow']
      refine ⟨_, rfl, hspec _ ?_ ?_⟩
      · split_ifs <;> rfl
      · split_ifs <;> rfl
  · rw [if_pos herr]
    refine ⟨_, rfl, rfl, hlength, fun hc => (hclean hc).1, .failed herr fun hc => ?_⟩
    exact not_frameAhead_of_short ((hclean hc).2.resolve_left herr)

/-! ## `readLoop` -/

/-- A message has a header, so that fewer bytes are pending after it. -/
theorem read_consumes {c : TCPServer} {b : Bytes} {r : Received} (h : c.read b = some r)
    (herr : r.err = none) : (pending r.conn.socket).length < (pending c.socket).length := by
  obtain ⟨r', hr', hspec⟩ := read_spec c b
  cases hr'.symm.trans h
  cases hspec.outcome with
  | message header _ hdecodes hstream _ _ =>
    have hpos : 0 < header.length := by
      cases header with
      | nil => exact absurd (decodeLength_eq_some.1 hdecodes).1 (by decide)
      | cons x header => exact Nat.succ_pos _
    rw [hstream, List.length_append, List.length_append]
    omega
  | refused _ _ _ _ hfailed _ => exact absurd herr hfailed
  | failed hfailed _ => exact absurd herr hfailed

/-- The `for` loop of `readLoop` (`tcplistener.go`, lines 263–288): the calls of the callback,
    and the connection at the end. -/
def readMessages (dataBuffer : Bytes) (conn : TCPServer) : Option (List Bytes × TCPServer) :=
  match _hread : conn.read dataBuffer with
  | none => none
  | some r =>
    if _herr : r.err = none then
      if r.n = 0 then readMessages r.b r.conn
      else
        match slice r.b 0 r.n with
        | none => none
        | some msg => (readMessages r.b r.conn).map fun rest => (msg :: rest.1, rest.2)
    else some ([], r.conn.close)
termination_by (pending conn.socket).length
decreasing_by all_goals exact read_consumes _hread _herr

/-- `readLoop` (lines 245–289). -/
def readLoop (conn : TCPServer) : Option (List Bytes × TCPServer) :=
  readMessages (List.replicate conn.maxMessageSize 0) conn

theorem readMessages_of_ok {dataBuffer : Bytes} {conn : TCPServer} {r : Received}
    (h : conn.read dataBuffer = some r) (herr : r.err = none) (hn : r.n ≤ r.b.length) :
    readMessages dataBuffer conn = (readMessages r.b r.conn).map fun rest =>
      (if r.n = 0 then rest.1 else r.b.take r.n :: rest.1, rest.2) := by
  rw [readMessages]
  split
  · rename_i hnone
    rw [h] at hnone
    cases hnone
  · rename_i r' hsome
    cases h.symm.trans hsome
    rw [dif_pos herr]
    by_cases hzero : r.n = 0
    · simp only [if_pos hzero]
      exact Option.map_id'.symm
    · rw [if_neg hzero, slice_to hn]
      simp only [if_neg hzero]

theorem readMessages_of_error {dataBuffer : Bytes} {conn : TCPServer} {r : Received}
    (h : conn.read dataBuffer = some r) (herr : r.err ≠ none) :
    readMessages dataBuffer conn = some ([], r.conn.close) := by
  rw [readMessages]
  split
  · rename_i hnone
    rw [h] at hnone
    cases hnone
  · rename_i r' hsome
    cases h.symm.trans hsome
    rw [dif_neg herr]

/-- What the loop does with the frames of the stream. -/
theorem readMessages_spec (dataBuffer : Bytes) (conn : TCPServer)
    (hheader : conn.incomingHeaderBuffer.length = headerByteSize) :
    ∃ fs conn' rest, readMessages dataBuffer conn = some (messages fs, conn') ∧
      conn'.closed = true ∧ (∀ f ∈ fs, f.Valid dataBuffer.length) ∧
      pending conn.socket = frameBytes fs ++ rest ∧
      ((∀ a ∈ conn.socket, a.err = none) →
        ¬ FrameAhead headerByteSize dataBuffer.length rest) := by
  induction hlength : (pending conn.socket).length using Nat.strong_induction_on
    generalizing dataBuffer conn with
  | h length ih =>
    obtain ⟨r, hread, hspec⟩ := read_spec conn dataBuffer
    cases hspec.outcome with
    | message header hlen hdecodes hstream hn herr =>
      have hconsumes := read_consumes hread herr
      obtain ⟨fs, conn', rest, hloop, hclosed, hvalid, hrest, hahead⟩ :=
        ih _ (hlength ▸ hconsumes) r.b r.conn (hspec.length_header.trans hheader) rfl
      rw [hspec.length_b] at hvalid hahead
      have hbody : (r.b.take r.n).length = r.n := by
        rw [List.length_take]
        omega
      have hframe : Frame.Valid dataBuffer.length ⟨header, r.b.take r.n⟩ :=
        ⟨hlen.trans hheader, by rw [hdecodes, hbody]⟩
      refine ⟨⟨header, r.b.take r.n⟩ :: fs, conn', rest, ?_, hclosed,
        List.forall_mem_cons.2 ⟨hframe, hvalid⟩, ?_, fun hc => hahead (hspec.arrivals hc)⟩
      · have hempty : r.b.take r.n = [] ↔ r.n = 0 := by rw [← List.length_eq_zero_iff, hbody]
        rw [readMessages_of_ok hread herr hn, hloop, messages_cons, Option.map_some]
        simp only [hempty]
      · rw [hstream, hrest]
        simp [frameBytes]
    | refused header hlen hdecodes hstream herr hclosed =>
      refine ⟨[], _, pending conn.socket, readMessages_of_error hread herr, rfl, by simp, rfl,
        fun _ => ?_⟩
      rw [hstream, ← hheader, ← hlen]
      exact not_frameAhead_of_refused hdecodes
    | failed herr hshort =>
      refine ⟨[], _, pending conn.socket, readMessages_of_error hread herr, rfl, by simp, rfl,
        fun hc => ?_⟩
      rw [← hheader]
      exact hshort hc

end TCPServer

/-! ## The frames of a stream -/

/-- Frames that a stream begins with are among the frames before a place where there is no
    whole frame. -/
theorem isPrefix_of_not_frameAhead {maxMessageSize : ℕ} {gs : List Frame} {cut : Bytes}
    (hgs : ∀ g ∈ gs, g.Valid maxMessageSize)
    (hcut : ¬ TCPServer.FrameAhead headerByteSize maxMessageSize cut) {fs : List Frame}
    {rest : Bytes} (hfs : ∀ f ∈ fs, f.Valid maxMessageSize)
    (heq : frameBytes fs ++ rest = frameBytes gs ++ cut) : fs <+: gs := by
  induction gs generalizing fs with
  | nil =>
    cases fs with
    | nil => exact List.nil_prefix
    | cons f fs =>
      obtain ⟨hf, -⟩ := List.forall_mem_cons.1 hfs
      rw [frameBytes_cons, List.append_assoc, List.append_assoc] at heq
      exact absurd ⟨_, _, _, heq.symm, hf.length_header, hf.decodes⟩ hcut
  | cons g gs ih =>
    cases fs with
    | nil => exact List.nil_prefix
    | cons f fs =>
      obtain ⟨hf, hfs⟩ := List.forall_mem_cons.1 hfs
      obtain ⟨hg, htail⟩ := List.forall_mem_cons.1 hgs
      rw [frameBytes_cons, frameBytes_cons] at heq
      simp only [List.append_assoc] at heq
      obtain ⟨rfl, hrest⟩ := hf.append_inj hg heq
      exact List.cons_prefix_cons.2 ⟨rfl, ih htail hfs hrest⟩

/-- **The receiver survives arbitrary input.** Whatever arrives, `Read` and `readLoop` do not
    panic, and `readLoop` ends with the connection closed. The calls are the non-empty messages
    of frames at the front of the stream, each of at most `MaxMessageSize` bytes. There is no
    call for anything after a header that does not decode to a length between 0 and
    `MaxMessageSize`. -/
theorem readLoop_survives (maxMessageSize : ℕ) (socket : List Arrival) :
    (∀ (conn : TCPServer) (b : Bytes), ∃ r, conn.read b = some r) ∧
    ∃ calls conn, (newTCPServer maxMessageSize socket).readLoop = some (calls, conn) ∧
      conn.closed = true ∧
      (∀ msg ∈ calls, 1 ≤ msg.length ∧
        msg.length ≤ (newTCPServer maxMessageSize socket).maxMessageSize) ∧
      (∃ fs rest, (∀ f ∈ fs, f.Valid (newTCPServer maxMessageSize socket).maxMessageSize) ∧
        pending socket = frameBytes fs ++ rest ∧ calls = messages fs) ∧
      ∀ gs header more, (∀ g ∈ gs, g.Valid (newTCPServer maxMessageSize socket).maxMessageSize) →
        pending socket = frameBytes gs ++ (header ++ more) → header.length = headerByteSize →
        decodeLength (newTCPServer maxMessageSize socket).maxMessageSize header = none →
        calls <+: messages gs := by
  obtain ⟨fs, conn, rest, hloop, hclosed, hvalid, hstream, -⟩ := TCPServer.readMessages_spec
    (List.replicate (newTCPServer maxMessageSize socket).maxMessageSize 0)
    (newTCPServer maxMessageSize socket) (List.length_replicate ..)
  rw [List.length_replicate] at hvalid
  refine ⟨?_, messages fs, conn, hloop, hclosed, ?_, ⟨fs, rest, hvalid, hstream, rfl⟩, ?_⟩
  · intro conn b
    obtain ⟨r, hread, -⟩ := TCPServer.read_spec conn b
    exact ⟨r, hread⟩
  · intro msg hmsg
    obtain ⟨hmem, hne⟩ := List.mem_filter.1 hmsg
    obtain ⟨f, hf, rfl⟩ := List.mem_map.1 hmem
    refine ⟨List.length_pos_iff.2 (by simpa using hne), ?_⟩
    exact (decodeLength_eq_some.1 (hvalid f hf).decodes).2.2
  · intro gs header more hgs hgstream hheader hrefused
    have hrest := TCPServer.not_frameAhead_of_refused (s := more) hrefused
    rw [hheader] at hrest
    have hprefixes := isPrefix_of_not_frameAhead hgs hrest hvalid (hstream.symm.trans hgstream)
    exact (hprefixes.map _).filter _

/-! ## The loop over chunks -/

/-- The loop over chunks on a stream of frames with no frame after them. -/
theorem readLoop_of_frames {maxMessageSize : ℕ} {fs : List Frame} {rest : Bytes}
    (hfs : ∀ f ∈ fs, f.Valid maxMessageSize)
    (hrest : ¬ TCPServer.FrameAhead headerByteSize maxMessageSize rest) {chunks : List Bytes}
    (hchunks : chunks.flatten = frameBytes fs ++ rest) :
    (readLoop maxMessageSize chunks).1 = messages fs := by
  induction fs generalizing chunks with
  | nil =>
    cases hread : read maxMessageSize chunks with
    | mk result left =>
      cases result with
      | error err => exact readLoop_of_error hread
      | ok msg =>
        obtain ⟨header, hlength, hdecodes, hflat⟩ := read_ok hread
        refine absurd ⟨header, msg, left.flatten, ?_, hlength, hdecodes⟩ hrest
        exact hchunks.symm.trans hflat
  | cons f fs ih =>
    obtain ⟨hf, hfs⟩ := List.forall_mem_cons.1 hfs
    rw [frameBytes_cons, List.append_assoc, List.append_assoc] at hchunks
    have hwhole := (read_of_decodes hf.length_header hf.decodes hchunks).1
    rw [List.take_left, List.drop_left] at hwhole
    obtain ⟨left, hread, hleft⟩ := hwhole (by rw [List.length_append]; omega)
    rw [readLoop_of_ok hread, messages_cons, ih hfs hleft]

/-- **The two models agree.** If the socket does not fail, the calls are those of the loop over
    chunks. -/
theorem readLoop_calls_eq (maxMessageSize : ℕ) (chunks : List Bytes) :
    ∃ conn, (newTCPServer maxMessageSize (chunks.map fun c => ⟨c, none⟩)).readLoop =
      some ((readLoop (newTCPServer maxMessageSize []).maxMessageSize chunks).1, conn) := by
  have hpending : pending (chunks.map fun c => ⟨c, none⟩) = chunks.flatten := by
    unfold pending
    rw [List.map_map]
    exact congrArg List.flatten (List.map_id chunks)
  obtain ⟨fs, conn, rest, hloop, -, hvalid, hstream, hahead⟩ := TCPServer.readMessages_spec
    (List.replicate (newTCPServer maxMessageSize []).maxMessageSize 0)
    (newTCPServer maxMessageSize (chunks.map fun c => ⟨c, none⟩)) (List.length_replicate ..)
  rw [List.length_replicate] at hvalid hahead
  have hcalls := readLoop_of_frames hvalid (hahead (by simp [newTCPServer]))
    (hpending.symm.trans hstream)
  exact ⟨conn, by rw [hcalls]; exact hloop⟩

end MetricStore.Leanstreams
