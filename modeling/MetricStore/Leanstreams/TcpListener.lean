import MetricStore.Leanstreams.TcpClient

/-!
# The receiving side of a stream

Model of `TCPServer.Read` (`pkg/leanstreams/tcpserver.go`, lines 81–145) and of
`TCPListener.readLoop` (`pkg/leanstreams/tcplistener.go`, lines 245–289), which reads one
message after the other and passes the non-empty ones to the callback until a read fails.

What the transport delivers is a list of chunks, in the order of the reads: a read into
`n` bytes gets the first chunk, or the first `n` bytes of it if it is longer; an empty
chunk is a read that gets nothing. When there are no chunks left a read reports `io.EOF`.
A read into an empty buffer gets nothing and reports nothing. The list of chunks is
arbitrary, so it stands for every way to split the stream.

Results:
* `lowLevelRead_eq`: how the stream was split does not matter.
* `readLoop_receives`: the callback gets the non-empty messages that lie wholly before
  the cut, each once and in order; without a cut it gets all of them.
-/

namespace MetricStore.Leanstreams

open MetricStore.Common

/-! ## Headers -/

/-- The loop of `binary.Uvarint`, from byte `i` on: the number, and how many bytes it
    took; 0 if the bytes end inside it, and less if it does not fit. -/
def uvarintLoop : ℕ → ℕ → Bytes → ℕ × ℤ
  | _, _, [] => (0, 0)
  | i, x, b :: bs =>
    if b.toNat < 128 then
      if 9 < i || (i = 9 && 1 < b.toNat) then (0, -(i + 1))
      else (x + b.toNat * 2 ^ (7 * i), i + 1)
    else uvarintLoop (i + 1) (x + (b.toNat - 128) * 2 ^ (7 * i)) bs

/-- `byteArrayToInt64` (`util.go`, lines 7–9): `binary.Varint`. -/
def byteArrayToInt64 (bytes : Bytes) : ℤ × ℤ :=
  let (ux, n) := uvarintLoop 0 0 bytes
  (if ux % 2 = 1 then -(ux / 2 : ℕ) - 1 else (ux / 2 : ℕ), n)

/-! ## Reading -/

/-- The errors of `Read` (lines 16–21, 127, 133). -/
inductive ReadError
  | eof
  | zeroBytesReadHeader
  | lessThanZeroBytesReadHeader
  | invalidLength (msgLength : ℤ)
  | tooLong (msgLength : ℤ)
  deriving DecidableEq, Repr

/-- `lowLevelRead` (lines 81–108) into a buffer of `toRead` bytes: the bytes read, the
    error, and what is left of the stream. -/
def lowLevelRead : ℕ → List Bytes → (Bytes × Option ReadError) × List Bytes
  | 0, chunks => (([], none), chunks)
  | _ + 1, [] => (([], some .eof), [])
  | toRead + 1, chunk :: chunks =>
    if chunk.length < toRead + 1 then
      let r := lowLevelRead (toRead + 1 - chunk.length) chunks
      ((chunk ++ r.1.1, r.1.2), r.2)
    else ((chunk.take (toRead + 1), none), chunk.drop (toRead + 1) :: chunks)

/-- `Read` (lines 110–145) into a buffer of `maxMessageSize` bytes. -/
def read (maxMessageSize : ℕ) (chunks : List Bytes) : Except ReadError Bytes × List Bytes :=
  match lowLevelRead headerByteSize chunks with
  | ((_, some err), chunks) => (.error err, chunks)
  | ((header, none), chunks) =>
    let (msgLength, bytesParsed) := byteArrayToInt64 header
    if bytesParsed = 0 then (.error .zeroBytesReadHeader, chunks)
    else if bytesParsed < 0 then (.error .lessThanZeroBytesReadHeader, chunks)
    else if msgLength < 0 then (.error (.invalidLength msgLength), chunks)
    else if maxMessageSize < msgLength then (.error (.tooLong msgLength), chunks)
    else
      match lowLevelRead msgLength.toNat chunks with
      | ((_, some err), chunks) => (.error err, chunks)
      | ((body, none), chunks) => (.ok body, chunks)

/-- **How the stream was split does not matter** to `lowLevelRead`: it fills its buffer if
    there is enough left, and otherwise reports `io.EOF`. -/
theorem lowLevelRead_eq (toRead : ℕ) (chunks : List Bytes) :
    (toRead ≤ chunks.flatten.length →
      (lowLevelRead toRead chunks).1 = (chunks.flatten.take toRead, none) ∧
        (lowLevelRead toRead chunks).2.flatten = chunks.flatten.drop toRead) ∧
    (chunks.flatten.length < toRead →
      (lowLevelRead toRead chunks).1.2 = some .eof ∧
        (lowLevelRead toRead chunks).2.flatten = []) := by
  induction chunks generalizing toRead with
  | nil =>
    cases toRead with
    | zero => simp [lowLevelRead]
    | succ toRead => simp [lowLevelRead]
  | cons chunk chunks ih =>
    cases toRead with
    | zero => simp [lowLevelRead]
    | succ toRead =>
      rw [List.flatten_cons, List.length_append]
      unfold lowLevelRead
      by_cases hshort : chunk.length < toRead + 1
      · -- the chunk is used up, and the rest comes from the others
        obtain ⟨henough, hend⟩ := ih (toRead + 1 - chunk.length)
        rw [if_pos hshort]
        dsimp only
        constructor
        · intro hle
          obtain ⟨hread, hleft⟩ := henough (by omega)
          rw [hread, hleft]
          simp [List.take_append, List.drop_append, List.take_of_length_le hshort.le,
            List.drop_eq_nil_of_le hshort.le]
        · intro hlt
          exact hend (by omega)
      · rw [if_neg hshort]
        constructor
        · intro _
          have hlong : toRead + 1 ≤ chunk.length := by omega
          simp [List.take_append_of_le_length hlong, List.drop_append_of_le_length hlong]
        · intro hlt
          omega

/-- The length that a header gives, if it is between 0 and the size of the buffer. -/
def decodeLength (maxMessageSize : ℕ) (header : Bytes) : Option ℕ :=
  let (msgLength, bytesParsed) := byteArrayToInt64 header
  if 0 < bytesParsed ∧ 0 ≤ msgLength ∧ msgLength ≤ maxMessageSize then some msgLength.toNat
  else none

section Read

variable {maxMessageSize n : ℕ} {header s : Bytes} {chunks rest : List Bytes}

theorem decodeLength_eq_some : decodeLength maxMessageSize header = some n ↔
    0 < (byteArrayToInt64 header).2 ∧ (byteArrayToInt64 header).1 = n ∧ n ≤ maxMessageSize := by
  unfold decodeLength
  dsimp only
  split_ifs with h
  · rw [Option.some.injEq]
    omega
  · simp only [false_iff]
    omega

theorem decodeLength_eq_none : decodeLength maxMessageSize header = none ↔
    ¬ (0 < (byteArrayToInt64 header).2 ∧ 0 ≤ (byteArrayToInt64 header).1 ∧
      (byteArrayToInt64 header).1 ≤ maxMessageSize) := by
  unfold decodeLength
  dsimp only
  split_ifs with h
  · simp [h]
  · simp [h]

theorem lowLevelRead_of_eq (hlength : header.length = n) (hchunks : chunks.flatten = header ++ s) :
    ∃ rest, lowLevelRead n chunks = ((header, none), rest) ∧ rest.flatten = s := by
  obtain ⟨hread, hleft⟩ := (lowLevelRead_eq n chunks).1 (by rw [hchunks, List.length_append]; omega)
  rw [hchunks, List.take_left' hlength] at hread
  rw [hchunks, List.drop_left' hlength] at hleft
  exact ⟨_, Prod.ext hread rfl, hleft⟩

theorem lowLevelRead_of_short (hshort : chunks.flatten.length < n) :
    ∃ bytes rest, lowLevelRead n chunks = ((bytes, some .eof), rest) := by
  have heof := ((lowLevelRead_eq n chunks).2 hshort).1
  exact ⟨_, _, Prod.ext (Prod.ext rfl heof) rfl⟩

/-- A stream that ends inside the header. -/
theorem read_of_short (maxMessageSize : ℕ) (hshort : chunks.flatten.length < headerByteSize) :
    ∃ rest, read maxMessageSize chunks = (.error .eof, rest) := by
  obtain ⟨bytes, rest, hlow⟩ := lowLevelRead_of_short hshort
  refine ⟨rest, ?_⟩
  unfold read
  rw [hlow]

/-- A header with the length of a message that fits: the message follows, unless the stream
    ends inside it. -/
theorem read_of_decodes (hlength : header.length = headerByteSize)
    (hdecodes : decodeLength maxMessageSize header = some n)
    (hchunks : chunks.flatten = header ++ s) :
    (n ≤ s.length →
      ∃ rest, read maxMessageSize chunks = (.ok (s.take n), rest) ∧ rest.flatten = s.drop n) ∧
    (s.length < n → ∃ rest, read maxMessageSize chunks = (.error .eof, rest)) := by
  obtain ⟨hparsed, hmsg, hfits⟩ := decodeLength_eq_some.1 hdecodes
  obtain ⟨chunks₁, hlow, hflat⟩ := lowLevelRead_of_eq hlength hchunks
  have hread : read maxMessageSize chunks = match lowLevelRead n chunks₁ with
      | ((_, some err), chunks) => (.error err, chunks)
      | ((body, none), chunks) => (.ok body, chunks) := by
    unfold read
    rw [hlow]
    dsimp only
    rw [hmsg, if_neg (by omega), if_neg (by omega), if_neg (by omega), if_neg (by omega),
      Int.toNat_natCast]
  constructor
  · intro hle
    have hsplit : chunks₁.flatten = s.take n ++ s.drop n := by rw [hflat, List.take_append_drop]
    obtain ⟨rest, hbody, hrest⟩ := lowLevelRead_of_eq (List.length_take_of_le hle) hsplit
    rw [hbody] at hread
    exact ⟨rest, hread, hrest⟩
  · intro hlt
    have hshort : chunks₁.flatten.length < n := by rwa [hflat]
    obtain ⟨bytes, rest, hbody⟩ := lowLevelRead_of_short hshort
    rw [hbody] at hread
    exact ⟨rest, hread⟩

/-- A header with a length that is too large. -/
theorem read_of_tooLong (hlength : header.length = headerByteSize)
    (hparsed : 0 < (byteArrayToInt64 header).2)
    (hlong : (maxMessageSize : ℤ) < (byteArrayToInt64 header).1)
    (hchunks : chunks.flatten = header ++ s) :
    (read maxMessageSize chunks).1 = .error (.tooLong (byteArrayToInt64 header).1) := by
  obtain ⟨chunks₁, hlow, -⟩ := lowLevelRead_of_eq hlength hchunks
  unfold read
  rw [hlow]
  dsimp only
  rw [if_neg (by omega), if_neg (by omega), if_neg (by omega), if_pos hlong]

/-- A header that is not that of a message that fits. -/
theorem read_of_refused (hlength : header.length = headerByteSize)
    (hdecodes : decodeLength maxMessageSize header = none)
    (hchunks : chunks.flatten = header ++ s) :
    ∃ err rest, read maxMessageSize chunks = (.error err, rest) := by
  have hnot := decodeLength_eq_none.1 hdecodes
  obtain ⟨chunks₁, hlow, -⟩ := lowLevelRead_of_eq hlength hchunks
  unfold read
  rw [hlow]
  dsimp only
  split_ifs with hzero hneg hinvalid hlong
  · exact ⟨_, _, rfl⟩
  · exact ⟨_, _, rfl⟩
  · exact ⟨_, _, rfl⟩
  · exact ⟨_, _, rfl⟩
  · omega

/-- What a successful `Read` has read: a header and the message that it announces. -/
theorem read_ok {msg : Bytes} (h : read maxMessageSize chunks = (.ok msg, rest)) :
    ∃ header, header.length = headerByteSize ∧
      decodeLength maxMessageSize header = some msg.length ∧
      chunks.flatten = header ++ (msg ++ rest.flatten) := by
  rcases lt_or_ge chunks.flatten.length headerByteSize with hshort | hlong
  · obtain ⟨rest', heof⟩ := read_of_short maxMessageSize hshort
    cases heof.symm.trans h
  · have hlength : (chunks.flatten.take headerByteSize).length = headerByteSize :=
      List.length_take_of_le hlong
    have hsplit := (List.take_append_drop headerByteSize chunks.flatten).symm
    cases hdecodes : decodeLength maxMessageSize (chunks.flatten.take headerByteSize) with
    | none =>
      obtain ⟨err, rest', herr⟩ := read_of_refused hlength hdecodes hsplit
      cases herr.symm.trans h
    | some n =>
      obtain ⟨hwhole, hcut⟩ := read_of_decodes hlength hdecodes hsplit
      rcases le_or_gt n (chunks.flatten.drop headerByteSize).length with hle | hlt
      · obtain ⟨rest', hread, hrest⟩ := hwhole hle
        cases hread.symm.trans h
        refine ⟨_, hlength, ?_, ?_⟩
        · rw [hdecodes, List.length_take_of_le hle]
        · rw [hrest, List.take_append_drop]
          exact hsplit
      · obtain ⟨rest', heof⟩ := hcut hlt
        cases heof.symm.trans h

/-- A successful `Read` has read at least the header. -/
theorem read_shortens {msg : Bytes} (h : read maxMessageSize chunks = (.ok msg, rest)) :
    rest.flatten.length < chunks.flatten.length := by
  obtain ⟨header, hlength, -, hchunks⟩ := read_ok h
  have height : headerByteSize = 8 := rfl
  rw [hchunks, List.length_append, List.length_append]
  omega

end Read

/-- `readLoop` (lines 245–289): the calls of the callback, and the error that ends it. -/
def readLoop (maxMessageSize : ℕ) (chunks : List Bytes) : List Bytes × ReadError :=
  match _h : read maxMessageSize chunks with
  | (.error err, _) => ([], err)
  | (.ok msg, rest) =>
    let r := readLoop maxMessageSize rest
    (if msg = [] then r.1 else msg :: r.1, r.2)
termination_by chunks.flatten.length
decreasing_by exact read_shortens _h

/-! ## Headers are read back -/

theorem uvarintLoop_uvarint {fuel v : ℕ} (hfuel : (uvarint fuel v).length < fuel) (i x : ℕ)
    (hi : i + (uvarint fuel v).length ≤ 9) (rest : Bytes) :
    uvarintLoop i x (uvarint fuel v ++ rest)
      = (x + v * 2 ^ (7 * i), ((i + (uvarint fuel v).length : ℕ) : ℤ)) := by
  induction fuel generalizing v i x with
  | zero => cases hfuel
  | succ fuel ih =>
    unfold uvarint at hfuel hi ⊢
    by_cases hv : 128 ≤ v
    · rw [if_pos hv] at hfuel hi ⊢
      have hbyte : (UInt8.ofNat (v % 128 + 128)).toNat = v % 128 + 128 := by
        rw [UInt8.toNat_ofNat']
        omega
      rw [List.length_cons] at hfuel hi ⊢
      rw [List.cons_append, uvarintLoop, hbyte, if_neg (by omega), Nat.add_sub_cancel,
        ih (by omega) (i + 1) _ (by omega)]
      have hpow : 2 ^ (7 * (i + 1)) = 128 * 2 ^ (7 * i) := by
        rw [Nat.mul_succ, Nat.pow_add]
        ring
      have hdiv : v % 128 + 128 * (v / 128) = v := Nat.mod_add_div v 128
      rw [hpow, Prod.mk.injEq]
      refine ⟨?_, by push_cast; ring⟩
      calc x + v % 128 * 2 ^ (7 * i) + v / 128 * (128 * 2 ^ (7 * i))
          = x + (v % 128 + 128 * (v / 128)) * 2 ^ (7 * i) := by ring
        _ = x + v * 2 ^ (7 * i) := by rw [hdiv]
    · rw [if_neg hv] at hi ⊢
      have hbyte : (UInt8.ofNat v).toNat = v := by
        rw [UInt8.toNat_ofNat']
        omega
      have hi' : i + 1 ≤ 9 := hi
      rw [List.singleton_append, uvarintLoop, hbyte, if_pos (by omega), if_neg]
      · simp
      · simp only [Bool.or_eq_true, decide_eq_true_eq, Bool.and_eq_true]
        omega

theorem uvarint_ne_nil {fuel v : ℕ} (hfuel : (uvarint fuel v).length < fuel) :
    0 < (uvarint fuel v).length := by
  cases fuel with
  | zero => cases hfuel
  | succ fuel =>
    unfold uvarint
    split <;> simp

/-- The header of a message gives its length. -/
theorem byteArrayToInt64_header {n : ℕ} {header : Bytes}
    (h : int64ToByteArray n headerByteSize = some header) :
    ∃ parsed : ℤ, byteArrayToInt64 header = ((n : ℤ), parsed) ∧ 0 < parsed := by
  unfold int64ToByteArray at h
  dsimp only at h
  split_ifs at h with hfit
  have hzigzag : zigzag (n : ℤ) = 2 * n := by
    rw [zigzag, if_pos (Int.natCast_nonneg n)]
    omega
  have height : headerByteSize = 8 := rfl
  rw [hzigzag] at h hfit
  have hfuel : (uvarint 10 (2 * n)).length < 10 := by omega
  have hpos := uvarint_ne_nil hfuel
  refine ⟨(uvarint 10 (2 * n)).length, ?_, by omega⟩
  rw [← Option.some.inj h, byteArrayToInt64, uvarintLoop_uvarint hfuel 0 0 (by omega)]
  have hhalf : (0 + 2 * n * 2 ^ (7 * 0)) / 2 = n := by omega
  have heven : ¬ (0 + 2 * n * 2 ^ (7 * 0)) % 2 = 1 := by omega
  dsimp only
  rw [if_neg heven, hhalf, Nat.zero_add]

/-! ## Frames are read back -/

/-- A frame is a header and the message. -/
theorem frame_eq_append {m f : Bytes} (h : frame m = some f) :
    ∃ header, int64ToByteArray m.length headerByteSize = some header ∧ f = header ++ m ∧
      header.length = headerByteSize := by
  have hlen := length_frame h
  obtain ⟨header, hheader, rfl⟩ := Option.map_eq_some_iff.1 h
  refine ⟨header, hheader, rfl, ?_⟩
  rw [List.length_append] at hlen
  omega

theorem decodeLength_header {m header : Bytes}
    (hheader : int64ToByteArray m.length headerByteSize = some header) {maxMessageSize : ℕ}
    (hsize : m.length ≤ maxMessageSize) : decodeLength maxMessageSize header = some m.length := by
  obtain ⟨parsed, hparsed, hpos⟩ := byteArrayToInt64_header hheader
  rw [decodeLength_eq_some, hparsed]
  exact ⟨hpos, rfl, hsize⟩

/-- **A frame at the head of the stream** is read as its message. -/
theorem read_frame {maxMessageSize : ℕ} {m f s : Bytes} (hframe : frame m = some f)
    (hsize : m.length ≤ maxMessageSize) {chunks : List Bytes} (hchunks : chunks.flatten = f ++ s) :
    ∃ rest, read maxMessageSize chunks = (.ok m, rest) ∧ rest.flatten = s := by
  obtain ⟨header, hheader, rfl, hlength⟩ := frame_eq_append hframe
  rw [List.append_assoc] at hchunks
  have hwhole := (read_of_decodes hlength (decodeLength_header hheader hsize) hchunks).1
  rw [List.take_left, List.drop_left] at hwhole
  exact hwhole (by rw [List.length_append]; omega)

/-- **A frame that does not fit the buffer** is refused. -/
theorem read_tooLong {maxMessageSize : ℕ} {m f s : Bytes} (hframe : frame m = some f)
    (hsize : maxMessageSize < m.length) {chunks : List Bytes} (hchunks : chunks.flatten = f ++ s) :
    (read maxMessageSize chunks).1 = .error (.tooLong m.length) := by
  obtain ⟨header, hheader, rfl, hlength⟩ := frame_eq_append hframe
  obtain ⟨parsed, hparsed, hpos⟩ := byteArrayToInt64_header hheader
  rw [List.append_assoc] at hchunks
  have hlong : (maxMessageSize : ℤ) < (byteArrayToInt64 header).1 := by
    rw [hparsed]
    exact Int.ofNat_lt.2 hsize
  have hread := read_of_tooLong hlength (by rw [hparsed]; exact hpos) hlong hchunks
  rw [hparsed] at hread
  exact hread

/-- **A cut inside a frame** ends the loop without a call. -/
theorem read_cut (maxMessageSize : ℕ) {m f : Bytes} (hframe : frame m = some f) {k : ℕ}
    (hk : k < f.length) {chunks : List Bytes} (hchunks : chunks.flatten = f.take k) :
    ∃ err rest, read maxMessageSize chunks = (.error err, rest) := by
  obtain ⟨header, hheader, rfl, hlength⟩ := frame_eq_append hframe
  rw [List.length_append] at hk
  by_cases hcut : k < headerByteSize
  · -- inside the header
    have hshort : chunks.flatten.length < headerByteSize := by
      rw [hchunks, List.length_take]
      omega
    exact ⟨_, read_of_short _ hshort⟩
  · rw [List.take_append, List.take_of_length_le (by omega)] at hchunks
    cases hdecodes : decodeLength maxMessageSize header with
    | none => exact read_of_refused hlength hdecodes hchunks
    | some n =>
      -- inside the message
      obtain ⟨-, hn, -⟩ := decodeLength_eq_some.1 hdecodes
      obtain ⟨parsed, hparsed, -⟩ := byteArrayToInt64_header hheader
      rw [hparsed] at hn
      refine ⟨_, (read_of_decodes hlength hdecodes hchunks).2 ?_⟩
      rw [List.length_take]
      omega

theorem readLoop_of_ok {maxMessageSize : ℕ} {chunks rest : List Bytes} {m : Bytes}
    (h : read maxMessageSize chunks = (.ok m, rest)) :
    (readLoop maxMessageSize chunks).1
      = if m = [] then (readLoop maxMessageSize rest).1
        else m :: (readLoop maxMessageSize rest).1 := by
  rw [readLoop]
  split
  · rename_i heq
    rw [h] at heq
    cases heq
  · rename_i heq
    rw [h] at heq
    cases heq
    rfl

theorem readLoop_of_error {maxMessageSize : ℕ} {chunks rest : List Bytes} {err : ReadError}
    (h : read maxMessageSize chunks = (.error err, rest)) :
    (readLoop maxMessageSize chunks).1 = [] := by
  rw [readLoop]
  split
  · rfl
  · rename_i heq
    rw [h] at heq
    cases heq

section Cut

variable {maxMessageSize k : ℕ} {m f s : Bytes} {chunks : List Bytes}

/-- A frame before the cut is a call, unless it is empty; the loop goes on behind it. -/
theorem readLoop_of_le (hframe : frame m = some f) (hm : m.length ≤ maxMessageSize)
    (hk : f.length ≤ k) (hchunks : chunks.flatten = (f ++ s).take k) :
    ∃ rest, rest.flatten = s.take (k - f.length) ∧
      (readLoop maxMessageSize chunks).1
        = if m = [] then (readLoop maxMessageSize rest).1
          else m :: (readLoop maxMessageSize rest).1 := by
  rw [List.take_append, List.take_of_length_le hk] at hchunks
  obtain ⟨rest, hread, hrest⟩ := read_frame hframe hm hchunks
  exact ⟨rest, hrest, readLoop_of_ok hread⟩

/-- A frame behind the cut, or across it, is no call. -/
theorem readLoop_of_lt (hframe : frame m = some f) (hk : k < f.length)
    (hchunks : chunks.flatten = (f ++ s).take k) : (readLoop maxMessageSize chunks).1 = [] := by
  rw [List.take_append_of_le_length hk.le] at hchunks
  obtain ⟨err, rest, herr⟩ := read_cut maxMessageSize hframe hk hchunks
  exact readLoop_of_error herr

end Cut

/-! ## Successive calls of `Write` -/

/-- The steps of successive calls of `Write` by one goroutine. -/
def writeCalls (messages : List Bytes) : List (Act Unit) :=
  messages.flatMap fun m => [.call () m, .next (), .next ()]

/-- What a call of `Write` puts on the stream: the frame of the message and an empty
    one. -/
def payloads (messages : List Bytes) : List Bytes := messages.flatMap fun m => [m, []]

theorem frames_payloads_cons {m s : Bytes} {messages : List Bytes} :
    frames (payloads (m :: messages)) = some s ↔
      ∃ f rest, frame m = some f ∧ frames (payloads messages) = some rest ∧
        f ++ (emptyBuffer ++ rest) = s := by
  show frames (m :: [] :: payloads messages) = some s ↔ _
  simp only [frames, frame_nil, Option.bind_eq_bind, Option.bind_eq_some_iff, Option.pure_def,
    Option.some.injEq, exists_eq_left']
  constructor
  · rintro ⟨f, hf, _, ⟨rest, hrest, rfl⟩, rfl⟩
    exact ⟨f, rest, hf, hrest, rfl⟩
  · rintro ⟨f, rest, hf, hrest, rfl⟩
    exact ⟨f, hf, _, ⟨rest, hrest, rfl⟩, rfl⟩

/-- One call of `Write`, with nobody else around. -/
theorem run_write {c c' : Client Unit} (hidle : c.pc () = .idle) {m : Bytes}
    {acts : List (Act Unit)}
    (hrun : run step c (.call () m :: .next () :: .next () :: acts) = some c') :
    ∃ f c₁, frame m = some f ∧ c₁.pc () = .idle ∧ c₁.stream = c.stream ++ (f ++ emptyBuffer) ∧
      run step c₁ acts = some c' := by
  obtain ⟨c₁, hcall, hrun⟩ := (run_cons_eq_some step).1 hrun
  obtain ⟨c₂, hsend, hrun⟩ := (run_cons_eq_some step).1 hrun
  obtain ⟨c₃, hempty, hrun⟩ := (run_cons_eq_some step).1 hrun
  simp only [step, hidle] at hcall
  obtain ⟨f, hf, rfl⟩ := Option.map_eq_some_iff.1 hcall
  simp only [step, Function.update_self, Nat.not_lt_zero, if_false, Option.some.injEq,
    List.drop_zero, Nat.sub_zero] at hsend
  subst hsend
  simp only [step, Function.update_self, Nat.zero_add, Nat.lt_irrefl, if_false,
    Option.some.injEq] at hempty
  subst hempty
  refine ⟨f, _, hf, ?_, List.append_assoc _ _ _, hrun⟩
  simp

/-- The stream after successive calls. -/
theorem run_writeCalls {messages : List Bytes} {c c' : Client Unit} (hidle : c.pc () = .idle)
    (hrun : run step c (writeCalls messages) = some c') :
    ∃ s, frames (payloads messages) = some s ∧ c'.stream = c.stream ++ s := by
  induction messages generalizing c with
  | nil =>
    cases hrun
    exact ⟨[], rfl, by simp⟩
  | cons m messages ih =>
    obtain ⟨f, c₁, hf, hidle₁, hstream, hrun⟩ := run_write hidle hrun
    obtain ⟨s, hs, hstream'⟩ := ih hidle₁ hrun
    refine ⟨f ++ (emptyBuffer ++ s), frames_payloads_cons.2 ⟨f, s, hf, hs, rfl⟩, ?_⟩
    rw [hstream', hstream]
    simp only [List.append_assoc]

theorem length_uvarint_le {fuel k v : ℕ} (hk : 0 < k) (hfuel : k ≤ fuel) (hv : v < 2 ^ (7 * k)) :
    (uvarint fuel v).length ≤ k := by
  induction fuel generalizing k v with
  | zero => omega
  | succ fuel ih =>
    unfold uvarint
    split
    · rename_i hbig
      have hk' : 1 < k := by
        by_contra hle
        obtain rfl : k = 1 := by omega
        omega
      have hpow : 2 ^ (7 * k) = 128 * 2 ^ (7 * (k - 1)) := by
        rw [show 7 * k = 7 + 7 * (k - 1) by omega, Nat.pow_add]
      have hrest := ih (k := k - 1) (v := v / 128) (by omega) (by omega) (by omega)
      rw [List.length_cons]
      omega
    · exact hk

/-- The length of a message below `2 ^ 55` bytes fits the header. -/
theorem exists_frame {m : Bytes} (hm : m.length < 2 ^ 55) : ∃ f, frame m = some f := by
  have hzigzag : zigzag (m.length : ℤ) < 2 ^ (7 * 8) := by
    rw [zigzag, if_pos (Int.natCast_nonneg _)]
    omega
  have hlength : (uvarint 10 (zigzag (m.length : ℤ))).length ≤ headerByteSize :=
    length_uvarint_le (by decide) (by decide) hzigzag
  unfold frame int64ToByteArray
  dsimp only
  rw [if_pos hlength]
  exact ⟨_, rfl⟩

theorem exists_run_writeCalls {messages : List Bytes} (hsize : ∀ m ∈ messages, m.length < 2 ^ 55)
    {c : Client Unit} (hidle : c.pc () = .idle) :
    ∃ c', run step c (writeCalls messages) = some c' := by
  induction messages generalizing c with
  | nil => exact ⟨c, rfl⟩
  | cons m messages ih =>
    obtain ⟨hm, hmessages⟩ := List.forall_mem_cons.1 hsize
    obtain ⟨f, hf⟩ := exists_frame hm
    obtain ⟨c', hc'⟩ := ih hmessages (c := ⟨f, c.stream ++ f ++ emptyBuffer,
      Function.update (Function.update (Function.update c.pc () (.send f.length 0)) ()
        (.sendEmpty f.length 0 f.length)) () .idle, c.passed ++ [m]⟩) (by simp)
    refine ⟨c', ?_⟩
    show run step c (.call () m :: .next () :: .next () :: writeCalls messages) = some c'
    simpa [run, step, hidle, hf] using hc'

/-! ## What arrives -/

/-- The messages that lie wholly before a cut after `k` bytes; a message takes its header
    and its bytes, and an empty frame follows. -/
def wholeBefore : ℕ → List Bytes → List Bytes
  | _, [] => []
  | k, m :: messages =>
    if headerByteSize + m.length ≤ k then
      m :: wholeBefore (k - (headerByteSize + m.length) - headerByteSize) messages
    else []

theorem wholeBefore_zero (messages : List Bytes) : wholeBefore 0 messages = [] := by
  cases messages with
  | nil => rfl
  | cons m messages =>
    rw [wholeBefore, if_neg]
    have : headerByteSize = 8 := rfl
    omega

/-- The loop over the frames of the messages, cut anywhere. -/
theorem readLoop_frames {maxMessageSize : ℕ} {messages : List Bytes}
    (hsize : ∀ m ∈ messages, m.length ≤ maxMessageSize) {s : Bytes}
    (hs : frames (payloads messages) = some s) (k : ℕ) {chunks : List Bytes}
    (hchunks : chunks.flatten = s.take k) :
    (readLoop maxMessageSize chunks).1 = (wholeBefore k messages).filter (· ≠ []) := by
  induction messages generalizing s k chunks with
  | nil =>
    -- nothing was sent: the first read reports the end
    obtain rfl : [] = s := Option.some.inj hs
    have hnil : chunks.flatten = (emptyBuffer ++ []).take 0 := by simpa using hchunks
    exact readLoop_of_lt frame_nil (by decide) hnil
  | cons m messages ih =>
    obtain ⟨hm, hmessages⟩ := List.forall_mem_cons.1 hsize
    obtain ⟨f, rest, hf, hrest, rfl⟩ := frames_payloads_cons.1 hs
    have hlength := length_frame hf
    rw [wholeBefore, ← hlength]
    by_cases hwhole : f.length ≤ k
    · obtain ⟨chunks₁, hflat₁, hcalls⟩ := readLoop_of_le hf hm hwhole hchunks
      have hempty : emptyBuffer.length = headerByteSize := rfl
      -- what the loop does after the message: the empty frame, if it is whole
      have htail : (readLoop maxMessageSize chunks₁).1
          = (wholeBefore (k - f.length - headerByteSize) messages).filter (· ≠ []) := by
        by_cases hgap : emptyBuffer.length ≤ k - f.length
        · obtain ⟨chunks₂, hflat₂, hcalls₂⟩ :=
            readLoop_of_le frame_nil (Nat.zero_le _) hgap hflat₁
          rw [hcalls₂, if_pos rfl]
          exact ih hmessages hrest _ hflat₂
        · have hzero : k - f.length - headerByteSize = 0 := by omega
          rw [hzero, wholeBefore_zero]
          exact readLoop_of_lt frame_nil (by omega) hflat₁
      rw [if_pos hwhole, hcalls, htail]
      by_cases hnil : m = []
      · simp [hnil]
      · simp [hnil]
    · rw [if_neg hwhole]
      exact readLoop_of_lt hf (by omega) hchunks

theorem wholeBefore_length {messages : List Bytes} {s : Bytes}
    (hs : frames (payloads messages) = some s) : wholeBefore s.length messages = messages := by
  have hlen := length_frames hs
  clear hs
  generalize s.length = k at hlen
  induction messages generalizing k with
  | nil => rfl
  | cons m messages ih =>
    have hcons : payloads (m :: messages) = m :: [] :: payloads messages := rfl
    rw [hcons] at hlen
    simp only [List.length_cons, List.map_cons, List.sum_cons, List.length_nil, Nat.mul_add] at hlen
    rw [wholeBefore, if_pos (by omega), ih]
    omega

/-- **Framing round trip.** Successive calls of `Write` go through if the lengths of the
    messages fit a header. If the messages then fit the receiver's buffer, for any way to
    split the stream into reads the callback gets the non-empty ones in order; and if the
    stream is cut after `k` bytes, it gets those of them that lie wholly before the cut. -/
theorem readLoop_receives (bufferSize maxMessageSize : ℕ) (messages : List Bytes)
    (hsize : ∀ m ∈ messages, m.length ≤ maxMessageSize) :
    ((∀ m ∈ messages, m.length < 2 ^ 55) →
      ∃ c, run step (newTCPClient Unit bufferSize) (writeCalls messages) = some c) ∧
    ∀ c, run step (newTCPClient Unit bufferSize) (writeCalls messages) = some c →
      (∀ chunks : List Bytes, chunks.flatten = c.stream →
        (readLoop maxMessageSize chunks).1 = messages.filter (· ≠ [])) ∧
      ∀ (k : ℕ) (chunks : List Bytes), chunks.flatten = c.stream.take k →
        (readLoop maxMessageSize chunks).1 = (wholeBefore k messages).filter (· ≠ []) := by
  refine ⟨fun hfit => exists_run_writeCalls hfit rfl, ?_⟩
  intro c hrun
  obtain ⟨s, hs, hstream⟩ := run_writeCalls rfl hrun
  have hstream' : c.stream = s := hstream
  constructor
  · intro chunks hchunks
    have huncut : chunks.flatten = s.take s.length := by rw [hchunks, hstream', List.take_length]
    rw [readLoop_frames hsize hs s.length huncut, wholeBefore_length hs]
  · intro k chunks hchunks
    exact readLoop_frames hsize hs k (by rw [hchunks, hstream'])

/-- Three messages, one of them empty, and a cut inside the last one. -/
theorem readLoop_receives_three :
    ∃ c, run step (newTCPClient Unit 16) (writeCalls [[1], [], [2, 3]]) = some c ∧
      c.stream.length = 51 ∧
      (readLoop 2 [c.stream.take 3, c.stream.drop 3]).1 = [[1], [2, 3]] ∧
      (readLoop 2 [c.stream.take 41]).1 = [[1]] := by
  obtain ⟨hwrites, hreceives⟩ := readLoop_receives 16 2 [[1], [], [2, 3]] (by decide)
  obtain ⟨c, hc⟩ := hwrites (by decide)
  obtain ⟨huncut, hcut⟩ := hreceives c hc
  have hlen : ∀ c ∈ run step (newTCPClient Unit 16) (writeCalls [[1], [], [2, 3]]),
      c.stream.length = 51 := by decide
  refine ⟨c, hc, hlen c hc, ?_, ?_⟩
  · exact huncut _ (by simp)
  · exact hcut 41 _ (by simp)

end MetricStore.Leanstreams
