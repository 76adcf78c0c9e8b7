import MetricStore.Common.Bytes

/-!
# Segment files of the hinted-handoff queue

Model of `segment` (`internal/handoff/queue.go`, lines 396–723): one file that
holds a series of blocks (an 8-byte length and a body) and an 8-byte footer
with the position of the head block. The file's bytes are kept beside the
segment value; every method seeks before it reads or writes, so the offset of
the file handle is not part of the state.

`int64` sums of file sizes and slice lengths are taken in `ℤ`. Where the code
computes with a number it has read from the file, the wrap-around of `uint64`
and `int64` is explicit, because the bytes may be anything.

Only `append` has a choice of failing file operations (`AppendIO`). A read past
the end of the file and a seek to a negative offset fail by themselves.

Results, for a segment that represents the records `done` (advanced past) and
`todo` (unread), `SegRep s f done todo`:
* `SegRep.append_ok`: an accepted append adds its record to the end of `todo`.
* `SegRep.current_cons`, `SegRep.current_nil`: `current` reads the first record
  of `todo`, or reports `io.EOF` when there is none.
* `SegRep.advance_cons`: with the right cached length, `advance` moves the first
  record of `todo` to `done`.
* `SegRep.openSegment`: reopening the file finds the same records.
-/

namespace MetricStore.Handoff

open MetricStore.Common

/-! ## Model -/

/-- The errors the queue can return (lines 17–21 and the `fmt.Errorf` calls of
    `current`, `seek`, `writeBytes` and `readBytes`). `io` is an error of the
    operating system. -/
inductive Err
  | notOpen
  | queueFull
  | segmentFull
  | eof
  | io
  | invalidSeek
  | badRead (got : ℕ)
  | shortWrite (got exp : ℕ)
  | recordSizeOutOfRange (max : ℤ) (got : ℕ)
  | recordTooBig (got : ℕ)
  deriving DecidableEq, Repr

/-- `footerSize` (line 25). -/
def footerSize : ℤ := 8

/-- `segment` (lines 415–425). `isOpen` is `file != nil`. -/
structure Segment where
  size : ℤ
  isOpen : Bool
  path : String
  pos : ℤ
  currentSize : ℤ
  maxSize : Int64
  deriving DecidableEq, Repr

instance : Inhabited Segment := ⟨⟨0, false, "", 0, 0, 0⟩⟩

/-- What `file.Write` does: all bytes, `n` bytes and no error, or `n` bytes and
    an error. -/
inductive WriteOutcome
  | full
  | short (n : ℕ)
  | failed (n : ℕ)
  deriving DecidableEq, Repr

/-- The outcomes of the file operations of one call of `segment.append`. -/
structure AppendIO where
  seekFails : Bool := false
  write : WriteOutcome := .full
  syncFails : Bool := false
  deriving DecidableEq, Repr

/-- The bytes of `b` that reach the file. -/
def WriteOutcome.written (b : Bytes) : WriteOutcome → Bytes
  | .full => b
  | .short n => b.take n
  | .failed n => b.take n

/-- `seek` (lines 660–671). -/
def seek (pos : ℤ) : Except Err ℕ := if pos < 0 then .error .invalidSeek else .ok pos.toNat

/-- `seekEnd` (lines 673–680) of a file with the bytes `f`. -/
def seekEnd (f : Bytes) (pos : ℤ) : Except Err ℕ := seek (f.length + pos)

/-- `readBytes` (lines 713–723) of `n` bytes at offset `off`: `io.EOF` when
    nothing is left, an error when the read is short. -/
def readBytes (f : Bytes) (off n : ℕ) : Except Err Bytes :=
  let b := readAt f off n
  if b.length = n then .ok b
  else if b.length = 0 then .error .eof
  else .error (.badRead b.length)

/-- `readUint64` (lines 687–693). -/
def readUint64 (f : Bytes) (off : ℕ) : Except Err ℕ := (readBytes f off 8).map ofBE

/-- `segment.open` (lines 447–495). The second component is the new contents of
    the file if it was written. -/
def Segment.openSegment (s : Segment) (f : Bytes) : Except Err (Segment × Option Bytes) :=
  if s.size = 0 then
    .ok ({ s with pos := 0, currentSize := 0, size := footerSize },
      some (writeAt f 0 (toBE 8 (uint64 0))))
  else do
    let off ← seekEnd f (-footerSize)
    let pos ← readUint64 f off
    let s := { s with pos := int64 pos }
    let off ← seek s.pos
    if s.pos < s.size - footerSize then
      let currentSize ← readUint64 f off
      return ({ s with currentSize := int64 currentSize }, none)
    else return (s, none)

/-- `newSegment` (lines 427–445) for a file with the bytes `f`. -/
def newSegment (path : String) (maxSize : Int64) (f : Bytes) :
    Except Err (Segment × Option Bytes) :=
  Segment.openSegment
    { size := f.length, isOpen := true, path := path, pos := 0, currentSize := 0,
      maxSize := maxSize } f

/-- `segment.append` (lines 498–538). -/
def Segment.append (io : AppendIO) (s : Segment) (f : Bytes) (b : Bytes) :
    Option Err × Segment × Option Bytes :=
  if !s.isOpen then (some .notOpen, s, none)
  else if s.size + b.length > s.maxSize.toInt then (some .segmentFull, s, none)
  else if io.seekFails then (some .io, s, none)
  else
    match seekEnd f (-footerSize) with
    | .error e => (some e, s, none)
    | .ok off =>
      let blockPlusFooter := toBE 8 b.length ++ b ++ toBE 8 (uint64 s.pos)
      let written := io.write.written blockPlusFooter
      let f := writeAt f off written
      match io.write with
      | .failed _ => (some .io, s, some f)
      | _ =>
        if written.length ≠ blockPlusFooter.length then
          (some (.shortWrite written.length blockPlusFooter.length), s, some f)
        else if io.syncFails then (some .io, s, some f)
        else
          let s := if s.currentSize = 0 then { s with currentSize := b.length } else s
          (none, { s with size := s.size + (b.length + 8) }, some f)

/-- What `segment.current` does. The runtime panics when `make` is given a
    length that is not an `int`. -/
inductive ReadResult
  | record (b : Bytes)
  | error (e : Err)
  | panicked
  deriving DecidableEq, Repr

/-- `segment.current` (lines 541–574). -/
def Segment.current (s : Segment) (f : Bytes) : ReadResult × Segment :=
  if s.pos = s.size - 8 then (.error .eof, s)
  else if !s.isOpen then (.error .io, s)
  else
    match seek s.pos with
    | .error e => (.error e, s)
    | .ok off =>
      match readUint64 f off with
      | .error e => (.error e, s)
      | .ok sz =>
        let s := { s with currentSize := int64 sz }
        if int64 sz > s.maxSize.toInt then (.error (.recordSizeOutOfRange s.maxSize.toInt sz), s)
        else if int64 sz > 512 * 1024 then (.error (.recordTooBig sz), s)
        else if int64 sz < 0 then (.panicked, s)
        else
          match readBytes f (off + 8) sz with
          | .error e => (.error e, s)
          | .ok b => (.record b, s)

/-- What `segment.current` returns for a block with the body `r`: the record, or
    one of its two size errors. -/
def readRecord (maxSize : Int64) (r : Bytes) : ReadResult :=
  if (r.length : ℤ) > maxSize.toInt then
    .error (.recordSizeOutOfRange maxSize.toInt r.length)
  else if (r.length : ℤ) > 512 * 1024 then .error (.recordTooBig r.length)
  else .record r

/-- `segment.advance` (lines 577–621). -/
def Segment.advance (s : Segment) (f : Bytes) : Option Err × Segment × Option Bytes :=
  if !s.isOpen then (some .notOpen, s, none)
  else if s.pos = s.size - footerSize then (some .eof, { s with currentSize := 0 }, none)
  else
    match seekEnd f (-footerSize) with
    | .error e => (some e, s, none)
    | .ok off =>
      let pos := int64 (uint64 (s.pos + s.currentSize + 8))
      let f := writeAt f off (toBE 8 (uint64 pos))
      let s := { s with pos := pos }
      match seek s.pos with
      | .error e => (some e, s, some f)
      | .ok off =>
        match readUint64 f off with
        | .error e => (some e, s, some f)
        | .ok sz =>
          if s.pos = s.size - footerSize then (some .eof, { s with currentSize := 0 }, some f)
          else (none, { s with currentSize := int64 sz }, some f)

/-- `segment.close` (lines 623–632): closing the file succeeds. -/
def Segment.close (s : Segment) : Segment := { s with isOpen := false }

/-! ## What the methods leave alone -/

/-- Two segments with the same file, the same limit and the same handle. -/
def SameFile (s s' : Segment) : Prop :=
  s'.path = s.path ∧ s'.isOpen = s.isOpen ∧ s'.maxSize = s.maxSize

theorem SameFile.refl (s : Segment) : SameFile s s := ⟨rfl, rfl, rfl⟩

theorem openSegment_sameFile {s s' : Segment} {f : Bytes} {w : Option Bytes}
    (h : s.openSegment f = .ok (s', w)) : SameFile s s' := by
  unfold Segment.openSegment at h
  split_ifs at h with h0
  · cases h; exact ⟨rfl, rfl, rfl⟩
  · cases h1 : seekEnd f (-footerSize) with
    | error e => simp [h1, bind, Except.bind] at h
    | ok off =>
      cases h2 : readUint64 f off with
      | error e => simp [h1, h2, bind, Except.bind] at h
      | ok pos =>
        cases h3 : seek (int64 pos) with
        | error e => simp [h1, h2, h3, bind, Except.bind] at h
        | ok off' =>
          simp only [h1, h2, h3, bind, Except.bind, pure, Except.pure] at h
          split_ifs at h
          · cases h4 : readUint64 f off' with
            | error e => simp [h4] at h
            | ok sz => simp only [h4] at h; cases h; exact ⟨rfl, rfl, rfl⟩
          · cases h; exact ⟨rfl, rfl, rfl⟩

theorem append_sameFile (io : AppendIO) (s : Segment) (f b : Bytes) :
    SameFile s (s.append io f b).2.1 := by
  unfold Segment.append
  repeat' (first | exact ⟨rfl, rfl, rfl⟩ | split | dsimp only)

theorem current_sameFile (s : Segment) (f : Bytes) : SameFile s (s.current f).2 := by
  unfold Segment.current
  repeat' (first | exact ⟨rfl, rfl, rfl⟩ | split | dsimp only)

theorem advance_sameFile (s : Segment) (f : Bytes) : SameFile s (s.advance f).2.1 := by
  unfold Segment.advance
  repeat' (first | exact ⟨rfl, rfl, rfl⟩ | split | dsimp only)

/-! ## Blocks -/

/-- The block of a record: its length and its body. -/
def block (r : Bytes) : Bytes := toBE 8 r.length ++ r

/-- The blocks of a list of records. -/
def blocks (rs : List Bytes) : Bytes := rs.flatMap block

@[simp] theorem blocks_nil : blocks [] = [] := rfl

@[simp] theorem blocks_cons (r : Bytes) (rs : List Bytes) : blocks (r :: rs) = block r ++ blocks rs :=
  rfl

@[simp] theorem blocks_append (xs ys : List Bytes) : blocks (xs ++ ys) = blocks xs ++ blocks ys := by
  simp [blocks]

@[simp] theorem length_block (r : Bytes) : (block r).length = 8 + r.length := by simp [block]

/-- `s` is a segment whose file `f` holds the blocks of `done` and `todo` and a
    footer that points to the first block of `todo`. -/
structure SegRep (s : Segment) (f : Bytes) (done todo : List Bytes) : Prop where
  bytes : f = blocks done ++ blocks todo ++ toBE 8 (blocks done).length
  pos : s.pos = (blocks done).length
  size : s.size = f.length
  small : (blocks done).length + (blocks todo).length < 2 ^ 63

/-- The length `advance` is to skip: that of the first unread record, or 0. -/
def headLength : List Bytes → ℕ
  | [] => 0
  | r :: _ => r.length

/-! ## File primitives -/

theorem seek_natCast (n : ℕ) : seek (n : ℤ) = .ok n := by
  unfold seek
  rw [if_neg (by omega), Int.toNat_natCast]

theorem seekEnd_footer (f : Bytes) {g : Bytes} {n : ℕ} (h : f = g ++ toBE 8 n) :
    seekEnd f (-footerSize) = .ok g.length := by
  unfold seekEnd footerSize
  rw [show ((f.length : ℤ) + -8) = (g.length : ℕ) by rw [h]; simp, seek_natCast]

theorem readBytes_of_eq {f : Bytes} (a b c : Bytes) (hf : f = a ++ b ++ c) {off : ℕ}
    (ho : off = a.length) : readBytes f off b.length = .ok b := by
  unfold readBytes
  rw [hf, readAt_append a b c ho rfl, if_pos rfl]

theorem readUint64_of_eq {f : Bytes} (a c : Bytes) {off n : ℕ} (hf : f = a ++ toBE 8 n ++ c)
    (ho : off = a.length) (hn : n < 2 ^ 64) : readUint64 f off = .ok n := by
  have h := readBytes_of_eq a (toBE 8 n) c hf ho
  rw [length_toBE] at h
  unfold readUint64
  rw [h, Except.map, ofBE_toBE_of_lt hn]

/-! ## The operations on a represented segment -/

namespace SegRep

variable {s : Segment} {f : Bytes} {done todo : List Bytes}

theorem length_file (h : SegRep s f done todo) :
    (f.length : ℤ) = (blocks done).length + (blocks todo).length + 8 := by
  rw [h.bytes]; simp; ring

theorem size_eq (h : SegRep s f done todo) :
    s.size = (blocks done).length + (blocks todo).length + 8 := by
  rw [h.size, h.length_file]

/-- The code's test for an exhausted segment. -/
theorem pos_eq_end_iff (h : SegRep s f done todo) : s.pos = s.size - footerSize ↔ todo = [] := by
  rw [h.pos, h.size_eq]
  unfold footerSize
  cases todo with
  | nil => simp
  | cons r rest =>
    simp only [blocks_cons, List.length_append, length_block, reduceCtorEq, iff_false]
    push_cast; omega

/-- Only `pos` and `size` of the segment matter. -/
theorem congr (h : SegRep s f done todo) {s' : Segment} (hp : s'.pos = s.pos)
    (hs : s'.size = s.size) : SegRep s' f done todo :=
  ⟨h.bytes, hp.trans h.pos, hs.trans h.size, h.small⟩

theorem seekEnd_eq (h : SegRep s f done todo) :
    seekEnd f (-footerSize) = .ok (blocks done ++ blocks todo).length :=
  seekEnd_footer f h.bytes

theorem uint64_pos (h : SegRep s f done todo) : uint64 s.pos = (blocks done).length := by
  have := h.small
  rw [h.pos, uint64_of_nonneg (by omega) (by omega), Int.toNat_natCast]

/-- The footer. -/
theorem readUint64_footer (h : SegRep s f done todo) :
    readUint64 f (blocks done ++ blocks todo).length = .ok (blocks done).length := by
  have := h.small
  exact readUint64_of_eq (blocks done ++ blocks todo) [] (by simp [h.bytes]) rfl (by omega)

/-- The length field of the head block. -/
theorem readUint64_head {r : Bytes} {rest : List Bytes} (h : SegRep s f done (r :: rest)) :
    readUint64 f (blocks done).length = .ok r.length := by
  have hsmall := h.small
  simp only [blocks_cons, List.length_append, length_block] at hsmall
  exact readUint64_of_eq (blocks done) (r ++ blocks rest ++ toBE 8 (blocks done).length)
    (by simp [h.bytes, block]) rfl (by omega)

/-- The body of the head block. -/
theorem readBytes_head {r : Bytes} {rest : List Bytes} (h : SegRep s f done (r :: rest)) :
    readBytes f ((blocks done).length + 8) r.length = .ok r :=
  readBytes_of_eq (blocks done ++ toBE 8 r.length) r (blocks rest ++ toBE 8 (blocks done).length)
    (by simp [h.bytes, block]) (by simp)

theorem headLength_lt (h : SegRep s f done todo) : headLength todo < 2 ^ 63 := by
  have hsmall := h.small
  cases todo with
  | nil => simp [headLength]
  | cons r rest =>
    simp only [blocks_cons, List.length_append, length_block] at hsmall
    simp only [headLength]; omega

/-- An accepted append: the block overwrites the footer, and the footer follows
    it. -/
theorem append_ok (h : SegRep s f done todo) (ho : s.isOpen = true) {b : Bytes}
    (hfit : s.size + b.length ≤ s.maxSize.toInt) :
    ∃ f', s.append {} f b =
        (none, { s with currentSize := if s.currentSize = 0 then b.length else s.currentSize,
                        size := s.size + (b.length + 8) }, some f') ∧
      ∀ s' : Segment, s'.pos = s.pos → s'.size = s.size + (b.length + 8) →
        SegRep s' f' done (todo ++ [b]) := by
  have hmax := s.maxSize.toInt_lt
  have hsize := h.size_eq
  refine ⟨blocks done ++ blocks (todo ++ [b]) ++ toBE 8 (blocks done).length, ?_, ?_⟩
  · have hw : writeAt f (blocks done ++ blocks todo).length
        (toBE 8 b.length ++ b ++ toBE 8 (uint64 s.pos)) =
        blocks done ++ blocks (todo ++ [b]) ++ toBE 8 (blocks done).length := by
      rw [h.bytes, writeAt_tail _ _ _ rfl (by simp), h.uint64_pos]
      simp [block, blocks]
    unfold Segment.append
    simp only [ho, h.seekEnd_eq, WriteOutcome.written, hw]
    rw [if_neg (by simp), if_neg (by omega)]
    split_ifs <;> simp_all
  · intro s' hp hs
    refine ⟨rfl, hp.trans h.pos, ?_, ?_⟩
    · rw [hs, hsize]; simp; ring
    · simp; omega

theorem append_full (ho : s.isOpen = true) (io : AppendIO) {b : Bytes}
    (hfull : s.maxSize.toInt < s.size + b.length) :
    s.append io f b = (some .segmentFull, s, none) := by
  unfold Segment.append
  rw [if_neg (by simp [ho]), if_pos (by omega)]

theorem current_nil (h : SegRep s f done []) : s.current f = (.error .eof, s) := by
  have hend : s.pos = s.size - 8 := h.pos_eq_end_iff.mpr rfl
  unfold Segment.current
  rw [if_pos hend]

/-- `current` reads the first unread record and caches its length. -/
theorem current_cons {r : Bytes} {rest : List Bytes} (h : SegRep s f done (r :: rest))
    (ho : s.isOpen = true) :
    s.current f = (readRecord s.maxSize r, { s with currentSize := r.length }) := by
  have hend : ¬ s.pos = s.size - 8 := fun hp => by simpa using h.pos_eq_end_iff.mp hp
  have hlt : r.length < 2 ^ 63 := h.headLength_lt
  unfold Segment.current readRecord
  rw [if_neg hend, if_neg (by simp [ho]), h.pos, seek_natCast]
  simp only [h.readUint64_head, h.readBytes_head, int64_of_lt hlt]
  split_ifs <;> first | rfl | omega

theorem advance_nil (h : SegRep s f done []) (ho : s.isOpen = true) :
    s.advance f = (some .eof, { s with currentSize := 0 }, none) := by
  unfold Segment.advance
  rw [if_neg (by simp [ho]), if_pos (h.pos_eq_end_iff.mpr rfl)]

/-- `advance` moves past the first unread record when the cached length is that
    record's. -/
theorem advance_cons {r : Bytes} {rest : List Bytes} (h : SegRep s f done (r :: rest))
    (ho : s.isOpen = true) (hc : s.currentSize = r.length) :
    ∃ s' f', s.advance f = (if rest = [] then some .eof else none, s', some f') ∧
      s' = { s with pos := (blocks (done ++ [r])).length, currentSize := headLength rest } ∧
      SegRep s' f' (done ++ [r]) rest := by
  have hsmall := h.small
  simp only [blocks_cons, List.length_append, length_block] at hsmall
  have hend : ¬ s.pos = s.size - footerSize := fun hp => by simpa using h.pos_eq_end_iff.mp hp
  have hpos : s.pos + s.currentSize + 8 = ((blocks (done ++ [r])).length : ℕ) := by
    rw [h.pos, hc]; simp; ring
  have hlt : (blocks (done ++ [r])).length < 2 ^ 63 := by simp; omega
  have hu : uint64 ((blocks (done ++ [r])).length : ℕ) = (blocks (done ++ [r])).length := by
    rw [uint64_of_nonneg (by omega) (by omega), Int.toNat_natCast]
  set s' : Segment :=
    { s with pos := (blocks (done ++ [r])).length, currentSize := headLength rest } with hs'
  set f' := blocks (done ++ [r]) ++ blocks rest ++ toBE 8 (blocks (done ++ [r])).length with hf'
  have hrep : SegRep s' f' (done ++ [r]) rest := by
    refine ⟨rfl, rfl, ?_, by simp; omega⟩
    show s.size = _
    rw [h.size_eq, hf']; simp; ring
  have hw : writeAt f (blocks done ++ blocks (r :: rest)).length
      (toBE 8 (blocks (done ++ [r])).length) = f' := by
    rw [h.bytes, writeAt_tail _ _ _ rfl (by simp), hf']
    simp
  have hiff : ((blocks (done ++ [r])).length : ℤ) = s.size - footerSize ↔ rest = [] :=
    hrep.pos_eq_end_iff
  refine ⟨s', f', ?_, rfl, hrep⟩
  unfold Segment.advance
  rw [if_neg (by simp [ho]), if_neg hend, h.seekEnd_eq]
  simp only [hpos, hu, int64_of_lt hlt, hw, seek_natCast]
  -- the code reads 8 bytes at the new position: the next length, or the footer
  cases rest with
  | nil =>
    have hfoot := hrep.readUint64_footer
    rw [blocks_nil, List.append_nil] at hfoot
    simp only [hfoot]
    rw [if_pos (hiff.mpr rfl)]
    rfl
  | cons r' rest' =>
    have hr' : r'.length < 2 ^ 63 := hrep.headLength_lt
    simp only [hrep.readUint64_head]
    rw [if_neg (fun he => by simpa using hiff.mp he), if_neg (by simp), int64_of_lt hr']
    rfl

/-- Reopening the file of a represented segment: the position comes from the
    footer, the cached length from the head block if there is one. -/
theorem openSegment_of_end (h : SegRep s f done todo) {s₀ : Segment} (hsize₀ : s₀.size = s.size)
    (hcur₀ : todo = [] → s₀.currentSize = 0) :
    s₀.openSegment f = .ok ({ s₀ with pos := s.pos, currentSize := headLength todo }, none) := by
  have hsmall := h.small
  have hsize := h.size_eq
  have hpos : int64 (blocks done).length = s.pos := by rw [int64_of_lt (by omega), h.pos]
  have hseek : seek s.pos = .ok (blocks done).length := by rw [h.pos, seek_natCast]
  unfold Segment.openSegment
  rw [if_neg (by omega), h.seekEnd_eq]
  simp only [bind, Except.bind, h.readUint64_footer, hpos, hseek, pure, Except.pure, hsize₀]
  cases todo with
  | nil =>
    rw [if_neg (by rw [h.pos_eq_end_iff.mpr rfl]; omega)]
    simp [headLength, hcur₀ rfl]
  | cons r rest =>
    have hr : r.length < 2 ^ 63 := h.headLength_lt
    simp only [blocks_cons, List.length_append, length_block] at hsize
    rw [if_pos (by rw [h.pos, hsize]; unfold footerSize; push_cast; omega)]
    simp only [h.readUint64_head, int64_of_lt hr, headLength]

theorem openSegment (h : SegRep s f done todo) {s₀ : Segment} (hsize₀ : s₀.size = s.size)
    (hcur₀ : s₀.currentSize = 0) :
    s₀.openSegment f = .ok ({ s₀ with pos := s.pos, currentSize := headLength todo }, none) :=
  h.openSegment_of_end hsize₀ fun _ => hcur₀

end SegRep

/-- A new, empty segment file. -/
theorem segRep_new {s : Segment} (hp : s.pos = 0) (hs : s.size = footerSize) :
    SegRep s (toBE 8 (uint64 0)) [] [] := by
  refine ⟨rfl, hp, ?_, by simp⟩
  rw [hs]; simp [footerSize]

end MetricStore.Handoff
