import MetricStore.Handoff.Segment

/-!
# Arbitrary files in the place of segment files

`segment.open`, `segment.current` and `segment.advance` read whatever bytes a file has. A
file that can be opened is a `Cell`: some bytes, and the position in the footer behind them.
What is read at a position may be a block that someone wrote or bytes that happen to look
like one; it may even reach into the footer, which changes as the position moves.

`Cell.next` is one `Current` and `Advance`. A client that calls `Advance` only after a
successful `Current` works through a list of cells (`Cells.receive`): it stays at the first one
whenever nothing can be read there, and goes on to the next one when the new position is
that of the footer or the end of the file.

Results:
* `CellRep.current_eq`, `CellRep.advance_eq`: the two methods follow `Cell.next`.
* `Progress.step`, `Progress.received`: a client has read chains of blocks to their ends from
  the cells that it has left behind, and a chain of blocks from the one it is at.
* `Cell.Holds.chain`: the chains of a well-formed file are its unread records.
* `Progress.passesTo`, `Cells.exists_received`: a client reads all unread records of the valid
  files exactly if the files up to the last of those records are chains to their ends.
-/

namespace MetricStore.Handoff

open MetricStore.Common

/-! ## Cells -/

/-- A file that `segment.open` accepts: the bytes before the footer, and the position. -/
structure Cell where
  body : Bytes
  pos : ℕ
  deriving DecidableEq, Repr

namespace Cell

/-- The bytes of the file. -/
def file (c : Cell) : Bytes := c.body ++ toBE 8 c.pos

/-- What `segment.open` (lines 447–495) makes of a file: an empty one gets a footer, and one
    that is too short or has a position that is no `int64` is rejected. -/
def ofFile (f : Bytes) : Option Cell :=
  if f = [] then some ⟨[], 0⟩
  else if f.length < 8 then none
  else if ofBE (f.drop (f.length - 8)) < 2 ^ 63 then
    some ⟨f.take (f.length - 8), ofBE (f.drop (f.length - 8))⟩
  else none

/-- The record that can be read at the position, if there is one, and the cell after that. -/
def next (limit : Int64) (c : Cell) : Option (Bytes × Cell) :=
  let sz := ofBE (readAt c.file c.pos 8)
  if c.pos < c.body.length ∧ (sz : ℤ) ≤ limit.toInt ∧ sz ≤ 512 * 1024 ∧
      c.pos + sz ≤ c.body.length then
    some (readAt c.file (c.pos + 8) sz, { c with pos := c.pos + 8 + sz })
  else none

/-- The position is that of the footer, or the end of the file. -/
def AtEnd (c : Cell) : Prop := c.pos = c.body.length ∨ c.pos = c.body.length + 8

instance : DecidablePred AtEnd := fun _ => inferInstanceAs (Decidable (_ ∨ _))

/-- `Current` reports `io.EOF`: the position is that of the footer, or not in the file. -/
def Ended (c : Cell) : Prop := c.pos = c.body.length ∨ c.body.length + 8 ≤ c.pos

instance : DecidablePred Ended := fun _ => inferInstanceAs (Decidable (_ ∨ _))

theorem length_file (c : Cell) : c.file.length = c.body.length + 8 := by simp [file]

theorem ofFile_eq_some {f : Bytes} {c : Cell} (h : ofFile f = some c) :
    f = [] ∧ c = ⟨[], 0⟩ ∨ f = c.file ∧ c.pos < 2 ^ 63 := by
  unfold ofFile at h
  split_ifs at h with hnil hshort hpos
  · exact .inl ⟨hnil, (Option.some.inj h).symm⟩
  · cases h
    have hfooter := toBE_ofBE (f.drop (f.length - 8))
    rw [List.length_drop, show f.length - (f.length - 8) = 8 by omega] at hfooter
    refine .inr ⟨?_, hpos⟩
    unfold file
    rw [hfooter]
    exact (List.take_append_drop _ f).symm

theorem ofFile_eq_none {f : Bytes} (h : ofFile f = none) :
    f ≠ [] ∧ (f.length < 8 ∨ 8 ≤ f.length ∧ 2 ^ 63 ≤ ofBE (f.drop (f.length - 8))) := by
  unfold ofFile at h
  split_ifs at h with hnil hshort hpos
  · exact ⟨hnil, .inl hshort⟩
  · exact ⟨hnil, .inr ⟨not_lt.mp hshort, not_lt.mp hpos⟩⟩

theorem next_eq_some {limit : Int64} {c c' : Cell} {r : Bytes} (h : c.next limit = some (r, c')) :
    c.pos < c.body.length ∧ c'.body = c.body ∧ c'.pos = c.pos + 8 + r.length ∧
      c.pos + r.length ≤ c.body.length ∧ (r.length : ℤ) ≤ limit.toInt ∧ r.length ≤ 512 * 1024 ∧
      r.length = ofBE (readAt c.file c.pos 8) ∧ r = readAt c.file (c.pos + 8) r.length := by
  unfold next at h
  dsimp only at h
  split_ifs at h with hread
  obtain ⟨hpos, hlimit, hbig, hfits⟩ := hread
  cases h
  have hlen : (readAt c.file (c.pos + 8) (ofBE (readAt c.file c.pos 8))).length =
      ofBE (readAt c.file c.pos 8) := by
    rw [length_readAt, length_file]; omega
  rw [hlen]
  exact ⟨hpos, rfl, rfl, hfits, hlimit, hbig, rfl, rfl⟩

theorem next_of_atEnd {limit : Int64} {c : Cell} (h : c.AtEnd) : c.next limit = none := by
  unfold next
  rw [if_neg]
  rintro ⟨hpos, -⟩
  rcases h with h | h <;> omega

end Cell

/-! ## The methods of a segment -/

theorem readBytes_eq (f : Bytes) (off n : ℕ) : readBytes f off n =
    if off + n ≤ f.length ∨ n = 0 then .ok (readAt f off n)
    else if f.length ≤ off then .error .eof else .error (.badRead (readAt f off n).length) := by
  have hlen := length_readAt f off n
  unfold readBytes
  dsimp only
  by_cases hfits : off + n ≤ f.length ∨ n = 0
  · rw [if_pos hfits, if_pos (by omega)]
  · rw [if_neg hfits, if_neg (by omega)]
    by_cases heof : f.length ≤ off
    · rw [if_pos heof, if_pos (by omega)]
    · rw [if_neg heof, if_neg (by omega)]

theorem readUint64_eq (f : Bytes) (off : ℕ) : readUint64 f off =
    if off + 8 ≤ f.length then .ok (ofBE (readAt f off 8))
    else if f.length ≤ off then .error .eof else .error (.badRead (readAt f off 8).length) := by
  unfold readUint64
  rw [readBytes_eq]
  simp only [OfNat.ofNat_ne_zero, or_false]
  split_ifs <;> rfl

/-- The segment `s` with the file `f` is the cell `c`. -/
structure CellRep (s : Segment) (f : Bytes) (c : Cell) : Prop where
  bytes : f = c.file
  pos : s.pos = c.pos
  size : s.size = c.body.length + 8
  small : c.body.length + 8 < 2 ^ 63

/-- `segment.open` accepts the files that are cells. -/
theorem openSegment_of_cell {s : Segment} {f : Bytes} {c : Cell} (h : Cell.ofFile f = some c)
    (hsize : s.size = f.length) (hsmall : f.length < 2 ^ 63) :
    ∃ s' w, s.openSegment f = .ok (s', w) ∧ CellRep s' (w.getD f) c := by
  unfold Segment.openSegment
  obtain ⟨rfl, rfl⟩ | ⟨hfile, hpos⟩ := Cell.ofFile_eq_some h
  · rw [if_pos (by rw [hsize]; rfl)]
    exact ⟨_, _, rfl, rfl, rfl, rfl, by simp⟩
  · have hlen := c.length_file
    rw [hfile, hlen] at hsmall
    rw [hfile, hlen] at hsize
    have hread : readUint64 f c.body.length = .ok c.pos :=
      readUint64_of_eq c.body [] (by simp [hfile, Cell.file]) rfl (by omega)
    have hseg : ∀ n, CellRep { s with pos := (c.pos : ℤ), currentSize := n } f c := fun n =>
      ⟨hfile, rfl, by rw [hsize]; push_cast; rfl, hsmall⟩
    rw [if_neg (by rw [hsize]; omega)]
    simp only [seekEnd_footer f hfile, hread, int64_of_lt hpos, seek_natCast, bind, Except.bind,
      pure, Except.pure]
    split_ifs with hunread
    · -- there are 8 bytes at a position before the footer
      have hhead : readUint64 f c.pos = .ok (ofBE (readAt f c.pos 8)) := by
        rw [readUint64_eq, if_pos]
        rw [hsize] at hunread
        unfold footerSize at hunread
        rw [hfile, hlen]
        omega
      simp only [hhead]
      exact ⟨_, _, rfl, hseg _⟩
    · exact ⟨_, _, rfl, hseg _⟩

theorem ofBE_lt (l : Bytes) : ofBE l < 256 ^ l.length := by
  have h := congrArg ofBE (toBE_ofBE l)
  rw [ofBE_toBE] at h
  rw [← h]
  exact Nat.mod_lt _ (by positivity)

/-- `segment.open` rejects all other files. -/
theorem openSegment_of_none {s : Segment} {f : Bytes} (h : Cell.ofFile f = none)
    (hsize : s.size = f.length) : ∃ e, s.openSegment f = .error e := by
  obtain ⟨hnil, hbad⟩ := Cell.ofFile_eq_none h
  have hlen : f.length ≠ 0 := fun h => hnil (List.length_eq_zero_iff.mp h)
  unfold Segment.openSegment
  rw [if_neg (by rw [hsize]; omega)]
  refine ⟨.invalidSeek, ?_⟩
  rcases hbad with hshort | ⟨hfooter, hpos⟩
  · have hseek : seekEnd f (-footerSize) = .error .invalidSeek := by
      unfold seekEnd seek footerSize
      rw [if_pos (by omega)]
    simp only [hseek, bind, Except.bind]
  · have hseek : seekEnd f (-footerSize) = .ok (f.length - 8) := by
      unfold seekEnd footerSize
      rw [show (f.length : ℤ) + -8 = (f.length - 8 : ℕ) by omega, seek_natCast]
    have hbytes : (f.drop (f.length - 8)).length = 8 := by rw [List.length_drop]; omega
    have hread : readUint64 f (f.length - 8) = .ok (ofBE (f.drop (f.length - 8))) := by
      rw [readUint64_eq, if_pos (by omega)]
      unfold readAt
      rw [List.take_of_length_le hbytes.le]
    -- the position is negative as an `int64`
    have hlt := ofBE_lt (f.drop (f.length - 8))
    rw [hbytes] at hlt
    have hneg : seek (int64 (ofBE (f.drop (f.length - 8)))) = .error .invalidSeek := by
      unfold seek
      rw [if_pos]
      unfold int64
      rw [if_neg (by omega)]
      omega
    simp only [hseek, hread, hneg, bind, Except.bind]

/-- A file that `segment.open` accepts is a cell. -/
theorem exists_cell_of_openSegment {s s' : Segment} {f : Bytes} {w : Option Bytes}
    (hopen : s.openSegment f = .ok (s', w)) (hsize : s.size = f.length)
    (hsmall : f.length < 2 ^ 63) : ∃ c, Cell.ofFile f = some c ∧ CellRep s' (w.getD f) c := by
  cases hc : Cell.ofFile f with
  | none =>
    obtain ⟨e, he⟩ := openSegment_of_none hc hsize
    rw [he] at hopen
    cases hopen
  | some c =>
    obtain ⟨s₁, w₁, hok, hrep⟩ := openSegment_of_cell hc hsize hsmall
    obtain ⟨rfl, rfl⟩ := Prod.mk.inj (Except.ok.inj (hok.symm.trans hopen))
    exact ⟨c, rfl, hrep⟩

/-- A file that it rejects is none. -/
theorem ofFile_of_openSegment_error {s : Segment} {f : Bytes} {e : Err}
    (herror : s.openSegment f = .error e) (hsize : s.size = f.length)
    (hsmall : f.length < 2 ^ 63) : Cell.ofFile f = none := by
  cases hc : Cell.ofFile f with
  | none => rfl
  | some c =>
    obtain ⟨s', w, hok, -⟩ := openSegment_of_cell hc hsize hsmall
    rw [hok] at herror
    cases herror

namespace CellRep

variable {s : Segment} {f : Bytes} {c c' : Cell} {r : Bytes}

/-- `current` returns the next record of the cell and caches its length. -/
theorem current_eq (h : CellRep s f c) (ho : s.isOpen = true)
    (hnext : c.next s.maxSize = some (r, c')) :
    s.current f = (.record r, { s with currentSize := r.length }) := by
  obtain ⟨hpos, -, -, hfits, hlimit, hbig, hsz, hr⟩ := Cell.next_eq_some hnext
  have hlen := c.length_file
  have hsmall := h.small
  have hread : readUint64 f c.pos = .ok r.length := by
    rw [h.bytes, readUint64_eq, if_pos (by omega), hsz]
  have hbody : readBytes f (c.pos + 8) r.length = .ok r := by
    rw [h.bytes, readBytes_eq, if_pos (by omega), ← hr]
  unfold Segment.current
  rw [h.pos, h.size, if_neg (by omega), if_neg (by simp [ho]), seek_natCast]
  simp only [hread, int64_of_lt (show r.length < 2 ^ 63 by omega), hbody]
  rw [if_neg (by omega), if_neg (by omega), if_neg (by omega)]

/-- `current` changes the cached length only. -/
theorem current_snd (s : Segment) (f : Bytes) :
    ∃ n, (s.current f).2 = { s with currentSize := n } := by
  have hself : s = { s with currentSize := s.currentSize } := rfl
  unfold Segment.current
  repeat' (first | exact ⟨_, hself⟩ | exact ⟨_, rfl⟩ | split | dsimp only)

/-- What `current` returns at a position before the footer, for the length `sz` that it
    reads there. -/
def readBlock (limit : Int64) (f : Bytes) (off sz : ℕ) : ReadResult :=
  if int64 sz > limit.toInt then .error (.recordSizeOutOfRange limit.toInt sz)
  else if int64 sz > 512 * 1024 then .error (.recordTooBig sz)
  else if int64 sz < 0 then .panicked
  else match readBytes f (off + 8) sz with
    | .error e => .error e
    | .ok b => .record b

/-- A length that the segment or the file has no room for gives no record. -/
theorem readBlock_ne_record {limit : Int64} {off sz : ℕ} (hoff : off + 8 < f.length)
    (hsz : sz < 2 ^ 64)
    (hbad : ¬ ((sz : ℤ) ≤ limit.toInt ∧ sz ≤ 512 * 1024 ∧ off + 8 + sz ≤ f.length)) (b : Bytes) :
    readBlock limit f off sz ≠ .record b := by
  unfold readBlock int64
  by_cases hsz63 : sz < 2 ^ 63
  · rw [if_pos hsz63]
    split_ifs with hlimit hbig hneg
    · simp
    · simp
    · simp
    · -- the length is in range, so the block does not fit the file
      rw [readBytes_eq, if_neg (by omega), if_neg (by omega)]
      simp
  · rw [if_neg hsz63]
    split_ifs with hlimit hbig hneg
    · simp
    · simp
    · simp
    · omega

/-- There is at least one byte behind the length field. -/
theorem readBlock_ne_eof (limit : Int64) {off : ℕ} (sz : ℕ) (hoff : off + 8 < f.length) :
    readBlock limit f off sz ≠ .error .eof := by
  unfold readBlock
  split_ifs <;> try simp
  rw [readBytes_eq]
  by_cases hfits : off + 8 + sz ≤ f.length ∨ sz = 0
  · rw [if_pos hfits]; simp
  · rw [if_neg hfits, if_neg (by omega)]; simp

/-- The four places where the position can be. -/
theorem current_fst (h : CellRep s f c) (ho : s.isOpen = true) :
    (s.current f).1 =
      if c.pos < c.body.length then readBlock s.maxSize f c.pos (ofBE (readAt c.file c.pos 8))
      else if c.Ended then .error .eof else .error (.badRead (readAt c.file c.pos 8).length) := by
  have hatFooter : s.pos = s.size - 8 ↔ c.pos = c.body.length := by
    rw [h.pos, h.size]; omega
  have hread := readUint64_eq c.file c.pos
  rw [c.length_file] at hread
  unfold Segment.current
  by_cases hfooter : c.pos = c.body.length
  · rw [if_pos (hatFooter.mpr hfooter), if_neg (by omega), if_pos (.inl hfooter)]
  rw [if_neg (hatFooter.not.mpr hfooter), if_neg (by simp [ho]), h.pos, seek_natCast]
  by_cases hbefore : c.pos < c.body.length
  · rw [if_pos (by omega)] at hread
    rw [if_pos hbefore, h.bytes]
    simp only [hread]
    unfold readBlock
    split_ifs <;> try rfl
    cases readBytes c.file (c.pos + 8) (ofBE (readAt c.file c.pos 8)) <;> rfl
  · rw [if_neg (by omega)] at hread
    rw [if_neg hbefore, h.bytes]
    by_cases hout : c.body.length + 8 ≤ c.pos
    · rw [if_pos hout] at hread
      simp only [hread]
      rw [if_pos (.inr hout)]
    · rw [if_neg hout] at hread
      simp only [hread]
      rw [if_neg (show ¬ c.Ended from not_or.mpr ⟨hfooter, hout⟩)]

/-- Where the cell has no record, `current` returns none. -/
theorem current_ne_record (h : CellRep s f c) (ho : s.isOpen = true)
    (hnext : c.next s.maxSize = none) (b : Bytes) : (s.current f).1 ≠ .record b := by
  have hlen := c.length_file
  have hsmall := h.small
  rw [h.current_fst ho]
  by_cases hbefore : c.pos < c.body.length
  swap
  · rw [if_neg hbefore]
    split_ifs <;> simp
  rw [if_pos hbefore]
  have hsz := ofBE_lt (readAt c.file c.pos 8)
  have height : (readAt c.file c.pos 8).length = 8 := by rw [length_readAt]; omega
  rw [height] at hsz
  unfold Cell.next at hnext
  rw [ite_eq_right_iff] at hnext
  generalize ofBE (readAt c.file c.pos 8) = sz at hnext hsz
  rw [h.bytes]
  refine readBlock_ne_record (by omega) hsz ?_ b
  rintro ⟨hlimit, hbig, hfits⟩
  simpa using hnext ⟨hbefore, hlimit, hbig, by omega⟩

/-- `current` reports `io.EOF` at the footer and outside of the file. -/
theorem current_eq_eof_iff (h : CellRep s f c) (ho : s.isOpen = true) :
    (s.current f).1 = .error .eof ↔ c.Ended := by
  rw [h.current_fst ho]
  by_cases hbefore : c.pos < c.body.length
  · rw [if_pos hbefore]
    have hended : ¬ c.Ended := by unfold Cell.Ended; omega
    have hlen : c.pos + 8 < f.length := by rw [h.bytes, c.length_file]; omega
    exact iff_of_false (readBlock_ne_eof _ _ hlen) hended
  · rw [if_neg hbefore]
    split_ifs with hended <;> simp [hended]

/-- `advance` moves to the next cell, and reports `io.EOF` if that is at its end. -/
theorem advance_eq (h : CellRep s f c) (ho : s.isOpen = true)
    (hnext : c.next s.maxSize = some (r, c')) (hc : s.currentSize = r.length) :
    ∃ e s' f', s.advance f = (e, s', some f') ∧ CellRep s' f' c' ∧ (e = some .eof ↔ c'.AtEnd) := by
  obtain ⟨hpos, hbody, hpos', hfits, -, -, -, -⟩ := Cell.next_eq_some hnext
  have hsmall := h.small
  have hmove : int64 (uint64 (s.pos + s.currentSize + 8)) = (c'.pos : ℕ) := by
    rw [h.pos, hc, show (c.pos : ℤ) + r.length + 8 = (c'.pos : ℕ) by rw [hpos']; push_cast; ring,
      uint64_of_nonneg (by omega) (by omega), Int.toNat_natCast, int64_of_lt (by omega)]
  have hfooter : uint64 (c'.pos : ℕ) = c'.pos := by
    rw [uint64_of_nonneg (by omega) (by omega), Int.toNat_natCast]
  have hfile : writeAt f c.body.length (toBE 8 c'.pos) = c'.file := by
    rw [h.bytes, Cell.file, writeAt_tail _ _ _ rfl (by simp), Cell.file, hbody]
  have hrep : ∀ n, CellRep { s with pos := (c'.pos : ℤ), currentSize := n } c'.file c' := fun n =>
    ⟨rfl, rfl, by rw [hbody]; exact h.size, by rw [hbody]; exact hsmall⟩
  have hlen : c'.body.length = c.body.length := by rw [hbody]
  have hatFooter : ((c'.pos : ℕ) : ℤ) = s.size - footerSize ↔ c'.pos = c'.body.length := by
    rw [h.size, hlen]
    unfold footerSize
    omega
  have hread := readUint64_eq c'.file c'.pos
  rw [c'.length_file] at hread
  unfold Segment.advance Cell.AtEnd
  rw [if_neg (by simp [ho]), if_neg (by rw [h.pos, h.size]; unfold footerSize; omega),
    seekEnd_footer f h.bytes]
  simp only [hmove, hfooter, hfile, seek_natCast]
  by_cases hin : c'.pos + 8 ≤ c'.body.length + 8
  · rw [if_pos hin] at hread
    simp only [hread]
    by_cases hend : c'.pos = c'.body.length
    · rw [if_pos (hatFooter.mpr hend)]
      exact ⟨_, _, _, rfl, hrep _, by simp [hend]⟩
    · rw [if_neg (hatFooter.not.mpr hend)]
      refine ⟨_, _, _, rfl, hrep _, ?_⟩
      simp only [reduceCtorEq, false_iff]
      omega
  · rw [if_neg hin] at hread
    by_cases heof : c'.body.length + 8 ≤ c'.pos
    · rw [if_pos heof] at hread
      simp only [hread]
      refine ⟨_, _, _, rfl, hrep s.currentSize, ?_⟩
      simp only [true_iff]
      omega
    · rw [if_neg heof] at hread
      simp only [hread]
      refine ⟨_, _, _, rfl, hrep s.currentSize, ?_⟩
      simp only [Option.some.injEq, reduceCtorEq, false_iff]
      omega

end CellRep

/-! ## Chains of blocks -/

/-- The records `rs` are read one after the other from `c`, and then the cell is `c'`. -/
inductive Chain (limit : Int64) : Cell → List Bytes → Cell → Prop
  | nil (c : Cell) : Chain limit c [] c
  | cons {c c₁ c' : Cell} {r : Bytes} {rs : List Bytes} (head : c.next limit = some (r, c₁))
      (tail : Chain limit c₁ rs c') : Chain limit c (r :: rs) c'

/-- A chain of blocks leads from the position to the end of the cell. -/
def Cell.Passes (limit : Int64) (c : Cell) : Prop :=
  ∃ rs c', rs ≠ [] ∧ Chain limit c rs c' ∧ c'.AtEnd

/-- The cell of a well-formed file with the records `done` and `todo`. -/
structure Cell.Holds (c : Cell) (done todo : List Bytes) : Prop where
  body : c.body = blocks done ++ blocks todo
  pos : c.pos = (blocks done).length
  small : c.body.length < 2 ^ 63

variable {limit : Int64} {c c' : Cell}

theorem Chain.concat {c₁ : Cell} {rs : List Bytes} {r : Bytes} (h : Chain limit c rs c₁)
    (hnext : c₁.next limit = some (r, c')) : Chain limit c (rs ++ [r]) c' := by
  induction h with
  | nil c => exact .cons hnext (.nil c')
  | cons head _ ih => exact .cons head (ih hnext)

namespace Cell.Holds

variable {done todo : List Bytes}

theorem next_nil (h : c.Holds done []) : c.next limit = none :=
  Cell.next_of_atEnd (.inl (by rw [h.pos, h.body]; simp))

/-- The next record of a well-formed file is its first unread one. -/
theorem next_cons {r r' : Bytes} {rest : List Bytes} (h : c.Holds done (r :: rest))
    (hnext : c.next limit = some (r', c')) : r' = r ∧ c'.Holds (done ++ [r]) rest := by
  obtain ⟨-, hbody, hpos', -, -, -, hsz, hr⟩ := Cell.next_eq_some hnext
  have hsmall := h.small
  rw [h.body] at hsmall
  simp only [blocks_cons, List.length_append, length_block] at hsmall
  have hfile : c.file = blocks done ++ toBE 8 r.length ++ (r ++ (blocks rest ++ toBE 8 c.pos)) := by
    simp [Cell.file, h.body, block]
  have hlen : r'.length = r.length := by
    rw [hsz, hfile, readAt_append _ _ _ h.pos (by simp), ofBE_toBE_of_lt (by omega)]
  have hrec : r' = r := by
    rw [hr, hlen, hfile, ← List.append_assoc (_ ++ _) r]
    exact readAt_append _ r _ (by simp [h.pos]) rfl
  refine ⟨hrec, by rw [hbody, h.body]; simp, ?_, by rw [hbody]; exact h.small⟩
  rw [hpos', hlen, h.pos]
  simp; omega

/-- The chains of a well-formed file are made of its unread records. -/
theorem chain {rs : List Bytes} (h : c.Holds done todo) (hchain : Chain limit c rs c') :
    ∃ rest, todo = rs ++ rest ∧ c'.Holds (done ++ rs) rest := by
  induction hchain generalizing done todo with
  | nil c => exact ⟨todo, rfl, by rwa [List.append_nil]⟩
  | @cons c c₁ c' r rs head _ ih =>
    cases todo with
    | nil => rw [h.next_nil] at head; cases head
    | cons r₀ todo =>
      obtain ⟨rfl, h₁⟩ := h.next_cons head
      obtain ⟨rest, rfl, h'⟩ := ih h₁
      exact ⟨rest, rfl, by rwa [List.append_assoc] at h'⟩

theorem length_body (h : c.Holds done todo) : c.body.length = c.pos + (blocks todo).length := by
  rw [h.body, h.pos, List.length_append]

theorem blocks_pos (h : todo ≠ []) : 0 < (blocks todo).length := by
  obtain ⟨r, rest, rfl⟩ := List.exists_cons_of_ne_nil h
  simp

theorem atEnd_iff (h : c.Holds done todo) : c.AtEnd ↔ todo = [] := by
  have hlen := h.length_body
  unfold Cell.AtEnd
  by_cases hnil : todo = []
  · simp [hlen, hnil]
  · have := blocks_pos hnil
    simp only [hnil, iff_false]
    omega

theorem todo_of_ended (h : c.Holds done todo) (hended : c.Ended) : todo = [] := by
  have hlen := h.length_body
  unfold Cell.Ended at hended
  by_contra hne
  have := blocks_pos hne
  omega

end Cell.Holds

/-! ## A client -/

/-- `Current`, and `Advance` if it returned a record, with the files `l`: what is read, from
    which file, and the files then. -/
def Cells.receive (limit : Int64) :
    List (String × Cell) → Option (String × Bytes) × List (String × Cell)
  | [] => (none, [])
  | (name, c) :: rest =>
    match c.next limit with
    | none => (none, (name, c) :: rest)
    | some (r, c') =>
      (some (name, r), if c'.AtEnd ∧ rest ≠ [] then rest else (name, c') :: rest)

theorem Cells.receive_of_none {name : String} {rest : List (String × Cell)}
    (h : c.next limit = none) :
    Cells.receive limit ((name, c) :: rest) = (none, (name, c) :: rest) := by
  simp only [Cells.receive, h]

theorem Cells.receive_of_some {name : String} {rest : List (String × Cell)} {r : Bytes}
    (h : c.next limit = some (r, c')) : Cells.receive limit ((name, c) :: rest) =
      (some (name, r), if c'.AtEnd ∧ rest ≠ [] then rest else (name, c') :: rest) := by
  simp only [Cells.receive, h]

/-- What is read in `n` rounds. -/
def Cells.received (limit : Int64) : ℕ → List (String × Cell) → List (String × Bytes)
  | 0, _ => []
  | n + 1, l => (Cells.receive limit l).1.toList ++ Cells.received limit n (Cells.receive limit l).2

/-- Records that are read from the file `name`. -/
def tagged (name : String) (rs : List Bytes) : List (String × Bytes) := rs.map fun r => (name, r)

/-- From the files `files` a client has read `reads`, and is at `l`: it has left the first
    ones at their ends. -/
inductive Progress (limit : Int64) :
    List (String × Cell) → List (String × Bytes) → List (String × Cell) → Prop
  | first {name : String} {c c' : Cell} {rs : List Bytes} {rest : List (String × Cell)}
      (chain : Chain limit c rs c') :
      Progress limit ((name, c) :: rest) (tagged name rs) ((name, c') :: rest)
  | later {name : String} {c c' : Cell} {rs : List Bytes} {rest l : List (String × Cell)}
      {reads : List (String × Bytes)} (chain : Chain limit c rs c') (nonempty : rs ≠ [])
      (atEnd : c'.AtEnd) (progress : Progress limit rest reads l) :
      Progress limit ((name, c) :: rest) (tagged name rs ++ reads) l

variable {files l : List (String × Cell)} {reads : List (String × Bytes)}

theorem Progress.step (h : Progress limit files reads l) :
    Progress limit files (reads ++ (Cells.receive limit l).1.toList) (Cells.receive limit l).2 := by
  induction h with
  | @first name c c' rs rest chain =>
    cases hnext : c'.next limit with
    | none =>
      rw [Cells.receive_of_none hnext]
      simpa using Progress.first chain
    | some read =>
      obtain ⟨r, c₁⟩ := read
      have hchain := chain.concat hnext
      have hreads : tagged name rs ++ [(name, r)] = tagged name (rs ++ [r]) := by simp [tagged]
      rw [Cells.receive_of_some hnext]
      dsimp only [Option.toList_some]
      rw [hreads]
      split_ifs with hmove
      · -- the client goes on to the next file
        obtain ⟨hend, hrest⟩ := hmove
        obtain ⟨⟨name₂, c₂⟩, rest₂, rfl⟩ := List.exists_cons_of_ne_nil hrest
        have hnew : Progress limit ((name₂, c₂) :: rest₂) (tagged name₂ [])
            ((name₂, c₂) :: rest₂) := .first (.nil c₂)
        simpa [tagged] using Progress.later hchain (by simp) hend hnew
      · exact .first hchain
  | later chain nonempty atEnd _ ih =>
    rw [List.append_assoc]
    exact .later chain nonempty atEnd ih

/-- Whatever the number of rounds, a client is somewhere on its way. -/
theorem Progress.received (h : Progress limit files reads l) (n : ℕ) :
    ∃ l', Progress limit files (reads ++ Cells.received limit n l) l' := by
  induction n generalizing reads l with
  | zero => exact ⟨l, by simpa [Cells.received] using h⟩
  | succ n ih =>
    obtain ⟨l', h'⟩ := ih h.step
    exact ⟨l', by rwa [List.append_assoc] at h'⟩

theorem Cells.exists_progress (limit : Int64) (hne : files ≠ []) (n : ℕ) :
    ∃ l, Progress limit files (Cells.received limit n files) l := by
  obtain ⟨⟨name, c⟩, rest, rfl⟩ := List.exists_cons_of_ne_nil hne
  have hstart : Progress limit ((name, c) :: rest) (tagged name []) ((name, c) :: rest) :=
    .first (.nil c)
  exact hstart.received n

/-- A chain of blocks to the end of the first file is read in as many rounds. -/
theorem Cells.received_of_chain {name : String} {rs : List Bytes} {rest : List (String × Cell)}
    (h : Chain limit c rs c') (hne : rs ≠ []) (hend : c'.AtEnd) (n : ℕ) :
    Cells.received limit (rs.length + n) ((name, c) :: rest) =
      tagged name rs ++
        Cells.received limit n (if rest ≠ [] then rest else [(name, c')]) := by
  induction h with
  | nil c => exact absurd rfl hne
  | @cons c c₁ c' r rs head tail ih =>
    rw [show (r :: rs).length + n = rs.length + n + 1 by simp; omega, Cells.received,
      Cells.receive_of_some head]
    cases tail with
    | nil =>
      by_cases hrest : rest = []
      · simp [hrest, tagged]
      · simp [hrest, hend, tagged]
    | cons head₁ tail₁ =>
      -- there is a record at `c₁`, so that is not the end
      have hmore : ¬ c₁.AtEnd := fun hc => by rw [Cell.next_of_atEnd hc] at head₁; cases head₁
      have hrest := ih (by simp) hend
      simp only [hmore, false_and, if_false]
      rw [hrest]
      rfl

/-! ## Which files are read to the end -/

variable {valid : String → Bool} {done todo : String → List Bytes}

/-- Every file up to one with unread records, among those that are `valid`, is a chain of
    blocks from its position to its end. -/
def PassesTo (limit : Int64) (valid : String → Bool) (todo : String → List Bytes)
    (files : List (String × Cell)) : Prop :=
  ∀ before e after, files = before ++ e :: after → valid e.1 = true → todo e.1 ≠ [] →
    ∀ d ∈ before ++ [e], d.2.Passes limit

/-- The unread records of the files that are `valid`, in order. -/
def unreadOf (valid : String → Bool) (todo : String → List Bytes) (names : List String) :
    List (String × Bytes) :=
  (names.filter valid).flatMap fun name => tagged name (todo name)

theorem unreadOf_append (valid : String → Bool) (todo : String → List Bytes) (l l' : List String) :
    unreadOf valid todo (l ++ l') = unreadOf valid todo l ++ unreadOf valid todo l' := by
  simp [unreadOf]

theorem filter_tagged_self (name : String) (rs : List Bytes) :
    (tagged name rs).filter (fun read => read.1 = name) = tagged name rs := by
  simp [tagged, List.filter_eq_self]

theorem filter_tagged_of_ne {name other : String} (h : name ≠ other) (rs : List Bytes) :
    (tagged name rs).filter (fun read => read.1 = other) = [] := by
  simp [tagged, List.filter_eq_nil_iff, h]

/-- The part of the unread records that is in one file. -/
theorem filter_unreadOf {names : List String} {name : String} (hnodup : names.Nodup)
    (hname : name ∈ names) (hv : valid name = true) :
    (unreadOf valid todo names).filter (fun read => read.1 = name) = tagged name (todo name) := by
  obtain ⟨before, after, rfl⟩ := List.append_of_mem hname
  have hothers : ∀ l : List String, name ∉ l →
      (unreadOf valid todo l).filter (fun read => read.1 = name) = [] := by
    intro l hl
    rw [List.filter_eq_nil_iff]
    intro read hread
    obtain ⟨other, hother, hmem⟩ := List.mem_flatMap.mp hread
    obtain ⟨r, -, rfl⟩ := List.mem_map.mp hmem
    have hne : other ≠ name := fun he => hl (he ▸ List.mem_of_mem_filter hother)
    simpa using hne
  obtain ⟨-, hafter, hdisj⟩ := List.nodup_append.mp hnodup
  have hself : unreadOf valid todo [name] = tagged name (todo name) := by simp [unreadOf, hv]
  rw [← List.singleton_append, unreadOf_append, unreadOf_append, List.filter_append,
    List.filter_append, hself, filter_tagged_self,
    hothers before fun hmem => hdisj name hmem name List.mem_cons_self rfl,
    hothers after (List.nodup_cons.mp hafter).1, List.nil_append, List.append_nil]

theorem filter_of_unreadOf {names : List String} {name : String}
    (hreads : reads.filter (fun read => valid read.1) = unreadOf valid todo names)
    (hnodup : names.Nodup) (hname : name ∈ names) (hv : valid name = true) :
    reads.filter (fun read => read.1 = name) = tagged name (todo name) := by
  rw [← filter_unreadOf hnodup hname hv, ← hreads, List.filter_filter]
  refine List.filter_congr fun read _ => ?_
  by_cases he : read.1 = name
  · simp [he, hv]
  · simp [he]

/-- No other file has the name of the first one. -/
theorem eq_nil_of_nodup_names {e x : String × Cell} {rest before after : List (String × Cell)}
    (hnodup : ((e :: rest).map Prod.fst).Nodup) (hsplit : e :: rest = before ++ x :: after)
    (hname : e.1 = x.1) : before = [] := by
  cases before with
  | nil => rfl
  | cons b before =>
    have hmem : x ∈ rest := by
      rw [(List.cons.inj hsplit).2]
      simp
    exact absurd (List.mem_map.mpr ⟨x, hmem, hname.symm⟩) (List.nodup_cons.mp hnodup).1

/-- What has been read completely from a valid file has passed it and all before it. -/
theorem Progress.passesTo (h : Progress limit files reads l) (hnodup : (files.map Prod.fst).Nodup)
    (hvalid : ∀ e ∈ files, valid e.1 = true → e.2.Holds (done e.1) (todo e.1))
    (hread : ∀ e ∈ files, valid e.1 = true →
      reads.filter (fun read => read.1 = e.1) = tagged e.1 (todo e.1)) :
    PassesTo limit valid todo files := by
  induction h with
  | @first name c c' rs rest chain =>
    intro before e after hsplit hv hunread d hd
    have he := hread e (by rw [hsplit]; simp) hv
    -- only the first file has been read from
    have hname : name = e.1 := by
      by_contra hne
      rw [filter_tagged_of_ne hne] at he
      exact hunread (List.map_eq_nil_iff.mp he.symm)
    obtain rfl := eq_nil_of_nodup_names hnodup hsplit hname
    obtain ⟨rfl, rfl⟩ : (name, c) = e ∧ rest = after := by simpa using hsplit
    obtain rfl : d = (name, c) := by simpa using hd
    rw [filter_tagged_self] at he
    obtain rfl : rs = todo name :=
      List.map_injective_iff.mpr (fun r r' hr => (Prod.mk.inj hr).2) he
    obtain ⟨left, hleft, hholds⟩ := (hvalid (name, c) List.mem_cons_self hv).chain chain
    obtain rfl : left = [] := by simpa using hleft
    exact ⟨_, c', hunread, chain, hholds.atEnd_iff.mpr rfl⟩
  | @later name c c' rs rest l reads chain nonempty atEnd _ ih =>
    intro before e after hsplit hv hunread d hd
    have hpasses : c.Passes limit := ⟨rs, c', nonempty, chain, atEnd⟩
    obtain ⟨hnew, hnodup⟩ := List.nodup_cons.mp hnodup
    cases before with
    | nil =>
      obtain ⟨rfl, rfl⟩ : (name, c) = e ∧ rest = after := by simpa using hsplit
      obtain rfl : d = (name, c) := by simpa using hd
      exact hpasses
    | cons b before =>
      obtain ⟨rfl, rfl⟩ : (name, c) = b ∧ rest = before ++ e :: after := by simpa using hsplit
      rcases List.mem_cons.mp hd with rfl | hd
      · exact hpasses
      · refine ih hnodup (fun x hx => hvalid x (List.mem_cons_of_mem _ hx)) (fun x hx hxv => ?_)
          before e after rfl hv hunread d hd
        have hx' := hread x (List.mem_cons_of_mem _ hx) hxv
        have hne : name ≠ x.1 := fun heq => hnew (List.mem_map.mpr ⟨x, hx, heq.symm⟩)
        rwa [List.filter_append, filter_tagged_of_ne hne, List.nil_append] at hx'

theorem PassesTo.tail {e : String × Cell} {rest : List (String × Cell)}
    (h : PassesTo limit valid todo (e :: rest)) : PassesTo limit valid todo rest := by
  intro before x after hsplit hv hunread d hd
  exact h (e :: before) x after (by rw [hsplit]; rfl) hv hunread d (List.mem_cons_of_mem _ hd)

/-- If any file has unread records, the first one passes. -/
theorem PassesTo.head {e x : String × Cell} {rest : List (String × Cell)}
    (h : PassesTo limit valid todo (e :: rest)) (hx : x ∈ e :: rest) (hv : valid x.1 = true)
    (hunread : todo x.1 ≠ []) : e.2.Passes limit := by
  obtain ⟨before, after, hsplit⟩ := List.append_of_mem hx
  refine h before x after hsplit hv hunread e ?_
  cases before with
  | nil => simpa using (List.cons.inj hsplit).1
  | cons b before => simp [(List.cons.inj hsplit).1]

theorem unreadOf_eq_nil {names : List String}
    (h : ∀ name ∈ names, valid name = true → todo name = []) : unreadOf valid todo names = [] := by
  unfold unreadOf
  rw [List.flatMap_eq_nil_iff]
  intro name hname
  obtain ⟨hmem, hv⟩ := List.mem_filter.mp hname
  rw [h name hmem hv]
  rfl

/-- A chain to the end of a valid file has all of its unread records. -/
theorem Chain.filter_valid {name : String} {rs : List Bytes}
    (hvalid : valid name = true → c.Holds (done name) (todo name)) (h : Chain limit c rs c')
    (hend : c'.AtEnd) :
    (tagged name rs).filter (fun read => valid read.1) = unreadOf valid todo [name] := by
  unfold unreadOf
  cases hv : valid name with
  | false => simp [tagged, hv]
  | true =>
    obtain ⟨left, hleft, hholds⟩ := (hvalid hv).chain h
    obtain rfl : left = [] := hholds.atEnd_iff.mp hend
    rw [List.append_nil] at hleft
    simp [tagged, hv, hleft]

/-- If the files pass, a client reads all unread records of the valid ones. -/
theorem Cells.exists_received
    (hvalid : ∀ e ∈ files, valid e.1 = true → e.2.Holds (done e.1) (todo e.1))
    (hpasses : PassesTo limit valid todo files) :
    ∃ n, (Cells.received limit n files).filter (fun read => valid read.1) =
      unreadOf valid todo (files.map Prod.fst) := by
  induction files with
  | nil => exact ⟨0, rfl⟩
  | cons e rest ih =>
    by_cases hnone : ∀ x ∈ e :: rest, valid x.1 = true → todo x.1 = []
    · refine ⟨0, ?_⟩
      rw [unreadOf_eq_nil]
      · rfl
      · intro name hname hv
        obtain ⟨x, hx, rfl⟩ := List.mem_map.mp hname
        exact hnone x hx hv
    · -- the first file passes, and the client goes on to the others
      obtain ⟨name, c⟩ := e
      push Not at hnone
      obtain ⟨x, hx, hxv, hxunread⟩ := hnone
      obtain ⟨rs, c', hne, hchain, hend⟩ := hpasses.head hx hxv hxunread
      obtain ⟨n, hn⟩ := ih (fun x hx => hvalid x (List.mem_cons_of_mem _ hx)) hpasses.tail
      have hown := hchain.filter_valid (hvalid (name, c) List.mem_cons_self) hend
      by_cases hrest : rest = []
      · refine ⟨rs.length + 0, ?_⟩
        rw [Cells.received_of_chain hchain hne hend, Cells.received, List.append_nil, hown, hrest]
        rfl
      · refine ⟨rs.length + n, ?_⟩
        rw [Cells.received_of_chain hchain hne hend, if_pos hrest, List.filter_append, hown, hn]
        exact (unreadOf_append valid todo [name] (rest.map Prod.fst)).symm

end MetricStore.Handoff
