import MetricStore.Common.Run
import MetricStore.Handoff.Segment

/-!
# The cursor of a segment

A segment keeps the position `pos` of its head block and caches the length of that block in
`currentSize`, so that `advance` can skip it without reading it. The cache is set in four
places: `open` and `advance` read the length at the new position, `current` reads it again,
and `append` sets it if it is 0, which is meant for the first record behind an exhausted
segment (`internal/handoff/queue.go`, lines 447–621).

An empty block has the length 0, too. An `append` behind one that has not been read takes the
cache for unset and puts in the length of the new record: `advance` then skips a block of
that length where an empty one is, and ends between two blocks.

Runs are made of the four methods, in any order and without file errors; a segment may also
be opened anew from its file, with another limit on its size.

Results:
* `SegmentLog.step_inv`: any call but such an `append` keeps the cursor at a block, with the
  length of that block.
* `cursor_kept_iff`: the cursor is right in every state of a run exactly if the run has no
  `append` of a record that fits, and is not empty, while the head block is an empty one.
* `advance_between_blocks`: two appends after which `advance` leaves the block boundaries.
-/

namespace MetricStore.Handoff

open MetricStore.Common

/-! ## Model -/

/-- A segment, the bytes of its file, the records it has accepted, and the number of records
    it has been advanced past. -/
structure SegmentLog where
  segment : Segment
  file : Bytes
  records : List Bytes
  advanced : ℕ
  deriving DecidableEq, Repr

/-- The calls: the four methods, and opening the file anew. -/
inductive SegmentCall
  /-- `newSegment` on the file, after the segment has been closed. -/
  | reopen (maxSize : Int64)
  /-- `open` on the segment itself. -/
  | openAgain
  | append (b : Bytes)
  | current
  | advance
  deriving DecidableEq, Repr

namespace SegmentLog

/-- A segment on a new file. -/
def start (path : String) (maxSize : Int64) : SegmentLog where
  segment :=
    { size := footerSize, isOpen := true, path := path, pos := 0, currentSize := 0,
      maxSize := maxSize }
  file := toBE 8 (uint64 0)
  records := []
  advanced := 0

/-- What a call that opens the segment leaves; `none` if it fails. -/
def opened (s : SegmentLog) (r : Except Err (Segment × Option Bytes)) : Option SegmentLog :=
  r.toOption.map fun r => { s with segment := r.1, file := r.2.getD s.file }

/-- One call, without file errors; `none` if it panics or the segment cannot be opened. A call
    of `advance` counts if there is a record to be advanced past. -/
def step (s : SegmentLog) : SegmentCall → Option SegmentLog
  | .reopen maxSize => s.opened (newSegment s.segment.path maxSize s.file)
  | .openAgain => s.opened (s.segment.openSegment s.file)
  | .append b =>
    let (err, segment, written) := s.segment.append {} s.file b
    some { s with
      segment := segment
      file := written.getD s.file
      records := if err = none then s.records ++ [b] else s.records }
  | .current =>
    let (result, segment) := s.segment.current s.file
    if result = .panicked then none else some { s with segment := segment }
  | .advance =>
    let (_, segment, written) := s.segment.advance s.file
    some { s with
      segment := segment
      file := written.getD s.file
      advanced := if s.segment.pos = s.segment.size - footerSize then s.advanced
        else s.advanced + 1 }

/-! ## Specification -/

/-- Where the block of record number `i` begins; the end of the blocks if there is no such
    record. -/
def boundary (s : SegmentLog) (i : ℕ) : ℕ := (blocks (s.records.take i)).length

/-- **The cursor is right**: the file is the blocks of the accepted records and a footer with
    the position, which is that of the first record that has not been advanced past; the
    cached length is the length of that record, and 0 if there is none. -/
structure CursorRight (s : SegmentLog) : Prop where
  bytes : s.file = blocks s.records ++ toBE 8 (uint64 s.segment.pos)
  within : s.advanced ≤ s.records.length
  position : s.segment.pos = s.boundary s.advanced
  cached : s.segment.currentSize = headLength (s.records.drop s.advanced)

/-- `advance` moves the position, and the one in the footer, from the block of a record to
    that of the next one. -/
def AdvancesByOne (s : SegmentLog) : Prop :=
  s.advanced < s.records.length → ∃ s', s.step .advance = some s' ∧
    s'.segment.pos = s.boundary (s.advanced + 1) ∧
    s'.file = blocks s.records ++ toBE 8 (s.boundary (s.advanced + 1))

/-- The head block is an empty one that has not been advanced past. -/
def EmptyHead (s : SegmentLog) : Prop :=
  s.segment.pos ≠ s.segment.size - footerSize ∧
    (readUint64 s.file s.segment.pos.toNat).toOption = some 0

/-- No record that fits, and is not empty, is appended while the head block is an empty one. -/
def Fresh (s : SegmentLog) : SegmentCall → Prop
  | .append b => b ≠ [] → s.segment.size + b.length ≤ s.segment.maxSize.toInt → ¬ s.EmptyHead
  | _ => True

instance (s : SegmentLog) : Decidable s.EmptyHead := inferInstanceAs (Decidable (_ ∧ _))

instance (s : SegmentLog) : DecidablePred s.Fresh
  | .append b => inferInstanceAs (Decidable (b ≠ [] →
      s.segment.size + b.length ≤ s.segment.maxSize.toInt → ¬ s.EmptyHead))
  | .reopen _ => isTrue trivial
  | .openAgain => isTrue trivial
  | .current => isTrue trivial
  | .advance => isTrue trivial

/-! ## One call -/

/-- The segment represents the records before and after the cursor, and has the length of the
    head block. -/
structure Inv (s : SegmentLog) : Prop where
  isOpen : s.segment.isOpen = true
  within : s.advanced ≤ s.records.length
  rep : SegRep s.segment s.file (s.records.take s.advanced) (s.records.drop s.advanced)
  cached : s.segment.currentSize = headLength (s.records.drop s.advanced)

variable {s s' : SegmentLog}

theorem start_inv (path : String) (maxSize : Int64) : (start path maxSize).Inv :=
  ⟨rfl, le_rfl, segRep_new rfl rfl, rfl⟩

theorem Inv.cursorRight (h : s.Inv) : s.CursorRight := by
  refine ⟨?_, h.within, h.rep.pos, h.cached⟩
  rw [h.rep.uint64_pos]
  conv_lhs => rw [h.rep.bytes]
  rw [← blocks_append, List.take_append_drop]

/-- The position is that of the footer exactly if all records have been advanced past. -/
theorem Inv.at_end_iff (h : s.Inv) :
    s.segment.pos = s.segment.size - footerSize ↔ s.records.drop s.advanced = [] :=
  h.rep.pos_eq_end_iff

theorem Inv.emptyHead_iff (h : s.Inv) :
    s.EmptyHead ↔ ∃ rest, s.records.drop s.advanced = [] :: rest := by
  have hrep := h.rep
  unfold EmptyHead
  rw [Ne, h.at_end_iff, hrep.pos, Int.toNat_natCast]
  cases hdrop : s.records.drop s.advanced with
  | nil => simp
  | cons r rest =>
    rw [hdrop] at hrep
    rw [hrep.readUint64_head]
    simp [Except.toOption]

/-- A call that opens the segment finds the cursor where it was. -/
theorem Inv.opened (h : s.Inv) {s₀ : Segment} (hopen : s₀.isOpen = true)
    (hsize : s₀.size = s.segment.size)
    (hcur : s.records.drop s.advanced = [] → s₀.currentSize = 0) :
    ∃ s', s.opened (s₀.openSegment s.file) = some s' ∧ s'.Inv := by
  rw [h.rep.openSegment_of_end hsize hcur]
  exact ⟨_, rfl, hopen, h.within, h.rep.congr rfl hsize, rfl⟩

/-- The segment after an accepted append. -/
def appended (s : SegmentLog) (b f : Bytes) : SegmentLog :=
  { s with
    segment := { s.segment with
      currentSize := if s.segment.currentSize = 0 then b.length else s.segment.currentSize
      size := s.segment.size + (b.length + 8) }
    file := f
    records := s.records ++ [b] }

/-- An accepted append adds its record behind the others. -/
theorem Inv.append (h : s.Inv) {b : Bytes}
    (hfits : s.segment.size + b.length ≤ s.segment.maxSize.toInt) :
    ∃ f, s.step (.append b) = some (s.appended b f) ∧
      SegRep (s.appended b f).segment f (s.records.take s.advanced)
        (s.records.drop s.advanced ++ [b]) := by
  obtain ⟨f, happend, hrep⟩ := h.rep.append_ok h.isOpen hfits
  refine ⟨f, ?_, hrep _ rfl rfl⟩
  simp only [step, happend, if_true, Option.getD_some]
  rfl

/-- The length that an append caches is that of the head block, unless this is empty and the
    new record is not. -/
theorem Inv.cached_appended_iff (h : s.Inv) {b f : Bytes} :
    (s.appended b f).segment.currentSize = headLength ((s.records ++ [b]).drop s.advanced) ↔
      (b ≠ [] → ¬ s.EmptyHead) := by
  rw [h.emptyHead_iff, List.drop_append_of_le_length h.within]
  show (if s.segment.currentSize = 0 then (b.length : ℤ) else s.segment.currentSize) = _ ↔ _
  rw [h.cached]
  cases s.records.drop s.advanced with
  | nil => simp [headLength]
  | cons r rest =>
    cases r with
    | nil => simp [headLength]
    | cons x r =>
      simp [headLength]
      omega

theorem Inv.current (h : s.Inv) : ∃ s', s.step .current = some s' ∧ s'.Inv := by
  have hrep := h.rep
  cases hdrop : s.records.drop s.advanced with
  | nil =>
    rw [hdrop] at hrep
    refine ⟨s, ?_, h⟩
    simp only [step, hrep.current_nil]
    rfl
  | cons r rest =>
    rw [hdrop] at hrep
    have hread : readRecord s.segment.maxSize r ≠ .panicked := by
      unfold readRecord
      split_ifs <;> simp
    refine ⟨{ s with segment := { s.segment with currentSize := r.length } }, ?_, h.isOpen,
      h.within, h.rep.congr rfl rfl, ?_⟩
    · simp only [step, hrep.current_cons h.isOpen, if_neg hread]
    · show (r.length : ℤ) = headLength (s.records.drop s.advanced)
      rw [hdrop, headLength]

/-- `advance` with no record left sets the cached length to 0; with one it goes to the next
    block, where it finds the length of that block or the footer. -/
theorem Inv.advance (h : s.Inv) : ∃ s', s.step .advance = some s' ∧ s'.Inv ∧
    s'.records = s.records ∧ (s.advanced < s.records.length → s'.advanced = s.advanced + 1) := by
  have hrep := h.rep
  cases hdrop : s.records.drop s.advanced with
  | nil =>
    rw [hdrop] at hrep
    refine ⟨{ s with segment := { s.segment with currentSize := 0 } }, ?_,
      ⟨h.isOpen, h.within, h.rep.congr rfl rfl, ?_⟩, rfl, fun hlt => ?_⟩
    · simp only [step, hrep.advance_nil h.isOpen, if_pos (h.at_end_iff.mpr hdrop)]
      rfl
    · show (0 : ℤ) = headLength (s.records.drop s.advanced)
      rw [hdrop]
      rfl
    · rw [List.drop_eq_nil_iff] at hdrop
      omega
  | cons r rest =>
    have hend : ¬ s.segment.pos = s.segment.size - footerSize := by
      rw [h.at_end_iff, hdrop]
      exact List.cons_ne_nil r rest
    have hlt : s.advanced < s.records.length := by
      by_contra hge
      rw [List.drop_eq_nil_of_le (by omega)] at hdrop
      cases hdrop
    have hget := List.drop_eq_getElem_cons hlt
    rw [hdrop] at hget hrep
    have hcur : s.segment.currentSize = r.length := by rw [h.cached, hdrop, headLength]
    obtain ⟨segment, f, hadvance, hsegment, hrep'⟩ := hrep.advance_cons h.isOpen hcur
    obtain ⟨rfl, rfl⟩ := List.cons.inj hget
    rw [← List.take_succ_eq_append_getElem hlt] at hrep'
    refine ⟨{ s with segment := segment, file := f, advanced := s.advanced + 1 }, ?_,
      ⟨?_, hlt, hrep', ?_⟩, rfl, fun _ => rfl⟩
    · simp only [step, hadvance, if_neg hend, Option.getD_some]
    · rw [hsegment]
      exact h.isOpen
    · rw [hsegment]

/-- **One call.** Every call but an append behind an unread empty block returns and keeps the
    invariant. -/
theorem step_inv {c : SegmentCall} (h : s.Inv) (hfresh : s.Fresh c) :
    ∃ s', s.step c = some s' ∧ s'.Inv := by
  cases c with
  | reopen maxSize =>
    have hlength : (s.file.length : ℤ) = s.segment.size := h.rep.size.symm
    exact h.opened rfl hlength fun _ => rfl
  | openAgain =>
    refine h.opened h.isOpen rfl fun hnil => ?_
    rw [h.cached, hnil]
    rfl
  | append b =>
    by_cases hfits : s.segment.size + b.length ≤ s.segment.maxSize.toInt
    · obtain ⟨f, hf, hrep'⟩ := h.append hfits
      have hwithin : s.advanced ≤ (s.records ++ [b]).length := by
        rw [List.length_append]
        exact h.within.trans (Nat.le_add_right _ _)
      have htake : (s.records ++ [b]).take s.advanced = s.records.take s.advanced :=
        List.take_append_of_le_length h.within
      have hdrop : (s.records ++ [b]).drop s.advanced = s.records.drop s.advanced ++ [b] :=
        List.drop_append_of_le_length h.within
      rw [← htake, ← hdrop] at hrep'
      exact ⟨_, hf, h.isOpen, hwithin, hrep',
        h.cached_appended_iff.mpr fun hne => hfresh hne hfits⟩
    · refine ⟨s, ?_, h⟩
      simp only [step, SegRep.append_full (f := s.file) h.isOpen {} (not_le.mp hfits)]
      rfl
  | current => exact h.current
  | advance =>
    obtain ⟨s', hs', hinv, -⟩ := h.advance
    exact ⟨s', hs', hinv⟩

/-- **An append behind an unread empty block** leaves a wrong cached length. -/
theorem step_breaks {c : SegmentCall} (h : s.Inv) (hstale : ¬ s.Fresh c)
    (hstep : s.step c = some s') : ¬ s'.CursorRight := by
  cases c with
  | append b =>
    simp only [Fresh, not_forall, not_not] at hstale
    obtain ⟨hne, hfits, hempty⟩ := hstale
    obtain ⟨f, hf, -⟩ := h.append hfits
    cases hf.symm.trans hstep
    intro hright
    exact h.cached_appended_iff.mp hright.cached hne hempty
  | _ => exact absurd trivial hstale

/-- Without a call of `current` before it, `advance` skips one record. -/
theorem Inv.advancesByOne (h : s.Inv) : s.AdvancesByOne := by
  intro hlt
  obtain ⟨s', hs', hinv', hrecords, hadvanced⟩ := h.advance
  have hright := hinv'.cursorRight
  have hboundary : s'.boundary s'.advanced = s.boundary (s.advanced + 1) := by
    unfold boundary
    rw [hrecords, hadvanced hlt]
  refine ⟨s', hs', ?_, ?_⟩
  · rw [hright.position, hboundary]
  · have hfooter : uint64 s'.segment.pos = s'.boundary s'.advanced := hinv'.rep.uint64_pos
    rw [hright.bytes, hfooter, hboundary, hrecords]

end SegmentLog

/-! ## Runs -/

open SegmentLog

/-- **The cursor of a segment.** In a run of any calls from a new segment all calls return
    and the cursor is right in every state, so that `advance` moves by one record, exactly if
    no record that fits, and is not empty, is appended while the head block is an empty one. -/
theorem cursor_kept_iff (path : String) (maxSize : Int64) (calls : List SegmentCall) :
    (∀ k, ∃ s, run step (start path maxSize) (calls.take k) = some s ∧
      s.CursorRight ∧ s.AdvancesByOne) ↔
    Meets step Fresh (start path maxSize) calls :=
  forall_prefix_iff_meets step (fun _ h => ⟨h.cursorRight, h.advancesByOne⟩)
    (fun _ _ h hfresh => step_inv h hfresh)
    (fun _ _ _ h hstale hstep hP => step_breaks h hstale hstep hP.1) calls (start_inv path maxSize)

/-- An empty record and one of three bytes: the cached length is 3 although the head block is
    empty, and `advance` goes to position 11, which is inside the block from 8 to 19. -/
theorem advance_between_blocks :
    ∃ s s', run step (start "1" 1024) [.append [], .append [1, 2, 3]] = some s ∧
      s.segment.pos = 0 ∧ s.EmptyHead ∧ s.segment.currentSize = 3 ∧ ¬ s.CursorRight ∧
      s.step .advance = some s' ∧ s'.segment.pos = 11 ∧ ¬ s.AdvancesByOne ∧
      s.records = [[], [1, 2, 3]] ∧ (List.range 3).map s.boundary = [0, 8, 19] := by
  refine ⟨_, _, rfl, by decide, by decide, by decide, fun h => ?_, rfl, by decide, fun h => ?_,
    by decide, by decide⟩
  · exact absurd h.cached (by decide)
  · obtain ⟨s', hs', hpos, -⟩ := h (by decide)
    cases hs'
    exact absurd hpos (by decide)

end MetricStore.Handoff
