import MetricStore.Handoff.QueueShape

/-!
# Errors of `Queue.Append`

`Append` (lines 329–352) retries once when `segment.append` reports
`ErrSegmentFull` and returns `nil` after every other outcome of the first try.
Here every outcome of the file operations is possible: a closed file, a failed
seek, a failed or short write, a failed sync, on the first try and on the retry.

Results:
* `Segment.append_eq_none_iff`, `Segment.append_eq_segmentFull_iff`: what
  `segment.append` returns, read off its inputs.
* `append_sound_iff`: in a reachable state, `Append` reports success only for a
  record that a segment of the queue has stored exactly when the first try meets
  no failure other than a full segment.
-/

namespace MetricStore.Handoff

open MetricStore.Common

/-! ## The outcome of `segment.append` -/

/-- All of the `n` bytes to write reach the file, and `Write` returns no error. -/
def WriteOutcome.Complete (n : ℕ) : WriteOutcome → Prop
  | .full => True
  | .short m => n ≤ m
  | .failed _ => False

instance (n : ℕ) : DecidablePred (WriteOutcome.Complete n)
  | .full => isTrue trivial
  | .short m => inferInstanceAs (Decidable (n ≤ m))
  | .failed _ => isFalse id

/-- The file operations of `segment.append` succeed on a file with the bytes `f`:
    there is a footer to seek to, and `n` bytes are written and synced. -/
def AppendIO.Succeeds (io : AppendIO) (f : Bytes) (n : ℕ) : Prop :=
  io.seekFails = false ∧ 8 ≤ f.length ∧ io.write.Complete n ∧ io.syncFails = false

instance (io : AppendIO) (f : Bytes) (n : ℕ) : Decidable (io.Succeeds f n) :=
  inferInstanceAs (Decidable (_ ∧ _))

namespace Segment

variable {s : Segment} {io : AppendIO} {f b : Bytes}

/-- The error of the write and the sync, for `n` bytes. -/
def ioResult (io : AppendIO) (n : ℕ) : Option Err :=
  match io.write with
  | .failed _ => some .io
  | .short m => if m < n then some (.shortWrite m n) else if io.syncFails then some .io else none
  | .full => if io.syncFails then some .io else none

theorem ioResult_eq_none_iff {n : ℕ} :
    ioResult io n = none ↔ io.write.Complete n ∧ io.syncFails = false := by
  unfold ioResult WriteOutcome.Complete
  cases io.write with
  | full => simp
  | failed m => simp
  | short m =>
    by_cases hm : m < n
    · simp [hm]
    · simp [hm, Nat.le_of_not_lt hm]

theorem ioResult_ne_segmentFull {n : ℕ} : ioResult io n ≠ some .segmentFull := by
  unfold ioResult
  cases io.write with
  | full => dsimp only; split_ifs <;> simp
  | failed m => simp
  | short m => dsimp only; split_ifs <;> simp

/-- The error that `segment.append` returns, one check after the other. -/
theorem append_fst : (s.append io f b).1 =
    if s.isOpen = false then some .notOpen
    else if s.maxSize.toInt < s.size + b.length then some .segmentFull
    else if io.seekFails then some .io
    else if f.length < 8 then some .invalidSeek
    else ioResult io (b.length + 16) := by
  unfold Segment.append
  cases hopen : s.isOpen with
  | false => rfl
  | true =>
    simp only [Bool.not_true, Bool.false_eq_true, reduceCtorEq, if_false]
    by_cases hfull : s.maxSize.toInt < s.size + b.length
    · rw [if_pos hfull, if_pos hfull]
    rw [if_neg hfull, if_neg hfull]
    cases hseek : io.seekFails with
    | true => rfl
    | false =>
      simp only [Bool.false_eq_true, if_false]
      unfold seekEnd seek footerSize ioResult
      by_cases hlen : f.length < 8
      · rw [if_pos (by omega), if_pos hlen]
      rw [if_neg (by omega), if_neg hlen]
      cases io.write with
      | full => simp [WriteOutcome.written]; split_ifs <;> rfl
      | failed m => rfl
      | short m =>
        simp only [WriteOutcome.written, List.length_take, List.length_append, length_toBE]
        by_cases hm : m < b.length + 16
        · rw [if_pos (by omega), if_pos hm]
          simp; omega
        · rw [if_neg (by omega), if_neg hm]
          split_ifs <;> rfl

theorem append_eq_segmentFull_iff : (s.append io f b).1 = some .segmentFull ↔
    s.isOpen = true ∧ s.maxSize.toInt < s.size + b.length := by
  have hio := @ioResult_ne_segmentFull io (b.length + 16)
  rw [append_fst]
  split_ifs with hopen hfull <;> simp_all

theorem append_eq_none_iff : (s.append io f b).1 = none ↔
    s.isOpen = true ∧ s.size + b.length ≤ s.maxSize.toInt ∧ io.Succeeds f (b.length + 16) := by
  unfold AppendIO.Succeeds
  rw [append_fst]
  split_ifs with hopen hfull hseek hlen
  · simp [hopen]
  · simp [not_le.mpr hfull]
  · simp [hseek]
  · simp [not_le.mpr hlen]
  · rw [ioResult_eq_none_iff]
    simp_all

end Segment

namespace Queue

variable {q : Queue}

/-! ## The calls of `Append` -/

/-- The calls of `segment.append` that `Append` makes, each with its segment and
    its result. -/
def appendCalls (io : QueueIO) (q : Queue) (b : Bytes) : List (ℕ × Option Err) :=
  match q.tail with
  | none => []
  | some t =>
    if q.diskUsage + b.length > q.maxSize.toInt then []
    else
      match q.segmentAppend io.first t b with
      | (some .segmentFull, q) =>
        match q.addSegment with
        | (.error _, _) => [(t, some .segmentFull)]
        | (.ok p, q) =>
          [(t, some .segmentFull), (p, ({ q with tail := some p }.segmentAppend io.retry p b).1)]
      | (e, _) => [(t, e)]

/-- `Append` returns `nil` only if a call of `segment.append` on some segment of
    the queue returned `nil`. -/
def AppendSound (io : QueueIO) (q : Queue) (b : Bytes) : Prop :=
  (q.append io b).1 = none → ∃ p ∈ (q.append io b).2.segments, (p, none) ∈ q.appendCalls io b

instance (io : QueueIO) (q : Queue) (b : Bytes) : Decidable (q.AppendSound io b) :=
  inferInstanceAs (Decidable (_ → _))

/-- The first try meets no failure other than a full segment: unless the queue is
    full, the file of `tail` is open, and if the record fits its segment the file
    operations succeed. -/
def FirstTryOk (io : AppendIO) (q : Queue) (b : Bytes) : Prop :=
  ∀ t ∈ q.tail, q.diskUsage + b.length ≤ q.maxSize.toInt →
    (q.heap t).isOpen = true ∧ ((q.heap t).size + b.length ≤ (q.heap t).maxSize.toInt →
      io.Succeeds (q.data t) (b.length + 16))

instance (io : AppendIO) (q : Queue) (b : Bytes) : Decidable (q.FirstTryOk io b) :=
  inferInstanceAs (Decidable (∀ t ∈ q.tail, _ → _))

/-- The condition in terms of the result of the first try. -/
theorem firstTryOk_iff {io : AppendIO} {t : ℕ} {b : Bytes} (ht : q.tail = some t)
    (hroom : q.diskUsage + b.length ≤ q.maxSize.toInt) :
    q.FirstTryOk io b ↔
      (q.segmentAppend io t b).1 = none ∨ (q.segmentAppend io t b).1 = some .segmentFull := by
  unfold FirstTryOk segmentAppend
  rw [Segment.append_eq_none_iff, Segment.append_eq_segmentFull_iff]
  simp only [ht, Option.mem_some_iff, forall_eq', hroom, true_imp_iff]
  by_cases hfit : (q.heap t).size + b.length ≤ (q.heap t).maxSize.toInt
  · simp [hfit, not_lt.mpr hfit]
  · simp [hfit, lt_of_not_ge hfit]

theorem TailOk.mem_segments (h : TailOk q) {t : ℕ} (ht : q.tail = some t)
    (hopen : (q.heap t).isOpen = true) : t ∈ q.segments := by
  obtain ⟨t', ht', -, hlast | ⟨hclosed, -⟩⟩ := h
  · obtain rfl : t = t' := Option.some.inj (ht.symm.trans ht')
    exact List.mem_of_getLast? hlast
  · obtain rfl : t = t' := Option.some.inj (ht.symm.trans ht')
    rw [hopen] at hclosed
    cases hclosed

/-- The three ways through `Append` with a tail and room in the queue. -/
theorem append_cases (io : QueueIO) {t : ℕ} {b : Bytes} (ht : q.tail = some t)
    (hroom : q.diskUsage + b.length ≤ q.maxSize.toInt) :
    ((q.segmentAppend io.first t b).1 = some .segmentFull ∧
      ∃ q₁ : Queue, ∃ p ∈ q₁.segments, q.append io b = q₁.segmentAppend io.retry p b ∧
        q.appendCalls io b = [(t, some .segmentFull), (p, (q₁.segmentAppend io.retry p b).1)]) ∨
    ((q.segmentAppend io.first t b).1 ≠ some .segmentFull ∧
      q.append io b = (none, (q.segmentAppend io.first t b).2) ∧
      q.appendCalls io b = [(t, (q.segmentAppend io.first t b).1)]) := by
  unfold append appendWith appendCalls
  simp only [ht, if_neg (not_lt.mpr hroom)]
  generalize q.segmentAppend io.first t b = r
  obtain ⟨e, q₁⟩ := r
  by_cases he : e = some .segmentFull
  · subst he
    left
    simp only [addSegment, addSegment_eq]
    exact ⟨trivial, { q₁.withSegment with tail := some q₁.fresh }, q₁.fresh,
      q₁.fresh_mem_withSegment, rfl, rfl⟩
  · right
    refine ⟨he, ?_, ?_⟩ <;> split <;> simp_all

/-- **When a reported success is a stored record.** In every reachable state and
    for every outcome of the file operations, `Append` is sound exactly when its
    first try meets no failure other than a full segment. -/
theorem append_sound_iff {dir : AList (fun _ : String => File)} {maxSize : Int64} {clock : ℤ}
    {ops : List Op} (hrun : run step (newQueue dir maxSize clock) ops = some q) (io : QueueIO)
    (b : Bytes) : q.AppendSound io b ↔ q.FirstTryOk io.first b := by
  have hshape := reachable_shape hrun
  match ht : q.tail with
  | none => simp [AppendSound, FirstTryOk, append, appendWith, ht]
  | some t =>
    by_cases hroom : q.diskUsage + b.length ≤ q.maxSize.toInt
    swap
    · have hfull := lt_of_not_ge hroom
      simp [AppendSound, FirstTryOk, append, appendWith, ht, hfull, not_le.mpr hfull]
    have htail : TailOk q := by
      rcases hshape with ⟨-, -, hnone⟩ | hopen
      · rw [ht] at hnone; cases hnone
      · exact hopen.2
    rw [firstTryOk_iff ht hroom, AppendSound]
    obtain ⟨hfirst, q₁, p, hp, heq, hcalls⟩ | ⟨hfirst, heq, hcalls⟩ := append_cases io ht hroom
    · -- a rotation: the result is that of the retry, on the new segment
      rw [heq, hcalls]
      refine iff_of_true (fun hnone => ⟨p, ?_, ?_⟩) (.inr hfirst)
      · rw [(segmentAppend_frame q₁ io.retry p b).segments]; exact hp
      · rw [hnone]; simp
    · -- no rotation: the result is nil whatever the first try returned
      rw [heq, hcalls]
      simp only [hfirst, or_false, true_imp_iff, List.mem_singleton, Prod.mk.injEq]
      constructor
      · rintro ⟨p, -, -, hnone⟩
        exact hnone.symm
      · intro hnone
        refine ⟨t, ?_, rfl, hnone.symm⟩
        rw [(segmentAppend_frame q io.first t b).segments]
        exact htail.mem_segments ht (Segment.append_eq_none_iff.mp hnone).1

/-- After a rotation, a write of the retry that fails is reported, and one that
    succeeds is stored. -/
theorem append_sound_after_rotation :
    ∃ q, run step (newQueue ∅ 1000 0) [.openQueue, .setMaxSegmentSize 12, .append {} [1, 2]] = some q ∧
      q.AppendSound { retry := { write := .failed 3 } } [4, 5] ∧ q.AppendSound {} [4, 5] := by
  have hall : ∀ q ∈ run step (newQueue ∅ 1000 0)
      [.openQueue, .setMaxSegmentSize 12, .append {} [1, 2]], q.FirstTryOk {} [4, 5] := by decide
  have hsome : (run step (newQueue ∅ 1000 0)
      [.openQueue, .setMaxSegmentSize 12, .append {} [1, 2]]).isSome = true := by decide
  obtain ⟨q, hq⟩ := Option.isSome_iff_exists.mp hsome
  exact ⟨q, hq, (append_sound_iff hq _ _).mpr (hall q hq), (append_sound_iff hq _ _).mpr (hall q hq)⟩

/-- A first write that fails is reported as a success. -/
theorem append_drops_write_error :
    ∃ q, run step (newQueue ∅ 1000 0) [.openQueue] = some q ∧
      (q.append { first := { write := .failed 3 } } [1, 2]).1 = none ∧
      ¬ q.AppendSound { first := { write := .failed 3 } } [1, 2] := by
  have hall : ∃ q ∈ run step (newQueue ∅ 1000 0) [.openQueue],
      (q.append { first := { write := .failed 3 } } [1, 2]).1 = none ∧
      ¬ q.AppendSound { first := { write := .failed 3 } } [1, 2] := by decide
  exact hall

end Queue

end MetricStore.Handoff
