import MetricStore.Handoff.WriteReplayer

/-!
# Progress of the handoff queue

`SendWrite` returns on `io.EOF` without calling `Advance`, so a queue whose
`Current` reports `io.EOF` must be empty. It is not when the head segment is
exhausted and a later segment holds records. That state comes from a rotation
(in `Append`, or in `SetMaxSegmentSize`) while the tail segment has no unread
record: then head and tail part, and only `Advance` or a restart moves the head.

A second way to lose records is an `Advance` that skips the wrong number of
bytes: `segment.append` takes a cached length of 0 for "nothing cached", so an
append behind an empty unread record replaces the cached length of that record.

Results:
* `eof_means_drained`: in every run without these two kinds of calls, `Current`
  and `SendWrite` report `io.EOF` only if every accepted record has been advanced
  past.
* `rotation_strands_record`: a run of five calls after which an accepted record is
  not reported.
-/

namespace MetricStore.Handoff

open MetricStore.Common

namespace Queue

variable {q : Queue} {done todo : String → List Bytes}

/-! ## Model -/

/-- The calls of a reader and a writer of an open queue. -/
inductive Call
  | append (b : Bytes)
  | current
  | advance
  | setMaxSegmentSize (size : Int64)
  deriving DecidableEq, Repr

/-- The head segment has no unread record; the test of `segment.advance`. -/
def HeadAtEnd (q : Queue) : Prop :=
  ∃ a ∈ q.head, (q.heap a).pos = (q.heap a).size - footerSize

instance (q : Queue) : Decidable q.HeadAtEnd := inferInstanceAs (Decidable (∃ a ∈ q.head, _))

/-- A queue with the records it has accepted and the number of records it has
    been advanced past. -/
structure Log where
  queue : Queue
  accepted : List Bytes
  advanced : ℕ

/-- One call, without file errors; `none` if it panics. -/
def Log.step (s : Log) : Call → Option Log
  | .append b =>
    let r := s.queue.append {} b
    some { s with queue := r.2, accepted := if r.1 = none then s.accepted ++ [b] else s.accepted }
  | .current =>
    if s.queue.current.1 = .panicked then none else some { s with queue := s.queue.current.2 }
  | .advance =>
    some { s with
      queue := s.queue.advance.2
      advanced := if s.queue.HeadAtEnd then s.advanced else s.advanced + 1 }
  | .setMaxSegmentSize size =>
    (s.queue.setMaxSegmentSize size).map fun r => { s with queue := r.2 }

/-- `Current` and `SendWrite` report `io.EOF` only if every accepted record has
    been advanced past. -/
def Log.EofMeansDrained (s : Log) : Prop :=
  (s.queue.current.1 = .error .eof → s.accepted.length ≤ s.advanced) ∧
  ∀ clientOk, (WriteReplayer.sendWrite ⟨true, s.queue⟩ clientOk).1 = .readError .eof →
    s.accepted.length ≤ s.advanced

/-- The cached length of the head segment is the length stored at its position. -/
def CacheFresh (q : Queue) : Prop :=
  ∀ a ∈ q.head, (q.heap a).pos ≠ (q.heap a).size - footerSize →
    (readUint64 (q.data a) (q.heap a).pos.toNat).toOption.map int64 = some (q.heap a).currentSize

instance (q : Queue) : Decidable q.CacheFresh := inferInstanceAs (Decidable (∀ a ∈ q.head, _ → _))

/-- The calls that keep the head moving: no rotation behind an exhausted tail, and
    no `Advance` with a stale cached length. -/
def Log.Steady (s : Log) : Call → Prop
  | .append b => ¬ s.queue.RotatesExhausted b
  | .current => True
  | .advance => s.queue.CacheFresh
  | .setMaxSegmentSize size => ¬ s.queue.GrowsExhausted size

instance (s : Log) : DecidablePred s.Steady
  | .append b => inferInstanceAs (Decidable (¬ s.queue.RotatesExhausted b))
  | .current => isTrue trivial
  | .advance => inferInstanceAs (Decidable s.queue.CacheFresh)
  | .setMaxSegmentSize size => inferInstanceAs (Decidable (¬ s.queue.GrowsExhausted size))

/-! ## The invariant -/

/-- The unread records are the accepted ones that have not been advanced past, and
    every file but the last has one. -/
structure Log.Inv (s : Log) : Prop where
  tail : s.queue.tail = s.queue.segments.getLast?
  records : ∃ done todo, s.queue.Rep done todo ∧ Busy s.queue.names todo ∧
    s.accepted.length = s.advanced + (unread s.queue.names todo).length

theorem Rep.headAtEnd_iff (h : Rep q done todo) {name : String} {l : List String}
    (hn : q.names = name :: l) : q.HeadAtEnd ↔ todo name = [] := by
  obtain ⟨a, segs, hs, ha⟩ := h.exists_head
  have hm : a ∈ q.segments := by rw [hs]; exact List.mem_cons_self
  obtain rfl : (q.heap a).path = name := (List.cons.inj ((names_of_head hs).symm.trans hn)).1
  simp only [HeadAtEnd, ha, Option.mem_some_iff, exists_eq_left']
  exact (h.seg a hm).pos_eq_end_iff

theorem Rep.cached_of_cacheFresh (h : Rep q done todo) (hc : q.CacheFresh) : q.Cached todo := by
  intro a ha hne
  have hm : a ∈ q.segments := by
    rw [h.head_eq] at ha
    exact List.mem_of_head? ha
  have hseg := h.seg a hm
  have hcache := hc a ha fun hpos => hne (hseg.pos_eq_end_iff.mp hpos)
  obtain ⟨r, rest, ht⟩ := List.exists_cons_of_ne_nil hne
  rw [ht] at hseg ⊢
  rw [hseg.pos, Int.toNat_natCast, hseg.readUint64_head] at hcache
  have hlen := hseg.headLength_lt
  rw [← Option.some.inj hcache]
  exact int64_of_lt hlen

/-- Advancing keeps every file but the last busy: the first file goes when its
    last record does. -/
theorem busy_advance {names l : List String} {name : String} (hn : names = name :: l)
    (hnodup : names.Nodup) (hbusy : Busy names todo) :
    Busy (advanceNames todo names) (advanceTodo name todo) := by
  subst hn
  have hnot : name ∉ l := (List.nodup_cons.mp hnodup).1
  intro x hx
  match l with
  | [] => simp [advanceNames] at hx
  | other :: rest =>
    rw [List.nodup_cons] at hnodup
    by_cases hlast : (todo name).tail = []
    · rw [advanceNames, if_pos hlast] at hx
      have hxl : x ∈ other :: rest := List.mem_of_mem_dropLast hx
      have hne : x ≠ name := fun he => hnot (he ▸ hxl)
      rw [advanceTodo, Function.update_of_ne hne]
      exact hbusy x (List.mem_cons_of_mem _ hx)
    · rw [advanceNames, if_neg hlast] at hx
      by_cases hxn : x = name
      · rw [hxn, advanceTodo, Function.update_self]; exact hlast
      · rw [advanceTodo, Function.update_of_ne hxn]; exact hbusy x hx

theorem Log.step_inv {s s' : Log} {c : Call} (hi : s.Inv) (hok : s.Steady c)
    (hstep : s.step c = some s') : s'.Inv := by
  obtain ⟨htail, done, todo, hrep, hbusy, hcount⟩ := hi
  cases c with
  | append b =>
    cases hstep
    obtain ⟨done', todo', hrep', hunread, -, hb⟩ := hrep.append htail b
    have hmoves : Moves False _ _ := append_moves {} s.queue b
    refine ⟨(hmoves.core_tail ⟨hrep.toCore, htail⟩).2, done', todo', hrep', hb hbusy hok, ?_⟩
    show (if _ then _ else _ : List Bytes).length = _
    rw [hunread]
    split_ifs
    · simp [hcount]; omega
    · simp [hcount]
  | current =>
    rw [step, Option.ite_none_left_eq_some] at hstep
    cases hstep.2
    obtain ⟨-, -, -, -, hrep', -⟩ := hrep.current
    have hf := s.queue.current_frame
    refine ⟨by rw [hf.tail, hf.segments, htail], done, todo, hrep', ?_, ?_⟩ <;> rw [hf.names]
    · exact hbusy
    · exact hcount
  | advance =>
    cases hstep
    obtain ⟨name, l, hn, -⟩ := hrep.current
    obtain ⟨hrep', hnames'⟩ := hrep.advance (hrep.cached_of_cacheFresh hok) hn
    have hmoves : Moves False _ _ := advance_moves s.queue
    refine ⟨(hmoves.core_tail ⟨hrep.toCore, htail⟩).2, _, _, hrep', ?_, ?_⟩
    · rw [hnames']; exact busy_advance hn hrep.paths hbusy
    · show s.accepted.length = (if _ then _ else _) + _
      rw [hnames', unread_advance hn hrep.paths, hcount, hn]
      simp only [hrep.headAtEnd_iff hn]
      cases ht : todo name with
      | nil => simp [unread, ht]
      | cons r rest => simp [unread, ht]; omega
  | setMaxSegmentSize size =>
    obtain ⟨q', done', todo', heq, hrep', hunread, hb⟩ := hrep.setMaxSegmentSize htail size
    rw [step, heq] at hstep
    cases hstep
    have hmoves : Moves False _ _ := setMaxSegmentSize_moves heq
    refine ⟨(hmoves.core_tail ⟨hrep.toCore, htail⟩).2, done', todo', hrep', hb hbusy hok, ?_⟩
    rw [hunread]; exact hcount

theorem Log.Inv.eofMeansDrained {s : Log} (hi : s.Inv) : s.EofMeansDrained := by
  obtain ⟨-, done, todo, hrep, hbusy, hcount⟩ := hi
  obtain ⟨name, l, hn, hres, -⟩ := hrep.current
  have hcur : s.queue.current.1 = .error .eof → s.accepted.length ≤ s.advanced := by
    intro heof
    rw [hres] at heof
    have hnil : todo name = [] := by
      cases ht : todo name with
      | nil => rfl
      | cons r rest =>
        rw [ht, readFirst_cons] at heof
        exact absurd heof (readRecord_ne_eof _ r)
    -- an exhausted first file is the only one
    cases l with
    | nil => simp [hcount, hn, unread, hnil]
    | cons other rest =>
      refine absurd hnil (hbusy name ?_)
      rw [hn]; simp
  refine ⟨hcur, fun clientOk hsend => hcur ?_⟩
  unfold WriteReplayer.sendWrite at hsend
  generalize s.queue.current = r at hsend
  obtain ⟨res, q₁⟩ := r
  cases res with
  | panicked => cases hsend
  | error e => exact congrArg ReadResult.error (SendResult.readError.inj hsend)
  | record payload => cases clientOk <;> cases hsend

/-- **Progress.** In every run of appends, reads, advances and limit changes from
    `Open` on an empty directory whose calls are all steady, `io.EOF` means that
    every accepted record has been advanced past. -/
theorem eof_means_drained {maxSize : Int64} {clock : ℤ} {e : Option Err} {q₁ : Queue}
    {calls : List Call} {s : Log} (hopen : (newQueue ∅ maxSize clock).openQueue = some (e, q₁))
    (hok : Meets Log.step Log.Steady ⟨q₁, [], 0⟩ calls)
    (hrun : run Log.step ⟨q₁, [], 0⟩ calls = some s) : s.EofMeansDrained := by
  obtain ⟨q', name, heq, hn, hrep⟩ := openQueue_empty (q := newQueue ∅ maxSize clock) rfl
  obtain ⟨-, rfl⟩ := Prod.mk.inj (Option.some.inj (heq.symm.trans hopen))
  have hinit : Log.Inv ⟨q', [], 0⟩ :=
    ⟨(openQueue_shape heq).2.1, _, _, hrep, by simp [Busy, hn], by simp [unread]⟩
  exact (run_invariant Log.step (fun _ _ _ => Log.step_inv) hinit hok hrun).eofMeansDrained

/-- Two records, the second one after a rotation behind the unread first. -/
def drainRun : List Call :=
  [.setMaxSegmentSize 20, .append [1, 2, 3], .append [4, 5], .current, .advance, .current, .advance]

theorem eof_means_drained_drainRun :
    ∃ q₁ s, (newQueue ∅ 1000 0).openQueue = some (none, q₁) ∧
      Meets Log.step Log.Steady ⟨q₁, [], 0⟩ drainRun ∧ run Log.step ⟨q₁, [], 0⟩ drainRun = some s ∧
      s.queue.current.1 = .error .eof ∧ s.accepted.length = 2 ∧ s.EofMeansDrained := by
  obtain ⟨q₁, name, hq₁, -⟩ := openQueue_empty (q := newQueue ∅ 1000 0) rfl
  have hall : ∀ r ∈ (newQueue ∅ 1000 0).openQueue,
      Meets Log.step Log.Steady ⟨r.2, [], 0⟩ drainRun ∧
      ∃ s ∈ run Log.step ⟨r.2, [], 0⟩ drainRun,
        s.queue.current.1 = .error .eof ∧ s.accepted.length = 2 := by decide
  obtain ⟨hok, s, hs, heof, hlen⟩ := hall _ hq₁
  exact ⟨q₁, s, hq₁, hok, hs, heof, hlen, eof_means_drained hq₁ hok hs⟩

/-- The head segment is drained, then an append rotates: the accepted record is in
    the second segment, and `Current` reports `io.EOF` from the first. -/
theorem rotation_strands_record :
    ∃ q₁ s, (newQueue ∅ 1000 0).openQueue = some (none, q₁) ∧
      run Log.step ⟨q₁, [], 0⟩ [.setMaxSegmentSize 20, .append [1, 2, 3], .current, .advance,
        .append [4, 5]] = some s ∧
      s.accepted = [[1, 2, 3], [4, 5]] ∧ s.advanced = 1 ∧ s.queue.current.1 = .error .eof ∧
      ¬ s.EofMeansDrained := by
  obtain ⟨q₁, name, hq₁, -⟩ := openQueue_empty (q := newQueue ∅ 1000 0) rfl
  have hall : ∀ r ∈ (newQueue ∅ 1000 0).openQueue,
      ∃ s ∈ run Log.step ⟨r.2, [], 0⟩ [.setMaxSegmentSize 20, .append [1, 2, 3], .current, .advance,
          .append [4, 5]],
        s.accepted = [[1, 2, 3], [4, 5]] ∧ s.advanced = 1 ∧
          s.queue.current.1 = .error .eof := by decide
  obtain ⟨s, hs, hacc, hadv, heof⟩ := hall _ hq₁
  refine ⟨q₁, s, hq₁, hs, hacc, hadv, heof, fun hd => ?_⟩
  have hle := hd.1 heof
  rw [hacc, hadv] at hle
  exact absurd hle (by decide)

end Queue

end MetricStore.Handoff
