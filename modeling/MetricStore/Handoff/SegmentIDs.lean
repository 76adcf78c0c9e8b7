import MetricStore.Handoff.Rejections

/-!
# The ids of segments

The ids of segments are of type `uint64` (`internal/handoff/queue.go`, lines 262–326): a file
name from `2^64` on is not the name of a segment, and the id after `2^64 - 1` is 0. As long as
ids are left (`IDsLeft`) this makes no difference, and what holds with ids that do not run out
holds of the source.

Results:
* `stepWith_uint64_eq`: a call for which enough ids are left is the same with either numbering.
* `run_uint64_eq`: so is every run that does not use up the ids; on an empty directory these are
  all the runs that add fewer than `2^64` segments (`run_uint64_empty`).
* `segments_invariant`: with the ids of the source, the list of segments is not empty, `head` is
  its first element and `tail` its last, every listed file is open and the ids increase, in every
  run from an `Open` that lists the ids in increasing order, in which an id is left at each call
  and no `PurgeOlderThan` finds all the segments old.
* `purge_leaves_stale_tail`: a purge of everything breaks it.
-/

namespace MetricStore.Handoff

open MetricStore.Common

namespace Queue

variable {q q' : Queue} {n : ℕ}

/-! ## The next id -/

theorem foldl_max_lt_iff {l : List ℕ} {a m : ℕ} : l.foldl max a < m ↔ a < m ∧ ∀ x ∈ l, x < m := by
  induction l generalizing a with
  | nil => simp
  | cons y l ih =>
    rw [List.foldl_cons, ih, max_lt_iff, List.forall_mem_cons, and_assoc]

/-- The next id is the least above 0 and all the ids of the directory. -/
theorem nextSegmentID_le_iff {m : ℕ} : q.nextSegmentID ≤ m ↔
    0 < m ∧ ∀ name ∈ q.dir, ∀ id, decimal name = some id → id < m := by
  show (q.readDir.filterMap decimal).foldl max 0 < m ↔ _
  rw [foldl_max_lt_iff]
  refine and_congr_right fun _ => ⟨fun h name hname id hid => ?_, fun h id hid => ?_⟩
  · exact h id (List.mem_filterMap.mpr ⟨name, mem_readDir.mpr hname, hid⟩)
  · obtain ⟨name, hname, hid⟩ := List.mem_filterMap.mp hid
    exact h name (mem_readDir.mp hname) id hid

theorem nextSegmentID_le_of_subset (hsub : ∀ name ∈ q'.dir, name ∈ q.dir) :
    q'.nextSegmentID ≤ q.nextSegmentID :=
  nextSegmentID_le_iff.mpr ⟨Nat.succ_pos _, fun name hname _ hid =>
    lt_nextSegmentID (hsub name hname) hid⟩

theorem nextSegmentID_withSegment_le (q : Queue) :
    q.withSegment.nextSegmentID ≤ q.nextSegmentID + 1 := by
  refine nextSegmentID_le_iff.mpr ⟨Nat.succ_pos _, fun name hname id hid => ?_⟩
  rcases (AList.mem_insert _).mp hname with rfl | hname
  · have hnew : decimal q.nextSegmentID.repr = some id := hid
    rw [decimal_repr, Option.some.injEq] at hnew
    omega
  · exact Nat.lt_succ_of_lt (lt_nextSegmentID hname hid)

theorem trimHead_dir_subset (q : Queue) {name : String} (h : name ∈ q.trimHead.dir) :
    name ∈ q.dir := by
  unfold trimHead at h
  split at h
  · exact (AList.mem_erase.mp h).2
  · exact h

theorem current_dir (q : Queue) : q.current.2.dir = q.dir := by
  unfold current
  split <;> rfl

/-- `loadSegments` makes no files. -/
theorem loadedWith_dir_subset (ids : Numbering) (q : Queue) {name : String}
    (h : name ∈ (q.loadedWith ids).dir) : name ∈ q.dir := by
  refine (loadSegmentsWith_induction ids (motive := fun _ _ st =>
    ∀ name ∈ st.2.dir, name ∈ q.dir) (fun _ => id) ?_).2 name h
  intro seen name rest st hnodup hload hsub x hx
  have hname := hload.rest_mem name List.mem_cons_self
  obtain ⟨-, heq⟩ | ⟨e, -, heq⟩ | ⟨id, s, w, -, hopen, heq⟩ :=
    loadSegmentWith_cases ids hname
  · rw [heq] at hx
    exact hsub x hx
  · rw [heq] at hx
    exact hsub x (AList.mem_erase.mp hx).2
  · rw [heq] at hx
    rcases mem_dir_store (p := st.2.fresh) hx with rfl | hx
    · rw [(openSegment_sameFile hopen).1]
      exact hsub name hname
    · exact hsub x hx

/-! ## Enough ids -/

/-- `n` more ids are left: no file has a number from `2^64 - n` on as its name. -/
def IDsLeft (q : Queue) (n : ℕ) : Prop := q.nextSegmentID + n ≤ 2 ^ 64

instance (q : Queue) (n : ℕ) : Decidable (q.IDsLeft n) := inferInstanceAs (Decidable (_ ≤ _))

theorem IDsLeft.mono {m : ℕ} (h : q.IDsLeft n)
    (hle : q'.nextSegmentID + m ≤ q.nextSegmentID + n) : q'.IDsLeft m :=
  hle.trans h

theorem IDsLeft.of_subset (h : q.IDsLeft n) (hsub : ∀ name ∈ q'.dir, name ∈ q.dir) :
    q'.IDsLeft n :=
  h.mono (Nat.add_le_add_right (nextSegmentID_le_of_subset hsub) n)

theorem IDsLeft.parseUint_eq (h : q.IDsLeft n) {name : String} (hname : name ∈ q.dir) :
    parseUint name = decimal name := by
  unfold parseUint
  cases hid : decimal name with
  | none => rfl
  | some id =>
    have hlt := lt_nextSegmentID hname hid
    unfold IDsLeft at h
    rw [Option.filter_some, if_pos (decide_eq_true (by omega))]

theorem nextSegmentIDWith_uint64 (h : q.IDsLeft 1) :
    q.nextSegmentIDWith .uint64 = q.nextSegmentID := by
  have hids : q.readDir.filterMap parseUint = q.readDir.filterMap decimal :=
    List.filterMap_congr fun name hname => h.parseUint_eq (mem_readDir.mp hname)
  show ((q.readDir.filterMap parseUint).foldl max 0 + 1) % 2 ^ 64 = _
  rw [hids]
  exact Nat.mod_eq_of_lt (Nat.lt_of_succ_le h)

theorem addSegmentWith_uint64 (h : q.IDsLeft 1) :
    q.addSegmentWith .uint64 = q.addSegmentWith .unbounded := by
  unfold addSegmentWith
  rw [nextSegmentIDWith_uint64 h]
  rfl

/-! ## The calls -/

theorem openQueueWith_uint64 (h : q.IDsLeft 1) : q.openQueueWith .uint64 = q.openQueue := by
  have hload : q.loadSegmentsWith .uint64 = q.loadSegmentsWith .unbounded := by
    refine List.foldl_ext _ _ _ fun st name hname => ?_
    have hparse : Numbering.uint64.parse name = Numbering.unbounded.parse name :=
      h.parseUint_eq (mem_readDir.mp hname)
    unfold loadSegmentWith
    rw [hparse]
  have hadd := addSegmentWith_uint64 (h.of_subset fun _ => loadedWith_dir_subset .unbounded q)
  unfold loadedWith at hadd
  unfold openQueue openQueueWith
  rw [hload]
  dsimp only
  rw [hadd]

/-- `segment.append` changes nothing if it finds the segment full. -/
theorem segmentAppend_of_full {io : AppendIO} {p : ℕ} {b : Bytes}
    (h : (q.segmentAppend io p b).1 = some .segmentFull) :
    q.segmentAppend io p b = (some .segmentFull, q) :=
  have hfull := Segment.append_eq_segmentFull_iff.mp h
  segmentAppend_full hfull.1 hfull.2

theorem appendWith_uint64 (h : q.IDsLeft 1) (io : QueueIO) (b : Bytes) :
    appendWith .uint64 io q b = q.append io b := by
  unfold append appendWith
  cases q.tail with
  | none => rfl
  | some t =>
    dsimp only
    by_cases hfull : (q.segmentAppend io.first t b).1 = some .segmentFull
    · rw [segmentAppend_of_full hfull]
      dsimp only
      rw [addSegmentWith_uint64 h]
    · generalize q.segmentAppend io.first t b = r at hfull
      obtain ⟨e, q₁⟩ := r
      split_ifs
      · rfl
      · split
        · next heq => exact absurd (congrArg Prod.fst heq) hfull
        · rfl

theorem setMaxSegmentSizeWith_uint64 (h : q.IDsLeft 1) (size : Int64) :
    q.setMaxSegmentSizeWith .uint64 size = q.setMaxSegmentSize size := by
  have hlimit : (q.withLimit size).IDsLeft 1 := h
  unfold setMaxSegmentSize setMaxSegmentSizeWith
  dsimp only
  rw [addSegmentWith_uint64 hlimit]

/-- The loop of `PurgeOlderThan` adds a segment in each round at most. -/
theorem purgeLoopWith_uint64 {cutoff : ℤ} {fuel : ℕ} (h : q.IDsLeft fuel) :
    purgeLoopWith .uint64 cutoff fuel q = purgeLoop cutoff fuel q := by
  induction fuel generalizing q with
  | zero => rfl
  | succ fuel ih =>
    have hone : q.IDsLeft 1 := h.mono (by omega)
    have hrenew : q.withSegment.trimHead.IDsLeft fuel := by
      have hsub := nextSegmentID_le_of_subset fun _ => q.withSegment.trimHead_dir_subset
      have hnew := q.nextSegmentID_withSegment_le
      exact h.mono (by omega)
    have htrim : q.trimHead.IDsLeft fuel :=
      (h.mono (Nat.add_le_add_left (Nat.le_succ fuel) _)).of_subset fun _ => q.trimHead_dir_subset
    rw [purgeLoop, purgeLoopWith, purgeLoopWith, addSegmentWith_uint64 hone, addSegment_eq]
    split
    · rfl
    · split_ifs
      · rfl
      · exact ih hrenew
      · exact ih htrim

/-- While a newer segment is listed the loop adds none, whatever the numbering. -/
theorem purgeLoopWith_of_hasNewer {ids : Numbering} {cutoff : ℤ} {fuel : ℕ} (hc : Core q)
    (hnew : q.HasNewer cutoff) : purgeLoopWith ids cutoff fuel q = purgeLoop cutoff fuel q := by
  induction fuel generalizing q with
  | zero => rfl
  | succ fuel ih =>
    rw [purgeLoop, purgeLoopWith, purgeLoopWith]
    split
    · rfl
    · next file hfile =>
      split_ifs with hstop hone
      · rfl
      · exact absurd hone (hnew.trimHead hc hfile hstop).1
      · exact ih (trimHead_core hc) (hnew.trimHead hc hfile hstop).2

/-- How many segments a call adds at most. -/
def Op.newSegments : Op → ℕ
  | .openQueue | .append .. | .setMaxSegmentSize _ => 1
  | .purgeOlderThan fuel _ => fuel
  | .closeQueue | .current | .advance | .wait _ => 0

/-- **One call.** If the ids that it may use are left, the call is the same with either
    numbering. -/
theorem stepWith_uint64_eq {op : Op} (h : q.IDsLeft op.newSegments) :
    q.stepWith .uint64 op = q.step op := by
  unfold step
  cases op with
  | openQueue => rw [stepWith, openQueueWith_uint64 h]; rfl
  | append io b => rw [stepWith, appendWith_uint64 h]; rfl
  | setMaxSegmentSize size => rw [stepWith, setMaxSegmentSizeWith_uint64 h]; rfl
  | purgeOlderThan fuel when =>
    have hloop : purgeLoopWith .uint64 (truncateSecond when) fuel q = _ := purgeLoopWith_uint64 h
    rw [stepWith, stepWith, purgeOlderThanWith, hloop]
    rfl
  | closeQueue => rfl
  | current => rfl
  | advance => rfl
  | wait ns => rfl

/-! ## Whole runs -/

/-- A segment with a file, or one that is closed, makes no file. -/
theorem segmentAppend_dir_subset {io : AppendIO} {p : ℕ} {b : Bytes}
    (h : (q.heap p).isOpen = true → (q.heap p).path ∈ q.dir) {name : String}
    (hname : name ∈ (q.segmentAppend io p b).2.dir) : name ∈ q.dir := by
  cases hopen : (q.heap p).isOpen with
  | false =>
    have hclosed : q.segmentAppend io p b = (some .notOpen, q) := by
      unfold segmentAppend Segment.append
      rw [hopen]
      exact congrArg _ (q.store_self p)
    rw [hclosed] at hname
    exact hname
  | true =>
    rcases mem_dir_store (p := p) hname with rfl | hmem
    · rw [(append_sameFile _ _ _ _).1]
      exact h hopen
    · exact hmem

theorem append_nextSegmentID_le (hc : Core q) (ht : TailOk q) (io : QueueIO) (b : Bytes) :
    (q.append io b).2.nextSegmentID ≤ q.nextSegmentID + 1 := by
  obtain ⟨t, htail, -, hor⟩ := ht
  have hdisk : (q.heap t).isOpen = true → (q.heap t).path ∈ q.dir := by
    rintro hopen
    rcases hor with hlast | ⟨hclosed, -⟩
    · exact hc.onDisk t (List.mem_of_getLast? hlast)
    · rw [hopen] at hclosed; cases hclosed
  have hfirst : (q.segmentAppend io.first t b).2.nextSegmentID ≤ q.nextSegmentID :=
    nextSegmentID_le_of_subset fun _ => segmentAppend_dir_subset hdisk
  unfold append appendWith
  rw [htail]
  dsimp only
  split_ifs
  · exact Nat.le_succ _
  by_cases hfull : (q.segmentAppend io.first t b).1 = some .segmentFull
  · rw [segmentAppend_of_full hfull]
    dsimp only
    rw [addSegment_eq]
    refine le_trans (nextSegmentID_le_of_subset fun _ => segmentAppend_dir_subset fun _ => ?_)
      q.nextSegmentID_withSegment_le
    show (q.withSegment.heap q.fresh).path ∈ q.withSegment.dir
    rw [withSegment_heap_fresh]
    exact (AList.mem_insert _).mpr (.inl rfl)
  · generalize q.segmentAppend io.first t b = r at hfull hfirst
    obtain ⟨e, q₁⟩ := r
    split
    · next heq => exact absurd (congrArg Prod.fst heq) hfull
    · next heq => cases heq; exact le_trans hfirst (Nat.le_succ _)

theorem advance_dir_subset (hc : Core q) {name : String} (h : name ∈ q.advance.2.dir) :
    name ∈ q.dir := by
  obtain ⟨a, l, hs, ha⟩ := hc.exists_head
  have hdisk : (q.heap a).path ∈ q.dir := hc.onDisk a (by simp [hs])
  have hstore : ∀ name ∈ (q.store a ((q.heap a).advance (q.data a)).2.1
      ((q.heap a).advance (q.data a)).2.2).dir, name ∈ q.dir := by
    intro name hname
    rcases mem_dir_store (p := a) hname with rfl | hmem
    · rw [(advance_sameFile _ _).1]
      exact hdisk
    · exact hmem
  rw [advance_of_head ha] at h
  split_ifs at h
  · exact hstore name (trimHead_dir_subset _ h)
  · exact hstore name h

theorem purgeLoop_nextSegmentID_le {cutoff : ℤ} {fuel : ℕ} {e : Option Err}
    (h : purgeLoop cutoff fuel q = some (e, q')) :
    q'.nextSegmentID ≤ q.nextSegmentID + fuel := by
  induction fuel generalizing q with
  | zero => cases h
  | succ fuel ih =>
    rw [purgeLoop, purgeLoopWith, addSegment_eq] at h
    split at h
    · cases h; omega
    · split_ifs at h
      · cases h; omega
      · have hsub := nextSegmentID_le_of_subset fun _ => q.withSegment.trimHead_dir_subset
        have hnew := q.nextSegmentID_withSegment_le
        have hrest := ih h
        omega
      · have hsub := nextSegmentID_le_of_subset fun _ => q.trimHead_dir_subset
        have hrest := ih h
        omega

theorem openQueue_nextSegmentID_le {e : Option Err} (h : q.openQueue = some (e, q')) :
    q'.nextSegmentID ≤ q.nextSegmentID + 1 := by
  have hload : q.loaded.nextSegmentID ≤ q.nextSegmentID :=
    nextSegmentID_le_of_subset fun _ => loadedWith_dir_subset .unbounded q
  have hensure : q.loaded.ensureSegment.nextSegmentID ≤ q.loaded.nextSegmentID + 1 := by
    unfold ensureSegment
    split_ifs
    · exact nextSegmentID_withSegment_le _
    · exact Nat.le_succ _
  have hskip : q'.nextSegmentID ≤ q.loaded.ensureSegment.nextSegmentID := by
    refine nextSegmentID_le_of_subset fun name hname => ?_
    rw [openQueue_eq] at h
    have hcurrent : q.loaded.ensureSegment.setEnds.current.2.dir = q.loaded.ensureSegment.dir :=
      current_dir _
    unfold skipExhausted at h
    generalize q.loaded.ensureSegment.setEnds.current = r at h hcurrent
    rw [← hcurrent]
    split at h
    · cases h
    · cases h; exact trimHead_dir_subset _ hname
    · cases h; exact hname
  omega

/-- A call uses up the ids of the segments that it adds, and no others. -/
theorem step_nextSegmentID_le {op : Op} (hshape : Closed q ∨ Core q ∧ TailOk q)
    (hstep : q.step op = some q') : q'.nextSegmentID ≤ q.nextSegmentID + op.newSegments := by
  by_cases hopen : op = .openQueue
  · subst hopen
    obtain ⟨⟨e, q₁⟩, hq₁, rfl⟩ := Option.map_eq_some_iff.mp hstep
    exact openQueue_nextSegmentID_le hq₁
  rcases hshape with hclosed | ⟨hc, ht⟩
  · refine le_trans (nextSegmentID_le_of_subset fun name hname => ?_) (Nat.le_add_right _ _)
    rwa [(step_closed hclosed hopen hstep).2.1] at hname
  cases op with
  | openQueue => exact absurd rfl hopen
  | closeQueue => cases hstep; exact le_refl _
  | append io b => cases hstep; exact append_nextSegmentID_le hc ht io b
  | current =>
    rw [step, stepWith, Option.ite_none_left_eq_some] at hstep
    cases hstep.2
    exact nextSegmentID_le_of_subset fun name hname => by rwa [current_dir] at hname
  | advance =>
    cases hstep
    exact nextSegmentID_le_of_subset fun _ => advance_dir_subset hc
  | setMaxSegmentSize size =>
    obtain ⟨⟨e, q₁⟩, hset, rfl⟩ := Option.map_eq_some_iff.mp hstep
    rcases setMaxSegmentSize_cases hset with rfl | rfl
    · exact (q.withLimit size).nextSegmentID_withSegment_le
    · exact Nat.le_succ _
  | purgeOlderThan fuel when =>
    obtain ⟨⟨e, q₁⟩, hloop, rfl⟩ := Option.map_eq_some_iff.mp hstep
    rw [purgeOlderThanWith, if_neg hc.nonempty] at hloop
    exact purgeLoop_nextSegmentID_le hloop
  | wait ns => cases hstep; exact le_refl _

/-- **Whole runs.** As long as the ids last, a run is the same with either numbering. -/
theorem run_uint64_eq {ops : List Op} (hshape : Closed q ∨ Core q ∧ TailOk q)
    (h : q.IDsLeft (ops.map Op.newSegments).sum) :
    run (stepWith .uint64) q ops = run step q ops := by
  induction ops generalizing q with
  | nil => rfl
  | cons op ops ih =>
    rw [List.map_cons, List.sum_cons] at h
    rw [run, run, stepWith_uint64_eq (h.mono (by omega))]
    refine Option.bind_congr fun q' hq' => ih (step_shape hshape hq') ?_
    have hle := step_nextSegmentID_le hshape hq'
    exact h.mono (by omega)

/-- On an empty directory, every run that adds fewer than `2^64` segments. -/
theorem run_uint64_empty {maxSize : Int64} {clock : ℤ} {ops : List Op}
    (h : (ops.map Op.newSegments).sum < 2 ^ 64) :
    run (stepWith .uint64) (newQueue ∅ maxSize clock) ops =
      run step (newQueue ∅ maxSize clock) ops := by
  refine run_uint64_eq (.inl ⟨rfl, rfl, rfl⟩) ?_
  have hone : (newQueue ∅ maxSize clock).nextSegmentID = 1 := rfl
  unfold IDsLeft
  omega

/-! ## The representation invariant -/

/-- The calls that keep the shape, if an id is left. -/
theorem stepWith_tidy {op : Op} (h : Tidy q) (hok : q.KeepsShape op ∧ q.IDsLeft 1)
    (hstep : q.stepWith .uint64 op = some q') : Tidy q' := by
  refine step_tidy h hok.1 ?_
  rw [← hstep]
  cases op with
  | purgeOlderThan fuel when =>
    have hloop : purgeLoopWith .uint64 (truncateSecond when) fuel q = _ :=
      purgeLoopWith_of_hasNewer h.toCore hok.1
    rw [stepWith, purgeOlderThanWith, hloop]
    rfl
  | closeQueue => exact hok.1.elim
  | openQueue => exact (stepWith_uint64_eq hok.2).symm
  | append io b => exact (stepWith_uint64_eq hok.2).symm
  | setMaxSegmentSize size => exact (stepWith_uint64_eq hok.2).symm
  | current => rfl
  | advance => rfl
  | wait ns => rfl

/-- **The representation invariant.** It holds in every state of a run from an `Open` that found
    the ids in increasing order, as long as an id is left at each call and no `PurgeOlderThan`
    finds all the segments old. -/
theorem segments_invariant {q₀ q₁ q : Queue} {e : Option Err} {ops : List Op}
    (hopen : q₀.openQueueWith .uint64 = some (e, q₁)) (hsorted : q₀.IDsSorted)
    (hleft : q₀.IDsLeft 1)
    (hok : Meets (stepWith .uint64) (fun q op => q.KeepsShape op ∧ q.IDsLeft 1) q₁ ops)
    (hrun : run (stepWith .uint64) q₁ ops = some q) : q.WellFormed := by
  rw [openQueueWith_uint64 hleft] at hopen
  obtain ⟨hcore, htail, hids⟩ := openQueue_shape hopen
  exact (run_invariant (stepWith .uint64) (fun _ _ _ => stepWith_tidy)
    ⟨hcore, htail, hids hsorted⟩ hok hrun).wellFormed

/-- A run with rotations and a purge that removes the first two of three
    segments. -/
def purgeRun : List Op :=
  [.append {} [1, 2, 3], .setMaxSegmentSize 12, .append {} [4], .wait 2000000000,
    .append {} [5, 6], .purgeOlderThan 5 2000000000, .append {} [7]]

theorem segments_invariant_purgeRun :
    ∃ q₁ q, (newQueue ∅ 1000 0).openQueueWith .uint64 = some (none, q₁) ∧
      Meets (stepWith .uint64) (fun q op => q.KeepsShape op ∧ q.IDsLeft 1) q₁ purgeRun ∧
      run (stepWith .uint64) q₁ purgeRun = some q ∧ q.segments = [2, 3] ∧ q.WellFormed := by
  have hopen : (((newQueue ∅ 1000 0).openQueueWith .uint64).map Prod.fst) = some none := by decide
  obtain ⟨⟨e, q₁⟩, hq₁, rfl⟩ := Option.map_eq_some_iff.mp hopen
  have hall : ∀ r ∈ (newQueue ∅ 1000 0).openQueueWith .uint64,
      Meets (stepWith .uint64) (fun q op => q.KeepsShape op ∧ q.IDsLeft 1) r.2 purgeRun ∧
      (run (stepWith .uint64) r.2 purgeRun).map Queue.segments = some [2, 3] := by decide
  obtain ⟨hok, hsegs⟩ := hall _ hq₁
  obtain ⟨q, hq, hs⟩ := Option.map_eq_some_iff.mp hsegs
  exact ⟨q₁, q, hq₁, hok, hq, hs, segments_invariant hq₁ (by decide) (by decide) hok hq⟩

/-- A rotation after the last id takes the id 0. -/
example :
    ∃ r ∈ openQueueWith .uint64
        (newQueue (AList.singleton "18446744073709551615" ⟨toBE 8 0, 0⟩) 1000 0),
      ∃ q ∈ r.2.stepWith .uint64 (.setMaxSegmentSize 0),
        q.names = ["18446744073709551615", "0"] := by decide

/-- A purge of everything leaves `tail` at the closed segment, and the next
    `Append` reports success although no file is written. -/
theorem purge_leaves_stale_tail :
    ∃ q₁ q, (newQueue ∅ 1000 0).openQueueWith .uint64 = some (none, q₁) ∧
      run (stepWith .uint64) q₁ [.append {} [1], .wait 2000000000, .purgeOlderThan 5 2000000000] =
        some q ∧
      q.segments = [1] ∧ q.tail = some 0 ∧ ¬ q.WellFormed ∧
      (appendWith .uint64 {} q [7]).1 = none ∧
      (appendWith .uint64 {} q [7]).2.diskUsage = q.diskUsage := by
  have hopen : (((newQueue ∅ 1000 0).openQueueWith .uint64).map Prod.fst) = some none := by decide
  obtain ⟨⟨e, q₁⟩, hq₁, rfl⟩ := Option.map_eq_some_iff.mp hopen
  have hall : ∀ r ∈ (newQueue ∅ 1000 0).openQueueWith .uint64,
      ∃ q ∈ run (stepWith .uint64) r.2
        [.append {} [1], .wait 2000000000, .purgeOlderThan 5 2000000000],
        q.segments = [1] ∧ q.tail = some 0 ∧ (appendWith .uint64 {} q [7]).1 = none ∧
          (appendWith .uint64 {} q [7]).2.diskUsage = q.diskUsage := by decide
  obtain ⟨q, hq, hs, ht, happend, hdisk⟩ := hall _ hq₁
  refine ⟨q₁, q, hq₁, hq, hs, ht, fun hw => ?_, happend, hdisk⟩
  have := hw.tail_eq
  rw [hs, ht] at this
  exact absurd this (by decide)

end Queue

end MetricStore.Handoff
