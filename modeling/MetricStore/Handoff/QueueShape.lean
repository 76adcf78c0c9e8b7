import MetricStore.Handoff.QueueMoves

/-!
# The shape of an open queue

What `head`, `tail`, the list of segments and the directory have to do with each
other in every state that a queue can reach: `Open` establishes it, and every call is a
sequence of moves.

Results:
* `openQueue_shape`, `step_tidy`: the list is not empty, `head` is its first element
  and `tail` its last, every listed file is open and the ids increase; `Open`
  establishes this if it lists the ids in increasing order, and every call keeps it
  but a `PurgeOlderThan` that finds all the segments old.
* `reachable_shape`: with any calls, an open queue has everything but `tail` in
  place, and a `tail` that is not the last segment is closed.
-/

namespace MetricStore.Handoff

open MetricStore.Common

namespace Queue

variable {q q' : Queue} {renew : Prop}

/-! ## `Open` -/

section Open

variable {ids : Numbering}

/-- The state of `loadSegments` after the names `seen`, with `rest` to come. -/
structure Loading (seen rest : List String) (st : List ℕ × Queue) : Prop where
  listed : Listed { st.2 with segments := st.1 }
  paths : (st.1.map fun p => (st.2.heap p).path).Sublist seen
  rest_mem : ∀ name ∈ rest, name ∈ st.2.dir

theorem Loading.path_ne {seen rest : List String} {name : String} {st : List ℕ × Queue}
    (hnodup : (seen ++ name :: rest).Nodup) (h : Loading seen (name :: rest) st) {p : ℕ}
    (hp : p ∈ st.1) : (st.2.heap p).path ≠ name :=
  (List.nodup_append.mp hnodup).2.2 _ (h.paths.subset (List.mem_map_of_mem hp)) _
    List.mem_cons_self

/-- The segment of a file before it is opened. -/
def unopened (q : Queue) (name : String) : Segment :=
  ⟨(fileData q.dir name).length, true, name, 0, 0, q.maxSegmentSize⟩

/-- What becomes of a file: it is not the file of a segment, or it cannot be opened and is
    removed, or it is taken up. -/
theorem loadSegmentWith_cases (ids : Numbering) {st : List ℕ × Queue} {name : String}
    (hname : name ∈ st.2.dir) :
    (ids.parse name = none ∧ loadSegmentWith ids st name = st) ∨
    (∃ e, (st.2.unopened name).openSegment (fileData st.2.dir name) = .error e ∧
      loadSegmentWith ids st name = (st.1, { st.2 with dir := st.2.dir.erase name })) ∨
    ∃ id s w, ids.parse name = some id ∧
      (st.2.unopened name).openSegment (fileData st.2.dir name) = .ok (s, w) ∧
      loadSegmentWith ids st name =
        (st.1 ++ [st.2.fresh], { st.2.store st.2.fresh s w with fresh := st.2.fresh + 1 }) := by
  unfold loadSegmentWith newSegment Handoff.newSegment unopened
  cases hid : ids.parse name with
  | none => exact .inl ⟨rfl, rfl⟩
  | some id =>
    simp only [AList.lookup_isSome.mpr hname, if_true]
    cases hopen : Segment.openSegment ⟨(fileData st.2.dir name).length, true, name, 0, 0,
        st.2.maxSegmentSize⟩ (fileData st.2.dir name) with
    | error e => exact .inr (.inl ⟨e, rfl, rfl⟩)
    | ok r => exact .inr (.inr ⟨id, r.1, r.2, rfl, rfl, rfl⟩)

theorem loadSegmentWith_loading (ids : Numbering) {seen rest : List String} {name : String}
    {st : List ℕ × Queue}
    (hnodup : (seen ++ name :: rest).Nodup) (h : Loading seen (name :: rest) st) :
    Loading (seen ++ [name]) rest (loadSegmentWith ids st name) := by
  have hrest : ∀ x ∈ rest, x ∈ st.2.dir := fun x hx => h.rest_mem x (List.mem_cons_of_mem name hx)
  have hname : name ∈ st.2.dir := h.rest_mem name List.mem_cons_self
  have hpaths := h.paths.trans (List.sublist_append_left seen [name])
  obtain ⟨-, heq⟩ | ⟨e, -, heq⟩ | ⟨id, s, w, -, hopen, heq⟩ :=
    loadSegmentWith_cases ids hname
  · rw [heq]
    exact ⟨h.listed, hpaths, hrest⟩
  · -- the file is removed; no segment found so far has its name
    have hnr := (List.nodup_append.mp hnodup).2.1
    rw [heq]
    refine ⟨⟨h.listed.bound, h.listed.isOpen, fun p hp => ?_, h.listed.paths⟩, hpaths, ?_⟩
    · exact AList.mem_erase.mpr ⟨h.path_ne hnodup hp, h.listed.onDisk p hp⟩
    · intro x hx
      exact AList.mem_erase.mpr ⟨fun hx' => (List.nodup_cons.mp hnr).1 (hx' ▸ hx), hrest x hx⟩
  · obtain ⟨hpath, hisOpen, -⟩ := openSegment_sameFile hopen
    rw [unopened] at hpath
    have hpush : Listed (pushSegment { st.2 with segments := st.1 } s w) :=
      pushSegment_listed h.listed hisOpen
        (mem_store_dir st.2.fresh s w (hpath ▸ hname)) fun p hp => hpath ▸ h.path_ne hnodup hp
    rw [heq]
    refine ⟨hpush, ?_, fun x hx => mem_store_dir st.2.fresh s w (hrest x hx)⟩
    have hmap := pushSegment_map (s := s) (w := w) h.listed Segment.path
    rw [hpath] at hmap
    exact hmap ▸ h.paths.append (List.Sublist.refl _)

theorem nodup_readDir (q : Queue) : q.readDir.Nodup :=
  (List.perm_insertionSort _ _).nodup_iff.mpr q.dir.nodupKeys

/-- Induction over the files that `loadSegments` visits. -/
theorem loadSegmentsWith_induction (ids : Numbering)
    {motive : List String → List String → List ℕ × Queue → Prop}
    (start : motive [] q.readDir ([], q))
    (next : ∀ seen name rest st, (seen ++ name :: rest).Nodup → Loading seen (name :: rest) st →
      motive seen (name :: rest) st →
      motive (seen ++ [name]) rest (loadSegmentWith ids st name)) :
    Loading q.readDir [] (q.loadSegmentsWith ids) ∧
      motive q.readDir [] (q.loadSegmentsWith ids) := by
  have hloop : ∀ (rest seen : List String) (st : List ℕ × Queue), (seen ++ rest).Nodup →
      Loading seen rest st → motive seen rest st →
      Loading (seen ++ rest) [] (rest.foldl (loadSegmentWith ids) st) ∧
        motive (seen ++ rest) [] (rest.foldl (loadSegmentWith ids) st) := by
    intro rest
    induction rest with
    | nil =>
      intro seen st _ hload h
      rw [List.append_nil]
      exact ⟨hload, h⟩
    | cons name rest ih =>
      intro seen st hnodup hload h
      have hload' := loadSegmentWith_loading ids hnodup hload
      have h' := next seen name rest st hnodup hload h
      rw [List.append_cons] at hnodup ⊢
      exact ih _ _ hnodup hload' h'
  exact hloop q.readDir [] _ q.nodup_readDir
    ⟨⟨by simp, by simp, by simp, by simp⟩, by simp, fun _ => mem_readDir.mp⟩ start

theorem loadedWith_listed (ids : Numbering) (q : Queue) : Listed (q.loadedWith ids) :=
  (loadSegmentsWith_induction ids (motive := fun _ _ _ => True) trivial
    fun _ _ _ _ _ _ _ => trivial).1.listed

/-- The listed ids are ids of the directory, in its order. -/
theorem loaded_ids (q : Queue) :
    (q.loaded.segments.map q.loaded.segmentID).Sublist (q.readDir.filterMap decimal) := by
  refine (loadSegmentsWith_induction .unbounded (motive := fun seen _ st =>
    (st.1.map st.2.segmentID).Sublist (seen.filterMap decimal)) (by simp) ?_).2
  intro seen name rest st hnodup hload h
  have hname : name ∈ st.2.dir := hload.rest_mem name List.mem_cons_self
  have hids := h.trans ((List.sublist_append_left seen [name]).filterMap decimal)
  obtain ⟨-, heq⟩ | ⟨e, -, heq⟩ | ⟨id, s, w, hid, hopen, heq⟩ :=
    loadSegmentWith_cases .unbounded hname
  · rw [heq]; exact hids
  · rw [heq]; exact hids
  · obtain ⟨hpath, -, -⟩ := openSegment_sameFile hopen
    have hmap := pushSegment_map (s := s) (w := w) hload.listed fun s => (decimal s.path).getD 0
    have hid' : decimal name = some id := hid
    rw [hpath, unopened, hid', Option.getD_some] at hmap
    rw [heq, List.filterMap_append, List.filterMap_cons_some hid']
    exact hmap ▸ h.append (List.Sublist.refl _)

end Open

theorem ensureSegment_listed (h : Listed q) :
    Listed q.ensureSegment ∧ q.ensureSegment.segments ≠ [] := by
  unfold ensureSegment
  split_ifs with hnil
  · exact ⟨withSegment_listed h, List.ne_nil_of_mem q.fresh_mem_withSegment⟩
  · exact ⟨h, hnil⟩

theorem ensureSegment_ids (h : Listed q) (hi : IDsIncrease q) : IDsIncrease q.ensureSegment := by
  unfold ensureSegment
  split_ifs
  · exact withSegment_ids h hi
  · exact hi

theorem setEnds_core (h : Listed q) (hne : q.segments ≠ []) : Core q.setEnds :=
  ⟨⟨h.bound, h.isOpen, h.onDisk, h.paths⟩, hne, rfl⟩

theorem skipExhausted_moves {e : Option Err} (h : q.skipExhausted = some (e, q')) :
    Moves renew q q' := by
  have hf : Move renew q q.current.2 := .frame q.current_frame
  unfold skipExhausted at h
  split at h
  · cases h
  · next heq =>
    rw [heq] at hf
    cases h
    exact (Relation.ReflTransGen.single hf).tail .trim
  · next heq =>
    rw [heq] at hf
    cases h
    exact .single hf

/-- The directory lists the segment ids in increasing order. -/
def IDsSorted (q : Queue) : Prop := (q.readDir.filterMap decimal).Pairwise (· < ·)

instance (q : Queue) : Decidable q.IDsSorted :=
  inferInstanceAs (Decidable ((q.readDir.filterMap decimal).Pairwise (· < ·)))

/-! ## `PurgeOlderThan` -/

/-- Some listed segment's file is not older than `cutoff`. -/
def HasNewer (q : Queue) (cutoff : ℤ) : Prop :=
  ∃ p ∈ q.segments, ∀ file ∈ q.dir.lookup (q.heap p).path, cutoff ≤ file.modTime

instance (q : Queue) (cutoff : ℤ) : Decidable (q.HasNewer cutoff) :=
  inferInstanceAs
    (Decidable (∃ p ∈ q.segments, ∀ file ∈ q.dir.lookup (q.heap p).path, cutoff ≤ file.modTime))

/-- A head that is old is not the only segment if there is a newer one, which stays listed
    without it. -/
theorem HasNewer.trimHead {cutoff : ℤ} {file : File} (hc : Core q) (hnew : q.HasNewer cutoff)
    (hfile : (q.head.bind fun h => q.dir.lookup (q.heap h).path) = some file)
    (hold : ¬ file.modTime ≥ cutoff) :
    q.segments.length ≠ 1 ∧ q.trimHead.HasNewer cutoff := by
  obtain ⟨x, hx, hxnew⟩ := hnew
  obtain ⟨a, ha, hafile⟩ := Option.bind_eq_some_iff.mp hfile
  have hhead := hc.head_eq
  have hxa : x ≠ a := by
    rintro rfl
    exact hold (hxnew file hafile)
  have hone : q.segments.length ≠ 1 := by
    intro hone
    obtain ⟨y, hy⟩ := List.length_eq_one_iff.mp hone
    rw [hy, List.mem_singleton] at hx
    rw [ha, hy, List.head?_cons, Option.some.injEq] at hhead
    exact hxa (hx.trans hhead.symm)
  obtain ⟨hlen, -⟩ | ⟨a', p, rest, hs, ha', heq⟩ := hc.trimHead_cases
  · exact absurd hlen hone
  · obtain rfl : a = a' := Option.some.inj (ha.symm.trans ha')
    rw [hs, List.mem_cons] at hx
    have hxrest := hx.resolve_left hxa
    rw [heq]
    refine ⟨hone, x, hxrest, fun file hf => hxnew file ?_⟩
    rw [dropHead_path] at hf
    exact AList.lookup_erase_ne (hc.path_ne_head hs x hxrest) ▸ hf

/-- While a newer segment is listed, the loop only removes heads. -/
theorem purgeLoop_moves_of_hasNewer {cutoff : ℤ} {fuel : ℕ} {e : Option Err} (hc : Core q)
    (hnew : q.HasNewer cutoff) (h : purgeLoop cutoff fuel q = some (e, q')) : Moves renew q q' := by
  induction fuel generalizing q with
  | zero => cases h
  | succ fuel ih =>
    rw [purgeLoop, purgeLoopWith] at h
    split at h
    · cases h; exact .refl
    · next file hfile =>
      split_ifs at h with hstop hone
      · cases h; exact .refl
      · exact absurd hone (hnew.trimHead hc hfile hstop).1
      · exact (ih (trimHead_core hc) (hnew.trimHead hc hfile hstop).2 h).head .trim

/-! ## Calls on an open queue -/

theorem wait_frame (q : Queue) (ns : ℕ) : Frame q { q with clock := q.clock + ns } :=
  ⟨rfl, rfl, rfl, rfl, fun _ => rfl, fun _ => rfl, fun _ => id⟩

/-- Every call other than `Open` and `Close` is a sequence of moves. -/
theorem step_moves {op : Op} (hc : Core q) (hopen : op ≠ .openQueue) (hclose : op ≠ .closeQueue)
    (hpurge : ∀ fuel when, op = .purgeOlderThan fuel when →
      renew ∨ q.HasNewer (truncateSecond when))
    (hstep : q.step op = some q') : Moves renew q q' := by
  cases op with
  | openQueue => exact absurd rfl hopen
  | closeQueue => exact absurd rfl hclose
  | append io b => cases hstep; exact append_moves io q b
  | current =>
    rw [step, stepWith, Option.ite_none_left_eq_some] at hstep
    cases hstep.2
    exact .single (.frame q.current_frame)
  | advance => cases hstep; exact advance_moves q
  | setMaxSegmentSize size =>
    obtain ⟨⟨e, q₁⟩, hset, rfl⟩ := Option.map_eq_some_iff.mp hstep
    exact setMaxSegmentSize_moves hset
  | purgeOlderThan fuel when =>
    obtain ⟨⟨e, q₁⟩, hloop, rfl⟩ := Option.map_eq_some_iff.mp hstep
    rw [purgeOlderThanWith, if_neg hc.nonempty] at hloop
    rcases hpurge fuel when rfl with hr | hnew
    · exact purgeLoop_moves hr hloop
    · exact purgeLoop_moves_of_hasNewer hc hnew hloop
  | wait ns => cases hstep; exact .single (.frame (wait_frame q ns))

/-! ## Runs -/

/-- The calls that keep an open queue well formed: `PurgeOlderThan` when a newer
    segment is listed, `Open` on a directory that lists its ids in order, and all
    others but `Close`. -/
def KeepsShape (q : Queue) : Op → Prop
  | .openQueue => q.IDsSorted
  | .closeQueue => False
  | .purgeOlderThan _ when => q.HasNewer (truncateSecond when)
  | _ => True

instance (q : Queue) : DecidablePred q.KeepsShape
  | .openQueue => inferInstanceAs (Decidable q.IDsSorted)
  | .purgeOlderThan _ when => inferInstanceAs (Decidable (q.HasNewer (truncateSecond when)))
  | .closeQueue => isFalse id
  | .append .. | .current | .advance | .setMaxSegmentSize _ | .wait _ => isTrue trivial

/-- The representation invariant of an open queue. -/
structure WellFormed (q : Queue) : Prop where
  nonempty : q.segments ≠ []
  head_eq : q.head = q.segments.head?
  tail_eq : q.tail = q.segments.getLast?
  isOpen : ∀ p ∈ q.segments, (q.heap p).isOpen = true
  ids : IDsIncrease q

/-- What a run carries: the invariant and the files behind it. -/
structure Tidy (q : Queue) : Prop extends Core q where
  tail_eq : q.tail = q.segments.getLast?
  ids : IDsIncrease q

theorem Tidy.wellFormed (h : Tidy q) : WellFormed q :=
  ⟨h.nonempty, h.head_eq, h.tail_eq, h.isOpen, h.ids⟩

theorem Moves.tidy (hm : Moves False q q') (h : Tidy q) : Tidy q' :=
  have hct := hm.core_tail ⟨h.toCore, h.tail_eq⟩
  ⟨hct.1, hct.2, hm.ids h.toCore h.ids⟩

/-- After `Open` the queue is well formed, whatever the directory held. -/
theorem openQueue_shape {e : Option Err} (h : q.openQueue = some (e, q')) :
    Core q' ∧ q'.tail = q'.segments.getLast? ∧ (q.IDsSorted → IDsIncrease q') := by
  have hload : Listed q.loaded := loadedWith_listed .unbounded q
  obtain ⟨hlisted, hne⟩ := ensureSegment_listed hload
  have hcore := setEnds_core hlisted hne
  rw [openQueue_eq] at h
  have hmoves : Moves False _ q' := skipExhausted_moves h
  obtain ⟨hcore', htail⟩ := hmoves.core_tail ⟨hcore, rfl⟩
  refine ⟨hcore', htail, fun hsorted => hmoves.ids hcore ?_⟩
  exact ensureSegment_ids hload (hsorted.sublist q.loaded_ids)

theorem step_tidy {op : Op} (h : Tidy q) (hok : q.KeepsShape op) (hstep : q.step op = some q') :
    Tidy q' := by
  by_cases hopen : op = .openQueue
  · subst hopen
    obtain ⟨⟨e, q₁⟩, hq₁, rfl⟩ := Option.map_eq_some_iff.mp hstep
    obtain ⟨hcore, htail, hids⟩ := openQueue_shape hq₁
    exact ⟨hcore, htail, hids hok⟩
  by_cases hclose : op = .closeQueue
  · subst hclose
    exact hok.elim
  refine (step_moves h.toCore hopen hclose (fun fuel when heq => ?_) hstep).tidy h
  subst heq
  exact .inr hok

/-! ## All runs -/

/-- A queue that is not open. -/
def Closed (q : Queue) : Prop := q.segments = [] ∧ q.head = none ∧ q.tail = none

theorem Moves.shape (hm : Moves renew q q') (h : Core q ∧ TailOk q) : Core q' ∧ TailOk q' := by
  induction hm with
  | refl => exact h
  | tail _ hm ih => exact ⟨hm.core ih.1, hm.tailOk ih.1 ih.2⟩

/-- A queue that is not open stays so until `Open`, and its segments and files are left alone. -/
theorem step_closed {op : Op} (h : Closed q) (hopen : op ≠ .openQueue)
    (hstep : q.step op = some q') : Closed q' ∧ q'.dir = q.dir ∧ q'.heap = q.heap := by
  have hq := h
  obtain ⟨hs, hh, ht⟩ := h
  cases op with
  | openQueue => exact absurd rfl hopen
  | closeQueue => cases hstep; exact ⟨⟨rfl, rfl, rfl⟩, rfl, by simp [closeQueue, hs]⟩
  | append io b =>
    simp only [step, stepWith, appendWith, ht] at hstep
    cases hstep
    exact ⟨hq, rfl, rfl⟩
  | current =>
    simp only [step, stepWith, current, hh] at hstep
    cases hstep
    exact ⟨hq, rfl, rfl⟩
  | advance =>
    simp only [step, stepWith, advance, hh] at hstep
    cases hstep
    exact ⟨hq, rfl, rfl⟩
  | setMaxSegmentSize size =>
    have hnone : (q.withLimit size).tail = none := ht
    simp [step, stepWith, setMaxSegmentSizeWith, hnone] at hstep
  | purgeOlderThan fuel when =>
    simp only [step, stepWith, purgeOlderThanWith, hs, if_true, Option.map_some] at hstep
    cases hstep
    exact ⟨hq, rfl, rfl⟩
  | wait ns => cases hstep; exact ⟨hq, rfl, rfl⟩

theorem step_shape {op : Op} (h : Closed q ∨ Core q ∧ TailOk q) (hstep : q.step op = some q') :
    Closed q' ∨ Core q' ∧ TailOk q' := by
  by_cases hopen : op = .openQueue
  · subst hopen
    obtain ⟨⟨e, q₁⟩, hq₁, rfl⟩ := Option.map_eq_some_iff.mp hstep
    obtain ⟨hcore, htail, -⟩ := openQueue_shape hq₁
    exact .inr ⟨hcore, hcore.getLast_tailOk htail⟩
  rcases h with hclosed | hshape
  · exact .inl (step_closed hclosed hopen hstep).1
  by_cases hclose : op = .closeQueue
  · subst hclose
    cases hstep
    exact .inl ⟨rfl, rfl, rfl⟩
  exact .inr ((step_moves hshape.1 hopen hclose (fun _ _ _ => .inl trivial) hstep).shape hshape)

/-- Every reachable queue: not open, or open with a `tail` that is the last
    segment or closed. -/
theorem reachable_shape {dir : AList (fun _ : String => File)} {maxSize : Int64} {clock : ℤ}
    {ops : List Op} (hrun : run step (newQueue dir maxSize clock) ops = some q) :
    Closed q ∨ Core q ∧ TailOk q :=
  run_preserves step (fun _ _ _ h => step_shape h) (.inl ⟨rfl, rfl, rfl⟩) hrun

end Queue

end MetricStore.Handoff
