import MetricStore.Handoff.Queue

/-!
# Moves of a queue

Every method of a queue is a sequence of four kinds of moves (`Move`): an update of one
segment and its file, a rotation to a new tail, the removal of the head, and the
replacement of the last segment by `PurgeOlderThan`, which leaves `tail` where it
was. None of it depends on what the files hold, so what a move preserves is preserved
for any directory and any outcome of the writes of `append`.

* `Core`: the list is not empty, `head` is its first element, and every listed file is
  open, on disk and under a name of its own. `Move.core`: a move preserves it.
* `TailOk`: `tail` is the last segment or a closed one. `Move.tailOk`: a move preserves it.
* `Move.tail_eq`: without a replacement, `tail` stays the last segment.
* `Move.ids`: the ids keep increasing along the list.
-/

namespace MetricStore.Handoff

open MetricStore.Common

namespace Queue

variable {q q' : Queue}

/-! ## Frames -/

/-- `q'` has the segments of `q`, with the same names and handles; the directory
    has lost no file. -/
structure Frame (q q' : Queue) : Prop where
  segments : q'.segments = q.segments
  head : q'.head = q.head
  tail : q'.tail = q.tail
  fresh : q'.fresh = q.fresh
  path : ∀ p, (q'.heap p).path = (q.heap p).path
  isOpen : ∀ p, (q'.heap p).isOpen = (q.heap p).isOpen
  dir : ∀ name ∈ q.dir, name ∈ q'.dir

theorem store_heap_self (q : Queue) (p : ℕ) (s : Segment) (w : Option Bytes) :
    (q.store p s w).heap p = s :=
  Function.update_self _ _ _

theorem store_heap_of_ne {p p' : ℕ} (hp : p' ≠ p) (s : Segment) (w : Option Bytes) :
    (q.store p s w).heap p' = q.heap p' :=
  Function.update_of_ne hp _ _

theorem mem_store_dir {name : String} (p : ℕ) (s : Segment) (w : Option Bytes) (h : name ∈ q.dir) :
    name ∈ (q.store p s w).dir := by
  cases w with
  | none => exact h
  | some f => exact (AList.mem_insert _).mpr (.inr h)

theorem store_frame (q : Queue) {p : ℕ} {s : Segment} (h : SameFile (q.heap p) s)
    (w : Option Bytes) : Frame q (q.store p s w) := by
  have hfield : ∀ p', SameFile (q.heap p') ((q.store p s w).heap p') := by
    intro p'
    by_cases hp : p' = p
    · subst hp; rwa [store_heap_self]
    · rw [store_heap_of_ne hp]; exact .refl _
  exact ⟨rfl, rfl, rfl, rfl, fun p' => (hfield p').1, fun p' => (hfield p').2.1,
    fun name => mem_store_dir p s w⟩

theorem segmentAppend_frame (q : Queue) (io : AppendIO) (p : ℕ) (b : Bytes) :
    Frame q (q.segmentAppend io p b).2 :=
  store_frame q (append_sameFile io _ _ b) _

theorem current_frame (q : Queue) : Frame q q.current.2 := by
  unfold current
  split
  · exact ⟨rfl, rfl, rfl, rfl, fun _ => rfl, fun _ => rfl, fun _ => id⟩
  · exact store_frame q (current_sameFile _ _) none

theorem withLimit_frame (q : Queue) (size : Int64) : Frame q (q.withLimit size) := by
  refine ⟨rfl, rfl, rfl, rfl, fun p => ?_, fun p => ?_, fun _ => id⟩ <;>
    simp only [withLimit] <;> split_ifs <;> rfl

/-! ## Moves -/

/-- What the methods do to an open queue. `renew` says whether `PurgeOlderThan`
    may replace the last segment. -/
inductive Move (renew : Prop) : Queue → Queue → Prop
  | frame {q q' : Queue} (h : Frame q q') : Move renew q q'
  | rotate {q : Queue} : Move renew q { q.withSegment with tail := some q.fresh }
  | trim {q : Queue} : Move renew q q.trimHead
  | renew {q : Queue} (hr : renew) (h : q.segments.length = 1) : Move renew q q.withSegment.trimHead

/-- Some moves, one after the other. -/
abbrev Moves (renew : Prop) : Queue → Queue → Prop := Relation.ReflTransGen (Move renew)

variable {renew : Prop}

theorem append_moves (io : QueueIO) (q : Queue) (b : Bytes) : Moves renew q (q.append io b).2 := by
  unfold append appendWith
  split
  · exact .refl
  · next t _ =>
    split_ifs
    · exact .refl
    · have hfirst : Move renew q (q.segmentAppend io.first t b).2 :=
        .frame (segmentAppend_frame q io.first t b)
      revert hfirst
      generalize q.segmentAppend io.first t b = r
      intro hfirst
      split
      · rw [addSegment_eq]
        exact (Relation.ReflTransGen.single hfirst).tail .rotate |>.tail
          (.frame (segmentAppend_frame _ io.retry _ b))
      · exact .single hfirst

theorem advance_moves (q : Queue) : Moves renew q q.advance.2 := by
  unfold advance
  split
  · exact .refl
  · next h _ =>
    have hframe : Move renew q (q.store h ((q.heap h).advance (q.data h)).2.1
        ((q.heap h).advance (q.data h)).2.2) := .frame (store_frame q (advance_sameFile _ _) _)
    dsimp only
    split_ifs
    · exact (Relation.ReflTransGen.single hframe).tail .trim
    · exact .single hframe

/-- `SetMaxSegmentSize` sets the limit, and rotates if the last segment is at it. -/
theorem setMaxSegmentSize_cases {size : Int64} {e : Option Err}
    (h : q.setMaxSegmentSize size = some (e, q')) :
    q' = { (q.withLimit size).withSegment with tail := some (q.withLimit size).fresh } ∨
      q' = q.withLimit size := by
  unfold setMaxSegmentSize setMaxSegmentSizeWith at h
  dsimp only at h
  rw [addSegment_eq] at h
  split at h
  · cases h
  · split_ifs at h
    · cases h
      exact Or.inl rfl
    · cases h
      exact Or.inr rfl

theorem setMaxSegmentSize_moves {size : Int64} {e : Option Err}
    (h : q.setMaxSegmentSize size = some (e, q')) : Moves renew q q' := by
  have hframe : Move renew q (q.withLimit size) := .frame (q.withLimit_frame size)
  rcases setMaxSegmentSize_cases h with rfl | rfl
  · exact (Relation.ReflTransGen.single hframe).tail .rotate
  · exact .single hframe

/-- Without a condition, the loop of `PurgeOlderThan` may replace the last
    segment. -/
theorem purgeLoop_moves {cutoff : ℤ} {fuel : ℕ} {e : Option Err} (hr : renew)
    (h : purgeLoop cutoff fuel q = some (e, q')) : Moves renew q q' := by
  refine purgeLoop_induction .refl (fun q₁ hmoves hone => ?_) (fun q₁ hmoves => ?_) h
  · exact hmoves.tail (.renew hr hone)
  · exact hmoves.tail .trim

/-! ## The listed segments -/

/-- Every listed segment is allocated and open, and has a file of its own. -/
structure Listed (q : Queue) : Prop where
  bound : ∀ p ∈ q.segments, p < q.fresh
  isOpen : ∀ p ∈ q.segments, (q.heap p).isOpen = true
  onDisk : ∀ p ∈ q.segments, (q.heap p).path ∈ q.dir
  paths : (q.segments.map fun p => (q.heap p).path).Nodup

/-- An open queue, apart from `tail`. -/
structure Core (q : Queue) : Prop extends Listed q where
  nonempty : q.segments ≠ []
  head_eq : q.head = q.segments.head?

/-- The id of a segment: its file name as a number. -/
def segmentID (q : Queue) (p : ℕ) : ℕ := (decimal (q.heap p).path).getD 0

/-- The ids increase along the list. -/
def IDsIncrease (q : Queue) : Prop := (q.segments.map q.segmentID).Pairwise (· < ·)

theorem Frame.listed (hf : Frame q q') (h : Listed q) : Listed q' := by
  refine ⟨?_, ?_, ?_, ?_⟩
  · simpa only [hf.segments, hf.fresh] using h.bound
  · simpa only [hf.segments, hf.isOpen] using h.isOpen
  · simpa only [hf.segments, hf.path] using fun p hp => hf.dir _ (h.onDisk p hp)
  · simpa only [hf.segments, hf.path] using h.paths

theorem Frame.core (hf : Frame q q') (h : Core q) : Core q' :=
  ⟨hf.listed h.toListed, by rw [hf.segments]; exact h.nonempty,
    by rw [hf.segments, hf.head]; exact h.head_eq⟩

theorem Frame.ids (hf : Frame q q') (h : IDsIncrease q) : IDsIncrease q' := by
  have hid : q'.segmentID = q.segmentID := by
    funext p
    simp only [segmentID, hf.path]
  unfold IDsIncrease
  rwa [hf.segments, hid]

/-! ## A new segment -/

section PushSegment

variable {s : Segment} {w : Option Bytes}

theorem pushSegment_heap_of_lt {p : ℕ} (hp : p < q.fresh) :
    (q.pushSegment s w).heap p = q.heap p :=
  Function.update_of_ne hp.ne _ _

theorem pushSegment_heap_fresh : (q.pushSegment s w).heap q.fresh = s :=
  Function.update_self _ _ _

theorem pushSegment_map {α : Type*} (h : Listed q) (g : Segment → α) :
    ((q.pushSegment s w).segments.map fun p => g ((q.pushSegment s w).heap p)) =
      (q.segments.map fun p => g (q.heap p)) ++ [g s] := by
  have hold : ∀ p ∈ q.segments, g ((q.pushSegment s w).heap p) = g (q.heap p) := fun p hp => by
    rw [pushSegment_heap_of_lt (h.bound p hp)]
  rw [show (q.pushSegment s w).segments = q.segments ++ [q.fresh] from rfl, List.map_append,
    List.map_congr_left hold, List.map_singleton, pushSegment_heap_fresh]

theorem mem_pushSegment {p : ℕ} :
    p ∈ (q.pushSegment s w).segments ↔ p ∈ q.segments ∨ p = q.fresh := by
  simp [pushSegment]

theorem pushSegment_forall {P : Segment → Prop} (h : Listed q)
    (hold : ∀ p ∈ q.segments, P (q.heap p)) (hnew : P s) :
    ∀ p ∈ (q.pushSegment s w).segments, P ((q.pushSegment s w).heap p) := by
  intro p hp
  rcases mem_pushSegment.mp hp with hp | rfl
  · rw [pushSegment_heap_of_lt (h.bound p hp)]
    exact hold p hp
  · rw [pushSegment_heap_fresh]
    exact hnew

theorem pushSegment_listed (h : Listed q) (ho : s.isOpen = true)
    (hdisk : s.path ∈ (q.pushSegment s w).dir) (hnew : ∀ p ∈ q.segments, (q.heap p).path ≠ s.path) :
    Listed (q.pushSegment s w) := by
  refine ⟨fun p hp => ?_, ?_, ?_, ?_⟩
  · rcases mem_pushSegment.mp hp with hp | rfl
    · exact Nat.lt_succ_of_lt (h.bound p hp)
    · exact Nat.lt_succ_self _
  · exact pushSegment_forall (P := fun s' => s'.isOpen = true) h h.isOpen ho
  · refine pushSegment_forall (P := fun s' => s'.path ∈ (q.pushSegment s w).dir) h ?_ hdisk
    exact fun p hp => mem_store_dir q.fresh s w (h.onDisk p hp)
  · rw [pushSegment_map h Segment.path, List.nodup_append]
    refine ⟨h.paths, List.nodup_singleton _, ?_⟩
    rintro _ ha _ hb rfl
    obtain ⟨p, hp, hpath⟩ := List.mem_map.mp ha
    exact hnew p hp (hpath.trans (List.mem_singleton.mp hb))

end PushSegment

theorem withSegment_heap_of_lt {p : ℕ} (hp : p < q.fresh) : q.withSegment.heap p = q.heap p :=
  pushSegment_heap_of_lt hp

theorem withSegment_heap_fresh (q : Queue) : q.withSegment.heap q.fresh = q.freshSegment :=
  pushSegment_heap_fresh

theorem fresh_mem_withSegment (q : Queue) : q.fresh ∈ q.withSegment.segments :=
  List.mem_append_right _ (List.mem_singleton_self _)

/-- The listed files are on disk, and the name of the new one is not. -/
theorem withFile_listed {name : String} (h : Listed q) (hfree : name ∉ q.dir) :
    Listed (q.withFile name) := by
  refine pushSegment_listed h rfl ((AList.mem_insert _).mpr (.inl rfl)) fun p hp he => ?_
  have hmem := h.onDisk p hp
  rw [he] at hmem
  exact hfree hmem

theorem withSegment_listed (h : Listed q) : Listed q.withSegment :=
  withFile_listed h q.repr_nextSegmentID_not_mem

theorem withSegment_core (h : Core q) : Core q.withSegment := by
  refine ⟨withSegment_listed h.toListed, by simp [withSegment, withFile, pushSegment], ?_⟩
  show q.head = (q.segments ++ [q.fresh]).head?
  rw [List.head?_append_of_ne_nil _ h.nonempty, h.head_eq]

theorem withSegment_ids (h : Listed q) (hi : IDsIncrease q) : IDsIncrease q.withSegment := by
  unfold IDsIncrease segmentID
  rw [withSegment, withFile, pushSegment_map h fun s => (decimal s.path).getD 0,
    List.pairwise_append]
  refine ⟨hi, List.pairwise_singleton _ _, ?_⟩
  intro a ha b hb
  obtain ⟨p, hp, rfl⟩ := List.mem_map.mp ha
  rw [List.mem_singleton.mp hb]
  show _ < (decimal q.nextSegmentID.repr).getD 0
  rw [decimal_repr, Option.getD_some]
  cases hn : decimal (q.heap p).path with
  | none => exact Nat.succ_pos _
  | some n => exact lt_nextSegmentID (h.onDisk p hp) hn

/-! ## Removing the head -/

/-- The queue after `trimHead` has removed `a` in front of `p :: rest`. -/
def dropHead (q : Queue) (a p : ℕ) (rest : List ℕ) : Queue :=
  { q with
    segments := p :: rest
    heap := Function.update q.heap a (q.heap a).close
    dir := q.dir.erase (q.heap a).path
    head := some p }

/-- What `trimHead` does to an open queue: nothing to a single segment. -/
theorem Core.trimHead_cases (h : Core q) :
    (q.segments.length = 1 ∧ q.trimHead = q) ∨
    ∃ a p rest, q.segments = a :: p :: rest ∧ q.head = some a ∧ q.trimHead = q.dropHead a p rest := by
  have hhead := h.head_eq
  unfold trimHead
  match hs : q.segments with
  | [] => exact absurd hs h.nonempty
  | [a] => exact .inl ⟨rfl, rfl⟩
  | a :: p :: rest =>
    have ha : q.head = some a := by rw [hhead, hs]; rfl
    exact .inr ⟨a, p, rest, rfl, ha, by rw [ha]; rfl⟩

theorem dropHead_heap_of_ne {a p x : ℕ} {rest : List ℕ} (hx : x ≠ a) :
    (q.dropHead a p rest).heap x = q.heap x :=
  Function.update_of_ne hx _ _

theorem dropHead_path (a p x : ℕ) (rest : List ℕ) :
    ((q.dropHead a p rest).heap x).path = (q.heap x).path := by
  by_cases hx : x = a
  · subst hx; rw [show (q.dropHead x p rest).heap x = _ from Function.update_self _ _ _]; rfl
  · rw [dropHead_heap_of_ne hx]

/-- The files of the other segments are not that of the head. -/
theorem Listed.path_ne_head (h : Listed q) {a : ℕ} {l : List ℕ} (hs : q.segments = a :: l) :
    ∀ x ∈ l, (q.heap x).path ≠ (q.heap a).path := by
  have hpaths := h.paths
  rw [hs, List.map_cons, List.nodup_cons] at hpaths
  exact fun x hx he => hpaths.1 (he ▸ List.mem_map_of_mem hx)

theorem dropHead_core (h : Core q) {a p : ℕ} {rest : List ℕ} (hs : q.segments = a :: p :: rest) :
    Core (q.dropHead a p rest) := by
  have hpath := h.path_ne_head hs
  have hmem : ∀ x ∈ p :: rest, x ∈ q.segments := fun x hx => by
    rw [hs]; exact List.mem_cons_of_mem a hx
  have hne : ∀ x ∈ p :: rest, x ≠ a := fun x hx he => hpath x hx (by rw [he])
  refine ⟨⟨fun x hx => h.bound x (hmem x hx), fun x hx => ?_, fun x hx => ?_, ?_⟩,
    List.cons_ne_nil _ _, rfl⟩
  · rw [dropHead_heap_of_ne (hne x hx)]; exact h.isOpen x (hmem x hx)
  · rw [dropHead_path]
    exact AList.mem_erase.mpr ⟨hpath x hx, h.onDisk x (hmem x hx)⟩
  · have hpaths := h.paths
    rw [hs, List.map_cons, List.nodup_cons] at hpaths
    simp only [dropHead_path]
    exact hpaths.2

theorem trimHead_core (h : Core q) : Core q.trimHead := by
  obtain ⟨-, heq⟩ | ⟨a, p, rest, hs, -, heq⟩ := h.trimHead_cases
  · rwa [heq]
  · rw [heq]; exact dropHead_core h hs

theorem trimHead_ids (h : Core q) (hi : IDsIncrease q) : IDsIncrease q.trimHead := by
  obtain ⟨-, heq⟩ | ⟨a, p, rest, hs, -, heq⟩ := h.trimHead_cases
  · rwa [heq]
  · unfold IDsIncrease at hi ⊢
    have hid : (q.dropHead a p rest).segmentID = q.segmentID := by
      funext x
      simp only [segmentID, dropHead_path]
    rw [heq, hid]
    rw [hs, List.map_cons] at hi
    exact hi.of_cons

/-! ## The tail -/

/-- `tail` is the last segment, or, after `PurgeOlderThan` has replaced the last
    segment, one that is closed and no longer listed. -/
def TailOk (q : Queue) : Prop :=
  ∃ t, q.tail = some t ∧ t < q.fresh ∧
    (q.segments.getLast? = some t ∨ (q.heap t).isOpen = false ∧ t ∉ q.segments)

theorem Frame.tailOk (hf : Frame q q') (h : TailOk q) : TailOk q' := by
  obtain ⟨t, ht, hb, hor⟩ := h
  refine ⟨t, hf.tail.trans ht, hf.fresh ▸ hb, ?_⟩
  rwa [hf.segments, hf.isOpen]

theorem Core.getLast_tailOk (h : Core q) (ht : q.tail = q.segments.getLast?) : TailOk q := by
  have hlast := List.getLast?_eq_some_getLast h.nonempty
  exact ⟨_, ht.trans hlast, h.bound _ (List.getLast_mem h.nonempty), .inl hlast⟩

theorem rotate_tail (q : Queue) :
    some q.fresh = q.withSegment.segments.getLast? := by
  simp [withSegment, withFile, pushSegment]

theorem trimHead_tail (h : Core q) : q.trimHead.tail = q.tail := by
  obtain ⟨-, heq⟩ | ⟨a, p, rest, -, -, heq⟩ := h.trimHead_cases <;> rw [heq]
  rfl

theorem trimHead_getLast (h : Core q) : q.trimHead.segments.getLast? = q.segments.getLast? := by
  obtain ⟨-, heq⟩ | ⟨a, p, rest, hs, -, heq⟩ := h.trimHead_cases
  · rw [heq]
  · rw [heq, hs]; exact List.getLast?_cons_cons.symm

theorem trimHead_tailOk (h : Core q) (ht : TailOk q) : TailOk q.trimHead := by
  obtain ⟨t, htail, hb, hlast | ⟨hclosed, hout⟩⟩ := ht
  · exact (trimHead_core h).getLast_tailOk (by
      rw [trimHead_tail h, trimHead_getLast h, htail, hlast])
  · obtain ⟨-, heq⟩ | ⟨a, p, rest, hs, -, heq⟩ := h.trimHead_cases
    · rw [heq]; exact ⟨t, htail, hb, .inr ⟨hclosed, hout⟩⟩
    · rw [hs, List.mem_cons, not_or] at hout
      rw [heq]
      exact ⟨t, htail, hb, .inr ⟨by rw [dropHead_heap_of_ne hout.1]; exact hclosed, hout.2⟩⟩

/-- The replacement of the last segment closes the one that `tail` points to. -/
theorem renew_tailOk (h : Core q) (hone : q.segments.length = 1) (ht : TailOk q) :
    TailOk q.withSegment.trimHead := by
  obtain ⟨a, ha⟩ := List.length_eq_one_iff.mp hone
  have hs : q.withSegment.segments = a :: q.fresh :: [] := by
    show q.segments ++ [q.fresh] = _
    rw [ha]; rfl
  obtain ⟨hlen, -⟩ | ⟨a', p, rest, hs', -, heq⟩ := (withSegment_core h).trimHead_cases
  · rw [hs] at hlen; simp at hlen
  · rw [hs] at hs'
    obtain ⟨rfl, rfl, rfl⟩ : a = a' ∧ q.fresh = p ∧ [] = rest := by simpa using hs'
    obtain ⟨t, htail, hb, hor⟩ := ht
    have hne : t ≠ q.fresh := hb.ne
    rw [heq]
    refine ⟨t, htail, Nat.lt_succ_of_lt hb, .inr ⟨?_, by simpa [dropHead] using hne⟩⟩
    by_cases hta : t = a
    · subst hta
      rw [show (q.withSegment.dropHead t q.fresh []).heap t = _ from Function.update_self _ _ _]
      rfl
    · rw [dropHead_heap_of_ne hta, withSegment_heap_of_lt hb]
      rw [ha] at hor
      rcases hor with hlast | hclosed
      · exact absurd (by simpa using hlast.symm) hta
      · exact hclosed.1

/-! ## What a move preserves -/

theorem Move.core (hm : Move renew q q') (h : Core q) : Core q' := by
  cases hm with
  | frame hf => exact hf.core h
  | rotate =>
    have hw := withSegment_core h
    exact ⟨⟨hw.bound, hw.isOpen, hw.onDisk, hw.paths⟩, hw.nonempty, hw.head_eq⟩
  | trim => exact trimHead_core h
  | renew _ _ => exact trimHead_core (withSegment_core h)

theorem Move.ids (hm : Move renew q q') (h : Core q) (hi : IDsIncrease q) : IDsIncrease q' := by
  cases hm with
  | frame hf => exact hf.ids hi
  | rotate => exact withSegment_ids h.toListed hi
  | trim => exact trimHead_ids h hi
  | renew _ _ => exact trimHead_ids (withSegment_core h) (withSegment_ids h.toListed hi)

theorem Move.tailOk (hm : Move renew q q') (h : Core q) (ht : TailOk q) : TailOk q' := by
  cases hm with
  | frame hf => exact hf.tailOk ht
  | rotate => exact (Move.core (@Move.rotate renew q) h).getLast_tailOk (rotate_tail q)
  | trim => exact trimHead_tailOk h ht
  | renew _ hone => exact renew_tailOk h hone ht

/-- Without the replacement of the last segment, `tail` stays the last one. -/
theorem Move.tail_eq (hm : Move False q q') (h : Core q) (ht : q.tail = q.segments.getLast?) :
    q'.tail = q'.segments.getLast? := by
  cases hm with
  | frame hf => rw [hf.tail, hf.segments, ht]
  | rotate => exact rotate_tail q
  | trim => rw [trimHead_tail h, trimHead_getLast h, ht]
  | renew hr _ => exact hr.elim

theorem Moves.core_tail (hm : Moves False q q') (h : Core q ∧ q.tail = q.segments.getLast?) :
    Core q' ∧ q'.tail = q'.segments.getLast? := by
  induction hm with
  | refl => exact h
  | tail _ hm ih => exact ⟨hm.core ih.1, hm.tail_eq ih.1 ih.2⟩

theorem Moves.ids (hm : Moves renew q q') (hc : Core q) (hi : IDsIncrease q) : IDsIncrease q' := by
  suffices h : Core q' ∧ IDsIncrease q' from h.2
  induction hm with
  | refl => exact ⟨hc, hi⟩
  | tail _ hm ih => exact ⟨hm.core ih.1, hm.ids ih.1 ih.2⟩

end Queue

end MetricStore.Handoff
