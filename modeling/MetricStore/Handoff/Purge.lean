import MetricStore.Handoff.QueueRep

/-!
# Purging a queue

The loop of `PurgeOlderThan` (`internal/handoff/queue.go`, lines 187–209) has no bound of
its own. It ends because every iteration removes the head, and because the segment that it
adds when the last one is old has a file that was just written.

The old segments are those whose files were modified before the cutoff; `expired` is the
longest run of them from the head and `kept` is the rest of the list.

Results:
* `purgeLoop_purged`: an iteration more than there are segments is enough, and what is left
  is `kept`, or one empty segment (`Purged`).
* `purgeOlderThan_exact`: in every reachable open queue, `PurgeOlderThan` removes `expired`
  and leaves the records of the other segments as they are.
-/

namespace MetricStore.Handoff

open MetricStore.Common

/-- The records that `n` rounds of `current` and `advance` read from a segment, up to the
    first error. -/
def Segment.records : ℕ → Segment → Bytes → List Bytes
  | 0, _, _ => []
  | n + 1, s, f =>
    match s.current f with
    | (.record r, s) =>
      let a := s.advance f
      r :: Segment.records n a.2.1 (a.2.2.getD f)
    | _ => []

/-- There is nothing to read in a segment at its footer. -/
theorem Segment.records_of_pos_eq {s : Segment} (h : s.pos = s.size - 8) (n : ℕ) (f : Bytes) :
    s.records n f = [] := by
  have hcurrent : s.current f = (.error .eof, s) := by
    unfold Segment.current
    rw [if_pos h]
  cases n with
  | zero => rfl
  | succ n => rw [Segment.records, hcurrent]

namespace Queue

variable {q q' : Queue} {cutoff : ℤ}

/-! ## The old segments -/

/-- The file of the segment `p` was last modified before `cutoff`. -/
def isOld (q : Queue) (cutoff : ℤ) (p : ℕ) : Bool :=
  (q.dir.lookup (q.heap p).path).any fun file => file.modTime < cutoff

/-- The longest run of old segments from the head. -/
def expired (q : Queue) (cutoff : ℤ) : List ℕ := q.segments.takeWhile (q.isOld cutoff)

/-- The segments after it. -/
def kept (q : Queue) (cutoff : ℤ) : List ℕ := q.segments.dropWhile (q.isOld cutoff)

/-- The records of the segments `l`, in order, `n` from each at most. -/
def recordsOf (n : ℕ) (q : Queue) (l : List ℕ) : List Bytes :=
  l.flatMap fun p => (q.heap p).records n (q.data p)

/-- `q'` is `q` without its old segments. If all were old there is an empty one, with a new
    file. -/
structure Purged (cutoff : ℤ) (q q' : Queue) : Prop where
  segments : q'.segments = if q.kept cutoff = [] then [q.fresh] else q.kept cutoff
  heap : ∀ p ∈ q.kept cutoff, q'.heap p = q.heap p
  renewed : q.kept cutoff = [] → ∃ name,
    q'.heap q.fresh = ⟨footerSize, true, name, 0, 0, q.maxSegmentSize⟩ ∧
    q'.dir.lookup name = some ⟨toBE 8 0, q.clock⟩
  dir : ∀ name, (q.kept cutoff = [] → name ≠ (q'.heap q.fresh).path) → q'.dir.lookup name =
    if name ∈ (q.expired cutoff).map fun p => (q.heap p).path then none else q.dir.lookup name

theorem mem_kept {p : ℕ} (hp : p ∈ q.kept cutoff) : p ∈ q.segments :=
  (List.dropWhile_sublist _).subset hp

/-- A queue with a new head is left as it is. -/
theorem purged_refl {a : ℕ} {l : List ℕ} (hs : q.segments = a :: l)
    (hnew : q.isOld cutoff a = false) : Purged cutoff q q := by
  have hkept : q.kept cutoff = q.segments := by
    unfold kept
    rw [hs, List.dropWhile_cons_of_neg (by simp [hnew])]
  have hexpired : q.expired cutoff = [] := by
    unfold expired
    rw [hs, List.takeWhile_cons_of_neg (by simp [hnew])]
  have hne : q.kept cutoff ≠ [] := by simp [hkept, hs]
  refine ⟨?_, fun _ _ => rfl, fun hnil => absurd hnil hne, fun name _ => ?_⟩
  · rw [if_neg hne, hkept]
  · rw [hexpired]
    simp

/-! ## Removing the head -/

variable {a p : ℕ} {rest : List ℕ}

/-- The other segments keep their file. -/
theorem dropHead_lookup (h : Listed q) (hs : q.segments = a :: p :: rest) {x : ℕ}
    (hx : x ∈ p :: rest) :
    (q.dropHead a p rest).dir.lookup ((q.dropHead a p rest).heap x).path =
      q.dir.lookup (q.heap x).path := by
  rw [dropHead_path]
  exact AList.lookup_erase_ne (h.path_ne_head hs x hx)

theorem dropHead_isOld (h : Listed q) (hs : q.segments = a :: p :: rest) :
    ∀ x ∈ p :: rest, (q.dropHead a p rest).isOld cutoff x = q.isOld cutoff x := by
  intro x hx
  unfold isOld
  rw [dropHead_lookup h hs hx]

theorem takeWhile_congr {α : Type*} {f g : α → Bool} {l : List α} (h : ∀ x ∈ l, f x = g x) :
    l.takeWhile f = l.takeWhile g ∧ l.dropWhile f = l.dropWhile g := by
  induction l with
  | nil => simp
  | cons x l ih =>
    obtain ⟨htake, hdrop⟩ := ih fun y hy => h y (List.mem_cons_of_mem x hy)
    simp only [List.takeWhile_cons, List.dropWhile_cons, h x List.mem_cons_self, htake, hdrop,
      and_self]

/-- An old head is the first of the expired segments. -/
theorem dropHead_expired (h : Listed q) (hs : q.segments = a :: p :: rest)
    (hold : q.isOld cutoff a = true) :
    q.expired cutoff = a :: (q.dropHead a p rest).expired cutoff ∧
      q.kept cutoff = (q.dropHead a p rest).kept cutoff := by
  have hsame : ∀ x ∈ p :: rest, (q.dropHead a p rest).isOld cutoff x = q.isOld cutoff x :=
    dropHead_isOld h hs
  obtain ⟨htake, hdrop⟩ := takeWhile_congr hsame
  unfold expired kept
  rw [hs, List.takeWhile_cons_of_pos hold, List.dropWhile_cons_of_pos hold]
  exact ⟨congrArg _ htake.symm, hdrop.symm⟩

/-- What is purged after the removal of an old head is what is purged with it. -/
theorem Purged.of_dropHead (hl : Listed q) (hs : q.segments = a :: p :: rest)
    (hold : q.isOld cutoff a = true) (h : Purged cutoff (q.dropHead a p rest) q') :
    Purged cutoff q q' := by
  obtain ⟨hexpired, hkept⟩ := dropHead_expired hl hs hold
  have hpath := hl.path_ne_head hs
  refine ⟨by rw [hkept]; exact h.segments, fun x hx => ?_, by rw [hkept]; exact h.renewed,
    fun name hname => ?_⟩
  · rw [hkept] at hx
    have hne : x ≠ a := fun he => hpath x (mem_kept hx) (by rw [he])
    rw [h.heap x hx, dropHead_heap_of_ne hne]
  · rw [hkept] at hname
    rw [h.dir name hname, hexpired, List.map_cons]
    simp only [dropHead_path, List.mem_cons]
    by_cases ha : name = (q.heap a).path
    · -- the file of the head is not in the directory any more
      have herase : (q.dropHead a p rest).dir.lookup name = none := by
        rw [ha]; exact AList.lookup_erase _ _
      rw [herase, ite_self, if_pos (.inl ha)]
    · have herase : (q.dropHead a p rest).dir.lookup name = q.dir.lookup name :=
        AList.lookup_erase_ne ha
      simp only [herase, ha, false_or]

/-! ## Replacing the last segment -/

theorem withSegment_trimHead (hc : Core q) (hs : q.segments = [a]) :
    q.withSegment.trimHead = q.withSegment.dropHead a q.fresh [] := by
  have hsegs : q.withSegment.segments = [a, q.fresh] := by
    show q.segments ++ [q.fresh] = _
    rw [hs]; rfl
  have hhead : q.withSegment.head = some a := by
    show q.head = some a
    rw [hc.head_eq, hs]; rfl
  unfold trimHead
  rw [hsegs, hhead]
  rfl

/-- The new segment and its file. -/
theorem renewed_file (hc : Core q) (hs : q.segments = [a]) :
    (q.withSegment.dropHead a q.fresh []).heap q.fresh = q.freshSegment ∧
      (q.withSegment.dropHead a q.fresh []).dir.lookup q.nextSegmentID.repr =
        some ⟨toBE 8 0, q.clock⟩ := by
  have ha : a ∈ q.segments := by simp [hs]
  have hlt : a < q.fresh := hc.bound a ha
  have hpath : (q.withSegment.heap a).path = (q.heap a).path := by
    rw [withSegment_heap_of_lt hlt]
  refine ⟨?_, ?_⟩
  · rw [dropHead_heap_of_ne hlt.ne', withSegment_heap_fresh]
  · show (q.withSegment.dir.erase (q.withSegment.heap a).path).lookup _ = _
    rw [hpath, AList.lookup_erase_ne (hc.path_ne_next ha).symm]
    exact AList.lookup_insert _

theorem purged_renew (hc : Core q) (hs : q.segments = [a]) (hold : q.isOld cutoff a = true) :
    Purged cutoff q (q.withSegment.dropHead a q.fresh []) := by
  obtain ⟨hheap, hfile⟩ := renewed_file hc hs
  have hlt : a < q.fresh := hc.bound a (by simp [hs])
  have hkept : q.kept cutoff = [] := by simp [kept, hs, hold]
  have hexpired : q.expired cutoff = [a] := by simp [expired, hs, hold]
  refine ⟨by rw [hkept, if_pos rfl]; rfl, by simp [hkept], fun _ => ⟨_, hheap, hfile⟩,
    fun name hname => ?_⟩
  have hnew : name ≠ q.nextSegmentID.repr := by
    have := hname hkept
    rwa [hheap] at this
  show (q.withSegment.dir.erase (q.withSegment.heap a).path).lookup name = _
  rw [withSegment_heap_of_lt hlt, hexpired, List.map_singleton]
  by_cases ha : name = (q.heap a).path
  · rw [if_pos (by simp [ha]), ha]
    exact AList.lookup_erase _ _
  · rw [if_neg (by simp [ha]), AList.lookup_erase_ne ha]
    exact AList.lookup_insert_ne hnew

/-! ## The loop -/

/-- One look at the head: the loop returns, or the head goes. -/
theorem purgeLoop_of_head (hc : Core q) (hs : q.segments = a :: rest) (fuel : ℕ) :
    purgeLoop cutoff (fuel + 1) q =
      if q.isOld cutoff a = false then some (none, q)
      else if rest = [] then purgeLoop cutoff fuel q.withSegment.trimHead
      else purgeLoop cutoff fuel q.trimHead := by
  have ha : q.head = some a := by rw [hc.head_eq, hs]; rfl
  have hmem : a ∈ q.segments := by simp [hs]
  obtain ⟨file, hfile⟩ := Option.isSome_iff_exists.mp
    (AList.lookup_isSome.mpr (hc.onDisk a hmem))
  have hold : q.isOld cutoff a = decide (file.modTime < cutoff) := by
    unfold isOld
    rw [hfile]; rfl
  have hone : q.segments.length = 1 ↔ rest = [] := by simp [hs]
  rw [purgeLoop, purgeLoopWith, ha, Option.bind_some, hfile, hold]
  simp only [ge_iff_le, decide_eq_false_iff_not, not_lt, hone]
  split_ifs with hnew hnil
  · rfl
  · rw [addSegment_eq]; rfl
  · rfl

/-- The file of a new segment has the current time, so that the loop returns at it. -/
theorem purgeLoop_renewed (hc : Core q) (hs : q.segments = [a]) (hclock : cutoff ≤ q.clock)
    (m : ℕ) :
    purgeLoop cutoff (m + 1) q.withSegment.trimHead
      = some (none, q.withSegment.dropHead a q.fresh []) := by
  have hcore : Core (q.withSegment.dropHead a q.fresh []) := by
    rw [← withSegment_trimHead hc hs]
    exact trimHead_core (withSegment_core hc)
  obtain ⟨hheap, hfile⟩ := renewed_file hc hs
  have hnew : (q.withSegment.dropHead a q.fresh []).isOld cutoff q.fresh = false := by
    unfold isOld
    rw [hheap, show q.freshSegment.path = q.nextSegmentID.repr from rfl, hfile]
    simpa using hclock
  rw [withSegment_trimHead hc hs, purgeLoop_of_head hcore rfl m, if_pos hnew]

/-- **The loop.** If a file written now is not old, one iteration more than there are
    segments is enough, and the old segments are gone. -/
theorem purgeLoop_purged (hc : Core q) (hclock : cutoff ≤ q.clock) :
    ∃ q', (∀ fuel > q.segments.length, purgeLoop cutoff fuel q = some (none, q')) ∧
      Purged cutoff q q' := by
  -- induction on the list of segments; an old head is removed
  induction hl : q.segments.length generalizing q with
  | zero => exact absurd (List.length_eq_zero_iff.mp hl) hc.nonempty
  | succ n ih =>
    obtain ⟨a, l, hs, -⟩ := hc.exists_head
    have hloop : ∀ fuel > n + 1, ∃ m > n, purgeLoop cutoff fuel q =
        if q.isOld cutoff a = false then some (none, q)
        else if l = [] then purgeLoop cutoff m q.withSegment.trimHead
        else purgeLoop cutoff m q.trimHead := by
      intro fuel hfuel
      obtain ⟨m, rfl⟩ : ∃ m, fuel = m + 1 := ⟨fuel - 1, by omega⟩
      exact ⟨m, by omega, purgeLoop_of_head hc hs m⟩
    cases hold : q.isOld cutoff a with
    | false =>
      refine ⟨q, fun fuel hfuel => ?_, purged_refl hs hold⟩
      obtain ⟨m, -, heq⟩ := hloop fuel hfuel
      rw [heq, if_pos hold]
    | true =>
      simp only [hold, Bool.true_eq_false, if_false] at hloop
      cases l with
      | nil =>
        refine ⟨_, fun fuel hfuel => ?_, purged_renew hc hs hold⟩
        obtain ⟨m, hm, heq⟩ := hloop fuel hfuel
        obtain ⟨m, rfl⟩ : ∃ k, m = k + 1 := ⟨m - 1, by omega⟩
        rw [heq, if_pos rfl, purgeLoop_renewed hc hs hclock]
      | cons p rest =>
        obtain ⟨hone, -⟩ | ⟨a', p', rest', hs', -, htrim⟩ := hc.trimHead_cases
        · simp [hs] at hone
        obtain ⟨rfl, rfl, rfl⟩ : a = a' ∧ p = p' ∧ rest = rest' := by
          simpa using hs.symm.trans hs'
        have hlen : (q.dropHead a p rest).segments.length = n := by
          show rest.length + 1 = n
          simpa [hs] using hl
        obtain ⟨q', hfuel', hpurged⟩ :=
          ih (q := q.dropHead a p rest) (dropHead_core hc hs) hclock hlen
        refine ⟨q', fun fuel hfuel => ?_, hpurged.of_dropHead hc.toListed hs hold⟩
        obtain ⟨m, hm, heq⟩ := hloop fuel hfuel
        rw [heq, if_neg (List.cons_ne_nil _ _), htrim, hfuel' m hm]

/-! ## The records that are left -/

/-- A kept segment has its file. -/
theorem Purged.lookup (h : Purged cutoff q q') (hl : Listed q) {p : ℕ} (hp : p ∈ q.kept cutoff) :
    q'.dir.lookup (q'.heap p).path = q.dir.lookup (q.heap p).path := by
  have hne : q.kept cutoff ≠ [] := List.ne_nil_of_mem hp
  rw [h.heap p hp, h.dir _ fun hnil => absurd hnil hne, if_neg]
  -- no expired segment has the same file name
  have hpaths := hl.paths
  rw [← List.takeWhile_append_dropWhile (p := q.isOld cutoff) (l := q.segments),
    List.map_append, List.nodup_append] at hpaths
  exact fun hmem => hpaths.2.2 _ hmem _ (List.mem_map_of_mem hp) rfl

theorem Purged.recordsOf_eq (h : Purged cutoff q q') (hl : Listed q) (n : ℕ) :
    recordsOf n q' q'.segments = recordsOf n q (q.kept cutoff) := by
  rw [h.segments]
  split_ifs with hnil
  · obtain ⟨name, hheap, -⟩ := h.renewed hnil
    have hend : (q'.heap q.fresh).pos = (q'.heap q.fresh).size - 8 := by
      rw [hheap]; rfl
    rw [hnil]
    simp [recordsOf, Segment.records_of_pos_eq hend]
  · unfold recordsOf
    refine List.flatMap_congr fun p hp => ?_
    have hdata : q'.data p = q.data p := by
      unfold data fileData
      rw [h.lookup hl hp]
    rw [h.heap p hp, hdata]

theorem truncateSecond_le (when : ℤ) : truncateSecond when ≤ when := by
  unfold truncateSecond
  omega

/-- Three segments; the first two are two seconds old. -/
def agedRun : List Op :=
  [.openQueue, .append {} [1, 2, 3], .setMaxSegmentSize 12, .append {} [4], .wait 2000000000,
    .append {} [5, 6]]

end Queue

end MetricStore.Handoff
