import MetricStore.Handoff.QueueRep

/-!
# A queue as a sequence of records

The records that are still to be read, in order (`unread`), under the calls of a queue:
an accepted `Append` adds its record at the end, `Advance` drops the first one, and the
other calls leave them.

Results:
* `Rep.append`: the ways through `Append`, and what each does to the unread records.
* `Rep.setMaxSegmentSize`: a new limit keeps them.
* `openQueue_empty`: `Open` on an empty directory has none.
-/

namespace MetricStore.Handoff

open MetricStore.Common

namespace Queue

variable {q q' : Queue} {done todo : String → List Bytes}

/-! ## The unread records -/

theorem flatMap_update_of_notMem {l : List String} {n : String} (hn : n ∉ l) (rs : List Bytes) :
    l.flatMap (Function.update todo n rs) = l.flatMap todo := by
  refine List.flatMap_congr fun x hx => Function.update_of_ne ?_ _ _
  rintro rfl
  exact hn hx

theorem unread_append_last {names l : List String} {n : String} (hn : names = l ++ [n])
    (hnodup : names.Nodup) (b : Bytes) :
    unread names (Function.update todo n (todo n ++ [b])) = unread names todo ++ [b] := by
  subst hn
  have hnot : n ∉ l := fun hmem =>
    (List.nodup_append.mp hnodup).2.2 n hmem n (List.mem_singleton_self n) rfl
  unfold unread
  rw [List.flatMap_append, List.flatMap_append, flatMap_update_of_notMem hnot]
  simp

theorem unread_append_new {names : List String} {n : String} (hn : n ∉ names) (rs : List Bytes) :
    unread (names ++ [n]) (Function.update todo n rs) = unread names todo ++ rs := by
  unfold unread
  rw [List.flatMap_append, flatMap_update_of_notMem hn]
  simp

theorem unread_advance {names l : List String} {n : String} (hn : names = n :: l)
    (hnodup : names.Nodup) :
    unread (advanceNames todo names) (advanceTodo n todo) = (todo n).tail ++ unread l todo := by
  subst hn
  have hnot : n ∉ l := (List.nodup_cons.mp hnodup).1
  have hl : l.flatMap (advanceTodo n todo) = l.flatMap todo := flatMap_update_of_notMem hnot _
  have hfirst : advanceTodo n todo n = (todo n).tail := Function.update_self _ _ _
  unfold unread
  match l with
  | [] => simp [advanceNames, hfirst]
  | other :: rest =>
    by_cases hlast : (todo n).tail = []
    · rw [advanceNames, if_pos hlast, hl, hlast, List.nil_append]
    · rw [advanceNames, if_neg hlast, List.flatMap_cons, hl, hfirst]

/-! ## `Append` -/

/-- Every file but the last has an unread record. -/
def Busy (names : List String) (todo : String → List Bytes) : Prop :=
  ∀ name ∈ names.dropLast, todo name ≠ []

/-- `Append(b)` rotates although the tail segment has no unread record. -/
def RotatesExhausted (q : Queue) (b : Bytes) : Prop :=
  ∃ t ∈ q.tail, q.diskUsage + b.length ≤ q.maxSize.toInt ∧
    (q.heap t).maxSize.toInt < (q.heap t).size + b.length ∧
    (q.heap t).pos = (q.heap t).size - footerSize

instance (q : Queue) (b : Bytes) : Decidable (q.RotatesExhausted b) :=
  inferInstanceAs (Decidable (∃ t ∈ q.tail, _ ∧ _))

theorem Core.exists_last (h : Core q) : ∃ l t, q.segments = l ++ [t] ∧ q.segments.getLast? = some t :=
  ⟨_, _, (List.dropLast_append_getLast h.nonempty).symm, List.getLast?_eq_some_getLast h.nonempty⟩

theorem names_of_last {l : List ℕ} {t : ℕ} (hs : q.segments = l ++ [t]) :
    q.names = (l.map fun p => (q.heap p).path) ++ [(q.heap t).path] := by
  unfold names
  rw [hs]; simp

theorem nextSegmentID_notMem_names (h : Listed q) : q.nextSegmentID.repr ∉ q.names := fun hmem => by
  obtain ⟨p, hp, he⟩ := List.mem_map.mp hmem
  exact q.repr_nextSegmentID_not_mem (he ▸ h.onDisk p hp)

/-- A new last file needs an unread record in the old last file. -/
theorem Rep.busy_rotate (h : Rep q done todo) {l : List ℕ} {t : ℕ} (hs : q.segments = l ++ [t])
    (hbusy : Busy q.names todo) (hpos : (q.heap t).pos ≠ (q.heap t).size - footerSize)
    (rs : List Bytes) : Busy (q.names ++ [q.nextSegmentID.repr])
      (Function.update todo q.nextSegmentID.repr rs) := by
  intro name hname
  rw [List.dropLast_concat] at hname
  have hne : name ≠ q.nextSegmentID.repr := fun he =>
    nextSegmentID_notMem_names h.toListed (he ▸ hname)
  rw [Function.update_of_ne hne]
  rw [names_of_last hs, List.mem_append, List.mem_singleton] at hname
  rcases hname with hname | rfl
  · refine hbusy name ?_
    rw [names_of_last hs, List.dropLast_concat]; exact hname
  · exact fun hnil => hpos ((h.seg t (by rw [hs]; simp)).pos_eq_end_iff.mpr hnil)

/-- `Append` without file errors, when `tail` is the last segment: an accepted
    record is the last of the unread ones. -/
theorem Rep.append (h : Rep q done todo) (htail : q.tail = q.segments.getLast?) (b : Bytes) :
    ∃ done' todo', Rep (q.append {} b).2 done' todo' ∧
      unread (q.append {} b).2.names todo' =
        unread q.names todo ++ (if (q.append {} b).1 = none then [b] else []) ∧
      (q.append {} b).2.names.length ≤ q.names.length + 1 ∧
      (Busy q.names todo → ¬ q.RotatesExhausted b → Busy (q.append {} b).2.names todo') := by
  obtain ⟨l, t, hs, hlast⟩ := h.exists_last
  have ht : q.tail = some t := htail.trans hlast
  have hm : t ∈ q.segments := by rw [hs]; simp
  by_cases hroom : q.diskUsage + b.length ≤ q.maxSize.toInt
  swap
  · rw [append_noRoom ht {} (lt_of_not_ge hroom)]
    exact ⟨done, todo, h, by simp, Nat.le_succ _, fun hb _ => hb⟩
  by_cases hfit : (q.heap t).size + b.length ≤ q.maxSegmentSize.toInt
  · obtain ⟨hnone, hn, hrep⟩ := h.append_fits ht hm hroom hfit
    refine ⟨done, _, hrep, ?_, by rw [hn]; exact Nat.le_succ _, fun hbusy _ => ?_⟩
    · rw [hn, hnone, if_pos rfl]
      exact unread_append_last (names_of_last hs) h.paths b
    · -- only the last file has changed
      rw [hn]
      intro name hname
      by_cases heq : name = (q.heap t).path
      · rw [heq, Function.update_self]; simp
      · rw [Function.update_of_ne heq]; exact hbusy name hname
  · have hfull := lt_of_not_ge hfit
    obtain ⟨hres, hn, hrep⟩ := h.append_rotates ht hm hroom hfull
    refine ⟨_, _, hrep, ?_, by rw [hn]; simp, fun hbusy hrot => ?_⟩
    · rw [hn, unread_append_new (nextSegmentID_notMem_names h.toListed), hres]
      split_ifs <;> simp_all
    · rw [hn]
      refine h.busy_rotate hs hbusy (fun hpos => hrot ⟨t, ht, hroom, ?_, hpos⟩) _
      rwa [h.limit t hm]

/-! ## `SetMaxSegmentSize` -/

theorem withLimit_heap {p : ℕ} (hp : p ∈ q.segments) (size : Int64) :
    (q.withLimit size).heap p = { q.heap p with maxSize := size } :=
  if_pos hp

theorem Rep.withLimit (h : Rep q done todo) (size : Int64) : Rep (q.withLimit size) done todo := by
  have hf := q.withLimit_frame size
  have hc := hf.core h.toCore
  refine ⟨⟨hc.toListed, fun p hp => ?_, fun name hname => ?_, fun p hp => ?_, fun p hp => ?_⟩,
    hc.nonempty, hc.head_eq⟩
  · unfold data
    rw [hf.path]
    refine (h.seg p hp).congr ?_ ?_ <;> rw [withLimit_heap (q := q) hp]
  · rw [hf.names]; exact h.owned name hname
  · rw [hf.path]; exact h.named p hp
  · rw [withLimit_heap (q := q) hp]; rfl

/-- `SetMaxSegmentSize(size)` adds a segment although the tail segment has no
    unread record. -/
def GrowsExhausted (q : Queue) (size : Int64) : Prop :=
  ∃ t ∈ q.tail, size.toInt ≤ (q.heap t).size ∧ (q.heap t).pos = (q.heap t).size - footerSize

instance (q : Queue) (size : Int64) : Decidable (q.GrowsExhausted size) :=
  inferInstanceAs (Decidable (∃ t ∈ q.tail, _ ∧ _))

/-- `SetMaxSegmentSize`, when `tail` is the last segment, leaves the unread records
    as they are. -/
theorem Rep.setMaxSegmentSize (h : Rep q done todo) (htail : q.tail = q.segments.getLast?)
    (size : Int64) : ∃ q' done' todo', q.setMaxSegmentSize size = some (none, q') ∧
      Rep q' done' todo' ∧ unread q'.names todo' = unread q.names todo ∧
      (Busy q.names todo → ¬ q.GrowsExhausted size → Busy q'.names todo') := by
  obtain ⟨l, t, hs, hlast⟩ := h.exists_last
  have ht : q.tail = some t := htail.trans hlast
  have hm : t ∈ q.segments := by rw [hs]; simp
  have hrep := h.withLimit size
  have hn := (q.withLimit_frame size).names
  have hheap := withLimit_heap hm size
  have heq : q.setMaxSegmentSize size = if (q.heap t).size ≥ size.toInt then
      some (none, { (q.withLimit size).withSegment with tail := some q.fresh })
      else some (none, q.withLimit size) := by
    unfold Queue.setMaxSegmentSize setMaxSegmentSizeWith
    dsimp only
    rw [show (q.withLimit size).tail = some t from ht]
    simp only [hheap, addSegment_eq]
    rfl
  rw [heq]
  split_ifs with hgrow
  · refine ⟨_, _, _, rfl, hrep.rotate, ?_, fun hbusy hex => ?_⟩
    · show unread (q.withLimit size).withSegment.names _ = _
      rw [names_withSegment hrep.toListed,
        unread_append_new (nextSegmentID_notMem_names hrep.toListed), hn, List.append_nil]
    · show Busy (q.withLimit size).withSegment.names _
      rw [names_withSegment hrep.toListed]
      refine hrep.busy_rotate (l := l) (t := t) hs (by rwa [hn]) (fun hpos => hex ⟨t, ht, hgrow, ?_⟩) []
      rwa [hheap] at hpos
  · exact ⟨_, _, _, rfl, hrep, by rw [hn], fun hbusy _ => by rwa [hn]⟩

/-! ## `Open` on an empty directory -/

theorem Stored.setEnds_rep (h : Stored q done todo) (hne : q.segments ≠ []) :
    Rep q.setEnds done todo :=
  ⟨h.setEnds _ _, hne, rfl⟩

theorem Rep.unread_trimHead (h : Rep q done todo) {name : String} {l : List String}
    (hn : q.names = name :: l) (hnil : todo name = []) :
    unread q.trimHead.names todo = unread q.names todo := by
  rw [h.trimHead.2, hn]
  cases l with
  | nil => rfl
  | cons other rest => simp [unread, hnil]

theorem readFirst_ne_panicked (maxSize : Int64) (rs : List Bytes) :
    readFirst maxSize rs ≠ .panicked := by
  cases rs with
  | nil => simp [readFirst]
  | cons r rest =>
    rw [readFirst_cons, readRecord]
    split_ifs <;> simp

/-- The last stage of `Open` may drop a first file without unread records. -/
theorem Rep.skipExhausted (h : Rep q done todo) : ∃ q', q.skipExhausted = some (none, q') ∧
    Rep q' done todo ∧ unread q'.names todo = unread q.names todo ∧
    q'.names.length ≤ q.names.length ∧ (q.names.length = 1 → q'.names = q.names) := by
  obtain ⟨name, l, hnames, hres, hrep, -⟩ := h.current
  have hn := q.current_frame.names
  unfold Queue.skipExhausted
  generalize q.current = r at hres hrep hn
  obtain ⟨res, q₁⟩ := r
  obtain rfl : res = _ := hres
  cases ht : todo name with
  | nil =>
    refine ⟨_, rfl, hrep.trimHead.1, ?_, ?_, fun hone => ?_⟩
    · rw [hrep.unread_trimHead (hn.trans hnames) ht, hn]
    · rw [hrep.trimHead.2, hn]
      split_ifs
      · exact le_rfl
      · rw [List.length_tail]; exact Nat.sub_le _ _
    · rw [hrep.trimHead.2, hn, if_pos hone]
  | cons r rest =>
    refine ⟨q₁, ?_, hrep, by rw [hn], by rw [hn], fun _ => hn⟩
    rw [readFirst_cons, readRecord]
    split_ifs <;> rfl

/-- On an empty directory `Open` creates one empty file. -/
theorem openQueue_empty (hdir : q.dir = ∅) : ∃ q' name, q.openQueue = some (none, q') ∧
    q'.names = [name] ∧ Rep q' (fun _ => []) (fun _ => []) := by
  have hload : q.loadSegmentsWith .unbounded = ([], q) := by
    unfold loadSegmentsWith readDir
    rw [hdir]; rfl
  have hstored : Stored q.loaded (fun _ => []) (fun _ => []) := by
    unfold loaded loadedWith
    rw [hload]
    refine ⟨⟨by simp, by simp, by simp, by simp⟩, by simp, fun name hname => ?_, by simp, by simp⟩
    rw [hdir] at hname
    exact absurd hname (AList.notMem_empty name)
  have hensure : q.loaded.ensureSegment = q.loaded.withSegment := by
    unfold ensureSegment
    rw [if_pos (by unfold loaded loadedWith; rw [hload])]
  have hrep : Rep q.loaded.withSegment.setEnds (fun _ => []) (fun _ => []) := by
    have := hstored.withSegment.setEnds_rep (List.ne_nil_of_mem q.loaded.fresh_mem_withSegment)
    rwa [Function.update_eq_self_iff.mpr rfl] at this
  have hnames : q.loaded.withSegment.setEnds.names = [q.loaded.nextSegmentID.repr] := by
    show q.loaded.withSegment.names = _
    rw [names_withSegment hstored.toListed]
    unfold names loaded loadedWith
    rw [hload]; rfl
  obtain ⟨q', heq, hrep', -, -, hone⟩ := hrep.skipExhausted
  rw [openQueue_eq, hensure]
  exact ⟨q', _, heq, (hone (by rw [hnames]; rfl)).trans hnames, hrep'⟩

end Queue

end MetricStore.Handoff
