import MetricStore.Handoff.Rejections

/-!
# The disk budget of the queue

`Append` (`internal/handoff/queue.go`, lines 329–352) compares `DiskUsage` and the length
of the record with `maxSize`. What it writes is longer: the file grows by the 8 bytes of
the length as well, and after a rotation by the 8 bytes of a new footer.

The files are taken as they are, whatever their footers point to: nothing here depends on
the records, and `Advance` may be called at any time.

Results:
* `Measured.filesSize_eq`: the `DiskUsage` of an open queue is the size of its files.
* `Measured.append`: by how much an `Append` makes the files grow.
* `disk_budget`: they stay within `maxSize` in every run whose appends all leave room for
  what they write.
* `full_record_exceeds_budget`: a record of 8 bytes in a queue of 16.
-/

namespace MetricStore.Handoff

open MetricStore.Common

/-! ## Lengths of the files -/

theorem length_writeAt_of_le {f b : Bytes} {off : ℕ} (ho : off ≤ f.length)
    (hb : f.length ≤ off + b.length) : (writeAt f off b).length = off + b.length := by
  unfold writeAt
  simp only [List.length_append, List.length_take, List.length_replicate, List.length_drop]
  omega

theorem seekEnd_of_le {f : Bytes} (hf : 8 ≤ f.length) :
    seekEnd f (-footerSize) = .ok (f.length - 8) := by
  unfold seekEnd footerSize
  rw [show (f.length : ℤ) + -8 = (f.length - 8 : ℕ) by omega, seek_natCast]

namespace Segment

variable {s s' : Segment} {f : Bytes} {w : Option Bytes}

theorem current_size (s : Segment) (f : Bytes) : (s.current f).2.size = s.size := by
  unfold Segment.current
  repeat' (first | rfl | split | dsimp only)

/-- `advance` writes a footer in the place of the old one. -/
theorem advance_size (hf : 8 ≤ f.length) :
    (s.advance f).2.1.size = s.size ∧ ((s.advance f).2.2.getD f).length = f.length := by
  have hlength : ∀ pos, (writeAt f (f.length - 8) (toBE 8 pos)).length = f.length := fun pos => by
    rw [length_writeAt_of_le (by omega) (by rw [length_toBE]; omega), length_toBE]
    omega
  unfold Segment.advance
  simp only [seekEnd_of_le hf]
  repeat' (first | exact ⟨rfl, rfl⟩ | exact ⟨rfl, hlength _⟩ | split)

/-- An accepted record adds its bytes and those of its length. -/
theorem append_size (ho : s.isOpen = true) (hf : 8 ≤ f.length) {b : Bytes}
    (hfit : s.size + b.length ≤ s.maxSize.toInt) :
    (s.append {} f b).1 = none ∧ (s.append {} f b).2.1.size = s.size + (b.length + 8) ∧
      (((s.append {} f b).2.2.getD f).length : ℤ) = f.length + (b.length + 8) := by
  have hnone : (s.append {} f b).1 = none :=
    append_eq_none_iff.mpr ⟨ho, hfit, rfl, hf, trivial, rfl⟩
  refine ⟨hnone, ?_⟩
  unfold Segment.append at hnone ⊢
  rw [if_neg (by simp [ho]), if_neg (by omega)] at hnone ⊢
  simp only [Bool.false_eq_true, if_false, seekEnd_of_le hf, WriteOutcome.written] at hnone ⊢
  rw [if_neg (by simp)] at hnone ⊢
  constructor
  · split_ifs <;> rfl
  · rw [Option.getD_some, length_writeAt_of_le (by omega) (by simp; omega)]
    simp only [List.length_append, length_toBE]
    omega

/-- A file that has a footer is not written when it is opened. -/
theorem openSegment_size (hs : s.size = f.length) (hf : 8 ≤ f.length)
    (h : s.openSegment f = .ok (s', w)) : w = none ∧ s'.size = s.size := by
  have hread : ∃ pos, readUint64 f (f.length - 8) = .ok pos := by
    unfold readUint64 readBytes readAt
    rw [if_pos (by simp; omega)]
    exact ⟨_, rfl⟩
  obtain ⟨pos, hpos⟩ := hread
  unfold Segment.openSegment at h
  rw [if_neg (by omega), seekEnd_of_le hf] at h
  simp only [bind, Except.bind, hpos, pure, Except.pure] at h
  cases hseek : seek (int64 pos) with
  | error e => rw [hseek] at h; cases h
  | ok off =>
    simp only [hseek] at h
    split_ifs at h
    · cases hcur : readUint64 f off with
      | error e => rw [hcur] at h; cases h
      | ok n => rw [hcur] at h; cases h; exact ⟨rfl, rfl⟩
    · cases h; exact ⟨rfl, rfl⟩

end Segment

namespace Queue

variable {q q' : Queue}

/-! ## Model -/

/-- The total size of the segment files on disk. -/
def filesSize (q : Queue) : ℤ :=
  (q.dir.keys.map fun name => ((fileData q.dir name).length : ℤ)).sum

/-- The bytes that `Append(b)` adds to the files: none if the queue is full, the record and
    its length if it fits the tail, and otherwise a footer, with the record and its length
    if they fit a new segment. -/
def appendGrowth (q : Queue) (b : Bytes) : ℤ :=
  match q.tail with
  | none => 0
  | some t =>
    if q.maxSize.toInt < q.diskUsage + b.length then 0
    else if (q.heap t).size + b.length ≤ (q.heap t).maxSize.toInt then (b.length : ℤ) + 8
    else footerSize +
      if footerSize + b.length ≤ q.maxSegmentSize.toInt then (b.length : ℤ) + 8 else 0

/-- Calls of `Open`, `Append` without file errors, `Current`, `Advance` and `Close`, and
    the passing of time. -/
def Budgeted : Op → Prop
  | .openQueue | .closeQueue | .current | .advance | .wait _ => True
  | .append io _ => io = {}
  | .setMaxSegmentSize _ | .purgeOlderThan .. => False

instance : DecidablePred Budgeted
  | .openQueue | .closeQueue | .current | .advance | .wait _ => isTrue trivial
  | .append io _ => inferInstanceAs (Decidable (io = {}))
  | .setMaxSegmentSize _ | .purgeOlderThan .. => isFalse id

/-- An `Append` leaves room for everything it writes. -/
def LeavesRoom (q : Queue) : Op → Prop
  | .append _ b => q.diskUsage + q.appendGrowth b ≤ q.maxSize.toInt
  | _ => True

instance (q : Queue) : DecidablePred q.LeavesRoom
  | .append _ b => inferInstanceAs (Decidable (q.diskUsage + q.appendGrowth b ≤ q.maxSize.toInt))
  | .openQueue | .closeQueue | .current | .advance | .setMaxSegmentSize _ | .purgeOlderThan ..
  | .wait _ => isTrue trivial

/-! ## Measured queues -/

/-- Every file of the directory is named like a segment and has a footer. -/
def DirMeasured (q : Queue) : Prop :=
  ∀ name ∈ q.dir, (decimal name).isSome = true ∧ 8 ≤ (fileData q.dir name).length

/-- The segment knows the size of its file, which is named like one and has a footer. -/
structure Measures (s : Segment) (f : Bytes) : Prop where
  size : s.size = f.length
  footer : 8 ≤ f.length
  named : (decimal s.path).isSome = true

/-- The listed segments know the sizes of their files, and the directory has no other
    files. -/
structure Measured (q : Queue) : Prop extends Listed q where
  each : Each q Measures
  owned : Owned q

theorem Measured.dirMeasured (h : Measured q) : DirMeasured q := by
  intro name hname
  obtain ⟨p, hp, rfl⟩ := List.mem_map.mp (h.owned name hname)
  exact ⟨(h.each p hp).named, (h.each p hp).footer⟩

/-- `DiskUsage` is the size of the files. -/
theorem Measured.filesSize_eq (h : Measured q) : q.filesSize = q.diskUsage := by
  unfold filesSize diskUsage
  rw [((h.owned.keys_perm h.toListed).map _).sum_eq, names, List.map_map]
  refine congrArg List.sum (List.map_congr_left fun p hp => ?_)
  exact (h.each p hp).size.symm

/-- An update of a listed segment and its file. -/
theorem Measured.store (h : Measured q) {p : ℕ} (hp : p ∈ q.segments) {s : Segment}
    {w : Option Bytes} (hs : SameFile (q.heap p) s) (hsize : s.size = (w.getD (q.data p)).length)
    (hfooter : 8 ≤ (w.getD (q.data p)).length) : Measured (q.store p s w) where
  toListed := (store_frame q hs w).listed h.toListed
  each := .store h.toListed hp hs ⟨hsize, hfooter, hs.1 ▸ (h.each p hp).named⟩
    fun x hx _ => h.each x hx
  owned := h.owned.store hp hs w

/-- A new segment. -/
theorem Measured.withSegment (h : Measured q) : Measured q.withSegment where
  toListed := withSegment_listed h.toListed
  each := by
    refine .withSegment h.toListed ⟨by rw [length_toBE]; rfl, by rw [length_toBE], ?_⟩ h.each
    show (decimal q.nextSegmentID.repr).isSome = true
    rw [decimal_repr]; rfl
  owned := h.owned.withSegment h.toListed

/-- `head` and `tail` play no part. -/
theorem Measured.setEnds (h : Measured q) (a t : Option ℕ) :
    Measured { q with head := a, tail := t } :=
  ⟨⟨h.bound, h.isOpen, h.onDisk, h.paths⟩, h.each, h.owned⟩

theorem Listed.nodup_segments (h : Listed q) : q.segments.Nodup := h.paths.of_map _

theorem sum_map_update {l : List ℕ} (hl : l.Nodup) {p : ℕ} (hp : p ∈ l) (g : ℕ → ℤ) (v : ℤ) :
    (l.map (Function.update g p v)).sum = (l.map g).sum + (v - g p) := by
  induction l with
  | nil => cases hp
  | cons x l ih =>
    rw [List.nodup_cons] at hl
    rw [List.map_cons, List.map_cons, List.sum_cons, List.sum_cons]
    by_cases hx : x = p
    · subst hx
      have hrest : l.map (Function.update g x v) = l.map g :=
        List.map_congr_left fun y hy => Function.update_of_ne (by rintro rfl; exact hl.1 hy) _ _
      rw [hrest, Function.update_self]
      ring
    · rw [ih hl.2 ((List.mem_cons.mp hp).resolve_left (Ne.symm hx)), Function.update_of_ne hx]
      ring

theorem diskUsage_store (h : Listed q) {p : ℕ} (hp : p ∈ q.segments) (s : Segment)
    (w : Option Bytes) : (q.store p s w).diskUsage = q.diskUsage + (s.size - (q.heap p).size) := by
  unfold diskUsage
  have hsizes : (fun x => ((q.store p s w).heap x).size)
      = Function.update (fun x => (q.heap x).size) p s.size := by
    funext x
    by_cases hx : x = p
    · subst hx; rw [store_heap_self, Function.update_self]
    · rw [store_heap_of_ne hx, Function.update_of_ne hx]
  rw [hsizes]
  exact sum_map_update h.nodup_segments hp _ _

/-! ## The calls on an open queue -/

theorem Measured.current (h : Measured q) (hc : Core q) :
    Measured q.current.2 ∧ q.current.2.diskUsage = q.diskUsage := by
  obtain ⟨a, l, hs, ha⟩ := hc.exists_head
  have hm : a ∈ q.segments := by rw [hs]; exact List.mem_cons_self
  have hsize := Segment.current_size (q.heap a) (q.data a)
  rw [current_of_head ha]
  refine ⟨h.store hm (w := none) (current_sameFile _ _) ?_ (h.each a hm).footer, ?_⟩
  · rw [hsize]; exact (h.each a hm).size
  · rw [diskUsage_store h.toListed hm, hsize]; ring

/-- `trimHead` may remove a file. -/
theorem Measured.trimHead (h : Measured q) (hc : Core q) :
    Measured q.trimHead ∧ q.trimHead.diskUsage ≤ q.diskUsage := by
  obtain ⟨-, heq⟩ | ⟨a, p, rest, hs, -, heq⟩ := hc.trimHead_cases
  · rw [heq]; exact ⟨h, le_rfl⟩
  · have hm : a ∈ q.segments := by rw [hs]; exact List.mem_cons_self
    have hsize := (h.each a hm).size
    have hrest : ((p :: rest).map fun x => ((q.dropHead a p rest).heap x).size)
        = (p :: rest).map fun x => (q.heap x).size := by
      refine List.map_congr_left fun x hx => ?_
      rw [dropHead_heap_of_ne fun he => h.path_ne_head hs x hx (by rw [he])]
    rw [heq]
    refine ⟨⟨(dropHead_core hc hs).toListed, h.each.dropHead h.toListed hs, h.owned.dropHead hs⟩, ?_⟩
    show ((p :: rest).map fun x => ((q.dropHead a p rest).heap x).size).sum ≤ _
    unfold diskUsage
    rw [hrest, hs]
    simp only [List.map_cons, List.sum_cons]
    omega

theorem Measured.advance (h : Measured q) (hc : Core q) :
    Measured q.advance.2 ∧ q.advance.2.diskUsage ≤ q.diskUsage := by
  obtain ⟨a, l, hs, ha⟩ := hc.exists_head
  have hm : a ∈ q.segments := by rw [hs]; exact List.mem_cons_self
  have hsame := advance_sameFile (q.heap a) (q.data a)
  obtain ⟨hsize, hlength⟩ := Segment.advance_size (s := q.heap a) (h.each a hm).footer
  rw [advance_of_head ha]
  generalize (q.heap a).advance (q.data a) = r at hsame hsize hlength
  have hstore : Measured (q.store a r.2.1 r.2.2) := by
    refine h.store hm hsame ?_ ?_ <;> rw [hlength]
    · rw [hsize]; exact (h.each a hm).size
    · exact (h.each a hm).footer
  have husage : (q.store a r.2.1 r.2.2).diskUsage = q.diskUsage := by
    rw [diskUsage_store h.toListed hm, hsize]; ring
  split_ifs
  · obtain ⟨htrim, hle⟩ := hstore.trimHead ((store_frame q hsame _).core hc)
    exact ⟨htrim, husage ▸ hle⟩
  · exact ⟨hstore, husage.le⟩

/-- A record that fits a segment. -/
theorem Measured.segmentAppend (h : Measured q) {p : ℕ} (hp : p ∈ q.segments) {b : Bytes}
    (hfit : (q.heap p).size + b.length ≤ (q.heap p).maxSize.toInt) :
    (q.segmentAppend {} p b).1 = none ∧ Measured (q.segmentAppend {} p b).2 ∧
      (q.segmentAppend {} p b).2.diskUsage = q.diskUsage + (b.length + 8) := by
  have hseg := h.each p hp
  obtain ⟨hnone, hsize, hlength⟩ := Segment.append_size (h.isOpen p hp) hseg.footer hfit
  have hsame := append_sameFile {} (q.heap p) (q.data p) b
  unfold Queue.segmentAppend
  refine ⟨hnone, h.store hp hsame ?_ (by omega), ?_⟩
  · rw [hsize, hlength, hseg.size]
  · rw [diskUsage_store h.toListed hp, hsize]; ring

theorem Measured.rotated (h : Measured q) : Measured q.rotated := h.withSegment.setEnds _ _

/-- **What an `Append` writes.** -/
theorem Measured.append (h : Measured q) (hc : Core q) (htail : q.tail = q.segments.getLast?)
    (b : Bytes) : Measured (q.append {} b).2 ∧
      (q.append {} b).2.diskUsage = q.diskUsage + q.appendGrowth b := by
  obtain ⟨l, t, hs, hlast⟩ := hc.exists_last
  have ht : q.tail = some t := htail.trans hlast
  have hm : t ∈ q.segments := by rw [hs]; simp
  unfold appendGrowth
  simp only [ht]
  by_cases hroom : q.maxSize.toInt < q.diskUsage + b.length
  · rw [append_noRoom ht {} hroom, if_pos hroom]
    exact ⟨h, (add_zero _).symm⟩
  rw [if_neg hroom]
  by_cases hfit : (q.heap t).size + b.length ≤ (q.heap t).maxSize.toInt
  · obtain ⟨hnone, hmeasured, husage⟩ := h.segmentAppend hm hfit
    obtain ⟨hfull, -⟩ | ⟨-, heq, -⟩ := append_cases {} ht (not_lt.mp hroom)
    · have hfirst : QueueIO.first {} = {} := rfl
      rw [hfirst, hnone] at hfull
      cases hfull
    · rw [heq, if_pos hfit]
      exact ⟨hmeasured, husage⟩
  · have hrotated := diskUsage_rotated h.toListed
    have hfresh := q.rotated_heap_fresh
    rw [append_rotated ht (h.isOpen t hm) (not_lt.mp hroom) (lt_of_not_ge hfit), if_neg hfit]
    split_ifs with hnew
    · obtain ⟨-, hmeasured, husage⟩ := h.rotated.segmentAppend (p := q.fresh) (b := b)
        q.fresh_mem_withSegment (by rw [hfresh]; exact hnew)
      refine ⟨hmeasured, husage.trans ?_⟩
      rw [hrotated]; ring
    · rw [segmentAppend_full (by rw [hfresh]; rfl) (by rw [hfresh]; exact lt_of_not_ge hnew)]
      exact ⟨h.rotated, by rw [hrotated]; ring⟩

/-! ## `Open` -/

/-- The state of `loadSegments` with the names `rest` to come: a file that was taken up is
    measured, and a file that was not is gone. -/
structure LoadedMeasured (q : Queue) (rest : List String) (st : List ℕ × Queue) : Prop where
  each : Each { st.2 with segments := st.1 } Measures
  files : ∀ name ∈ st.2.dir, name ∈ q.dir ∧ fileData st.2.dir name = fileData q.dir name
  owned : ∀ name ∈ st.2.dir, name ∈ rest ∨ name ∈ st.1.map fun p => (st.2.heap p).path

theorem loadSegment_measured (hdir : DirMeasured q) {seen rest : List String} {name : String}
    {st : List ℕ × Queue} (hnodup : (seen ++ name :: rest).Nodup)
    (hload : Loading seen (name :: rest) st) (h : LoadedMeasured q (name :: rest) st) :
    LoadedMeasured q rest (loadSegmentWith .unbounded st name) := by
  have hname : name ∈ st.2.dir := hload.rest_mem name List.mem_cons_self
  obtain ⟨hmem, hdata⟩ := h.files name hname
  obtain ⟨hparse, hfooter⟩ := hdir name hmem
  obtain ⟨hnone, -⟩ | ⟨e, -, heq⟩ | ⟨id, s, w, hid, hopen, heq⟩ :=
    loadSegmentWith_cases .unbounded hname
  · rw [show decimal name = none from hnone] at hparse; cases hparse
  · -- the file is removed, and no segment found so far has its name
    have hfile : ∀ x ≠ name, fileData (st.2.dir.erase name) x = fileData st.2.dir x :=
      fun x hx => fileData_erase_of_ne _ hx
    rw [heq]
    refine ⟨fun p hp => ?_, fun x hx => ?_, fun x hx => ?_⟩
    · show Measures (st.2.heap p) (fileData (st.2.dir.erase name) (st.2.heap p).path)
      rw [hfile _ (hload.path_ne hnodup hp)]
      exact h.each p hp
    · obtain ⟨hxn, hx⟩ := AList.mem_erase.mp hx
      exact ⟨(h.files x hx).1, (hfile x hxn).trans (h.files x hx).2⟩
    · obtain ⟨hxn, hx⟩ := AList.mem_erase.mp hx
      refine (h.owned x hx).imp_left fun hrest => ?_
      exact (List.mem_cons.mp hrest).resolve_left hxn
  · rw [hdata] at hopen
    obtain ⟨rfl, hsize⟩ := Segment.openSegment_size (by rw [unopened, hdata]) hfooter hopen
    have hpath : s.path = name := (openSegment_sameFile hopen).1
    rw [heq]
    refine ⟨?_, h.files, fun x hx => ?_⟩
    · refine pushSegment_forall (w := none)
        (P := fun s' => Measures s' (fileData st.2.dir s'.path)) hload.listed h.each ?_
      rw [hpath, hdata]
      exact ⟨by rw [hsize, unopened, hdata], hfooter, by rw [hpath]; exact hparse⟩
    · have hpaths := pushSegment_map (s := s) (w := none) hload.listed Segment.path
      rw [hpath] at hpaths
      refine Eq.subst (motive := fun l => x ∈ rest ∨ x ∈ l) hpaths.symm ?_
      rw [List.mem_append, List.mem_singleton]
      rcases h.owned x hx with hrest | hlisted
      · rcases List.mem_cons.mp hrest with rfl | hrest
        · exact .inr (.inr rfl)
        · exact .inl hrest
      · exact .inr (.inl hlisted)

/-- The segments that `loadSegments` finds are measured, and take no more than there was. -/
theorem loaded_measured (hdir : DirMeasured q) :
    Measured q.loaded ∧ q.loaded.diskUsage ≤ q.filesSize := by
  obtain ⟨hload, h⟩ := loadSegmentsWith_induction .unbounded
    (motive := fun _ rest st => LoadedMeasured q rest st)
    ⟨fun p hp => absurd hp List.not_mem_nil, fun name hname => ⟨hname, rfl⟩,
      fun name hname => .inl (mem_readDir.mpr hname)⟩
    fun _ _ _ _ hnodup hload h => loadSegment_measured hdir hnodup hload h
  have howned : Owned q.loaded := fun name hname =>
    (h.owned name hname).resolve_left List.not_mem_nil
  refine ⟨⟨hload.listed, h.each, howned⟩, ?_⟩
  have hsizes : (q.loaded.segments.map fun p => (q.loaded.heap p).size)
      = (q.loaded.names.map fun name => ((fileData q.dir name).length : ℤ)) := by
    unfold names
    rw [List.map_map]
    refine List.map_congr_left fun p hp => ?_
    refine (h.each p hp).size.trans ?_
    exact congrArg (fun f : Bytes => (f.length : ℤ)) (h.files _ (hload.listed.onDisk p hp)).2
  have hsub : q.loaded.names.Sublist q.readDir := hload.paths
  have hperm : q.readDir.Perm q.dir.keys := List.perm_insertionSort _ _
  unfold diskUsage filesSize
  rw [hsizes, ← (hperm.map _).sum_eq]
  refine (hsub.map _).sum_le_sum fun x hx => ?_
  obtain ⟨name, -, rfl⟩ := List.mem_map.mp hx
  exact Int.natCast_nonneg _

/-- `Open` makes a file only where there is none. -/
theorem openQueue_measured (hdir : DirMeasured q) {e : Option Err}
    (hopen : q.openQueue = some (e, q')) :
    Measured q' ∧ q'.diskUsage ≤ max q.filesSize footerSize := by
  obtain ⟨hload, hle⟩ := loaded_measured hdir
  have hensure : Measured q.loaded.ensureSegment ∧ q.loaded.ensureSegment.segments ≠ [] ∧
      q.loaded.ensureSegment.diskUsage ≤ max q.filesSize footerSize := by
    unfold ensureSegment
    split_ifs with hnil
    · refine ⟨hload.withSegment, List.ne_nil_of_mem q.loaded.fresh_mem_withSegment, ?_⟩
      have husage : q.loaded.withSegment.diskUsage = q.loaded.diskUsage + footerSize :=
        diskUsage_rotated hload.toListed
      rw [husage, diskUsage, hnil, List.map_nil, List.sum_nil, zero_add]
      exact le_max_right _ _
    · exact ⟨hload, hnil, le_trans hle (le_max_left _ _)⟩
  obtain ⟨hmeasured, hne, hbound⟩ := hensure
  have hcore := setEnds_core hmeasured.toListed hne
  have hends : Measured q.loaded.ensureSegment.setEnds := hmeasured.setEnds _ _
  obtain ⟨hcurrent, husage⟩ := hends.current hcore
  have hcore' := (current_frame _).core hcore
  rw [openQueue_eq] at hopen
  unfold skipExhausted at hopen
  generalize q.loaded.ensureSegment.setEnds.current = r at hopen hcurrent husage hcore'
  have hbound' : r.2.diskUsage ≤ max q.filesSize footerSize := husage.le.trans hbound
  split at hopen
  · cases hopen
  · cases hopen
    obtain ⟨htrim, hle'⟩ := hcurrent.trimHead hcore'
    exact ⟨htrim, hle'.trans hbound'⟩
  · cases hopen
    exact ⟨hcurrent, hbound'⟩

/-! ## Runs -/

theorem step_maxSize {op : Op} (hop : Budgeted op) (hstep : q.step op = some q') :
    q'.maxSize = q.maxSize := by
  cases op with
  | openQueue =>
    obtain ⟨⟨e, q₁⟩, hq₁, rfl⟩ := Option.map_eq_some_iff.mp hstep
    exact (openQueue_kept hq₁).maxSize
  | closeQueue => cases hstep; rfl
  | append io b => cases hstep; exact (append_kept io q b).maxSize
  | current =>
    rw [step, stepWith, Option.ite_none_left_eq_some] at hstep
    cases hstep.2
    exact q.current_kept.maxSize
  | advance => cases hstep; exact q.advance_kept.maxSize
  | setMaxSegmentSize size => exact hop.elim
  | purgeOlderThan fuel when => exact hop.elim
  | wait ns => cases hstep; rfl

/-- The files have at most `bound` bytes, and an open queue knows their sizes. -/
structure Within (bound : ℤ) (q : Queue) : Prop where
  files : q.filesSize ≤ bound
  shape : Closed q ∧ DirMeasured q ∨ Measured q ∧ Core q ∧ q.tail = q.segments.getLast?

theorem Measured.within {bound : ℤ} (h : Measured q) (hc : Core q)
    (htail : q.tail = q.segments.getLast?) (hle : q.diskUsage ≤ bound) : Within bound q :=
  ⟨h.filesSize_eq ▸ hle, .inr ⟨h, hc, htail⟩⟩

theorem Within.dirMeasured {bound : ℤ} (h : Within bound q) : DirMeasured q := by
  rcases h.shape with ⟨-, hdir⟩ | ⟨hmeasured, -, -⟩
  · exact hdir
  · exact hmeasured.dirMeasured

/-- A call keeps the files within a bound that is above the growth of its append. -/
theorem step_within {bound : ℤ} {op : Op} (h8 : footerSize ≤ bound) (h : Within bound q)
    (hop : Budgeted op)
    (hroom : ∀ io b, op = .append io b → q.diskUsage + q.appendGrowth b ≤ bound)
    (hstep : q.step op = some q') : Within bound q' := by
  by_cases hopen : op = .openQueue
  · subst hopen
    obtain ⟨⟨e, q₁⟩, hq₁, rfl⟩ := Option.map_eq_some_iff.mp hstep
    obtain ⟨hmeasured, hle⟩ := openQueue_measured h.dirMeasured hq₁
    obtain ⟨hcore, htail, -⟩ := openQueue_shape hq₁
    exact hmeasured.within hcore htail (hle.trans (max_le h.files h8))
  have hfiles := h.files
  obtain ⟨-, ⟨hclosed, hdir⟩ | ⟨hmeasured, hcore, htail⟩⟩ := h
  · -- nothing happens to the files of a queue that is not open
    obtain ⟨hclosed', hdir', -⟩ := step_closed hclosed hopen hstep
    refine ⟨?_, .inl ⟨hclosed', ?_⟩⟩
    · unfold filesSize; rw [hdir']; exact hfiles
    · unfold DirMeasured; rw [hdir']; exact hdir
  rw [hmeasured.filesSize_eq] at hfiles
  cases op with
  | openQueue => exact absurd rfl hopen
  | closeQueue =>
    cases hstep
    refine ⟨?_, .inl ⟨⟨rfl, rfl, rfl⟩, hmeasured.dirMeasured⟩⟩
    exact hmeasured.filesSize_eq ▸ hfiles
  | append io b =>
    obtain rfl : io = {} := hop
    cases hstep
    obtain ⟨hmeasured', husage⟩ := hmeasured.append hcore htail b
    have hmoves : Moves False _ _ := append_moves {} q b
    obtain ⟨hcore', htail'⟩ := hmoves.core_tail ⟨hcore, htail⟩
    exact hmeasured'.within hcore' htail' (husage ▸ hroom {} b rfl)
  | current =>
    rw [step, stepWith, Option.ite_none_left_eq_some] at hstep
    cases hstep.2
    obtain ⟨hmeasured', husage⟩ := hmeasured.current hcore
    have hf := q.current_frame
    exact hmeasured'.within (hf.core hcore) (by rw [hf.tail, hf.segments, htail])
      (husage ▸ hfiles)
  | advance =>
    cases hstep
    obtain ⟨hmeasured', hle⟩ := hmeasured.advance hcore
    have hmoves : Moves False _ _ := advance_moves q
    obtain ⟨hcore', htail'⟩ := hmoves.core_tail ⟨hcore, htail⟩
    exact hmeasured'.within hcore' htail' (hle.trans hfiles)
  | setMaxSegmentSize size => exact hop.elim
  | purgeOlderThan fuel when => exact hop.elim
  | wait ns =>
    cases hstep
    have hf := wait_frame q ns
    exact Measured.within ⟨hf.listed hmeasured.toListed, hmeasured.each, hmeasured.owned⟩
      (hf.core hcore) htail hfiles

/-- A run whose appends grow the files to at most `bound`. -/
theorem run_within {maxSize : Int64} {clock bound : ℤ} {ops : List Op} {ok : Queue → Op → Prop}
    (h8 : footerSize ≤ bound) (hbudgeted : ∀ q op, ok q op → Budgeted op)
    (hbudget : ∀ q io b, q.maxSize = maxSize → Within bound q → ok q (.append io b) →
      q.diskUsage + q.appendGrowth b ≤ bound)
    (hok : Meets step ok (newQueue ∅ maxSize clock) ops)
    (hrun : run step (newQueue ∅ maxSize clock) ops = some q) : Within bound q := by
  have hinit : Within bound (newQueue ∅ maxSize clock) := by
    have hzero : (newQueue ∅ maxSize clock).filesSize = 0 := rfl
    refine ⟨hzero.le.trans (le_trans (by decide) h8), .inl ⟨⟨rfl, rfl, rfl⟩, fun name hname => ?_⟩⟩
    exact absurd hname (AList.notMem_empty name)
  have hinv := run_invariant step (I := fun q => q.maxSize = maxSize ∧ Within bound q)
    (fun q op q' h hok hstep => ?_) ⟨rfl, hinit⟩ hok hrun
  · exact hinv.2
  · have hop := hbudgeted q op hok
    refine ⟨(step_maxSize hop hstep).trans h.1, step_within h8 h.2 hop ?_ hstep⟩
    rintro io b rfl
    exact hbudget q io b h.1 h.2 hok

theorem Within.usage {bound : ℤ} (h0 : 0 ≤ bound) (h : Within bound q) :
    (q.segments ≠ [] → q.diskUsage = q.filesSize) ∧ q.diskUsage ≤ bound := by
  have hfiles := h.files
  obtain ⟨-, ⟨hclosed, -⟩ | ⟨hmeasured, -⟩⟩ := h
  · refine ⟨fun hne => absurd hclosed.1 hne, ?_⟩
    unfold diskUsage
    rw [hclosed.1]; exact h0
  · rw [hmeasured.filesSize_eq] at hfiles ⊢
    exact ⟨fun _ => rfl, hfiles⟩

/-- **Disk budget.** For every run of `Open`, `Append`, `Current`, `Advance` and `Close` from
    an empty directory, with a maximum of at least 8 bytes, whose appends all leave room for
    what they write: `DiskUsage` is the size of the files while the queue is open, and
    neither exceeds the maximum. -/
theorem disk_budget {maxSize : Int64} {clock : ℤ} {ops : List Op} (h8 : 8 ≤ maxSize.toInt)
    (hok : Meets step (fun q op => Budgeted op ∧ q.LeavesRoom op) (newQueue ∅ maxSize clock) ops)
    (hrun : run step (newQueue ∅ maxSize clock) ops = some q) :
    (q.segments ≠ [] → q.diskUsage = q.filesSize) ∧ q.diskUsage ≤ maxSize.toInt ∧
      q.filesSize ≤ maxSize.toInt := by
  have h : Within maxSize.toInt q := by
    refine run_within h8 (fun q op h => h.1) (fun q io b hmax _ hroom => ?_) hok hrun
    rw [← hmax]; exact hroom.2
  obtain ⟨heq, hle⟩ := h.usage (by omega)
  exact ⟨heq, hle, h.files⟩

/-- Two records that exactly fill a queue of 36 bytes, the first of them read in between. -/
def filledRun : List Op :=
  [.openQueue, .append {} [1, 2, 3, 4], .current, .advance, .append {} [5, 6, 7, 8, 9, 10, 11, 12],
    .closeQueue, .openQueue]

theorem disk_budget_filledRun :
    ∃ q, run step (newQueue ∅ 36 0) filledRun = some q ∧ q.segments ≠ [] ∧ q.filesSize = 36 ∧
      q.diskUsage = q.filesSize ∧ q.filesSize ≤ 36 := by
  have hall : Meets step (fun q op => Budgeted op ∧ q.LeavesRoom op) (newQueue ∅ 36 0) filledRun ∧
      ∃ q ∈ run step (newQueue ∅ 36 0) filledRun, q.segments ≠ [] ∧ q.filesSize = 36 := by decide
  obtain ⟨hok, q, hq, hne, hsize⟩ := hall
  obtain ⟨heq, -, hle⟩ := disk_budget (by decide) hok hq
  exact ⟨q, hq, hne, hsize, heq hne, hle⟩

/-- Without the condition the files still take at most 16 bytes more than the maximum: a
    record that is admitted brings its length and at most one footer. -/
theorem disk_overshoot {maxSize : Int64} {clock : ℤ} {ops : List Op} (h8 : 8 ≤ maxSize.toInt)
    (hok : Meets step (fun _ op => Budgeted op) (newQueue ∅ maxSize clock) ops)
    (hrun : run step (newQueue ∅ maxSize clock) ops = some q) :
    q.filesSize ≤ maxSize.toInt + 16 := by
  refine (run_within (by unfold footerSize; omega) (fun _ _ => id)
    (fun q io b hmax hwithin _ => ?_) hok hrun).files
  have husage := (hwithin.usage (by omega)).2
  have hgrowth : q.appendGrowth b = 0 ∨
      q.diskUsage + b.length ≤ q.maxSize.toInt ∧ q.appendGrowth b ≤ b.length + 16 := by
    unfold appendGrowth footerSize
    cases q.tail with
    | none => exact .inl rfl
    | some t =>
      dsimp only
      split_ifs with hfull
      · exact .inl rfl
      all_goals exact .inr ⟨not_lt.mp hfull, by omega⟩
  rw [hmax] at hgrowth
  omega

/-- A record of 8 bytes is admitted to a queue of 16: the file has then 24. -/
theorem full_record_exceeds_budget :
    ∃ q, run step (newQueue ∅ 16 0) [.openQueue, .append {} [1, 2, 3, 4, 5, 6, 7, 8]] = some q ∧
      q.segments ≠ [] ∧ q.diskUsage = 24 ∧ ¬ q.diskUsage ≤ q.maxSize.toInt := by
  have hall : ∃ q ∈ run step (newQueue ∅ 16 0) [.openQueue, .append {} [1, 2, 3, 4, 5, 6, 7, 8]],
      q.segments ≠ [] ∧ q.diskUsage = 24 ∧ ¬ q.diskUsage ≤ q.maxSize.toInt := by decide
  exact hall

end Queue

end MetricStore.Handoff
