import MetricStore.Handoff.QueueShape

/-!
# The records of a queue

The abstract state of a queue is the list of its segment files' names and, for
each name, the records advanced past (`done`) and those not yet read (`todo`).
`Rep q done todo` connects it with the bytes of the files and with the fields
`pos`, `size` and `maxSize` of the segments.

The abstract operations are the obvious ones: an accepted append adds its record
to the last file, a rotation adds an empty file, and an advance drops the first
record of the first file and then the file itself if it is exhausted and not the
last. `unread` is what is to be read, in order.

Results:
* `Rep.append_fits`, `Rep.append_rotates`: the ways through `Append`.
* `Rep.current_eq`: `Current` reads the first record of the first file.
* `Rep.advance`: with the right cached length, `Advance` drops that record.
-/

namespace MetricStore.Handoff

open MetricStore.Common

namespace Queue

variable {q q' : Queue} {done todo : String → List Bytes}

/-! ## Names and records -/

/-- The names of the segment files, head first. -/
def names (q : Queue) : List String := q.segments.map fun p => (q.heap p).path

/-- The records that have not been advanced past, in order. -/
def unread (names : List String) (todo : String → List Bytes) : List Bytes := names.flatMap todo

/-- The segment `s` with the file `f` holds the records that `done` and `todo` give for its
    name. -/
def Holds (done todo : String → List Bytes) (s : Segment) (f : Bytes) : Prop :=
  SegRep s f (done s.path) (todo s.path)

/-- The listed segments hold the records `done` and `todo`, and the directory has
    no other files. -/
structure Stored (q : Queue) (done todo : String → List Bytes) : Prop extends Listed q where
  seg : ∀ p ∈ q.segments,
    SegRep (q.heap p) (q.data p) (done (q.heap p).path) (todo (q.heap p).path)
  owned : ∀ name ∈ q.dir, name ∈ q.names
  named : ∀ p ∈ q.segments, (decimal (q.heap p).path).isSome = true
  limit : ∀ p ∈ q.segments, (q.heap p).maxSize = q.maxSegmentSize

/-- The open queue `q` holds the records `done` and `todo`. -/
structure Rep (q : Queue) (done todo : String → List Bytes) : Prop extends
  Stored q done todo, Core q

theorem mem_names {p : ℕ} (hp : p ∈ q.segments) : (q.heap p).path ∈ q.names :=
  List.mem_map_of_mem hp

theorem Listed.eq_of_path (h : Listed q) {p p' : ℕ} (hp : p ∈ q.segments) (hp' : p' ∈ q.segments)
    (he : (q.heap p).path = (q.heap p').path) : p = p' :=
  List.inj_on_of_nodup_map h.paths hp hp' he

theorem Frame.names (hf : Frame q q') : q'.names = q.names := by
  unfold Queue.names
  rw [hf.segments]
  simp only [hf.path]

theorem names_withFile {name : String} (h : Listed q) :
    (q.withFile name).names = q.names ++ [name] :=
  pushSegment_map h Segment.path

theorem names_withSegment (h : Listed q) :
    q.withSegment.names = q.names ++ [q.nextSegmentID.repr] :=
  names_withFile h

theorem names_dropHead {a p : ℕ} {rest : List ℕ} (hs : q.segments = a :: p :: rest) :
    q.names = (q.heap a).path :: (q.dropHead a p rest).names := by
  unfold names
  simp only [dropHead_path, hs]
  rfl

/-! ## The files -/

theorem fileData_insert_self (dir : AList (fun _ : String => File)) (name : String) (file : File) :
    fileData (dir.insert name file) name = file.data := by
  unfold fileData
  rw [AList.lookup_insert]; rfl

theorem fileData_insert_of_ne (dir : AList (fun _ : String => File)) {name other : String}
    (h : other ≠ name) (file : File) : fileData (dir.insert name file) other = fileData dir other := by
  unfold fileData
  rw [AList.lookup_insert_ne h]

theorem fileData_erase_of_ne (dir : AList (fun _ : String => File)) {name other : String}
    (h : other ≠ name) : fileData (dir.erase name) other = fileData dir other := by
  unfold fileData
  rw [AList.lookup_erase_ne h]

theorem fileData_store_self (q : Queue) (p : ℕ) (s : Segment) (w : Option Bytes) :
    fileData (q.store p s w).dir s.path = w.getD (fileData q.dir s.path) := by
  cases w with
  | none => rfl
  | some f => exact fileData_insert_self _ _ _

theorem fileData_store_of_ne {p : ℕ} {s : Segment} {w : Option Bytes} {name : String}
    (h : name ≠ s.path) : fileData (q.store p s w).dir name = fileData q.dir name := by
  cases w with
  | none => rfl
  | some f => exact fileData_insert_of_ne _ h _

theorem data_store_self {p : ℕ} {s : Segment} {w : Option Bytes} (hs : s.path = (q.heap p).path) :
    (q.store p s w).data p = w.getD (q.data p) := by
  unfold data
  rw [store_heap_self, fileData_store_self, hs]

theorem data_store_of_ne {p p' : ℕ} {s : Segment} {w : Option Bytes} (hp : p' ≠ p)
    (hpath : (q.heap p').path ≠ s.path) : (q.store p s w).data p' = q.data p' := by
  unfold data
  rw [store_heap_of_ne hp, fileData_store_of_ne hpath]

theorem mem_dir_store {p : ℕ} {s : Segment} {w : Option Bytes} {name : String}
    (h : name ∈ (q.store p s w).dir) : name = s.path ∨ name ∈ q.dir := by
  cases w with
  | none => exact .inr h
  | some f => exact (AList.mem_insert _).mp h

theorem data_withFile_of_lt {p : ℕ} {name : String} (hb : p < q.fresh)
    (hpath : (q.heap p).path ≠ name) : (q.withFile name).data p = q.data p := by
  unfold data withFile
  rw [pushSegment_heap_of_lt hb]
  exact fileData_insert_of_ne _ hpath _

theorem data_withFile_fresh (q : Queue) (name : String) :
    (q.withFile name).data q.fresh = toBE 8 (uint64 0) := by
  unfold data withFile
  rw [pushSegment_heap_fresh]
  exact fileData_insert_self _ _ _

theorem Listed.path_ne_next (h : Listed q) {p : ℕ} (hp : p ∈ q.segments) :
    (q.heap p).path ≠ q.nextSegmentID.repr := fun he =>
  q.repr_nextSegmentID_not_mem (he ▸ h.onDisk p hp)

/-! ## Every listed segment -/

/-- Every listed segment and its file satisfy `P`. -/
def Each (q : Queue) (P : Segment → Bytes → Prop) : Prop :=
  ∀ p ∈ q.segments, P (q.heap p) (q.data p)

variable {P : Segment → Bytes → Prop}

/-- An update of one listed segment and its file leaves the others alone. -/
theorem Each.store (h : Listed q) {p : ℕ} (hp : p ∈ q.segments) {s : Segment} {w : Option Bytes}
    (hs : SameFile (q.heap p) s) (hself : P s (w.getD (q.data p)))
    (hother : ∀ x ∈ q.segments, x ≠ p → P (q.heap x) (q.data x)) : Each (q.store p s w) P := by
  intro x hx
  by_cases hxp : x = p
  · subst hxp
    rw [data_store_self hs.1, store_heap_self]
    exact hself
  · have hne : (q.heap x).path ≠ (q.heap p).path := fun he => hxp (h.eq_of_path hx hp he)
    rw [data_store_of_ne hxp (by rwa [hs.1]), store_heap_of_ne hxp]
    exact hother x hx hxp

/-- A new segment leaves the others alone. -/
theorem Each.withFile {name : String} (h : Listed q) (hfree : name ∉ q.dir)
    (hnew : P (q.segmentOf name) (toBE 8 (uint64 0))) (hold : Each q P) :
    Each (q.withFile name) P := by
  intro p hp
  rcases mem_pushSegment.mp hp with hp | rfl
  · have hpath : (q.heap p).path ≠ name := fun he => hfree (he ▸ h.onDisk p hp)
    rw [data_withFile_of_lt (h.bound p hp) hpath, Queue.withFile,
      pushSegment_heap_of_lt (h.bound p hp)]
    exact hold p hp
  · rw [data_withFile_fresh, Queue.withFile, pushSegment_heap_fresh]
    exact hnew

theorem Each.withSegment (h : Listed q) (hnew : P q.freshSegment (toBE 8 (uint64 0)))
    (hold : Each q P) : Each q.withSegment P :=
  .withFile h q.repr_nextSegmentID_not_mem hnew hold

/-- Removing the head leaves the others alone. -/
theorem Each.dropHead (h : Listed q) {a p : ℕ} {rest : List ℕ} (hs : q.segments = a :: p :: rest)
    (hold : Each q P) : Each (q.dropHead a p rest) P := by
  intro x hx
  have hpath := h.path_ne_head hs x hx
  have hheap : (q.dropHead a p rest).heap x = q.heap x :=
    dropHead_heap_of_ne fun he => hpath (by rw [he])
  have hdata : (q.dropHead a p rest).data x = q.data x := by
    unfold data
    rw [hheap]
    exact fileData_erase_of_ne _ hpath
  rw [hdata, hheap]
  exact hold x (by rw [hs]; exact List.mem_cons_of_mem a hx)

/-- The directory has no other files than those of the listed segments. -/
def Owned (q : Queue) : Prop := ∀ name ∈ q.dir, name ∈ q.names

theorem Owned.keys_perm (h : Owned q) (hl : Listed q) : q.dir.keys.Perm q.names := by
  refine (List.perm_ext_iff_of_nodup q.dir.nodupKeys hl.paths).mpr fun name => ?_
  refine ⟨fun hname => h name (AList.mem_keys.mpr hname), fun hname => ?_⟩
  obtain ⟨p, hp, rfl⟩ := List.mem_map.mp hname
  exact AList.mem_keys.mp (hl.onDisk p hp)

theorem Owned.store (h : Owned q) {p : ℕ} (hp : p ∈ q.segments) {s : Segment}
    (hs : SameFile (q.heap p) s) (w : Option Bytes) : Owned (q.store p s w) := by
  intro name hname
  rw [(store_frame q hs w).names]
  rcases mem_dir_store hname with rfl | hname
  · rw [hs.1]; exact mem_names hp
  · exact h name hname

theorem Owned.withSegment (h : Owned q) (hl : Listed q) : Owned q.withSegment := by
  intro name hname
  rw [names_withSegment hl, List.mem_append, List.mem_singleton]
  rcases (AList.mem_insert _).mp hname with rfl | hname
  · exact .inr rfl
  · exact .inl (h name hname)

theorem Owned.dropHead (h : Owned q) {a p : ℕ} {rest : List ℕ} (hs : q.segments = a :: p :: rest) :
    Owned (q.dropHead a p rest) := by
  intro name hname
  obtain ⟨hne, hname⟩ := AList.mem_erase.mp hname
  have hmem := h name hname
  rw [names_dropHead hs, List.mem_cons] at hmem
  exact hmem.resolve_left hne

/-! ## One segment and its file -/

/-- An update of a listed segment and its file. -/
theorem Rep.store (h : Rep q done todo) {p : ℕ} (hp : p ∈ q.segments) {s : Segment}
    {w : Option Bytes} {d t : List Bytes} (hs : SameFile (q.heap p) s)
    (hseg : SegRep s (w.getD (q.data p)) d t) :
    Rep (q.store p s w) (Function.update done (q.heap p).path d)
      (Function.update todo (q.heap p).path t) := by
  have hf := store_frame q hs w
  have hc := hf.core h.toCore
  refine ⟨⟨hc.toListed, ?_, Owned.store h.owned hp hs w, fun x hx => ?_, ?_⟩, hc.nonempty, hc.head_eq⟩
  · refine Each.store (P := Holds _ _) h.toListed hp hs ?_ fun x hx hxp => ?_ <;> unfold Holds
    · rw [hs.1, Function.update_self, Function.update_self]
      exact hseg
    · have hne : (q.heap x).path ≠ (q.heap p).path := fun he => hxp (h.eq_of_path hx hp he)
      rw [Function.update_of_ne hne, Function.update_of_ne hne]
      exact h.seg x hx
  · rw [hf.path]; exact h.named x hx
  · exact Each.store (P := fun s _ => s.maxSize = q.maxSegmentSize) h.toListed hp hs
      (hs.2.2.trans (h.limit p hp)) fun x hx _ => h.limit x hx

/-- An update that leaves `pos`, `size` and the file alone. -/
theorem Rep.store_none (h : Rep q done todo) {p : ℕ} (hp : p ∈ q.segments) (n : ℤ) :
    Rep (q.store p { q.heap p with currentSize := n } none) done todo := by
  have hrep := h.store hp (s := { q.heap p with currentSize := n }) (w := none) ⟨rfl, rfl, rfl⟩
    ((h.seg p hp).congr rfl rfl)
  rwa [Function.update_eq_self, Function.update_eq_self] at hrep

/-! ## A new file -/

/-- `addSegment` adds an empty file. -/
theorem Stored.withSegment (h : Stored q done todo) :
    Stored q.withSegment (Function.update done q.nextSegmentID.repr [])
      (Function.update todo q.nextSegmentID.repr []) := by
  have hpath : q.freshSegment.path = q.nextSegmentID.repr := rfl
  refine ⟨withSegment_listed h.toListed, ?_, Owned.withSegment h.owned h.toListed, ?_, ?_⟩
  · refine Each.withSegment (P := Holds _ _) h.toListed ?_ fun p hp => ?_ <;> unfold Holds
    · rw [hpath, Function.update_self, Function.update_self]
      exact segRep_new rfl rfl
    · rw [Function.update_of_ne (h.path_ne_next hp), Function.update_of_ne (h.path_ne_next hp)]
      exact h.seg p hp
  · refine Each.withSegment (P := fun s _ => (decimal s.path).isSome = true) h.toListed ?_ h.named
    rw [hpath, decimal_repr]; rfl
  · exact Each.withSegment (P := fun s _ => s.maxSize = q.maxSegmentSize) h.toListed rfl h.limit

/-- `head` and `tail` are not part of what is stored. -/
theorem Stored.setEnds (h : Stored q done todo) (a t : Option ℕ) :
    Stored { q with head := a, tail := t } done todo :=
  ⟨⟨h.bound, h.isOpen, h.onDisk, h.paths⟩, h.seg, h.owned, h.named, h.limit⟩

theorem Rep.withSegment (h : Rep q done todo) : Rep q.withSegment
    (Function.update done q.nextSegmentID.repr []) (Function.update todo q.nextSegmentID.repr []) :=
  have hc := withSegment_core h.toCore
  ⟨h.toStored.withSegment, hc.nonempty, hc.head_eq⟩

/-- A rotation. -/
theorem Rep.rotate (h : Rep q done todo) : Rep { q.withSegment with tail := some q.fresh }
    (Function.update done q.nextSegmentID.repr []) (Function.update todo q.nextSegmentID.repr []) :=
  ⟨h.withSegment.toStored.setEnds _ _, h.withSegment.nonempty, h.withSegment.head_eq⟩

/-! ## The head -/

/-- Removing the head removes its file. -/
theorem Rep.dropHead (h : Rep q done todo) {a p : ℕ} {rest : List ℕ}
    (hs : q.segments = a :: p :: rest) : Rep (q.dropHead a p rest) done todo := by
  have hc := dropHead_core h.toCore hs
  refine ⟨⟨hc.toListed, ?_, Owned.dropHead h.owned hs, ?_, ?_⟩, hc.nonempty, hc.head_eq⟩
  · exact Each.dropHead (P := Holds done todo) h.toListed hs h.seg
  · exact Each.dropHead (P := fun s _ => (decimal s.path).isSome = true) h.toListed hs h.named
  · exact Each.dropHead (P := fun s _ => s.maxSize = q.maxSegmentSize) h.toListed hs h.limit

/-- `trimHead` drops the first file unless it is the only one. -/
theorem Rep.trimHead (h : Rep q done todo) : Rep q.trimHead done todo ∧
    q.trimHead.names = if q.names.length = 1 then q.names else q.names.tail := by
  obtain ⟨hlen, heq⟩ | ⟨a, p, rest, hs, -, heq⟩ := h.trimHead_cases
  · rw [heq, if_pos (by simpa [names] using hlen)]
    exact ⟨h, rfl⟩
  · rw [heq, if_neg (by simp [names, hs]), names_dropHead hs]
    exact ⟨h.dropHead hs, rfl⟩

/-- The head segment of an open queue. -/
theorem Core.exists_head (h : Core q) : ∃ a l, q.segments = a :: l ∧ q.head = some a := by
  obtain ⟨a, l, hs⟩ := List.exists_cons_of_ne_nil h.nonempty
  exact ⟨a, l, hs, by rw [h.head_eq, hs]; rfl⟩

theorem names_of_head {a : ℕ} {l : List ℕ} (hs : q.segments = a :: l) :
    q.names = (q.heap a).path :: l.map fun p => (q.heap p).path := by
  unfold names
  rw [hs]; rfl

/-- What `Current` returns when the first file has the unread records `rs`. -/
def readFirst (maxSize : Int64) : List Bytes → ReadResult
  | [] => .error .eof
  | r :: _ => readRecord maxSize r

theorem readFirst_cons (maxSize : Int64) (r : Bytes) (rest : List Bytes) :
    readFirst maxSize (r :: rest) = readRecord maxSize r := rfl

theorem readRecord_ne_eof (maxSize : Int64) (r : Bytes) : readRecord maxSize r ≠ .error .eof := by
  unfold readRecord
  split_ifs <;> simp

theorem current_of_head {a : ℕ} (ha : q.head = some a) :
    q.current = (((q.heap a).current (q.data a)).1,
      q.store a ((q.heap a).current (q.data a)).2 none) := by
  unfold current
  rw [ha]

theorem advance_of_head {a : ℕ} (ha : q.head = some a) : q.advance.2 =
    if ((q.heap a).advance (q.data a)).1 = some .eof then
      (q.store a ((q.heap a).advance (q.data a)).2.1 ((q.heap a).advance (q.data a)).2.2).trimHead
    else q.store a ((q.heap a).advance (q.data a)).2.1 ((q.heap a).advance (q.data a)).2.2 := by
  unfold advance
  rw [ha]
  dsimp only
  split_ifs <;> rfl

/-- `Current` reads the first unread record of the first file and caches its
    length. -/
theorem Rep.current_eq (h : Rep q done todo) {a : ℕ} (ha : q.head = some a) (hm : a ∈ q.segments) :
    ∃ n : ℤ, q.current = (readFirst q.maxSegmentSize (todo (q.heap a).path),
        q.store a { q.heap a with currentSize := n } none) ∧
      (todo (q.heap a).path ≠ [] → n = headLength (todo (q.heap a).path)) := by
  have hseg := h.seg a hm
  rw [current_of_head ha, ← h.limit a hm]
  cases ht : todo (q.heap a).path with
  | nil =>
    rw [ht] at hseg
    rw [hseg.current_nil]
    exact ⟨(q.heap a).currentSize, rfl, fun hne => absurd rfl hne⟩
  | cons r rest =>
    rw [ht] at hseg
    rw [hseg.current_cons (h.isOpen a hm)]
    exact ⟨r.length, rfl, fun _ => rfl⟩

/-- The cached length of the head segment is that of its first unread record. -/
def Cached (q : Queue) (todo : String → List Bytes) : Prop :=
  ∀ a ∈ q.head, todo (q.heap a).path ≠ [] →
    (q.heap a).currentSize = headLength (todo (q.heap a).path)

/-- `Current` returns the first unread record of the first file, leaves the
    records as they are and caches the length. -/
theorem Rep.current (h : Rep q done todo) : ∃ name l, q.names = name :: l ∧
    q.current.1 = readFirst q.maxSegmentSize (todo name) ∧
    Rep q.current.2 done todo ∧ q.current.2.Cached todo := by
  obtain ⟨a, l, hs, ha⟩ := h.exists_head
  have hm : a ∈ q.segments := by rw [hs]; exact List.mem_cons_self
  obtain ⟨n, heq, hn⟩ := h.current_eq ha hm
  rw [heq]
  refine ⟨_, _, names_of_head hs, rfl, h.store_none hm n, fun a' ha' => ?_⟩
  obtain rfl : a = a' := Option.some.inj (ha.symm.trans ha')
  rw [store_heap_self]
  exact hn

/-- The records after `Advance`: the first one of the first file is gone. -/
def advanceTodo (name : String) (todo : String → List Bytes) : String → List Bytes :=
  Function.update todo name (todo name).tail

/-- The records advanced past after `Advance`. -/
def advanceDone (name : String) (done todo : String → List Bytes) : String → List Bytes :=
  Function.update done name (done name ++ (todo name).take 1)

/-- The files after `Advance`: an exhausted first file is gone unless it is the
    only one. -/
def advanceNames (todo : String → List Bytes) (names : List String) : List String :=
  match names with
  | name :: other :: rest => if (todo name).tail = [] then other :: rest else names
  | _ => names

/-- The head segment advances past its first record, and is at its end if it was the last. -/
theorem Rep.advance_head (h : Rep q done todo) (hc : q.Cached todo) {a : ℕ}
    (hm : a ∈ q.segments) (ha : q.head = some a) :
    ∃ s w, (q.heap a).advance (q.data a) =
        (if (todo (q.heap a).path).tail = [] then some .eof else none, s, w) ∧
      SameFile (q.heap a) s ∧
      Rep (q.store a s w) (advanceDone (q.heap a).path done todo)
        (advanceTodo (q.heap a).path todo) := by
  have hseg := h.seg a hm
  have ho := h.isOpen a hm
  unfold advanceDone advanceTodo
  cases ht : todo (q.heap a).path with
  | nil =>
    rw [ht] at hseg
    refine ⟨_, _, hseg.advance_nil ho, ⟨rfl, rfl, rfl⟩, ?_⟩
    have hrep := h.store_none hm 0
    rw [List.take_nil, List.append_nil, List.tail_nil, Function.update_eq_self, ← ht,
      Function.update_eq_self]
    exact hrep
  | cons r rest =>
    rw [ht] at hseg
    have hcache : (q.heap a).currentSize = r.length := by
      have := hc a ha (by rw [ht]; exact List.cons_ne_nil _ _)
      rwa [ht] at this
    obtain ⟨s, f, heq, rfl, hrep⟩ := hseg.advance_cons ho hcache
    exact ⟨_, _, heq, ⟨rfl, rfl, rfl⟩, h.store hm ⟨rfl, rfl, rfl⟩ hrep⟩

/-- `Advance`, with the right cached length. -/
theorem Rep.advance (h : Rep q done todo) (hc : q.Cached todo) {name : String} {l : List String}
    (hnames : q.names = name :: l) :
    Rep q.advance.2 (advanceDone name done todo) (advanceTodo name todo) ∧
      q.advance.2.names = advanceNames todo q.names := by
  obtain ⟨a, segs, hs, ha⟩ := h.exists_head
  have hm : a ∈ q.segments := by rw [hs]; exact List.mem_cons_self
  obtain rfl : (q.heap a).path = name :=
    (List.cons.inj ((names_of_head hs).symm.trans hnames)).1
  obtain ⟨s, w, heq, hsame, hrep⟩ := h.advance_head hc hm ha
  have hn : (q.store a s w).names = q.names := (store_frame q hsame w).names
  rw [advance_of_head ha, heq]
  -- the first file is trimmed if nothing is left in it
  by_cases hlast : (todo (q.heap a).path).tail = []
  · simp only [hlast, if_true]
    refine ⟨hrep.trimHead.1, ?_⟩
    rw [hrep.trimHead.2, hn, hnames]
    unfold advanceNames
    cases l with
    | nil => rfl
    | cons other rest => simp [hlast]
  · simp only [hlast, if_false, reduceCtorEq]
    refine ⟨hrep, ?_⟩
    rw [hn, hnames]
    unfold advanceNames
    cases l with
    | nil => rfl
    | cons other rest => simp [hlast]

/-! ## The tail -/

theorem store_self (q : Queue) (p : ℕ) : q.store p (q.heap p) none = q := by
  unfold store
  rw [Function.update_eq_self]

theorem Rep.segmentAppend_fits (h : Rep q done todo) {p : ℕ} (hp : p ∈ q.segments) {b : Bytes}
    (hfit : (q.heap p).size + b.length ≤ q.maxSegmentSize.toInt) :
    (q.segmentAppend {} p b).1 = none ∧ Rep (q.segmentAppend {} p b).2 done
      (Function.update todo (q.heap p).path (todo (q.heap p).path ++ [b])) := by
  rw [← h.limit p hp] at hfit
  obtain ⟨f, heq, hrep⟩ := (h.seg p hp).append_ok (h.isOpen p hp) hfit
  unfold segmentAppend
  rw [heq]
  refine ⟨rfl, ?_⟩
  have hstore := h.store hp (w := some f) (s := { q.heap p with
      currentSize := if (q.heap p).currentSize = 0 then b.length else (q.heap p).currentSize,
      size := (q.heap p).size + (b.length + 8) }) ⟨rfl, rfl, rfl⟩ (hrep _ rfl rfl)
  rwa [Function.update_eq_self] at hstore

theorem Rep.segmentAppend_full (h : Rep q done todo) {p : ℕ} (hp : p ∈ q.segments) {b : Bytes}
    (hfull : q.maxSegmentSize.toInt < (q.heap p).size + b.length) (io : AppendIO) :
    q.segmentAppend io p b = (some .segmentFull, q) := by
  rw [← h.limit p hp] at hfull
  unfold segmentAppend
  rw [SegRep.append_full (h.isOpen p hp) io hfull]
  exact congrArg _ (q.store_self p)

theorem append_noRoom {t : ℕ} (ht : q.tail = some t) {b : Bytes} (io : QueueIO)
    (hroom : q.maxSize.toInt < q.diskUsage + b.length) : q.append io b = (some .queueFull, q) := by
  unfold append appendWith
  simp only [ht]
  rw [if_pos hroom]

theorem Rep.append_eq_segmentAppend (h : Rep q done todo) {t : ℕ} (ht : q.tail = some t)
    (hm : t ∈ q.segments) {b : Bytes} (hroom : q.diskUsage + b.length ≤ q.maxSize.toInt)
    (hfit : (q.heap t).size + b.length ≤ q.maxSegmentSize.toInt) :
    q.append {} b = (none, (q.segmentAppend {} t b).2) := by
  have hnone := (h.segmentAppend_fits hm hfit).1
  unfold append appendWith
  simp only [ht]
  rw [if_neg (by omega)]
  generalize q.segmentAppend {} t b = r at hnone
  obtain ⟨e, q₁⟩ := r
  obtain rfl : e = none := hnone
  rfl

/-- A record that fits the tail segment. -/
theorem Rep.append_fits (h : Rep q done todo) {t : ℕ} (ht : q.tail = some t) (hm : t ∈ q.segments)
    {b : Bytes} (hroom : q.diskUsage + b.length ≤ q.maxSize.toInt)
    (hfit : (q.heap t).size + b.length ≤ q.maxSegmentSize.toInt) :
    (q.append {} b).1 = none ∧ (q.append {} b).2.names = q.names ∧
      Rep (q.append {} b).2 done
        (Function.update todo (q.heap t).path (todo (q.heap t).path ++ [b])) := by
  rw [h.append_eq_segmentAppend ht hm hroom hfit]
  exact ⟨rfl, (segmentAppend_frame q {} t b).names, (h.segmentAppend_fits hm hfit).2⟩

/-- A rotation. The new file gets the record if it is not too big for any file. -/
theorem Rep.append_rotates (h : Rep q done todo) {t : ℕ} (ht : q.tail = some t)
    (hm : t ∈ q.segments) {b : Bytes} (hroom : q.diskUsage + b.length ≤ q.maxSize.toInt)
    (hfull : q.maxSegmentSize.toInt < (q.heap t).size + b.length) :
    (q.append {} b).1 =
      (if footerSize + b.length ≤ q.maxSegmentSize.toInt then none else some .segmentFull) ∧
    (q.append {} b).2.names = q.names ++ [q.nextSegmentID.repr] ∧
    Rep (q.append {} b).2 (Function.update done q.nextSegmentID.repr [])
      (Function.update todo q.nextSegmentID.repr
        (if footerSize + b.length ≤ q.maxSegmentSize.toInt then [b] else [])) := by
  set q₁ : Queue := { q.withSegment with tail := some q.fresh } with hq₁
  have hrep₁ := h.rotate
  have heq : q.append {} b = q₁.segmentAppend {} q.fresh b := by
    unfold append appendWith
    simp only [ht]
    rw [if_neg (by omega), h.segmentAppend_full hm hfull]
    simp only [addSegment_eq]
    rfl
  have hnames : (q₁.segmentAppend {} q.fresh b).2.names = q.names ++ [q.nextSegmentID.repr] := by
    rw [(segmentAppend_frame q₁ {} q.fresh b).names]
    exact names_withSegment h.toListed
  have hm₁ : q.fresh ∈ q₁.segments := q.fresh_mem_withSegment
  have hheap : q₁.heap q.fresh = q.freshSegment := q.withSegment_heap_fresh
  rw [heq]
  by_cases hfit : footerSize + b.length ≤ q.maxSegmentSize.toInt
  · obtain ⟨hnone, hrep⟩ := hrep₁.segmentAppend_fits hm₁ (b := b) (by rw [hheap]; exact hfit)
    rw [hheap] at hrep
    simp only [if_pos hfit]
    refine ⟨hnone, hnames, ?_⟩
    have hnew : q.freshSegment.path = q.nextSegmentID.repr := rfl
    rwa [hnew, Function.update_self, Function.update_idem] at hrep
  · have hbig := hrep₁.segmentAppend_full hm₁ (b := b) (by rw [hheap]; exact lt_of_not_ge hfit) {}
    simp only [if_neg hfit]
    refine ⟨by rw [hbig], hnames, ?_⟩
    rw [hbig]
    exact hrep₁

end Queue

end MetricStore.Handoff
