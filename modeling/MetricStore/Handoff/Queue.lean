import MetricStore.Common.Run
import MetricStore.Handoff.Segment

/-!
# The hinted-handoff queue

Model of `Queue` (`internal/handoff/queue.go`, lines 57–394). The queue keeps
pointers to segment values (`head`, `tail` and the list `segments`), so the
model has an explicit heap: a stale pointer is a pointer that is not in the
list.

* The directory holds the segment files under their names. `readDir` lists them
  sorted by name, as `ioutil.ReadDir` does. Subdirectories, which the code
  skips, are left out.
* The functions that read or choose the id of a segment have a `Numbering` as a
  parameter (`stepWith`). `Numbering.uint64` is the one of the source, in which
  the names from `2^64` on are not numbers and the id after `2^64 - 1` is 0. The
  functions without a parameter (`step`) are those for `Numbering.unbounded`,
  with which there is always a next id. The two make the same steps as long as
  the ids last (`run_uint64_eq` in `SegmentIDs`).
* `clock` is the current time in nanoseconds; a file that is written is stamped
  with it.
* The only file operations that can fail are those of `segment.append`
  (`AppendIO`).

Results:
* `Queue.addSegmentWith_eq`: adding a segment succeeds if the file name is not in
  use.
* `Queue.addSegment_eq`: with ids that do not run out it never is.
-/

namespace MetricStore.Handoff

open MetricStore.Common

/-! ## Model -/

/-- A file of the queue's directory. -/
structure File where
  data : Bytes
  modTime : ℤ
  deriving DecidableEq, Repr

/-- The number that a name of decimal digits stands for. -/
def decimal (name : String) : Option ℕ :=
  if name.toList ≠ [] ∧ name.toList.all Char.isDigit = true then
    some (Nat.ofDigitChars 10 name.toList 0)
  else none

/-- `strconv.ParseUint(name, 10, 64)`: a number of `2^64` or more is out of range. -/
def parseUint (name : String) : Option ℕ := (decimal name).filter (· < 2 ^ 64)

/-- The ids of segments: which id a file name stands for, and the id after the largest one
    in use. -/
structure Numbering where
  parse : String → Option ℕ
  next : ℕ → ℕ

namespace Numbering

/-- The ids of the source, of type `uint64`. -/
def uint64 : Numbering := ⟨parseUint, fun id => (id + 1) % 2 ^ 64⟩

/-- Ids that do not run out. -/
def unbounded : Numbering := ⟨decimal, (· + 1)⟩

end Numbering

/-- `Queue` (lines 57–76), with the directory, the heap of segments it points
    into and the clock. A closed queue has `segments = []`. -/
structure Queue where
  dir : AList (fun _ : String => File)
  clock : ℤ
  heap : ℕ → Segment
  fresh : ℕ
  segments : List ℕ
  head : Option ℕ
  tail : Option ℕ
  maxSegmentSize : Int64
  maxSize : Int64

namespace Queue

/-- `defaultSegmentSize` (line 24). -/
def defaultSegmentSize : Int64 := 10 * 1024 * 1024

/-- `NewQueue` (lines 86–93) on the directory `dir`, at time `clock`. -/
def newQueue (dir : AList (fun _ : String => File)) (maxSize : Int64) (clock : ℤ) : Queue where
  dir := dir
  clock := clock
  heap := default
  fresh := 0
  segments := []
  head := none
  tail := none
  maxSegmentSize := defaultSegmentSize
  maxSize := maxSize

/-- The bytes of the file `name`. -/
def fileData (dir : AList (fun _ : String => File)) (name : String) : Bytes :=
  ((dir.lookup name).map File.data).getD []

/-- The bytes of the file of the segment `p`. -/
def data (q : Queue) (p : ℕ) : Bytes := fileData q.dir (q.heap p).path

/-- The segment `p` becomes `s`; its file is written if there are new contents. -/
def store (q : Queue) (p : ℕ) (s : Segment) (w : Option Bytes) : Queue :=
  { q with
    heap := Function.update q.heap p s
    dir := match w with
      | none => q.dir
      | some f => q.dir.insert s.path ⟨f, q.clock⟩ }

/-- `ioutil.ReadDir`. -/
def readDir (q : Queue) : List String := q.dir.keys.insertionSort (· ≤ ·)

/-- `DiskUsage` (lines 238–244). -/
def diskUsage (q : Queue) : ℤ := (q.segments.map fun p => (q.heap p).size).sum

/-- `newSegment` (lines 427–445): the file is created if it is not there. -/
def newSegment (q : Queue) (path : String) (maxSize : Int64) : Except Err ℕ × Queue :=
  let f := fileData q.dir path
  let q := if (q.dir.lookup path).isSome then q else
    { q with dir := q.dir.insert path ⟨[], q.clock⟩ }
  match Handoff.newSegment path maxSize f with
  | .error e => (.error e, q)
  | .ok (s, w) => (.ok q.fresh, { q.store q.fresh s w with fresh := q.fresh + 1 })

/-- `nextSegmentID` (lines 301–326). -/
def nextSegmentIDWith (ids : Numbering) (q : Queue) : ℕ :=
  ids.next ((q.readDir.filterMap ids.parse).foldl max 0)

/-- `addSegment` (lines 247–260). -/
def addSegmentWith (ids : Numbering) (q : Queue) : Except Err ℕ × Queue :=
  match q.newSegment (q.nextSegmentIDWith ids).repr q.maxSegmentSize with
  | (.error e, q) => (.error e, q)
  | (.ok p, q) => (.ok p, { q with segments := q.segments ++ [p] })

/-- The loop body of `loadSegments` (lines 271–297): a file that cannot be
    opened as a segment is removed. -/
def loadSegmentWith (ids : Numbering) (st : List ℕ × Queue) (name : String) : List ℕ × Queue :=
  match ids.parse name with
  | none => st
  | some _ =>
    match st.2.newSegment name st.2.maxSegmentSize with
    | (.error _, q) => (st.1, { q with dir := q.dir.erase name })
    | (.ok p, q) => (st.1 ++ [p], q)

/-- `loadSegments` (lines 263–298). -/
def loadSegmentsWith (ids : Numbering) (q : Queue) : List ℕ × Queue :=
  q.readDir.foldl (loadSegmentWith ids) ([], q)

/-- `trimHead` (lines 381–394): removing the file succeeds. -/
def trimHead (q : Queue) : Queue :=
  match q.segments, q.head with
  | _ :: p :: rest, some h =>
    { q with
      segments := p :: rest
      heap := Function.update q.heap h (q.heap h).close
      dir := q.dir.erase (q.heap h).path
      head := some p }
  | _, _ => q

/-- `Current` (lines 355–361). -/
def current (q : Queue) : ReadResult × Queue :=
  match q.head with
  | none => (.error .notOpen, q)
  | some h =>
    let r := (q.heap h).current (q.data h)
    (r.1, q.store h r.2 none)

/-- `Open` (lines 96–125). `none` means that the call does not return: the
    runtime panics in `current`. -/
def openQueueWith (ids : Numbering) (q : Queue) : Option (Option Err × Queue) :=
  let (segments, q) := q.loadSegmentsWith ids
  let q := { q with segments := segments }
  let added : Except Err ℕ × Queue :=
    if q.segments = [] then q.addSegmentWith ids else (.ok 0, q)
  match added with
  | (.error e, q) => some (some e, q)
  | (.ok _, q) =>
    let q := { q with head := q.segments.head?, tail := q.segments.getLast? }
    match q.current with
    | (.panicked, _) => none
    | (.error .eof, q) => some (none, q.trimHead)
    | (_, q) => some (none, q)

/-- `Close` (lines 128–141). -/
def closeQueue (q : Queue) : Queue :=
  { q with
    heap := fun p => if p ∈ q.segments then (q.heap p).close else q.heap p
    head := none
    tail := none
    segments := [] }

/-- `segment.append` on the segment `p`. -/
def segmentAppend (q : Queue) (io : AppendIO) (p : ℕ) (b : Bytes) : Option Err × Queue :=
  let r := (q.heap p).append io (q.data p) b
  (r.1, q.store p r.2.1 r.2.2)

/-- The outcomes of the file operations of one call of `Append`: those of the
    first `segment.append` and those of the one after a rotation. -/
structure QueueIO where
  first : AppendIO := {}
  retry : AppendIO := {}
  deriving DecidableEq, Repr

/-- `Append` (lines 329–352). An error of the first `segment.append` other than
    `ErrSegmentFull` is dropped. -/
def appendWith (ids : Numbering) (io : QueueIO) (q : Queue) (b : Bytes) : Option Err × Queue :=
  match q.tail with
  | none => (some .notOpen, q)
  | some t =>
    if q.diskUsage + b.length > q.maxSize.toInt then (some .queueFull, q)
    else
      match q.segmentAppend io.first t b with
      | (some .segmentFull, q) =>
        match q.addSegmentWith ids with
        | (.error e, q) => (some e, q)
        | (.ok p, q) => { q with tail := some p }.segmentAppend io.retry p b
      | (_, q) => (none, q)

/-- `Advance` (lines 364–379). -/
def advance (q : Queue) : Option Err × Queue :=
  match q.head with
  | none => (some .notOpen, q)
  | some h =>
    let r := (q.heap h).advance (q.data h)
    let q := q.store h r.2.1 r.2.2
    if r.1 = some .eof then (none, q.trimHead) else (none, q)

/-- The new limit of `SetMaxSegmentSize` (lines 162–166), for the queue and its
    segments. -/
def withLimit (q : Queue) (size : Int64) : Queue :=
  { q with
    maxSegmentSize := size
    heap := fun p => if p ∈ q.segments then { q.heap p with maxSize := size } else q.heap p }

/-- `SetMaxSegmentSize` (lines 158–176). On a queue that is not open the nil
    `tail` makes the runtime panic. -/
def setMaxSegmentSizeWith (ids : Numbering) (q : Queue) (size : Int64) :
    Option (Option Err × Queue) :=
  let q := q.withLimit size
  match q.tail with
  | none => none
  | some t =>
    if (q.heap t).size ≥ q.maxSegmentSize.toInt then
      match q.addSegmentWith ids with
      | (.error e, q) => some (some e, q)
      | (.ok p, q) => some (none, { q with tail := some p })
    else some (none, q)

/-- The loop of `PurgeOlderThan` (lines 187–209), at most `fuel` iterations;
    `none` if it needs more. -/
def purgeLoopWith (ids : Numbering) (cutoff : ℤ) : ℕ → Queue → Option (Option Err × Queue)
  | 0, _ => none
  | fuel + 1, q =>
    match q.head.bind fun h => q.dir.lookup (q.heap h).path with
    | none => some (some .io, q)
    | some file =>
      if file.modTime ≥ cutoff then some (none, q)
      else
        let added : Except Err ℕ × Queue :=
          if q.segments.length = 1 then q.addSegmentWith ids else (.ok 0, q)
        match added with
        | (.error e, q) => some (some e, q)
        | (.ok _, q) => purgeLoopWith ids cutoff fuel q.trimHead

/-- `when.Truncate(time.Second)`. -/
def truncateSecond (when : ℤ) : ℤ := when - when % 1000000000

/-- `PurgeOlderThan` (lines 178–210), cut off after `fuel` iterations. -/
def purgeOlderThanWith (ids : Numbering) (fuel : ℕ) (q : Queue) (when : ℤ) :
    Option (Option Err × Queue) :=
  if q.segments = [] then some (none, q) else purgeLoopWith ids (truncateSecond when) fuel q

/-- A call on the queue, or the passing of time. -/
inductive Op
  | openQueue
  | closeQueue
  | append (io : QueueIO) (b : Bytes)
  | current
  | advance
  | setMaxSegmentSize (size : Int64)
  | purgeOlderThan (fuel : ℕ) (when : ℤ)
  | wait (ns : ℕ)
  deriving DecidableEq, Repr

/-- The queue after a call; `none` if the call does not return. -/
def stepWith (ids : Numbering) (q : Queue) : Op → Option Queue
  | .openQueue => (q.openQueueWith ids).map Prod.snd
  | .closeQueue => some q.closeQueue
  | .append io b => some (appendWith ids io q b).2
  | .current => if q.current.1 = .panicked then none else some q.current.2
  | .advance => some q.advance.2
  | .setMaxSegmentSize size => (q.setMaxSegmentSizeWith ids size).map Prod.snd
  | .purgeOlderThan fuel when => (purgeOlderThanWith ids fuel q when).map Prod.snd
  | .wait ns => some { q with clock := q.clock + ns }

/-! ## Ids that do not run out -/

/-- `nextSegmentID`. -/
def nextSegmentID (q : Queue) : ℕ := q.nextSegmentIDWith .unbounded

/-- `addSegment`. -/
def addSegment (q : Queue) : Except Err ℕ × Queue := q.addSegmentWith .unbounded

/-- `Open`. -/
def openQueue (q : Queue) : Option (Option Err × Queue) := q.openQueueWith .unbounded

/-- `Append`. -/
def append (io : QueueIO) (q : Queue) (b : Bytes) : Option Err × Queue :=
  appendWith .unbounded io q b

/-- `SetMaxSegmentSize`. -/
def setMaxSegmentSize (q : Queue) (size : Int64) : Option (Option Err × Queue) :=
  q.setMaxSegmentSizeWith .unbounded size

/-- The loop of `PurgeOlderThan`. -/
def purgeLoop (cutoff : ℤ) (fuel : ℕ) (q : Queue) : Option (Option Err × Queue) :=
  purgeLoopWith .unbounded cutoff fuel q

/-- `PurgeOlderThan`. -/
def purgeOlderThan (fuel : ℕ) (q : Queue) (when : ℤ) : Option (Option Err × Queue) :=
  purgeOlderThanWith .unbounded fuel q when

/-- The queue after a call. -/
def step (q : Queue) (op : Op) : Option Queue := q.stepWith .unbounded op

/-! ## Segment names -/

theorem decimal_repr (n : ℕ) : decimal n.repr = some n := by
  unfold decimal
  rw [Nat.toList_repr, if_pos, Nat.ofDigitChars_ten_toDigits]
  refine ⟨Nat.toDigits_ne_nil, List.all_eq_true.mpr fun c hc => ?_⟩
  exact Nat.isDigit_of_mem_toDigits (by norm_num) (by norm_num) hc

theorem parseUint_repr {n : ℕ} (h : n < 2 ^ 64) : parseUint n.repr = some n := by
  rw [parseUint, decimal_repr, Option.filter_some, if_pos (decide_eq_true h)]

theorem le_foldl_max (l : List ℕ) (a : ℕ) : a ≤ l.foldl max a ∧ ∀ x ∈ l, x ≤ l.foldl max a := by
  induction l generalizing a with
  | nil => simp
  | cons y l ih =>
    obtain ⟨h1, h2⟩ := ih (max a y)
    refine ⟨le_trans (le_max_left a y) h1, fun x hx => ?_⟩
    rcases List.mem_cons.mp hx with rfl | hx
    · exact le_trans (le_max_right a x) h1
    · exact h2 x hx

theorem mem_readDir {q : Queue} {name : String} : name ∈ q.readDir ↔ name ∈ q.dir := by
  unfold readDir
  rw [(List.perm_insertionSort _ _).mem_iff, AList.mem_keys]

/-- `nextSegmentID` is above the id of every file of the directory. -/
theorem lt_nextSegmentID {q : Queue} {name : String} (hm : name ∈ q.dir) {n : ℕ}
    (hn : decimal name = some n) : n < q.nextSegmentID := by
  have hmem : n ∈ q.readDir.filterMap decimal :=
    List.mem_filterMap.mpr ⟨name, mem_readDir.mpr hm, hn⟩
  exact Nat.lt_succ_of_le ((le_foldl_max _ 0).2 n hmem)

theorem repr_nextSegmentID_not_mem (q : Queue) : q.nextSegmentID.repr ∉ q.dir := fun hm =>
  absurd (lt_nextSegmentID hm (decimal_repr _)) (lt_irrefl _)

/-- A new segment with the file `name`. -/
def segmentOf (q : Queue) (name : String) : Segment :=
  { size := footerSize, isOpen := true, path := name, pos := 0, currentSize := 0,
    maxSize := q.maxSegmentSize }

/-- `q` with the segment `s` at the end of the list; its file is written if there
    are new contents. -/
def pushSegment (q : Queue) (s : Segment) (w : Option Bytes) : Queue :=
  { q.store q.fresh s w with fresh := q.fresh + 1, segments := q.segments ++ [q.fresh] }

/-- `q` with a new segment in the file `name`; `tail` is as it was. -/
def withFile (q : Queue) (name : String) : Queue :=
  q.pushSegment (q.segmentOf name) (some (toBE 8 (uint64 0)))

/-- `addSegment` succeeds if the name it picks is not in use. -/
theorem addSegmentWith_eq {ids : Numbering} {q : Queue}
    (hfree : (q.nextSegmentIDWith ids).repr ∉ q.dir) :
    q.addSegmentWith ids = (.ok q.fresh, q.withFile (q.nextSegmentIDWith ids).repr) := by
  have hnone := AList.lookup_eq_none.mpr hfree
  unfold addSegmentWith newSegment Handoff.newSegment Segment.openSegment fileData
  simp [hnone, withFile, pushSegment, segmentOf, store, writeAt]

/-- The segment that `addSegment` creates. -/
def freshSegment (q : Queue) : Segment := q.segmentOf q.nextSegmentID.repr

/-- The queue after `addSegment`. -/
def withSegment (q : Queue) : Queue := q.withFile q.nextSegmentID.repr

/-- With ids that do not run out, `addSegment` always succeeds. -/
theorem addSegment_eq (q : Queue) : q.addSegmentWith .unbounded = (.ok q.fresh, q.withSegment) :=
  addSegmentWith_eq q.repr_nextSegmentID_not_mem

/-! ## The stages of `Open` -/

/-- The queue with the segments that `loadSegments` found. -/
def loadedWith (ids : Numbering) (q : Queue) : Queue :=
  { (q.loadSegmentsWith ids).2 with segments := (q.loadSegmentsWith ids).1 }

/-- A first segment is added if there is none. -/
def ensureSegmentWith (ids : Numbering) (q : Queue) : Queue :=
  if q.segments = [] then q.withFile (q.nextSegmentIDWith ids).repr else q

/-- `head` and `tail` are set. -/
def setEnds (q : Queue) : Queue :=
  { q with head := q.segments.head?, tail := q.segments.getLast? }

/-- The head is trimmed if it is exhausted. -/
def skipExhausted (q : Queue) : Option (Option Err × Queue) :=
  match q.current with
  | (.panicked, _) => none
  | (.error .eof, q) => some (none, q.trimHead)
  | (_, q) => some (none, q)

theorem openQueueWith_eq {ids : Numbering} {q : Queue}
    (hfree : (q.loadedWith ids).segments = [] →
      ((q.loadedWith ids).nextSegmentIDWith ids).repr ∉ (q.loadedWith ids).dir) :
    q.openQueueWith ids = ((q.loadedWith ids).ensureSegmentWith ids).setEnds.skipExhausted := by
  unfold openQueueWith ensureSegmentWith
  dsimp only
  by_cases hnil : (q.loadedWith ids).segments = []
  · rw [if_pos hnil]
    rw [loadedWith] at hnil hfree
    rw [if_pos hnil, addSegmentWith_eq (hfree hnil)]
    rfl
  · rw [if_neg hnil]
    rw [loadedWith] at hnil
    rw [if_neg hnil]
    rfl

/-- The queue with the segments that `loadSegments` found. -/
def loaded (q : Queue) : Queue := q.loadedWith .unbounded

/-- A first segment is added if there is none. -/
def ensureSegment (q : Queue) : Queue := if q.segments = [] then q.withSegment else q

theorem openQueue_eq (q : Queue) : q.openQueue = q.loaded.ensureSegment.setEnds.skipExhausted :=
  openQueueWith_eq fun _ => q.loaded.repr_nextSegmentID_not_mem

/-! ## The limits and the clock -/

/-- What the loop of `PurgeOlderThan` keeps if the removal of a head does, also of the only one
    after a new segment was added. -/
theorem purgeLoop_induction {P : Queue → Prop} {cutoff : ℤ} {fuel : ℕ} {q q' : Queue}
    {e : Option Err} (hq : P q)
    (hrenew : ∀ q, P q → q.segments.length = 1 → P q.withSegment.trimHead)
    (htrim : ∀ q, P q → P q.trimHead)
    (h : purgeLoop cutoff fuel q = some (e, q')) : P q' := by
  induction fuel generalizing q with
  | zero => cases h
  | succ fuel ih =>
    rw [purgeLoop, purgeLoopWith, addSegment_eq] at h
    split at h
    · cases h; exact hq
    · split_ifs at h with hnew hone
      · cases h; exact hq
      · exact ih (hrenew q hq hone) h
      · exact ih (htrim q hq) h

/-- The limits and the clock are the same. -/
structure Kept (q q' : Queue) : Prop where
  maxSize : q'.maxSize = q.maxSize
  maxSegmentSize : q'.maxSegmentSize = q.maxSegmentSize
  clock : q'.clock = q.clock

theorem Kept.refl (q : Queue) : Kept q q := ⟨rfl, rfl, rfl⟩

theorem Kept.trans {q q₁ q' : Queue} (h₁ : Kept q q₁) (h₂ : Kept q₁ q') : Kept q q' :=
  ⟨h₂.maxSize.trans h₁.maxSize, h₂.maxSegmentSize.trans h₁.maxSegmentSize,
    h₂.clock.trans h₁.clock⟩

theorem store_kept (q : Queue) (p : ℕ) (s : Segment) (w : Option Bytes) : Kept q (q.store p s w) :=
  ⟨rfl, rfl, rfl⟩

theorem trimHead_kept (q : Queue) : Kept q q.trimHead := by
  unfold trimHead
  split <;> exact ⟨rfl, rfl, rfl⟩

theorem current_kept (q : Queue) : Kept q q.current.2 := by
  unfold current
  split <;> exact ⟨rfl, rfl, rfl⟩

theorem advance_kept (q : Queue) : Kept q q.advance.2 := by
  unfold advance
  split
  · exact .refl q
  · dsimp only
    split_ifs
    · exact (store_kept q _ _ _).trans (trimHead_kept _)
    · exact store_kept q _ _ _

theorem append_kept (io : QueueIO) (q : Queue) (b : Bytes) : Kept q (q.append io b).2 := by
  unfold append appendWith
  split
  · exact .refl q
  · next t _ =>
    split_ifs
    · exact .refl q
    · have hfirst : Kept q (q.segmentAppend io.first t b).2 := store_kept q _ _ _
      generalize q.segmentAppend io.first t b = r at hfirst
      split
      · rw [addSegment_eq]
        exact hfirst.trans ⟨rfl, rfl, rfl⟩
      · exact hfirst

theorem purgeLoop_kept {cutoff : ℤ} {fuel : ℕ} {q q' : Queue} {e : Option Err}
    (h : purgeLoop cutoff fuel q = some (e, q')) : Kept q q' := by
  refine purgeLoop_induction (.refl q) (fun q₁ hkept _ => ?_) (fun q₁ hkept => ?_) h
  · have hadded : Kept q₁ q₁.withSegment := ⟨rfl, rfl, rfl⟩
    exact (hkept.trans hadded).trans (trimHead_kept _)
  · exact hkept.trans (trimHead_kept _)

theorem loadSegmentWith_kept (ids : Numbering) (st : List ℕ × Queue) (name : String) :
    Kept st.2 (loadSegmentWith ids st name).2 := by
  unfold loadSegmentWith newSegment
  split
  · exact .refl _
  · dsimp only
    cases Handoff.newSegment _ _ _ with
    | error e => dsimp only; split_ifs <;> exact ⟨rfl, rfl, rfl⟩
    | ok r => dsimp only; split_ifs <;> exact ⟨rfl, rfl, rfl⟩

theorem loadedWith_kept (ids : Numbering) (q : Queue) : Kept q (q.loadedWith ids) := by
  have hfold : ∀ (names : List String) (st : List ℕ × Queue),
      Kept st.2 (names.foldl (loadSegmentWith ids) st).2 := by
    intro names
    induction names with
    | nil => exact fun st => .refl st.2
    | cons name names ih => exact fun st => (loadSegmentWith_kept ids st name).trans (ih _)
  exact (hfold q.readDir ([], q)).trans ⟨rfl, rfl, rfl⟩

theorem ensureSegmentWith_kept (ids : Numbering) (q : Queue) :
    Kept q (q.ensureSegmentWith ids) := by
  unfold ensureSegmentWith
  split_ifs <;> exact ⟨rfl, rfl, rfl⟩

theorem skipExhausted_kept {q q' : Queue} {e : Option Err} (h : q.skipExhausted = some (e, q')) :
    Kept q q' := by
  have hcurrent := q.current_kept
  unfold skipExhausted at h
  generalize q.current = r at h hcurrent
  split at h
  · cases h
  · cases h; exact hcurrent.trans (trimHead_kept _)
  · cases h; exact hcurrent

theorem openQueue_kept {q q' : Queue} {e : Option Err} (h : q.openQueue = some (e, q')) :
    Kept q q' := by
  have hends : Kept q q.loaded.ensureSegment.setEnds :=
    ((loadedWith_kept _ q).trans (ensureSegmentWith_kept .unbounded _)).trans ⟨rfl, rfl, rfl⟩
  rw [openQueue_eq] at h
  exact hends.trans (skipExhausted_kept h)

end Queue

end MetricStore.Handoff
