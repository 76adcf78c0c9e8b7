import MetricStore.Handoff.Cells
import MetricStore.Handoff.QueueFifo
import MetricStore.Handoff.WriteReplayer

/-!
# Corrupt files in the directory of a queue

`Open` (`internal/handoff/queue.go`, lines 96–125 and 262–298) looks at the files whose names
are numbers below `2^64`, takes up those whose last 8 bytes are an `int64` position, removes
the others, and drops the first file if there is nothing to read in it. The position may lie
outside of the file, or at bytes that are not a block; `Current` then fails, and a client that
calls `Advance` only after a successful `Current`, as `SendWrite` does, never gets to the
files behind.

The queue is connected with the list of cells of its files (`Laid`).

Results:
* `Laid.receive`: a round of a client on the queue is a round on the cells.
* `openQueue_laid`: the cells after `Open` are those of the files that it lists.
* `corrupt_files_block_iff`: after `Open`, all positions are in range and all unread records
  of the well-formed files can be read exactly if the files that are listed have positions
  in range, and all up to the last unread record are chains of blocks to their ends.
* `corrupt_file_blocks`: a file of 9 bytes stops a client.
-/

namespace MetricStore.Handoff

open MetricStore.Common

namespace Queue

variable {q q' : Queue} {cell : String → Cell}

/-! ## A client of the queue -/

/-- `Current`, and `Advance` if it returned a record: the record, with the name of the file
    that it was in. -/
def receive (q : Queue) : Option (String × Bytes) × Queue :=
  match q.current with
  | (.record b, q₁) => (q.head.map fun h => ((q.heap h).path, b), q₁.advance.2)
  | (_, q₁) => (none, q₁)

/-- What a client reads in `n` rounds. -/
def received : ℕ → Queue → List (String × Bytes)
  | 0, _ => []
  | n + 1, q => q.receive.1.toList ++ received n q.receive.2

/-- `SendWrite` is such a client, if its writes succeed. -/
theorem sendWrite_eq_receive (w : WriteReplayer) :
    (w.sendWrite true).2.queue = w.queue.receive.2 := by
  unfold WriteReplayer.sendWrite receive
  generalize w.queue.current = r
  obtain ⟨res, q₁⟩ := r
  cases res <;> rfl

/-! ## Queues and cells -/

/-- The segment and its file are the cell of its name. -/
def Shows (cell : String → Cell) (limit : Int64) (s : Segment) (f : Bytes) : Prop :=
  CellRep s f (cell s.path) ∧ s.maxSize = limit

/-- The listed segments are the cells of their names. -/
structure Laid (q : Queue) (cell : String → Cell) : Prop extends Core q where
  seg : Each q (Shows cell q.maxSegmentSize)

/-- The cells of the listed files, in order. -/
def layout (q : Queue) (cell : String → Cell) : List (String × Cell) :=
  q.names.map fun name => (name, cell name)

/-- An update of a listed segment and its file. -/
theorem Laid.store (h : Laid q cell) {p : ℕ} (hp : p ∈ q.segments) {s : Segment}
    {w : Option Bytes} {c : Cell} (hs : SameFile (q.heap p) s)
    (hc : CellRep s (w.getD (q.data p)) c) :
    Laid (q.store p s w) (Function.update cell (q.heap p).path c) := by
  refine ⟨(store_frame q hs w).core h.toCore, Each.store h.toListed hp hs ?_ fun x hx hxp => ?_⟩
  · unfold Shows
    rw [hs.1, Function.update_self]
    exact ⟨hc, hs.2.2.trans (h.seg p hp).2⟩
  · unfold Shows
    rw [Function.update_of_ne fun he => hxp (h.eq_of_path hx hp he)]
    exact h.seg x hx

/-- `current` changes nothing but the cached length. -/
theorem Laid.current_snd (h : Laid q cell) : Laid q.current.2 cell := by
  obtain ⟨a, l, hs, ha⟩ := h.exists_head
  have hm : a ∈ q.segments := by simp [hs]
  obtain ⟨n, hn⟩ := CellRep.current_snd (q.heap a) (q.data a)
  have hc := (h.seg a hm).1
  rw [current_of_head ha, hn]
  have hlaid := h.store hm (s := { q.heap a with currentSize := n }) (w := none) ⟨rfl, rfl, rfl⟩
    ⟨hc.bytes, hc.pos, hc.size, hc.small⟩
  rwa [Function.update_eq_self] at hlaid

theorem Laid.dropHead (h : Laid q cell) {a p : ℕ} {rest : List ℕ}
    (hs : q.segments = a :: p :: rest) : Laid (q.dropHead a p rest) cell :=
  ⟨dropHead_core h.toCore hs, Each.dropHead h.toListed hs h.seg⟩

/-- `trimHead` drops the first cell unless it is the only one. -/
theorem Laid.trimHead (h : Laid q cell) {e : String × Cell} {rest : List (String × Cell)}
    (hl : q.layout cell = e :: rest) : Laid q.trimHead cell ∧
      q.trimHead.layout cell = if rest ≠ [] then rest else e :: rest := by
  obtain ⟨hlen, heq⟩ | ⟨a, p, tail, hs, -, heq⟩ := h.trimHead_cases
  · have hone : (q.layout cell).length = 1 := by simpa [layout, names] using hlen
    rw [hl] at hone
    obtain rfl : rest = [] := by simpa using hone
    rw [heq]
    exact ⟨h, by simpa using hl⟩
  · have htail : (q.dropHead a p tail).layout cell = rest := by
      have hnames : q.layout cell = ((q.heap a).path, cell (q.heap a).path) ::
          (q.dropHead a p tail).layout cell := by
        unfold layout
        rw [names_dropHead hs]; rfl
      exact (List.cons.inj (hl.symm.trans hnames)).2.symm
    have hne : rest ≠ [] := by
      rw [← htail]
      simp [layout, names, Queue.dropHead]
    rw [heq, if_pos hne]
    exact ⟨h.dropHead hs, htail⟩

theorem layout_head {a : ℕ} {l : List ℕ} (hs : q.segments = a :: l) :
    q.layout cell = ((q.heap a).path, cell (q.heap a).path) ::
      (l.map fun p => ((q.heap p).path, cell (q.heap p).path)) := by
  unfold layout names
  rw [hs]
  simp

/-- An update of the head changes the first cell only. -/
theorem layout_store_head (h : Listed q) {a : ℕ} {l : List ℕ} (hs : q.segments = a :: l)
    {s : Segment} (hsame : SameFile (q.heap a) s) (w : Option Bytes) (c : Cell) :
    (q.store a s w).layout (Function.update cell (q.heap a).path c) =
      ((q.heap a).path, c) :: (l.map fun p => ((q.heap p).path, cell (q.heap p).path)) := by
  have hf := store_frame q hsame w
  rw [layout_head (hf.segments.trans hs)]
  simp only [hf.path, Function.update_self]
  congr 1
  refine List.map_congr_left fun p hp => ?_
  rw [Function.update_of_ne (h.path_ne_head hs p hp)]

/-- `Advance` after a `Current` that has cached the length of its record. -/
theorem Laid.advance (h : Laid q cell) {a : ℕ} {l : List ℕ} (hs : q.segments = a :: l)
    (ha : q.head = some a) {r : Bytes} {c' : Cell}
    (hnext : (cell (q.heap a).path).next q.maxSegmentSize = some (r, c'))
    (hcached : (q.heap a).currentSize = r.length) {rest : List (String × Cell)}
    (hrest : q.layout cell = ((q.heap a).path, cell (q.heap a).path) :: rest) :
    Laid q.advance.2 (Function.update cell (q.heap a).path c') ∧
      q.advance.2.layout (Function.update cell (q.heap a).path c') =
        if c'.AtEnd ∧ rest ≠ [] then rest else ((q.heap a).path, c') :: rest := by
  have hm : a ∈ q.segments := by simp [hs]
  obtain ⟨hc, hlimit⟩ := h.seg a hm
  obtain ⟨e, s', f', hadv, hc', heof⟩ :=
    hc.advance_eq (h.isOpen a hm) (hlimit.symm ▸ hnext) hcached
  have hsame : SameFile (q.heap a) s' := by
    have := advance_sameFile (q.heap a) (q.data a)
    rwa [hadv] at this
  have hlaid := h.store hm (w := some f') hsame hc'
  have hlayout : (q.store a s' (some f')).layout (Function.update cell (q.heap a).path c') =
      ((q.heap a).path, c') :: rest := by
    rw [layout_store_head h.toListed hs hsame]
    rw [layout_head hs] at hrest
    rw [(List.cons.inj hrest).2]
  rw [advance_of_head ha, hadv]
  dsimp only
  by_cases hend : c'.AtEnd
  · simp only [if_pos (heof.mpr hend), hend, true_and]
    exact hlaid.trimHead hlayout
  · rw [if_neg (heof.not.mpr hend), if_neg fun hand => hend hand.1]
    exact ⟨hlaid, hlayout⟩

theorem layout_current (q : Queue) (cell : String → Cell) :
    q.current.2.layout cell = q.layout cell := by
  unfold layout
  rw [q.current_frame.names]

/-- **One round** of a client on the queue is one on its cells. -/
theorem Laid.receive (h : Laid q cell) : ∃ cell', Laid q.receive.2 cell' ∧
    Cells.receive q.maxSegmentSize (q.layout cell) = (q.receive.1, q.receive.2.layout cell') := by
  obtain ⟨a, l, hs, ha⟩ := h.exists_head
  have hm : a ∈ q.segments := by simp [hs]
  obtain ⟨hc, hlimit⟩ := h.seg a hm
  have hlaid := h.current_snd
  have hn := q.layout_current cell
  have hlayout : q.layout cell = ((q.heap a).path, cell (q.heap a).path) ::
      l.map fun p => ((q.heap p).path, cell (q.heap p).path) := layout_head hs
  cases hnext : (cell (q.heap a).path).next q.maxSegmentSize with
  | none =>
    have hres : ∀ b, q.current.1 ≠ .record b := by
      rw [current_of_head ha]
      exact hc.current_ne_record (h.isOpen a hm) (hlimit.symm ▸ hnext)
    have heq : q.receive = (none, q.current.2) := by
      unfold Queue.receive
      generalize q.current = r at hres
      obtain ⟨res, q₁⟩ := r
      cases res with
      | record b => exact absurd rfl (hres b)
      | error e => rfl
      | panicked => rfl
    rw [heq]
    exact ⟨cell, hlaid, by rw [hn, hlayout, Cells.receive_of_none hnext]⟩
  | some read =>
    obtain ⟨r, c'⟩ := read
    -- `Current` caches the length of the record, and `Advance` moves past it
    have hcurrent : q.current =
        (.record r, q.store a { q.heap a with currentSize := r.length } none) := by
      rw [current_of_head ha, hc.current_eq (h.isOpen a hm) (hlimit.symm ▸ hnext)]
    have heq : q.receive = (some ((q.heap a).path, r), q.current.2.advance.2) := by
      unfold Queue.receive
      rw [hcurrent, ha]
      rfl
    rw [heq]
    rw [hcurrent] at hlaid hn ⊢
    have hheap := store_heap_self q a { q.heap a with currentSize := r.length } none
    have hmove := hlaid.advance (show _ = a :: l from hs) (show _ = some a from ha)
      (by rw [hheap]; exact hnext) (by rw [hheap]) (by rw [hheap]; exact hn.trans hlayout)
    rw [hheap] at hmove
    exact ⟨_, hmove.1, by rw [hmove.2, hlayout, Cells.receive_of_some hnext]⟩

theorem receive_kept (q : Queue) : Kept q q.receive.2 := by
  have hcurrent := q.current_kept
  unfold receive
  generalize q.current = r at hcurrent
  obtain ⟨res, q₁⟩ := r
  cases res with
  | record b => exact hcurrent.trans (advance_kept q₁)
  | error e => exact hcurrent
  | panicked => exact hcurrent

theorem Laid.received (h : Laid q cell) (n : ℕ) :
    Queue.received n q = Cells.received q.maxSegmentSize n (q.layout cell) := by
  induction n generalizing q cell with
  | zero => rfl
  | succ n ih =>
    obtain ⟨cell', hlaid, heq⟩ := h.receive
    rw [Queue.received, Cells.received, heq, ih hlaid, (receive_kept q).maxSegmentSize]

/-! ## `Open` -/

/-- `Open` takes up the file `name`. -/
def accepts (q : Queue) (name : String) : Bool :=
  (parseUint name).isSome && (Cell.ofFile (fileData q.dir name)).isSome

/-- The cell of the file `name`. -/
def cellOf (q : Queue) (name : String) : Cell := (Cell.ofFile (fileData q.dir name)).getD ⟨[], 0⟩

/-- The first file is dropped if there is nothing to read in it, unless it is the only one. -/
def dropEnded : List (String × Cell) → List (String × Cell)
  | e :: e' :: rest => if e.2.Ended then e' :: rest else e :: e' :: rest
  | l => l

/-- The files that are listed after `Open`, in the order of their names. -/
def listedCells (q : Queue) : List (String × Cell) :=
  dropEnded ((q.readDir.filter q.accepts).map fun name => (name, q.cellOf name))

/-- The state of `loadSegments` after the names `seen`, with `rest` to come: a file with a
    number as its name that is not taken up is gone. -/
structure LoadedCells (q : Queue) (seen rest : List String) (st : List ℕ × Queue) : Prop where
  names : (st.1.map fun p => (st.2.heap p).path) = seen.filter q.accepts
  gone : ∀ name ∈ st.2.dir, name ∈ rest ∨
    name ∈ seen ∧ ((parseUint name).isSome = true → q.accepts name = true)
  rest : ∀ name ∈ rest, fileData st.2.dir name = fileData q.dir name
  maxSegmentSize : st.2.maxSegmentSize = q.maxSegmentSize
  seg : ∀ p ∈ st.1, Shows q.cellOf q.maxSegmentSize (st.2.heap p)
    (fileData st.2.dir (st.2.heap p).path)

/-- A file that has been visited is not one to come. -/
theorem gone_of_seen {P : String → Prop} {seen rest : List String} {name x : String}
    {dir : AList (fun _ : String => File)} (hname : P name)
    (h : ∀ y ∈ dir, y ∈ name :: rest ∨ y ∈ seen ∧ P y) (hx : x ∈ dir) :
    x ∈ rest ∨ x ∈ seen ++ [name] ∧ P x := by
  rcases h x hx with hmem | ⟨hseen, hP⟩
  · rcases List.mem_cons.mp hmem with rfl | hrest
    · exact .inr ⟨by simp, hname⟩
    · exact .inl hrest
  · exact .inr ⟨List.mem_append_left _ hseen, hP⟩

/-- A file that is taken up. -/
theorem LoadedCells.push {seen rest : List String} {name : String} {st : List ℕ × Queue}
    (hnodup : (seen ++ name :: rest).Nodup) (hload : Loading seen (name :: rest) st)
    (h : LoadedCells q seen (name :: rest) st) {s : Segment} {w : Option Bytes}
    (hpath : s.path = name) (hyes : q.accepts name = true)
    (hlimit : s.maxSize = q.maxSegmentSize)
    (hrep : CellRep s (w.getD (fileData q.dir name)) (q.cellOf name)) :
    LoadedCells q (seen ++ [name]) rest
      (st.1 ++ [st.2.fresh], { st.2.store st.2.fresh s w with fresh := st.2.fresh + 1 }) := by
  set q₁ : Queue := { st.2 with segments := st.1 } with hq₁
  have hkeep : ∀ x ≠ name, fileData (q₁.pushSegment s w).dir x = fileData st.2.dir x :=
    fun x hx => fileData_store_of_ne (p := q₁.fresh) (hpath ▸ hx)
  have hnew : fileData (q₁.pushSegment s w).dir s.path = w.getD (fileData q.dir name) := by
    rw [← h.rest name List.mem_cons_self, ← hpath]
    exact fileData_store_self q₁ q₁.fresh s w
  have hnot : name ∉ rest := (List.nodup_cons.mp (List.nodup_append.mp hnodup).2.1).1
  refine ⟨?_, fun x hx => ?_, fun x hx => ?_, h.maxSegmentSize, ?_⟩
  · have hmap := pushSegment_map (s := s) (w := w) hload.listed Segment.path
    refine hmap.trans ?_
    rw [hpath, List.filter_append, ← h.names]
    simp [hyes]
  · refine gone_of_seen (fun _ => hyes) h.gone ?_
    rcases mem_dir_store (p := st.2.fresh) hx with rfl | hx
    · rw [hpath]
      exact hload.rest_mem name List.mem_cons_self
    · exact hx
  · rw [← h.rest x (List.mem_cons_of_mem name hx)]
    exact hkeep x fun he => hnot (he ▸ hx)
  · refine pushSegment_forall (s := s) (w := w)
      (P := fun s' => Shows q.cellOf q.maxSegmentSize s'
        (fileData (q₁.pushSegment s w).dir s'.path)) hload.listed (fun p hp => ?_) ?_
    · rw [hkeep _ (hload.path_ne hnodup hp)]
      exact h.seg p hp
    · unfold Shows
      rw [hnew, hpath]
      exact ⟨hrep, hlimit⟩

theorem loadSegment_loadedCells (hsmall : ∀ name, (fileData q.dir name).length < 2 ^ 63)
    {seen rest : List String} {name : String} {st : List ℕ × Queue}
    (hnodup : (seen ++ name :: rest).Nodup) (hload : Loading seen (name :: rest) st)
    (h : LoadedCells q seen (name :: rest) st) :
    LoadedCells q (seen ++ [name]) rest (loadSegmentWith .uint64 st name) := by
  have hname : name ∈ st.2.dir := hload.rest_mem name List.mem_cons_self
  have hdata : fileData st.2.dir name = fileData q.dir name := h.rest name List.mem_cons_self
  have hsize : (st.2.unopened name).size = (fileData q.dir name).length := by
    rw [unopened, hdata]
  have hnot : name ∉ rest := (List.nodup_cons.mp (List.nodup_append.mp hnodup).2.1).1
  have hother : ∀ x ∈ rest, x ≠ name := fun x hx he => hnot (he ▸ hx)
  have hrest : ∀ x ∈ rest, fileData st.2.dir x = fileData q.dir x :=
    fun x hx => h.rest x (List.mem_cons_of_mem name hx)
  obtain ⟨hid, heq⟩ | ⟨e, herror, heq⟩ | ⟨id, s, w, hid, hopen, heq⟩ :=
    loadSegmentWith_cases .uint64 hname
  · -- not the name of a segment
    have hid' : parseUint name = none := hid
    have hno : q.accepts name = false := by simp [accepts, hid']
    rw [heq]
    refine ⟨by simp [h.names, hno], fun x hx => ?_, hrest, h.maxSegmentSize, h.seg⟩
    exact gone_of_seen (fun hsome => by simp [hid'] at hsome) h.gone hx
  · -- rejected, and removed
    rw [hdata] at herror
    have hnone := ofFile_of_openSegment_error herror hsize (hsmall name)
    have hno : q.accepts name = false := by simp [accepts, hnone]
    rw [heq]
    refine ⟨by simp [h.names, hno], fun x hx => ?_, fun x hx => ?_, h.maxSegmentSize,
      fun p hp => ?_⟩
    · obtain ⟨hne, hmem⟩ := AList.mem_erase.mp hx
      rcases h.gone x hmem with hcons | ⟨hseen, himp⟩
      · exact .inl ((List.mem_cons.mp hcons).resolve_left hne)
      · exact .inr ⟨List.mem_append_left _ hseen, himp⟩
    · rw [fileData_erase_of_ne _ (hother x hx), hrest x hx]
    · rw [fileData_erase_of_ne _ (hload.path_ne hnodup hp)]
      exact h.seg p hp
  · -- taken up
    rw [hdata] at hopen
    obtain ⟨hpath, -, hlimit⟩ := openSegment_sameFile hopen
    obtain ⟨c, hc, hrep⟩ := exists_cell_of_openSegment hopen hsize (hsmall name)
    have hid' : parseUint name = some id := hid
    have hyes : q.accepts name = true := by simp [accepts, hid', hc]
    have hcell : q.cellOf name = c := by simp [cellOf, hc]
    rw [heq]
    exact h.push hnodup hload hpath hyes (hlimit.trans h.maxSegmentSize) (hcell ▸ hrep)

/-- The files that `loadSegments` takes up. -/
theorem loaded_cells (hsmall : ∀ name, (fileData q.dir name).length < 2 ^ 63) :
    (q.loadedWith .uint64).names = q.readDir.filter q.accepts ∧
      (∀ name ∈ (q.loadedWith .uint64).dir,
        name ∈ q.readDir ∧ ((parseUint name).isSome = true → q.accepts name = true)) ∧
      Each (q.loadedWith .uint64) (Shows q.cellOf q.maxSegmentSize) := by
  obtain ⟨-, h⟩ := loadSegmentsWith_induction .uint64
    (motive := fun seen rest st => LoadedCells q seen rest st)
    ⟨rfl, fun _ hx => .inl (mem_readDir.mpr hx), fun _ _ => rfl, rfl, by simp⟩
    fun _ _ _ _ hnodup hload h => loadSegment_loadedCells hsmall hnodup hload h
  exact ⟨h.names, fun name hname => (h.gone name hname).resolve_left (by simp), h.seg⟩

/-- If no file has a number as its name, the next id is 1, and no file has it. -/
theorem nextSegmentIDWith_free (h : ∀ name ∈ q.dir, (parseUint name).isSome = false) :
    (q.nextSegmentIDWith .uint64).repr ∉ q.dir := by
  have hnil : q.readDir.filterMap parseUint = [] := by
    refine List.filterMap_eq_nil_iff.mpr fun name hname => ?_
    simpa using h name (mem_readDir.mp hname)
  have hone : q.nextSegmentIDWith .uint64 = 1 := by
    show ((q.readDir.filterMap parseUint).foldl max 0 + 1) % 2 ^ 64 = 1
    rw [hnil]; rfl
  intro hmem
  have hsome := h _ hmem
  rw [hone, parseUint_repr (by norm_num)] at hsome
  cases hsome

/-- The last stage of `Open` drops a first file in which there is nothing to read. -/
theorem Laid.skipExhausted (h : Laid q cell) {e : Option Err}
    (hopen : q.skipExhausted = some (e, q')) :
    Laid q' cell ∧ q'.layout cell = dropEnded (q.layout cell) := by
  obtain ⟨a, l, hs, ha⟩ := h.exists_head
  have hm : a ∈ q.segments := by simp [hs]
  have heof : q.current.1 = .error .eof ↔ (cell (q.heap a).path).Ended := by
    rw [current_of_head ha]
    exact (h.seg a hm).1.current_eq_eof_iff (h.isOpen a hm)
  have hlaid := h.current_snd
  have hn := q.layout_current cell
  have hlayout : q.layout cell = ((q.heap a).path, cell (q.heap a).path) ::
      l.map fun p => ((q.heap p).path, cell (q.heap p).path) := layout_head hs
  generalize (l.map fun p => ((q.heap p).path, cell (q.heap p).path)) = rest at hlayout
  unfold Queue.skipExhausted at hopen
  generalize q.current = r at hopen heof hlaid hn
  obtain ⟨res, q₁⟩ := r
  dsimp only at heof hlaid hn
  by_cases hended : (cell (q.heap a).path).Ended
  · obtain rfl : res = .error .eof := heof.mpr hended
    cases hopen
    obtain ⟨htrim, hltrim⟩ := hlaid.trimHead (hn.trans hlayout)
    refine ⟨htrim, ?_⟩
    rw [hltrim, hlayout]
    cases rest with
    | nil => rfl
    | cons e' rest => simp [dropEnded, hended]
  · have hres : res ≠ .error .eof := fun he => hended (heof.mp he)
    have hq' : q' = q₁ := by
      revert hopen
      split
      · simp
      · next hrw => exact absurd (congrArg Prod.fst hrw) hres
      · next hrw => intro hopen; cases hopen; exact (congrArg Prod.snd hrw).symm
    subst hq'
    refine ⟨hlaid, ?_⟩
    rw [hn, hlayout]
    cases rest with
    | nil => rfl
    | cons e' rest => simp [dropEnded, hended]

/-- **`Open`.** The cells of the queue are those of the listed files, or a single new one if
    there are none. -/
theorem openQueue_laid (hsmall : ∀ name, (fileData q.dir name).length < 2 ^ 63) {e : Option Err}
    (hopen : q.openQueueWith .uint64 = some (e, q')) : q'.maxSegmentSize = q.maxSegmentSize ∧
    ∃ cell, Laid q' cell ∧
      (q'.layout cell = q.listedCells ∨
        q.readDir.filter q.accepts = [] ∧ ∃ name, q'.layout cell = [(name, ⟨[], 0⟩)]) := by
  have hlisted := loadedWith_listed .uint64 q
  obtain ⟨hnames, hdir, hseg⟩ := loaded_cells hsmall
  have hmax := (loadedWith_kept .uint64 q).maxSegmentSize
  have hempty : (q.loadedWith .uint64).segments = [] → q.readDir.filter q.accepts = [] :=
    fun hnil => by rw [← hnames, names, hnil]; rfl
  have hfree : (q.loadedWith .uint64).segments = [] →
      ((q.loadedWith .uint64).nextSegmentIDWith .uint64).repr ∉ (q.loadedWith .uint64).dir :=
    fun hnil => nextSegmentIDWith_free fun name hname => Bool.eq_false_iff.mpr fun hsome =>
      List.filter_eq_nil_iff.mp (hempty hnil) name (hdir name hname).1 ((hdir name hname).2 hsome)
  rw [openQueueWith_eq hfree] at hopen
  have hkept := (skipExhausted_kept hopen).maxSegmentSize
  generalize q.loadedWith .uint64 = q₁ at hlisted hnames hseg hmax hempty hfree hopen hkept
  refine ⟨hkept.trans (((ensureSegmentWith_kept .uint64 q₁).maxSegmentSize).trans hmax), ?_⟩
  by_cases hnil : q₁.segments = []
  · have hensure : q₁.ensureSegmentWith .uint64 =
        q₁.withFile (q₁.nextSegmentIDWith .uint64).repr := if_pos hnil
    rw [hensure] at hopen
    set name := (q₁.nextSegmentIDWith .uint64).repr with hname
    have hlaid : Laid (q₁.withFile name).setEnds (Function.update q.cellOf name ⟨[], 0⟩) := by
      refine ⟨setEnds_core (withFile_listed hlisted (hfree hnil)) (by simp [withFile, pushSegment]),
        ?_⟩
      refine Each.withFile hlisted (hfree hnil) ⟨?_, rfl⟩ fun p hp => by simp [hnil] at hp
      rw [show (q₁.segmentOf name).path = name from rfl, Function.update_self]
      exact ⟨rfl, rfl, rfl, by simp⟩
    obtain ⟨hlaid', hlayout⟩ := hlaid.skipExhausted hopen
    refine ⟨_, hlaid', .inr ⟨hempty hnil, name, ?_⟩⟩
    have hone : (q₁.withFile name).setEnds.names = [name] := by
      show (q₁.withFile name).names = _
      rw [names_withFile hlisted, names, hnil]; rfl
    rw [hlayout, layout, hone]
    simp [dropEnded]
  · have hensure : q₁.ensureSegmentWith .uint64 = q₁ := if_neg hnil
    rw [hensure] at hopen
    have hlaid : Laid q₁.setEnds q.cellOf :=
      ⟨setEnds_core hlisted hnil, fun p hp => by
        show Shows q.cellOf q₁.maxSegmentSize _ _
        rw [hmax]; exact hseg p hp⟩
    obtain ⟨hlaid', hlayout⟩ := hlaid.skipExhausted hopen
    refine ⟨_, hlaid', .inl ?_⟩
    rw [hlayout, layout, listedCells, ← hnames]
    rfl

/-! ## What a client reads -/

variable {valid : String → Bool} {done todo : String → List Bytes}

/-- The files that are `valid` are segment files with the unread records `todo`. All other
    files may hold anything. -/
def WellFormedFiles (q : Queue) (valid : String → Bool) (done todo : String → List Bytes) : Prop :=
  ∀ name ∈ q.dir, valid name = true → (parseUint name).isSome = true ∧
    ∃ s, SegRep s (fileData q.dir name) (done name) (todo name)

/-- The position of every listed segment is in its file, before the footer. -/
def InRange (q : Queue) : Prop :=
  ∀ p ∈ q.segments, 0 ≤ (q.heap p).pos ∧ (q.heap p).pos ≤ (q.heap p).size - footerSize

instance (q : Queue) : Decidable q.InRange := inferInstanceAs (Decidable (∀ p ∈ q.segments, _))

/-- A client reads the unread records of the valid files `names`, in order, whatever it reads
    from other files. -/
def ReadsAll (q : Queue) (valid : String → Bool) (todo : String → List Bytes)
    (names : List String) : Prop :=
  ∃ n, (q.received n).filter (fun read => valid read.1) = unreadOf valid todo names

/-- The positions of the listed files are before their footers, and the files up to the last
    unread record of a valid one are chains of blocks to their ends. -/
def Unblocked (q : Queue) (valid : String → Bool) (todo : String → List Bytes) : Prop :=
  (∀ e ∈ q.listedCells, e.2.pos ≤ e.2.body.length) ∧
    PassesTo q.maxSegmentSize valid todo q.listedCells

theorem WellFormedFiles.cellOf (h : q.WellFormedFiles valid done todo) {name : String}
    (hname : name ∈ q.dir) (hv : valid name = true) :
    q.accepts name = true ∧ (q.cellOf name).Holds (done name) (todo name) := by
  obtain ⟨hid, s, hseg⟩ := h name hname hv
  have hsmall := hseg.small
  have hlen : (fileData q.dir name).length - 8 =
      (blocks (done name) ++ blocks (todo name)).length := by
    rw [hseg.bytes, List.length_append, length_toBE, Nat.add_sub_cancel]
  have hdrop : (fileData q.dir name).drop ((fileData q.dir name).length - 8) =
      toBE 8 (blocks (done name)).length := by
    rw [hlen, hseg.bytes, List.drop_left']
    rfl
  have htake : (fileData q.dir name).take ((fileData q.dir name).length - 8) =
      blocks (done name) ++ blocks (todo name) := by
    rw [hlen, hseg.bytes, List.take_left']
    rfl
  have hne : (fileData q.dir name) ≠ [] := fun hnil => by
    have := hseg.length_file
    simp [hnil] at this
    omega
  have hofFile : Cell.ofFile (fileData q.dir name) =
      some ⟨blocks (done name) ++ blocks (todo name), (blocks (done name)).length⟩ := by
    have hlong := hseg.length_file
    unfold Cell.ofFile
    rw [if_neg hne, if_neg (by omega), hdrop, htake, ofBE_toBE_of_lt (by omega), if_pos (by omega)]
  refine ⟨by simp [accepts, hid, hofFile], ?_⟩
  unfold Queue.cellOf
  rw [hofFile]
  exact ⟨rfl, rfl, by simp; omega⟩

theorem dropEnded_sublist (l : List (String × Cell)) : (dropEnded l).Sublist l := by
  match l with
  | [] => exact .refl _
  | [_] => exact .refl _
  | e :: e' :: rest =>
    simp only [dropEnded]
    split_ifs
    · exact List.sublist_cons_self e _
    · exact .refl _

theorem mem_listedCells {e : String × Cell} (h : e ∈ q.listedCells) :
    e.1 ∈ q.dir ∧ e.2 = q.cellOf e.1 := by
  obtain ⟨name, hname, rfl⟩ := List.mem_map.mp ((dropEnded_sublist _).subset h)
  exact ⟨mem_readDir.mp (List.mem_of_mem_filter hname), rfl⟩

theorem nodup_listedCells (q : Queue) : (q.listedCells.map Prod.fst).Nodup := by
  have hsub := (dropEnded_sublist
    ((q.readDir.filter q.accepts).map fun name => (name, q.cellOf name))).map Prod.fst
  refine List.Nodup.sublist hsub ?_
  rw [List.map_map]
  show ((q.readDir.filter q.accepts).map id).Nodup
  rw [List.map_id]
  exact q.nodup_readDir.filter _

theorem unreadOf_filter (h : q.WellFormedFiles valid done todo) :
    unreadOf valid todo (q.readDir.filter q.accepts) = unreadOf valid todo q.readDir := by
  unfold unreadOf
  rw [List.filter_filter]
  congr 1
  refine List.filter_congr fun name hname => ?_
  cases hv : valid name with
  | false => rfl
  | true => simp [(h.cellOf (mem_readDir.mp hname) hv).1]

/-- A valid file that is dropped has no unread records. -/
theorem unreadOf_listedCells (h : q.WellFormedFiles valid done todo) :
    unreadOf valid todo (q.listedCells.map Prod.fst) = unreadOf valid todo q.readDir := by
  rw [← unreadOf_filter h]
  have hmem : ∀ name ∈ q.readDir.filter q.accepts, name ∈ q.dir := fun name hname =>
    mem_readDir.mp (List.mem_of_mem_filter hname)
  unfold listedCells
  generalize q.readDir.filter q.accepts = names at hmem
  match names with
  | [] => rfl
  | [_] => rfl
  | name :: name' :: rest =>
    simp only [List.map_cons, dropEnded]
    split_ifs with hended
    · have hnone : unreadOf valid todo [name] = [] := by
        unfold unreadOf
        cases hv : valid name with
        | false => simp [hv]
        | true =>
          have hholds := (h.cellOf (hmem name List.mem_cons_self) hv).2
          simp [hv, hholds.todo_of_ended hended, tagged]
      have hsplit := unreadOf_append valid todo [name] (name' :: rest)
      rw [List.singleton_append, hnone, List.nil_append] at hsplit
      rw [hsplit]
      simp [Function.comp_def]
    · simp [Function.comp_def]

theorem Laid.inRange_iff (h : Laid q cell) :
    q.InRange ↔ ∀ e ∈ q.layout cell, e.2.pos ≤ e.2.body.length := by
  unfold InRange layout names
  simp only [List.map_map, List.forall_mem_map, Function.comp_apply]
  refine forall₂_congr fun p hp => ?_
  have hc := (h.seg p hp).1
  rw [hc.pos, hc.size]
  unfold footerSize
  omega

/-- **Corrupt files.** For every directory, whatever its files hold, after `Open` has
    succeeded: all positions are in range and a client reads all unread records of the valid
    files in order, if and only if the directory is unblocked. -/
theorem corrupt_files_block_iff (hsmall : ∀ name, (fileData q.dir name).length < 2 ^ 63)
    (hvalid : q.WellFormedFiles valid done todo)
    (hopen : q.openQueueWith .uint64 = some (none, q')) :
    q'.InRange ∧ q'.ReadsAll valid todo q.readDir ↔ q.Unblocked valid todo := by
  obtain ⟨hmax, cell, hlaid, hlayout | ⟨hnone, name, hlayout⟩⟩ := openQueue_laid hsmall hopen
  · have hread : ∀ n, received n q' = Cells.received q.maxSegmentSize n q.listedCells := fun n => by
      rw [hlaid.received, hmax, hlayout]
    have hholds : ∀ e ∈ q.listedCells, valid e.1 = true → e.2.Holds (done e.1) (todo e.1) := by
      intro e he hv
      obtain ⟨hdir, hcell⟩ := mem_listedCells he
      rw [hcell]
      exact (hvalid.cellOf hdir hv).2
    unfold ReadsAll Unblocked
    simp only [hread, hlaid.inRange_iff, hlayout, ← unreadOf_listedCells hvalid]
    refine and_congr_right fun _ => ⟨?_, fun hpass => Cells.exists_received hholds hpass⟩
    rintro ⟨n, hn⟩
    have hne : q.listedCells ≠ [] := by
      rw [← hlayout]
      simpa [layout, names] using hlaid.nonempty
    obtain ⟨l, hprogress⟩ := Cells.exists_progress q.maxSegmentSize hne n
    exact hprogress.passesTo q.nodup_listedCells hholds fun e he hv =>
      filter_of_unreadOf hn q.nodup_listedCells (List.mem_map_of_mem he) hv
  · -- no file was taken up
    have hempty : q.listedCells = [] := by
      unfold listedCells
      rw [hnone]; rfl
    have hnothing : unreadOf valid todo q.readDir = [] := by
      rw [← unreadOf_filter hvalid, hnone]; rfl
    refine iff_of_true ⟨?_, 0, hnothing.symm⟩ ⟨by simp [hempty], ?_⟩
    · rw [hlaid.inRange_iff, hlayout]
      simp
    · intro before e after hsplit
      rw [hempty] at hsplit
      simp at hsplit

theorem fileData_small {dir : AList (fun _ : String => File)}
    (h : ∀ name ∈ dir.keys, (fileData dir name).length < 2 ^ 63) (name : String) :
    (fileData dir name).length < 2 ^ 63 := by
  by_cases hname : name ∈ dir
  · exact h name (AList.mem_keys.mp hname)
  · unfold fileData
    rw [AList.lookup_eq_none.mpr hname]
    simp

/-- A file that is too short for a footer, one with the unread record `[7]`, and one whose
    name is no `uint64`. -/
def shortFile : AList (fun _ : String => File) :=
  ((AList.singleton "1" ⟨[1, 2, 3], 0⟩).insert "2" ⟨block [7] ++ toBE 8 0, 0⟩).insert
    "99999999999999999999" ⟨1 :: toBE 8 0, 0⟩

theorem corrupt_files_block_iff_shortFile :
    ∃ q', (newQueue shortFile 1000 0).openQueueWith .uint64 = some (none, q') ∧ q'.InRange ∧
      q'.ReadsAll (· == "2") (fun _ => [[7]]) ["1", "2", "99999999999999999999"] := by
  have hopen : ∃ r ∈ (newQueue shortFile 1000 0).openQueueWith .uint64, r.1 = none := by decide
  obtain ⟨⟨e, q'⟩, hopen, rfl⟩ := hopen
  have hvalid : (newQueue shortFile 1000 0).WellFormedFiles (· == "2") (fun _ => [])
      (fun _ => [[7]]) := by
    intro name _ hv
    obtain rfl : name = "2" := by simpa using hv
    exact ⟨by decide, ⟨17, true, "2", 0, 0, 0⟩, by decide, rfl, by decide, by decide⟩
  have hlisted : (newQueue shortFile 1000 0).listedCells = [("2", ⟨block [7], 0⟩)] := by decide
  have hpasses : Cell.Passes defaultSegmentSize ⟨block [7], 0⟩ :=
    ⟨[[7]], ⟨block [7], 9⟩, by simp, .cons (by decide) (.nil _), by decide⟩
  refine ⟨q', hopen, (corrupt_files_block_iff (fileData_small (by decide)) hvalid hopen).mpr
    ⟨by rw [hlisted]; simp, ?_⟩⟩
  intro before e after hsplit _ _ d hd
  rw [hlisted] at hsplit
  obtain ⟨rfl, rfl, rfl⟩ : before = [] ∧ e = ("2", ⟨block [7], 0⟩) ∧ after = [] := by
    cases before <;> simp_all
  obtain rfl : d = ("2", ⟨block [7], 0⟩) := by simpa using hd
  exact hpasses

/-- A file of 9 bytes with a position at which there is no block, one with the unread record
    `[7]`, and one with a position outside of it. -/
def badBlock : AList (fun _ : String => File) :=
  ((AList.singleton "1" ⟨1 :: toBE 8 0, 0⟩).insert "2" ⟨block [7] ++ toBE 8 0, 0⟩).insert "3"
    ⟨toBE 8 100, 0⟩

/-- `Open` takes up the three files, and a client never reads anything. -/
theorem corrupt_file_blocks :
    ∃ q', (newQueue badBlock 1000 0).openQueueWith .uint64 = some (none, q') ∧
      q'.names = ["1", "2", "3"] ∧ ¬ q'.InRange ∧ ∀ n, received n q' = [] := by
  have hopen : ∃ r ∈ (newQueue badBlock 1000 0).openQueueWith .uint64,
      r.1 = none ∧ r.2.names = ["1", "2", "3"] ∧
      ¬ r.2.InRange := by decide
  obtain ⟨⟨e, q'⟩, hopen, rfl, hnames, hrange⟩ := hopen
  obtain ⟨hmax, cell, hlaid, hlayout | ⟨hnone, -⟩⟩ :=
    openQueue_laid (fileData_small (by decide)) hopen
  · refine ⟨q', hopen, hnames, hrange, fun n => ?_⟩
    have hlisted : (newQueue badBlock 1000 0).listedCells =
        [("1", ⟨[1], 0⟩), ("2", ⟨block [7], 0⟩), ("3", ⟨[], 100⟩)] := by decide
    have hstuck : Cell.next q'.maxSegmentSize ⟨[1], 0⟩ = none := by
      rw [hmax]
      decide
    rw [hlaid.received, hlayout, hlisted]
    induction n with
    | zero => rfl
    | succ n ih =>
      rw [Cells.received, Cells.receive_of_none hstuck]
      exact ih
  · exact absurd hnone (by decide)

end Queue

end MetricStore.Handoff
