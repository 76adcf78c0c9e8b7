import MetricStore.Handoff.Progress

/-!
# Closing and reopening the queue

`Open` rebuilds the list of segments from the directory listing, which is sorted
by file name; in memory the segments are in the order of their creation, that is
of their numeric ids. The two orders agree as long as the names sort like the
numbers (for example when they have the same number of digits).

A reader of the queue calls `Current` and `Advance` in turn; `drain` is the list
of what `Current` returns, without `io.EOF`.

Results:
* `drain_eq`: enough rounds return the unread records, in order.
* `reachable_rep`: in every reachable state the files hold well-formed records,
  whatever calls were made, provided that no `Advance` used a stale cached length.
* `reopen_preserves`: if the file names are in increasing order, a reader gets the
  same from the reopened queue, and a record appended then comes after it.
* `reopen_reorders`: the tenth segment is read second.
-/

namespace MetricStore.Handoff

open MetricStore.Common

namespace Queue

variable {q q' : Queue} {done todo : String → List Bytes}

/-! ## Reading a queue to its end -/

/-- What `Current` returns in `n` rounds of `Current` and `Advance`, without
    `io.EOF`. -/
def drain : ℕ → Queue → List ReadResult
  | 0, _ => []
  | n + 1, q =>
    let r := q.current
    let rest := drain n r.2.advance.2
    if r.1 = .error .eof then rest else r.1 :: rest

/-- A number of rounds that is enough to read all of the queue: a block and a
    footer have at least 8 bytes. -/
def rounds (q : Queue) : ℕ := (q.diskUsage / footerSize).toNat

theorem trimHead_maxSegmentSize (q : Queue) : q.trimHead.maxSegmentSize = q.maxSegmentSize := by
  unfold trimHead
  split <;> rfl

theorem advance_maxSegmentSize (q : Queue) : q.advance.2.maxSegmentSize = q.maxSegmentSize := by
  unfold advance
  split
  · rfl
  · dsimp only
    split_ifs
    · exact trimHead_maxSegmentSize _
    · rfl

theorem current_maxSegmentSize (q : Queue) : q.current.2.maxSegmentSize = q.maxSegmentSize := by
  unfold current
  split <;> rfl

theorem length_advanceNames {names l : List String} {name : String} (hn : names = name :: l)
    (todo : String → List Bytes) : (advanceNames todo names).length ≤ names.length ∧
      (todo name = [] → l ≠ [] → (advanceNames todo names).length = l.length) := by
  subst hn
  match l with
  | [] => exact ⟨le_rfl, fun _ h => absurd rfl h⟩
  | other :: rest =>
    unfold advanceNames
    dsimp only
    split_ifs with hlast
    · exact ⟨by simp, fun _ _ => rfl⟩
    · exact ⟨le_rfl, fun hnil _ => absurd (by rw [hnil]; rfl) hlast⟩

/-- A reader gets the unread records in order. A round reads a record or drops an
    exhausted file, so as many rounds as there are records and files are enough. -/
theorem drain_eq (h : Rep q done todo) {n : ℕ}
    (hn : (unread q.names todo).length + q.names.length ≤ n + 1) :
    drain n q = (unread q.names todo).map (readRecord q.maxSegmentSize) := by
  induction n generalizing q done todo with
  | zero =>
    have hpos : q.names.length ≠ 0 := by simpa [names] using h.nonempty
    rw [List.eq_nil_of_length_eq_zero (show (unread q.names todo).length = 0 by omega)]
    rfl
  | succ n ih =>
    obtain ⟨name, l, hnames, hres, hrep₁, hcached⟩ := h.current
    have hn₁ := q.current_frame.names
    obtain ⟨hrep₂, hnames₂⟩ := hrep₁.advance hcached (hn₁.trans hnames)
    obtain ⟨hlen, hdrop⟩ := length_advanceNames hnames todo
    have hunread : unread q.current.2.advance.2.names (advanceTodo name todo) =
        (todo name).tail ++ unread l todo := by
      rw [hnames₂, unread_advance (hn₁.trans hnames) hrep₁.paths]
    have hmax : q.current.2.advance.2.maxSegmentSize = q.maxSegmentSize := by
      rw [advance_maxSegmentSize, current_maxSegmentSize]
    have hsplit : unread q.names todo = todo name ++ unread l todo := by
      rw [hnames]; rfl
    have hrest := ih hrep₂
    rw [hunread, hmax, hnames₂, hn₁] at hrest
    rw [drain, hres, hsplit]
    rw [hsplit] at hn
    cases ht : todo name with
    | nil =>
      rw [ht] at hrest hn
      simp only [readFirst, if_true, List.nil_append]
      refine hrest ?_
      cases l with
      | nil =>
        have hone : q.names.length = 1 := by rw [hnames]; rfl
        simp [unread]; omega
      | cons other rest =>
        have := hdrop ht (List.cons_ne_nil _ _)
        rw [hnames] at hn
        simp at hn this ⊢; omega
    | cons r rest =>
      rw [ht] at hrest hn
      rw [hrest (by simp at hn ⊢; omega), readFirst_cons]
      simp [readRecord_ne_eof]

theorem length_blocks_ge (rs : List Bytes) : 8 * rs.length ≤ (blocks rs).length := by
  induction rs with
  | nil => simp
  | cons r rs ih => simp; omega

theorem Rep.le_rounds (h : Rep q done todo) :
    (unread q.names todo).length + q.names.length ≤ q.rounds := by
  have hsum : ∀ l : List ℕ, (∀ p ∈ l, p ∈ q.segments) →
      (8 * ((unread (l.map fun p => (q.heap p).path) todo).length + l.length : ℕ) : ℤ) ≤
        (l.map fun p => (q.heap p).size).sum := by
    intro l
    induction l with
    | nil => simp [unread]
    | cons p l ih =>
      intro hl
      have hseg := (h.seg p (hl p List.mem_cons_self)).size_eq
      have hb := length_blocks_ge (todo (q.heap p).path)
      have := ih fun x hx => hl x (List.mem_cons_of_mem p hx)
      simp only [unread, List.map_cons, List.flatMap_cons, List.length_append, List.length_cons,
        List.sum_cons] at this ⊢
      push_cast at this ⊢
      omega
  have hall := hsum q.segments fun _ => id
  unfold rounds diskUsage footerSize names
  rw [List.length_map]
  omega

/-! ## The files of a queue -/

/-- Every file of the directory is a segment file with the records `done` and
    `todo`. -/
def DiskRep (q : Queue) (done todo : String → List Bytes) : Prop :=
  ∀ name ∈ q.dir, (decimal name).isSome = true ∧
    ∃ s, SegRep s (fileData q.dir name) (done name) (todo name)

theorem Rep.diskRep (h : Rep q done todo) : DiskRep q done todo := by
  intro name hname
  obtain ⟨p, hp, rfl⟩ := List.mem_map.mp (h.owned name hname)
  exact ⟨h.named p hp, q.heap p, h.seg p hp⟩

/-- The state of `loadSegments` on well-formed files after the names `seen`: every
    file has become a segment, and none has been touched. -/
structure LoadedRep (q : Queue) (done todo : String → List Bytes) (seen : List String)
    (st : List ℕ × Queue) : Prop where
  names : (st.1.map fun p => (st.2.heap p).path) = seen
  dir : st.2.dir = q.dir
  maxSegmentSize : st.2.maxSegmentSize = q.maxSegmentSize
  seg : ∀ p ∈ st.1, SegRep (st.2.heap p) (fileData q.dir (st.2.heap p).path)
    (done (st.2.heap p).path) (todo (st.2.heap p).path)
  limit : ∀ p ∈ st.1, (st.2.heap p).maxSize = q.maxSegmentSize

theorem loadSegment_loadedRep (hdisk : DiskRep q done todo) {seen rest : List String}
    {name : String} {st : List ℕ × Queue} (hload : Loading seen (name :: rest) st)
    (h : LoadedRep q done todo seen st) :
    LoadedRep q done todo (seen ++ [name]) (loadSegmentWith .unbounded st name) := by
  have hname : name ∈ st.2.dir := hload.rest_mem name List.mem_cons_self
  have hdata : fileData st.2.dir name = fileData q.dir name := by rw [h.dir]
  obtain ⟨hparse, s, hseg⟩ := hdisk name (h.dir ▸ hname)
  have hfound : (st.2.unopened name).openSegment (fileData st.2.dir name) =
      .ok ({ st.2.unopened name with pos := s.pos, currentSize := headLength (todo name) }, none) := by
    rw [hdata]
    exact hseg.openSegment (by rw [hseg.size, unopened, hdata]) rfl
  obtain ⟨hnone, -⟩ | ⟨e, herror, -⟩ | ⟨id, s', w, -, hopen, heq⟩ :=
    loadSegmentWith_cases .unbounded hname
  · rw [show decimal name = none from hnone] at hparse; cases hparse
  · rw [hfound] at herror; cases herror
  obtain ⟨rfl, rfl⟩ := Prod.mk.inj (Except.ok.inj (hfound.symm.trans hopen))
  rw [heq]
  refine ⟨?_, h.dir, h.maxSegmentSize, ?_, ?_⟩
  · have hmap := pushSegment_map (s := { st.2.unopened name with
      pos := s.pos, currentSize := headLength (todo name) }) (w := none) hload.listed Segment.path
    exact hmap.trans (congrArg (· ++ [name]) h.names)
  · refine pushSegment_forall (w := none)
      (P := fun s' => SegRep s' (fileData q.dir s'.path) (done s'.path) (todo s'.path))
      hload.listed h.seg ⟨hseg.bytes, hseg.pos, ?_, hseg.small⟩
    rw [unopened, hdata]
  · exact pushSegment_forall (w := none) (P := fun s' => s'.maxSize = q.maxSegmentSize)
      hload.listed h.limit h.maxSegmentSize

/-- `loadSegments` finds the files in the order of their names. -/
theorem loaded_stored (hdisk : DiskRep q done todo) :
    Stored q.loaded done todo ∧ q.loaded.names = q.readDir ∧
      q.loaded.maxSegmentSize = q.maxSegmentSize := by
  obtain ⟨hload, h⟩ := loadSegmentsWith_induction .unbounded
    (motive := fun seen _ st => LoadedRep q done todo seen st)
    ⟨rfl, rfl, rfl, by simp, by simp⟩
    fun _ _ _ _ _ hload h => loadSegment_loadedRep hdisk hload h
  have hnames : q.loaded.names = q.readDir := h.names
  refine ⟨⟨hload.listed, fun p hp => ?_, fun name hname => ?_, fun p hp => ?_, fun p hp => ?_⟩,
    hnames, h.maxSegmentSize⟩
  · have hdata : q.loaded.data p = fileData q.dir (q.loaded.heap p).path := by
      unfold data
      rw [show q.loaded.dir = q.dir from h.dir]
    rw [hdata]; exact h.seg p hp
  · rw [hnames, mem_readDir]; exact h.dir ▸ hname
  · have hmem : (q.loaded.heap p).path ∈ q.readDir := by rw [← hnames]; exact mem_names hp
    exact (hdisk _ (mem_readDir.mp hmem)).1
  · exact (h.limit p hp).trans h.maxSegmentSize.symm

theorem skipExhausted_maxSegmentSize {e : Option Err} (h : q.skipExhausted = some (e, q')) :
    q'.maxSegmentSize = q.maxSegmentSize := by
  have hc := q.current_maxSegmentSize
  unfold skipExhausted at h
  generalize q.current = r at h hc
  split at h
  · cases h
  · cases h; rw [trimHead_maxSegmentSize]; exact hc
  · cases h; exact hc

/-- `Open` on a directory of well-formed files. -/
theorem openQueue_rep (hdisk : DiskRep q done todo) (hne : q.readDir ≠ []) :
    ∃ q', q.openQueue = some (none, q') ∧ Rep q' done todo ∧
      unread q'.names todo = unread q.readDir todo ∧ q'.names.length ≤ q.readDir.length ∧
      q'.maxSegmentSize = q.maxSegmentSize := by
  obtain ⟨hstored, hnames, hmax⟩ := loaded_stored hdisk
  have hsegs : q.loaded.segments ≠ [] := fun hnil => hne (by rw [← hnames, names, hnil]; rfl)
  have hensure : q.loaded.ensureSegment = q.loaded := if_neg hsegs
  obtain ⟨q', heq, hrep, hunread, hlen, -⟩ := (hstored.setEnds_rep hsegs).skipExhausted
  have hn : q.loaded.setEnds.names = q.readDir := hnames
  rw [hn] at hunread hlen
  rw [openQueue_eq, hensure]
  exact ⟨q', heq, hrep, hunread, hlen, (skipExhausted_maxSegmentSize heq).trans hmax⟩

/-! ## Reachable queues -/

/-- The calls that keep the files well formed: no file errors, and no `Advance` with
    a stale cached length. -/
def Clean (q : Queue) : Op → Prop
  | .append io _ => io = {}
  | .advance => q.CacheFresh
  | _ => True

instance (q : Queue) : DecidablePred q.Clean
  | .append io _ => inferInstanceAs (Decidable (io = {}))
  | .advance => inferInstanceAs (Decidable q.CacheFresh)
  | .openQueue | .closeQueue | .current | .setMaxSegmentSize _ | .purgeOlderThan .. | .wait _ =>
    isTrue trivial

/-- The files are well formed, and so are the segments of an open queue. -/
def Sound (q : Queue) : Prop :=
  ∃ done todo, DiskRep q done todo ∧ (q.segments = [] ∨ Rep q done todo)

theorem Rep.sound (h : Rep q done todo) : Sound q := ⟨done, todo, h.diskRep, .inr h⟩

theorem dir_eq_empty (h : q.readDir = []) : q.dir = ∅ := by
  have hperm : q.dir.keys.Perm q.readDir := (List.perm_insertionSort _ _).symm
  rw [h] at hperm
  exact AList.ext (List.map_eq_nil_iff.mp hperm.eq_nil)

theorem openQueue_sound (hdisk : DiskRep q done todo) {e : Option Err}
    (h : q.openQueue = some (e, q')) : Sound q' := by
  by_cases hne : q.readDir = []
  · obtain ⟨q₁, -, heq, -, hrep⟩ := openQueue_empty (dir_eq_empty hne)
    cases heq.symm.trans h
    exact hrep.sound
  · obtain ⟨q₁, heq, hrep, -⟩ := openQueue_rep hdisk hne
    cases heq.symm.trans h
    exact hrep.sound

/-- A stale tail takes no records. -/
theorem append_closed_tail {t : ℕ} (ht : q.tail = some t) (hclosed : (q.heap t).isOpen = false)
    (io : QueueIO) (b : Bytes) : (q.append io b).2 = q := by
  have hseg : q.segmentAppend io.first t b = (some .notOpen, q) := by
    unfold segmentAppend Segment.append
    simp only [hclosed, Bool.not_false, if_true]
    rw [store_self]
  unfold append appendWith
  simp only [ht, hseg]
  split_ifs <;> rfl

theorem append_sound (h : Rep q done todo) (ht : TailOk q) (b : Bytes) :
    Sound (q.append {} b).2 := by
  obtain ⟨t, htail, -, hlast | ⟨hclosed, -⟩⟩ := ht
  · obtain ⟨done', todo', hrep, -⟩ := h.append (htail.trans hlast.symm) b
    exact hrep.sound
  · rw [append_closed_tail htail hclosed]
    exact h.sound

theorem setMaxSegmentSize_sound (h : Rep q done todo) {size : Int64} {e : Option Err}
    (hset : q.setMaxSegmentSize size = some (e, q')) : Sound q' := by
  rcases setMaxSegmentSize_cases hset with rfl | rfl
  · exact (h.withLimit size).rotate.sound
  · exact (h.withLimit size).sound

theorem purgeLoop_sound {cutoff : ℤ} {fuel : ℕ} {e : Option Err} (h : Rep q done todo)
    (hpurge : purgeLoop cutoff fuel q = some (e, q')) : Sound q' := by
  obtain ⟨_, _, hrep⟩ := purgeLoop_induction (P := fun q => ∃ done todo, Rep q done todo)
    ⟨_, _, h⟩ (fun _ ⟨_, _, h⟩ _ => ⟨_, _, h.withSegment.trimHead.1⟩)
    (fun _ ⟨_, _, h⟩ => ⟨_, _, h.trimHead.1⟩) hpurge
  exact hrep.sound

theorem wait_rep (h : Rep q done todo) (ns : ℕ) : Rep { q with clock := q.clock + ns } done todo :=
  ⟨⟨⟨h.bound, h.isOpen, h.onDisk, h.paths⟩, h.seg, h.owned, h.named, h.limit⟩, h.nonempty, h.head_eq⟩

theorem step_sound {op : Op} (hshape : Closed q ∨ Core q ∧ TailOk q) (h : Sound q)
    (hok : q.Clean op) (hstep : q.step op = some q') : Sound q' := by
  obtain ⟨done, todo, hdisk, hor⟩ := h
  by_cases hopen : op = .openQueue
  · subst hopen
    obtain ⟨⟨e, q₁⟩, hq₁, rfl⟩ := Option.map_eq_some_iff.mp hstep
    exact openQueue_sound hdisk hq₁
  rcases hshape with hclosed | ⟨hcore, htail⟩
  · obtain ⟨hclosed', hdir, -⟩ := step_closed hclosed hopen hstep
    refine ⟨done, todo, ?_, .inl hclosed'.1⟩
    unfold DiskRep
    rw [hdir]; exact hdisk
  have hrep : Rep q done todo := hor.resolve_left hcore.nonempty
  cases op with
  | openQueue => exact absurd rfl hopen
  | closeQueue => cases hstep; exact ⟨done, todo, hdisk, .inl rfl⟩
  | append io b =>
    cases hstep
    obtain rfl : io = {} := hok
    exact append_sound hrep htail b
  | current =>
    rw [step, stepWith, Option.ite_none_left_eq_some] at hstep
    cases hstep.2
    obtain ⟨-, -, -, -, hrep', -⟩ := hrep.current
    exact hrep'.sound
  | advance =>
    cases hstep
    obtain ⟨name, l, hn, -⟩ := hrep.current
    exact (hrep.advance (hrep.cached_of_cacheFresh hok) hn).1.sound
  | setMaxSegmentSize size =>
    obtain ⟨⟨e, q₁⟩, hset, rfl⟩ := Option.map_eq_some_iff.mp hstep
    exact setMaxSegmentSize_sound hrep hset
  | purgeOlderThan fuel when =>
    obtain ⟨⟨e, q₁⟩, hloop, rfl⟩ := Option.map_eq_some_iff.mp hstep
    rw [purgeOlderThanWith, if_neg hcore.nonempty] at hloop
    exact purgeLoop_sound hrep hloop
  | wait ns => cases hstep; exact (wait_rep hrep ns).sound

/-- Every open queue that is reachable by clean calls holds well-formed records. -/
theorem reachable_rep {maxSize : Int64} {clock : ℤ} {ops : List Op}
    (hok : Meets step Clean (newQueue ∅ maxSize clock) ops)
    (hrun : run step (newQueue ∅ maxSize clock) ops = some q) (hopen : q.segments ≠ []) :
    ∃ done todo, Rep q done todo := by
  have hinit : Sound (newQueue ∅ maxSize clock) :=
    ⟨fun _ => [], fun _ => [], fun name hname => absurd hname (AList.notMem_empty name), .inl rfl⟩
  have hinv := run_invariant step
    (I := fun q => (Closed q ∨ Core q ∧ TailOk q) ∧ Sound q)
    (fun _ _ _ h hok hstep => ⟨step_shape h.1 hstep, step_sound h.1 h.2 hok hstep⟩)
    ⟨.inl ⟨rfl, rfl, rfl⟩, hinit⟩ hok hrun
  obtain ⟨-, done, todo, -, hor⟩ := hinv
  exact ⟨done, todo, hor.resolve_left hopen⟩

/-! ## Close and Open -/

theorem Owned.readDir_eq_names (h : Owned q) (hl : Listed q) (hsorted : q.names.Pairwise (· < ·)) :
    q.readDir = q.names :=
  List.Perm.eq_of_pairwise (fun _ _ _ _ => le_antisymm) (List.pairwise_insertionSort _ _)
    (hsorted.imp le_of_lt) ((List.perm_insertionSort _ _).trans (h.keys_perm hl))

theorem Rep.readDir_eq_names (h : Rep q done todo) (hsorted : q.names.Pairwise (· < ·)) :
    q.readDir = q.names :=
  Owned.readDir_eq_names h.owned h.toListed hsorted

/-- **Restart.** In every reachable open queue whose file names are in increasing
    order, `Close` and `Open` leave a reader with the same results of `Current`, and
    a record accepted after that is read after them. -/
theorem reopen_preserves {maxSize : Int64} {clock : ℤ} {ops : List Op}
    (hok : Meets step Clean (newQueue ∅ maxSize clock) ops)
    (hrun : run step (newQueue ∅ maxSize clock) ops = some q) (hopen : q.segments ≠ [])
    (hsorted : q.names.Pairwise (· < ·)) :
    ∃ q₂, q.closeQueue.openQueue = some (none, q₂) ∧
      (∀ n ≥ q.rounds, drain n q₂ = drain n q) ∧
      ∀ b, (q₂.append {} b).1 = none → ∀ n ≥ q.rounds + 2,
        drain n (q₂.append {} b).2 = drain n q ++ [readRecord q.maxSegmentSize b] := by
  obtain ⟨done, todo, hrep⟩ := reachable_rep hok hrun hopen
  have hle := hrep.le_rounds
  have hdir := hrep.readDir_eq_names hsorted
  have hdisk : DiskRep q.closeQueue done todo := hrep.diskRep
  have hne : q.closeQueue.readDir ≠ [] := by
    show q.readDir ≠ []
    rw [hdir]
    simpa [names] using hopen
  obtain ⟨q₂, hq₂, hrep₂, hunread, hlen, hmax⟩ := openQueue_rep hdisk hne
  rw [show q.closeQueue.readDir = q.names from hdir] at hunread hlen
  rw [show q.closeQueue.maxSegmentSize = q.maxSegmentSize from rfl] at hmax
  refine ⟨q₂, hq₂, fun n hn => ?_, fun b hb n hn => ?_⟩
  · rw [drain_eq hrep₂ (by rw [hunread]; omega), drain_eq hrep (by omega), hunread, hmax]
  · obtain ⟨done', todo', hrep', hunread', hlen', -⟩ :=
      hrep₂.append (openQueue_shape hq₂).2.1 b
    rw [hb, if_pos rfl, hunread] at hunread'
    rw [drain_eq hrep' (by rw [hunread']; simp; omega), drain_eq hrep (by omega), hunread',
      (append_kept _ _ _).maxSegmentSize, hmax]
    simp

/-- Three segments, the first of them partly read. -/
def threeSegments : List Op :=
  [.openQueue, .setMaxSegmentSize 24, .append {} [1], .append {} [2], .append {} [3, 4, 5, 6, 7, 8, 9],
    .append {} [10, 11], .current, .advance]

theorem reopen_preserves_threeSegments :
    ∃ q q₂, run step (newQueue ∅ 1000 0) threeSegments = some q ∧ q.names = ["1", "2", "3"] ∧
      q.closeQueue.openQueue = some (none, q₂) ∧ ∀ n ≥ q.rounds, drain n q₂ = drain n q := by
  have hall : Meets step Clean (newQueue ∅ 1000 0) threeSegments ∧
      ∃ q ∈ run step (newQueue ∅ 1000 0) threeSegments, q.names = ["1", "2", "3"] := by decide
  obtain ⟨hok, q, hq, hn⟩ := hall
  have hopen : q.segments ≠ [] := fun hnil => by simp [names, hnil] at hn
  obtain ⟨q₂, hq₂, hdrain, -⟩ := reopen_preserves hok hq hopen (by rw [hn]; decide)
  exact ⟨q, q₂, hq, hn, hq₂, hdrain⟩

/-- Ten segments with one record each. -/
def tenSegments : List Op :=
  [.openQueue, .setMaxSegmentSize 10, .append {} [1], .append {} [2], .append {} [3],
    .append {} [4], .append {} [5], .append {} [6], .append {} [7], .append {} [8],
    .append {} [9], .append {} [10]]

/-- The file `10` is listed before the file `2`. -/
theorem reopen_reorders :
    ∃ q q₂, Meets step Clean (newQueue ∅ 1000 0) tenSegments ∧
      run step (newQueue ∅ 1000 0) tenSegments = some q ∧
      q.closeQueue.openQueue = some (none, q₂) ∧ drain q.rounds q₂ ≠ drain q.rounds q := by
  have hall : Meets step Clean (newQueue ∅ 1000 0) tenSegments ∧
      ∃ q ∈ run step (newQueue ∅ 1000 0) tenSegments, ∃ r ∈ q.closeQueue.openQueue,
        r.1 = none ∧ (drain q.rounds r.2).take 2 = [.record [1], .record [10]] ∧
        (drain q.rounds q).take 2 = [.record [1], .record [2]] := by decide +kernel
  obtain ⟨hok, q, hq, ⟨e, q₂⟩, hq₂, rfl, h₂, h₁⟩ := hall
  refine ⟨q, q₂, hok, hq, hq₂, fun heq => ?_⟩
  rw [heq, h₁] at h₂
  exact absurd h₂ (by decide)

end Queue

end MetricStore.Handoff
