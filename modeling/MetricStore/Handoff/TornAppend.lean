import MetricStore.Handoff.AppendErrors
import MetricStore.Handoff.Reopen

/-!
# Torn appends

`segment.append` (`internal/handoff/queue.go`, lines 498–538) writes the new block over the
old footer, which holds the only copy of the read position, and the same position after it.
When the write fails, or the process dies in the middle of it, the file keeps a part of these
bytes, and its last 8 bytes are what `Open` takes for the position.

A cut is harmless if everything was written, or if the bytes that were written, none or some
of the length field, are the bytes of the position that they replace.

Results:
* `SegRep.torn`: after a harmless cut the file holds the records from before, or those and
  the new one.
* `torn_append_reopens`: in every reachable queue whose file names are in increasing order,
  a reader of the queue that is opened on the directory after a harmless cut gets the
  records that were unread, or those and the new one.
* `torn_append_loses_records`: a cut after the length field makes the length the position.
-/

namespace MetricStore.Handoff

open MetricStore.Common

/-! ## One file -/

/-- How many bytes of the block and the footer for `b` reach the file. -/
def AppendIO.reached (io : AppendIO) (b : Bytes) : ℕ :=
  if io.seekFails then 0
  else match io.write with
    | .full => 8 + b.length + 8
    | .short n => n
    | .failed n => n

/-- After a cut at `n` bytes the block and the footer are complete, or the last 8 bytes of
    the file are still those of the position `pos`. -/
def HarmlessCut (pos : ℤ) (b : Bytes) (n : ℕ) : Prop :=
  8 + b.length + 8 ≤ n ∨ n ≤ 8 ∧ (toBE 8 b.length).take n = (toBE 8 (uint64 pos)).take n

instance (pos : ℤ) (b : Bytes) (n : ℕ) : Decidable (HarmlessCut pos b n) :=
  inferInstanceAs (Decidable (_ ∨ _ ∧ _))

/-- A write of the first bytes of a section that starts with the same bytes. -/
theorem writeAt_same (a c b : Bytes) {n : ℕ} (hn : b.take n = c.take n) :
    writeAt (a ++ c) a.length (b.take n) = a ++ c := by
  have htake : c.take (b.take n).length = b.take n := by
    rw [hn, List.length_take]
    exact (List.take_eq_take_min).symm
  have hdrop : b.take n ++ c.drop (b.take n).length = c := by
    nth_rewrite 1 [← htake]
    exact List.take_append_drop _ _
  unfold writeAt
  rw [List.take_left' rfl, List.drop_length_add_append, List.length_append,
    Nat.sub_eq_zero_of_le (Nat.le_add_right _ _), List.replicate_zero, List.append_nil,
    List.append_assoc, hdrop]

namespace SegRep

variable {s : Segment} {f : Bytes} {done todo : List Bytes}

/-- The file after `append`: as many bytes of the block and the footer as are written. -/
theorem append_file (h : SegRep s f done todo) (ho : s.isOpen = true) (io : AppendIO) {b : Bytes}
    (hfit : s.size + b.length ≤ s.maxSize.toInt) :
    (s.append io f b).2.2.getD f = writeAt f (blocks done ++ blocks todo).length
      ((toBE 8 b.length ++ b ++ toBE 8 (uint64 s.pos)).take (io.reached b)) := by
  set bytes := toBE 8 b.length ++ b ++ toBE 8 (uint64 s.pos) with hbytes
  have hlen : bytes.length = 8 + b.length + 8 := by simp [hbytes]; omega
  unfold Segment.append AppendIO.reached
  rw [if_neg (by simp [ho]), if_neg (by omega)]
  cases hseek : io.seekFails with
  | true =>
    simp only [if_true, List.take_zero]
    rw [h.bytes]
    exact (writeAt_same _ _ [] (n := 0) (by simp)).symm
  | false =>
    simp only [Bool.false_eq_true, if_false, h.seekEnd_eq, ← hbytes]
    cases io.write with
    | full =>
      rw [← hlen, List.take_length, if_neg (c := (WriteOutcome.full.written bytes).length ≠
        bytes.length) (not_not.mpr rfl)]
      cases io.syncFails <;> rfl
    | short n =>
      by_cases hshort : ((WriteOutcome.short n).written bytes).length ≠ bytes.length
      · rw [if_pos hshort]; rfl
      · rw [if_neg hshort]
        cases io.syncFails <;> rfl
    | failed n => rfl

/-- **A harmless cut.** The file holds the records from before, or those and `b`. -/
theorem torn (h : SegRep s f done todo) {b : Bytes} {n : ℕ} (hcut : HarmlessCut s.pos b n)
    (hfit : s.size + b.length ≤ s.maxSize.toInt) :
    ∃ extra s', (extra = [] ∨ extra = [b]) ∧
      SegRep s' (writeAt f (blocks done ++ blocks todo).length
        ((toBE 8 b.length ++ b ++ toBE 8 (uint64 s.pos)).take n)) done (todo ++ extra) := by
  rcases hcut with hall | ⟨hn, hsame⟩
  · have hmax := s.maxSize.toInt_lt
    have hsize := h.size_eq
    have hw : writeAt f (blocks done ++ blocks todo).length
        ((toBE 8 b.length ++ b ++ toBE 8 (uint64 s.pos)).take n) =
        blocks done ++ blocks (todo ++ [b]) ++ toBE 8 (blocks done).length := by
      rw [List.take_of_length_le (by simp; omega), h.bytes, writeAt_tail _ _ _ rfl (by simp),
        h.uint64_pos]
      simp [block]
    refine ⟨[b], { s with size := s.size + (b.length + 8) }, .inr rfl, ?_⟩
    rw [hw]
    refine ⟨rfl, h.pos, ?_, by simp; omega⟩
    show s.size + (b.length + 8) = _
    rw [hsize]; simp; ring
  · -- only bytes of the length field are written, and they are those of the position
    have htake : (toBE 8 b.length ++ b ++ toBE 8 (uint64 s.pos)).take n =
        (toBE 8 b.length).take n := by
      rw [List.append_assoc, List.take_append_of_le_length (by simpa using hn)]
    have hw : writeAt f (blocks done ++ blocks todo).length ((toBE 8 b.length).take n) = f := by
      rw [h.uint64_pos] at hsame
      rw [h.bytes]
      exact writeAt_same _ _ _ hsame
    refine ⟨[], s, .inl rfl, ?_⟩
    rw [htake, hw, List.append_nil]
    exact h

end SegRep

/-! ## The directory -/

namespace Queue

variable {q q' : Queue} {done todo : String → List Bytes}

/-- What is left of an append that is cut: the files hold `todo'`, under the names `names`. -/
structure Survives (q : Queue) (b : Bytes) (q' : Queue) (todo : String → List Bytes) : Prop where
  owned : Owned q'
  listed : Listed q'
  disk : ∃ done' todo', DiskRep q' done' todo' ∧
    (unread q'.names todo' = unread q.names todo ∨
      unread q'.names todo' = unread q.names todo ++ [b])
  length : q'.names.length ≤ q.names.length + 1

theorem Rep.survives (h : Rep q done todo) (b : Bytes) : Survives q b q todo :=
  ⟨h.owned, h.toListed, ⟨done, todo, h.diskRep, .inl rfl⟩, Nat.le_succ _⟩

/-- A cut append to the last segment. -/
theorem Rep.segmentAppend_survives (h : Rep q done todo) {t : ℕ} {l : List ℕ}
    (hs : q.segments = l ++ [t]) (io : AppendIO) {b : Bytes}
    (hfit : (q.heap t).size + b.length ≤ q.maxSegmentSize.toInt)
    (hcut : HarmlessCut (q.heap t).pos b (io.reached b)) :
    Survives q b (q.segmentAppend io t b).2 todo := by
  have hm : t ∈ q.segments := by simp [hs]
  have hseg := h.seg t hm
  have hsame := append_sameFile io (q.heap t) (q.data t) b
  have hframe := segmentAppend_frame q io t b
  rw [← h.limit t hm] at hfit
  obtain ⟨extra, s', hextra, hrep⟩ := hseg.torn hcut hfit
  rw [← hseg.append_file (h.isOpen t hm) io hfit] at hrep
  refine ⟨Owned.store h.owned hm hsame _, hframe.listed h.toListed,
    ⟨done, Function.update todo (q.heap t).path (todo (q.heap t).path ++ extra), ?_, ?_⟩,
    by rw [hframe.names]; exact Nat.le_succ _⟩
  · have heach : Each (q.segmentAppend io t b).2 fun s f => (decimal s.path).isSome = true ∧
        ∃ s₁, SegRep s₁ f (done s.path)
          (Function.update todo (q.heap t).path (todo (q.heap t).path ++ extra) s.path) := by
      refine Each.store h.toListed hm hsame ⟨by rw [hsame.1]; exact h.named t hm, s', ?_⟩
        fun x hx hxt => ⟨h.named x hx, q.heap x, ?_⟩
      · rw [hsame.1, Function.update_self]
        exact hrep
      · rw [Function.update_of_ne fun he => hxt (h.eq_of_path hx hm he)]
        exact h.seg x hx
    intro name hname
    obtain ⟨p, hp, rfl⟩ := List.mem_map.mp (Owned.store h.owned hm hsame _ name hname)
    exact heach p hp
  · rw [hframe.names]
    rcases hextra with rfl | rfl
    · rw [List.append_nil, Function.update_eq_self]
      exact .inl rfl
    · exact .inr (unread_append_last (names_of_last hs) h.paths b)

/-- The append after a rotation. -/
theorem Rep.rotated_survives (h : Rep q done todo) (io : AppendIO) {b : Bytes}
    (hcut : footerSize + b.length ≤ q.maxSegmentSize.toInt → HarmlessCut 0 b (io.reached b)) :
    Survives q b ({ q.withSegment with tail := some q.fresh }.segmentAppend io q.fresh b).2
      todo := by
  have hrep := h.rotate
  have hheap : q.withSegment.heap q.fresh = q.freshSegment := q.withSegment_heap_fresh
  have hnames : ({ q.withSegment with tail := some q.fresh } : Queue).names =
      q.names ++ [q.nextSegmentID.repr] := names_withSegment h.toListed
  have hunread : unread ({ q.withSegment with tail := some q.fresh } : Queue).names
      (Function.update todo q.nextSegmentID.repr []) = unread q.names todo := by
    rw [hnames, unread_append_new (nextSegmentID_notMem_names h.toListed), List.append_nil]
  by_cases hfit : footerSize + b.length ≤ q.maxSegmentSize.toInt
  · have hsurv := hrep.segmentAppend_survives (l := q.segments) (t := q.fresh) rfl io (b := b)
      (by rw [hheap]; exact hfit) (by rw [hheap]; exact hcut hfit)
    have hframe := segmentAppend_frame { q.withSegment with tail := some q.fresh } io q.fresh b
    refine ⟨hsurv.owned, hsurv.listed, ?_, ?_⟩
    · rw [← hunread]; exact hsurv.disk
    · rw [hframe.names, hnames]; simp
  · rw [hrep.segmentAppend_full q.fresh_mem_withSegment
      (by rw [hheap]; exact lt_of_not_ge hfit) io]
    refine ⟨hrep.owned, hrep.toListed, ⟨_, _, hrep.diskRep, .inl hunread⟩, ?_⟩
    rw [hnames]; simp

/-- An append of `b` to `q` that meets the failures `io` is cut harmlessly: unless the queue
    takes nothing, the segment that the block is written to is left with its position or
    with all of the block. The file names are in increasing order. -/
def CutsHarmlessly (q : Queue) (io : QueueIO) (b : Bytes) : Prop :=
  q.names.Pairwise (· < ·) ∧
  ∀ t ∈ q.tail, (q.heap t).isOpen = true → q.diskUsage + b.length ≤ q.maxSize.toInt →
    if (q.heap t).size + b.length ≤ (q.heap t).maxSize.toInt then
      HarmlessCut (q.heap t).pos b (io.first.reached b)
    else (q.names ++ [q.nextSegmentID.repr]).Pairwise (· < ·) ∧
      (footerSize + b.length ≤ q.maxSegmentSize.toInt → HarmlessCut 0 b (io.retry.reached b))

instance (q : Queue) (io : QueueIO) (b : Bytes) : Decidable (q.CutsHarmlessly io b) :=
  inferInstanceAs (Decidable (_ ∧ ∀ t ∈ q.tail, _))

/-- What is left of `Append`, for every outcome of its file operations. -/
theorem Rep.append_survives (h : Rep q done todo) (htail : TailOk q) {io : QueueIO} {b : Bytes}
    (hcut : q.CutsHarmlessly io b) :
    Survives q b (q.append io b).2 todo ∧ (q.append io b).2.names.Pairwise (· < ·) := by
  obtain ⟨hsorted, hcut⟩ := hcut
  obtain ⟨t, ht, -, hlast | ⟨hclosed, -⟩⟩ := htail
  swap
  · rw [append_closed_tail ht hclosed]
    exact ⟨h.survives b, hsorted⟩
  have hm : t ∈ q.segments := List.mem_of_getLast? hlast
  have hopen := h.isOpen t hm
  by_cases hroom : q.diskUsage + b.length ≤ q.maxSize.toInt
  swap
  · rw [append_noRoom ht io (lt_of_not_ge hroom)]
    exact ⟨h.survives b, hsorted⟩
  have hcut := hcut t ht hopen hroom
  by_cases hfit : (q.heap t).size + b.length ≤ (q.heap t).maxSize.toInt
  · rw [if_pos hfit] at hcut
    obtain ⟨hfull, -⟩ | ⟨-, heq, -⟩ := append_cases io ht hroom
    · exact absurd hfit (not_le.mpr (Segment.append_eq_segmentFull_iff.mp hfull).2)
    rw [heq]
    obtain ⟨l, hl⟩ := List.getLast?_eq_some_iff.mp hlast
    refine ⟨h.segmentAppend_survives hl io.first (h.limit t hm ▸ hfit) hcut, ?_⟩
    rw [(segmentAppend_frame q io.first t b).names]
    exact hsorted
  · rw [if_neg hfit] at hcut
    have hfull := h.segmentAppend_full hm (h.limit t hm ▸ lt_of_not_ge hfit) io.first
    have heq : q.append io b =
        { q.withSegment with tail := some q.fresh }.segmentAppend io.retry q.fresh b := by
      unfold Queue.append appendWith
      simp only [ht]
      rw [if_neg (by omega), hfull]
      simp only [addSegment_eq]
    rw [heq]
    refine ⟨h.rotated_survives io.retry hcut.2, ?_⟩
    rw [(segmentAppend_frame _ io.retry q.fresh b).names]
    exact names_withSegment h.toListed ▸ hcut.1

/-! ## Reopening -/

/-- **A torn append loses only its own record.** For every reachable open queue, every
    record and every outcome of the file operations of `Append` with a harmless cut, and
    every queue `q₀` that finds the directory as it is then, `Open` succeeds on `q₀` and a
    reader gets the records that were unread before the append, or those and the new one. -/
theorem torn_append_reopens {maxSize : Int64} {clock : ℤ} {ops : List Op}
    (hok : Meets step Clean (newQueue ∅ maxSize clock) ops)
    (hrun : run step (newQueue ∅ maxSize clock) ops = some q) (hopen : q.segments ≠ [])
    {io : QueueIO} {b : Bytes} (hcut : q.CutsHarmlessly io b) {q₀ : Queue}
    (hdir : q₀.dir = (q.append io b).2.dir) :
    ∃ records extra q₂, (extra = [] ∨ extra = [b]) ∧
      (∀ n ≥ q.rounds, drain n q = records.map (readRecord q.maxSegmentSize)) ∧
      q₀.openQueue = some (none, q₂) ∧
      ∀ n ≥ q.rounds + 2,
        drain n q₂ = (records ++ extra).map (readRecord q₀.maxSegmentSize) := by
  obtain ⟨done, todo, hrep⟩ := reachable_rep hok hrun hopen
  obtain ⟨-, htail⟩ := (reachable_shape hrun).resolve_left fun hclosed => hopen hclosed.1
  obtain ⟨hsurv, hsorted⟩ := hrep.append_survives htail hcut
  obtain ⟨done', todo', hdisk, hunread⟩ := hsurv.disk
  have hle := hrep.le_rounds
  have hlen := hsurv.length
  have hlisted : q₀.readDir = (q.append io b).2.names := by
    rw [← Owned.readDir_eq_names hsurv.owned hsurv.listed hsorted]
    unfold readDir
    rw [hdir]
  have hdisk₀ : DiskRep q₀ done' todo' := by
    unfold DiskRep
    rw [hdir]; exact hdisk
  have hne : q₀.readDir ≠ [] := by
    have hmoves : Moves True q (q.append io b).2 := append_moves io q b
    have hcore := hmoves.shape ⟨hrep.toCore, htail⟩
    rw [hlisted]
    simpa [names] using hcore.1.nonempty
  obtain ⟨q₂, hq₂, hrep₂, hunread₂, hlen₂, hmax⟩ := openQueue_rep hdisk₀ hne
  rw [hlisted] at hunread₂ hlen₂
  have hread : ∀ n ≥ q.rounds,
      drain n q = (unread q.names todo).map (readRecord q.maxSegmentSize) :=
    fun n hn => drain_eq hrep (by omega)
  obtain ⟨extra, hextra, hall⟩ : ∃ extra, (extra = [] ∨ extra = [b]) ∧
      unread q₂.names todo' = unread q.names todo ++ extra := by
    rw [hunread₂]
    rcases hunread with he | he
    · exact ⟨[], .inl rfl, by rw [he, List.append_nil]⟩
    · exact ⟨[b], .inr rfl, he⟩
  have hshort : extra.length ≤ 1 := by
    rcases hextra with rfl | rfl <;> simp
  refine ⟨unread q.names todo, extra, q₂, hextra, hread, hq₂, fun n hn => ?_⟩
  rw [drain_eq hrep₂ (by rw [hall, List.length_append]; omega), hall, hmax]

/-- One unread record. -/
def oneRecord : List Op := [.openQueue, .append {} [1, 2, 3]]

/-- An append of `[9]` of which the first 7 bytes are written. -/
def cutInLength : QueueIO where
  first := { write := .failed 7 }

theorem torn_append_reopens_oneRecord :
    ∃ (q q₂ : Queue) (records extra : List Bytes),
      run step (newQueue ∅ 1000 0) oneRecord = some q ∧ (extra = [] ∨ extra = [[9]]) ∧
      (∀ n ≥ q.rounds, drain n q = records.map (readRecord q.maxSegmentSize)) ∧
      (q.append cutInLength [9]).2.closeQueue.openQueue = some (none, q₂) ∧
      ∀ n ≥ q.rounds + 2, drain n q₂ = (records ++ extra).map (readRecord defaultSegmentSize) := by
  have hall : Meets step Clean (newQueue ∅ 1000 0) oneRecord ∧
      ∃ q ∈ run step (newQueue ∅ 1000 0) oneRecord, q.segments ≠ [] ∧
        q.CutsHarmlessly cutInLength [9] ∧
        (q.append cutInLength [9]).2.maxSegmentSize = defaultSegmentSize := by decide
  obtain ⟨hok, q, hrun, hopen, hcut, hmax⟩ := hall
  have hdir : (q.append cutInLength [9]).2.closeQueue.dir = (q.append cutInLength [9]).2.dir := rfl
  obtain ⟨records, extra, q₂, hextra, hread, hq₂, hdrain⟩ :=
    torn_append_reopens hok hrun hopen hcut hdir
  refine ⟨q, q₂, records, extra, hrun, hextra, hread, hq₂, ?_⟩
  rw [← hmax]
  exact hdrain

/-- The length field of a record that was cut after it is taken for the read position, and
    the record that was unread is lost. -/
theorem torn_append_loses_records :
    ∃ q q₂, run step (newQueue ∅ 1000 0) oneRecord = some q ∧
      drain 4 q = [.record [1, 2, 3]] ∧
      (q.append { first := { write := .failed 8 } } [9]).2.closeQueue.openQueue = some (none, q₂) ∧
      drain 4 q₂ = [.error (.badRead 10)] := by
  have hall : ∃ q ∈ run step (newQueue ∅ 1000 0) oneRecord, drain 4 q = [.record [1, 2, 3]] ∧
      ∃ r ∈ (q.append { first := { write := .failed 8 } } [9]).2.closeQueue.openQueue,
        r.1 = none ∧ drain 4 r.2 = [.error (.badRead 10)] := by decide +kernel
  obtain ⟨q, hrun, hbefore, ⟨e, q₂⟩, hq₂, rfl, hafter⟩ := hall
  exact ⟨q, q₂, hrun, hbefore, hq₂, hafter⟩

end Queue

end MetricStore.Handoff
