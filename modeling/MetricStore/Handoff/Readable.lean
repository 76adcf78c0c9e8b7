import MetricStore.Handoff.Reopen

/-!
# Every accepted record can be read

`segment.append` accepts a record that fits the segment limit of that moment
(`internal/handoff/queue.go`, lines 506–508). `segment.current` refuses to return a record
that is longer than the segment limit of the moment of the read, which `SetMaxSegmentSize`
changes for segments that hold data (lines 159–166), or longer than 512 KiB (lines
560–566). `SendWrite` does not advance past such a record.

A `Ledger` is a queue with the place of every accepted record that is still in one of its
files: the segment and the offset of its block. A record is next when its segment is the
head and the position of the head is its offset, that is when all records before it have
been advanced past.

Results:
* `Grown`: what a call does to the files that stay: they only get longer.
* `accepted_readable_iff`: a record that is next is returned by `Current` exactly when it
  is within both limits.
* `long_record_blocks`: with the default limits, a record of 512 KiB and one byte is
  accepted and cannot be read.
-/

namespace MetricStore.Handoff

open MetricStore.Common

namespace Queue

/-! ## Model -/

/-- The place of a record: its segment and the offset of its block in the file. -/
structure Placement where
  segment : ℕ
  offset : ℤ
  record : Bytes
  deriving DecidableEq, Repr

/-- Where an accepted `Append(b)` has put the record: at the end of the tail segment. -/
def placement (q : Queue) (b : Bytes) : Option Placement :=
  q.tail.map fun t => ⟨t, (q.heap t).size - footerSize - (b.length + 8), b⟩

/-- The place of a record in the segments that `Open` has made of the files. -/
def relocate (q q' : Queue) (pl : Placement) : Option Placement :=
  (q'.segments.find? fun p => (q'.heap p).path = (q.heap pl.segment).path).map fun p =>
    { pl with segment := p }

/-- A queue and the places of the accepted records that its files hold. -/
structure Ledger where
  queue : Queue
  placed : List Placement

namespace Ledger

/-- The places after a call that leads to `q'`. -/
def place (s : Ledger) (q' : Queue) : Op → List Placement
  | .append io b =>
    if (s.queue.append io b).1 = none then s.placed ++ (placement q' b).toList else s.placed
  | .openQueue => s.placed.filterMap (relocate s.queue q')
  | _ => s.placed

/-- One call. The records of a file that is removed are gone. -/
def step (s : Ledger) (op : Op) : Option Ledger :=
  (s.queue.step op).map fun q' =>
    ⟨q', (s.place q' op).filter fun pl => q'.segments = [] ∨ pl.segment ∈ q'.segments⟩

/-- The record is next: its segment is the head, and all records before it have been
    advanced past. -/
def Next (s : Ledger) (pl : Placement) : Prop :=
  s.queue.head = some pl.segment ∧ (s.queue.heap pl.segment).pos = pl.offset

instance (s : Ledger) (pl : Placement) : Decidable (s.Next pl) :=
  inferInstanceAs (Decidable (_ ∧ _))

/-- `Current` returns the record, and `SendWrite` sends it to a client that accepts it. -/
def Returns (s : Ledger) (pl : Placement) : Prop :=
  s.queue.current.1 = .record pl.record ∧
    (WriteReplayer.sendWrite ⟨true, s.queue⟩ true).1 = .sent pl.record

instance (s : Ledger) (pl : Placement) : Decidable (s.Returns pl) :=
  inferInstanceAs (Decidable (_ ∧ _))

end Ledger

/-! ## Offsets -/

/-- The record of a placement is in the list of records, at its offset. -/
def At (records : List Bytes) (pl : Placement) : Prop :=
  ∃ before after, records = before ++ pl.record :: after ∧ pl.offset = (blocks before).length

theorem At.extend {records records' : List Bytes} {pl : Placement} (h : At records pl)
    (hp : records <+: records') : At records' pl := by
  obtain ⟨before, after, rfl, hoff⟩ := h
  obtain ⟨more, rfl⟩ := hp
  exact ⟨before, after ++ more, by simp, hoff⟩

theorem blocks_eq_nil {rs : List Bytes} (h : (blocks rs).length = 0) : rs = [] := by
  have := length_blocks_ge rs
  exact List.eq_nil_of_length_eq_zero (by omega)

/-- The offset of a record says what is before it. -/
theorem At.todo_eq {done todo : List Bytes} {pl : Placement} (h : At (done ++ todo) pl)
    (hoff : pl.offset = (blocks done).length) : ∃ rest, todo = pl.record :: rest := by
  obtain ⟨before, after, heq, hbefore⟩ := h
  have hlength : (blocks done).length = (blocks before).length := by omega
  rcases List.append_eq_append_iff.mp heq with ⟨c, rfl, htodo⟩ | ⟨c, rfl, htodo⟩
  · have hc : c = [] := blocks_eq_nil (by simp at hlength; simpa using hlength)
    subst hc
    exact ⟨after, by simpa using htodo⟩
  · have hc : c = [] := blocks_eq_nil (by simp at hlength; simpa using hlength)
    subst hc
    exact ⟨after, by simpa using htodo.symm⟩

/-! ## What a call does to the files -/

variable {q q' : Queue} {done todo done' todo' : String → List Bytes}

/-- The segments of `q'` are new ones and some of those of `q`, under the same names. -/
structure Traced (q q' : Queue) : Prop where
  fresh : q.fresh ≤ q'.fresh
  path : ∀ p < q.fresh, (q'.heap p).path = (q.heap p).path
  back : ∀ p < q.fresh, p ∈ q'.segments → p ∈ q.segments

theorem Traced.refl (q : Queue) : Traced q q := ⟨le_rfl, fun _ _ => rfl, fun _ _ => id⟩

theorem Traced.trans {q₁ : Queue} (h₁ : Traced q q₁) (h₂ : Traced q₁ q') : Traced q q' where
  fresh := h₁.fresh.trans h₂.fresh
  path p hp := (h₂.path p (hp.trans_le h₁.fresh)).trans (h₁.path p hp)
  back p hp hm := h₁.back p hp (h₂.back p (hp.trans_le h₁.fresh) hm)

theorem withSegment_traced (q : Queue) : Traced q q.withSegment where
  fresh := Nat.le_succ _
  path p hp := by rw [withSegment_heap_of_lt hp]
  back p hp hm := (mem_pushSegment.mp hm).resolve_right hp.ne

theorem trimHead_traced (q : Queue) : Traced q q.trimHead := by
  unfold trimHead
  split
  · next a p rest h hs _ =>
    refine ⟨le_rfl, fun x _ => dropHead_path h p x rest, fun x _ hx => ?_⟩
    rw [hs]; exact List.mem_cons_of_mem a hx
  · exact .refl q

theorem Move.traced {renew : Prop} (hm : Move renew q q') : Traced q q' := by
  cases hm with
  | frame hf => exact ⟨hf.fresh.ge, fun p _ => hf.path p, fun p _ hp => hf.segments ▸ hp⟩
  | rotate =>
    have h := withSegment_traced q
    exact ⟨h.fresh, h.path, h.back⟩
  | trim => exact trimHead_traced q
  | renew _ _ => exact (withSegment_traced q).trans (trimHead_traced _)

theorem Moves.traced {renew : Prop} (hm : Moves renew q q') : Traced q q' := by
  induction hm with
  | refl => exact .refl q
  | tail _ hm ih => exact ih.trans hm.traced

/-- The records of the file of the segment `p`. -/
def contents (q : Queue) (done todo : String → List Bytes) (p : ℕ) : List Bytes :=
  done (q.heap p).path ++ todo (q.heap p).path

/-- `q'` holds the records `done'` and `todo'`, and the files that were there and still are
    have lost nothing. -/
structure Grown (q : Queue) (done todo : String → List Bytes) (q' : Queue)
    (done' todo' : String → List Bytes) : Prop extends Traced q q' where
  rep : Rep q' done' todo'
  contents : ∀ p ∈ q.segments, p ∈ q'.segments →
    q.contents done todo p <+: q'.contents done' todo' p

namespace Grown

theorem trans {q₁ : Queue} {done₁ todo₁ : String → List Bytes} (hq : Listed q)
    (h₁ : Grown q done todo q₁ done₁ todo₁) (h₂ : Grown q₁ done₁ todo₁ q' done' todo') :
    Grown q done todo q' done' todo' := by
  refine ⟨h₁.toTraced.trans h₂.toTraced, h₂.rep, fun p hp hm => ?_⟩
  -- a segment that is still there at the end was there in between
  have hm₁ := h₂.back p ((hq.bound p hp).trans_le h₁.fresh) hm
  exact (h₁.contents p hp hm₁).trans (h₂.contents p hm₁ hm)

/-- No file has lost anything. -/
theorem of_contents (ht : Traced q q') (hq : Listed q) (h : Rep q' done' todo')
    (hcontents : ∀ p ∈ q.segments, done (q.heap p).path ++ todo (q.heap p).path <+:
      done' (q.heap p).path ++ todo' (q.heap p).path) : Grown q done todo q' done' todo' := by
  refine ⟨ht, h, fun p hp _ => ?_⟩
  unfold Queue.contents
  rw [ht.path p (hq.bound p hp)]
  exact hcontents p hp

theorem withSegment (h : Rep q done todo) : Grown q done todo q.withSegment
    (Function.update done q.nextSegmentID.repr [])
    (Function.update todo q.nextSegmentID.repr []) := by
  refine of_contents (withSegment_traced q) h.toListed h.withSegment fun p hp => ?_
  rw [Function.update_of_ne (h.path_ne_next hp), Function.update_of_ne (h.path_ne_next hp)]

/-- `tail` plays no part. -/
theorem setTail (h : Grown q done todo q' done' todo') (t : Option ℕ) :
    Grown q done todo { q' with tail := t } done' todo' :=
  ⟨⟨h.fresh, h.path, h.back⟩, ⟨h.rep.toStored.setEnds _ _, h.rep.nonempty, h.rep.head_eq⟩,
    h.contents⟩

theorem of_rep (ht : Traced q q') (hq : Listed q) (h : Rep q' done todo) :
    Grown q done todo q' done todo :=
  of_contents ht hq h fun _ _ => List.prefix_rfl

theorem trimHead (h : Rep q done todo) : Grown q done todo q.trimHead done todo :=
  of_rep (trimHead_traced q) h.toListed h.trimHead.1

end Grown

theorem purgeLoop_grown {cutoff : ℤ} {fuel : ℕ} {e : Option Err} (h : Rep q done todo)
    (hpurge : purgeLoop cutoff fuel q = some (e, q')) :
    ∃ done' todo', Grown q done todo q' done' todo' := by
  refine purgeLoop_induction
    (P := fun q₁ => ∃ done' todo', Grown q done todo q₁ done' todo')
    ⟨_, _, .of_rep (.refl q) h.toListed h⟩ ?_ ?_ hpurge
  · rintro q₁ ⟨done₁, todo₁, hgrown⟩ -
    have hadded := hgrown.trans h.toListed (.withSegment hgrown.rep)
    exact ⟨_, _, hadded.trans h.toListed (.trimHead hadded.rep)⟩
  · rintro q₁ ⟨done₁, todo₁, hgrown⟩
    exact ⟨_, _, hgrown.trans h.toListed (.trimHead hgrown.rep)⟩

theorem setMaxSegmentSize_grown {size : Int64} {e : Option Err} (h : Rep q done todo)
    (hset : q.setMaxSegmentSize size = some (e, q')) :
    ∃ done' todo', Grown q done todo q' done' todo' := by
  have hmove : Move False q (q.withLimit size) := .frame (q.withLimit_frame size)
  have hlimit : Grown q done todo (q.withLimit size) done todo :=
    .of_rep hmove.traced h.toListed (h.withLimit size)
  rcases setMaxSegmentSize_cases hset with rfl | rfl
  · exact ⟨_, _, hlimit.trans h.toListed ((Grown.withSegment (h.withLimit size)).setTail _)⟩
  · exact ⟨_, _, hlimit⟩

theorem advance_grown (h : Rep q done todo) (hc : q.CacheFresh) :
    ∃ done' todo', Grown q done todo q.advance.2 done' todo' := by
  obtain ⟨name, l, hn, -⟩ := h.current
  have hmoves : Moves False q q.advance.2 := advance_moves q
  refine ⟨_, _, .of_contents hmoves.traced h.toListed
    (h.advance (h.cached_of_cacheFresh hc) hn).1 fun p hp => ?_⟩
  unfold advanceDone advanceTodo
  by_cases hname : (q.heap p).path = name
  · rw [hname, Function.update_self, Function.update_self, List.append_assoc]
    cases todo name with
    | nil => exact List.prefix_rfl
    | cons r rest => exact List.prefix_rfl
  · rw [Function.update_of_ne hname, Function.update_of_ne hname]

theorem path_of_tail (htail : q.tail = q.segments.getLast?) {t : ℕ} (ht : t ∈ q.tail) :
    q.names.getLast? = some (q.heap t).path := by
  have hlast : q.segments.getLast? = some t := htail.symm.trans ht
  unfold names
  rw [List.getLast?_map, hlast]
  rfl

/-- The last record of the tail's file is where `placement` says. -/
theorem placement_at (h : Rep q done todo) (htail : q.tail = q.segments.getLast?) {name : String}
    {b : Bytes} (hname : q.names.getLast? = some name)
    (hrecords : ∃ before, done name ++ todo name = before ++ [b]) :
    ∀ pl ∈ placement q b, At (q.contents done todo pl.segment) pl := by
  obtain ⟨before, hrecords⟩ := hrecords
  intro pl hpl
  obtain ⟨t, ht, rfl⟩ := Option.map_eq_some_iff.mp hpl
  have hm : t ∈ q.segments := List.mem_of_getLast? (htail.symm.trans ht)
  obtain rfl : (q.heap t).path = name :=
    Option.some.inj ((path_of_tail htail ht).symm.trans hname)
  have hsize := (h.seg t hm).size_eq
  have hlength := congrArg (fun rs => (blocks rs).length) hrecords
  simp only [blocks_append, blocks_cons, blocks_nil, List.append_nil, List.length_append,
    length_block] at hlength
  refine ⟨before, [], hrecords, ?_⟩
  dsimp only
  unfold footerSize
  omega

/-- `Append` on a queue whose tail is the last segment: the files have lost nothing, and an
    accepted record is where `placement` says. -/
theorem append_grown (h : Rep q done todo) (htail : q.tail = q.segments.getLast?) (b : Bytes) :
    ∃ done' todo', Grown q done todo (q.append {} b).2 done' todo' ∧
      ((q.append {} b).1 = none → ∀ pl ∈ placement (q.append {} b).2 b,
        At ((q.append {} b).2.contents done' todo' pl.segment) pl) := by
  obtain ⟨l, t, hs, hlast⟩ := h.exists_last
  have ht : q.tail = some t := htail.trans hlast
  have hm : t ∈ q.segments := by rw [hs]; simp
  have hmoves : Moves False q (q.append {} b).2 := append_moves {} q b
  have htail' := (hmoves.core_tail ⟨h.toCore, htail⟩).2
  by_cases hroom : q.diskUsage + b.length ≤ q.maxSize.toInt
  swap
  · rw [append_noRoom ht {} (lt_of_not_ge hroom)]
    exact ⟨done, todo, .of_rep (.refl q) h.toListed h, fun hnone => by cases hnone⟩
  by_cases hfit : (q.heap t).size + b.length ≤ q.maxSegmentSize.toInt
  · obtain ⟨-, hn, hrep⟩ := h.append_fits ht hm hroom hfit
    refine ⟨_, _, .of_contents hmoves.traced h.toListed hrep fun p _ => ?_, fun _ => ?_⟩
    · by_cases hp : (q.heap p).path = (q.heap t).path
      · rw [hp, Function.update_self, ← List.append_assoc]
        exact List.prefix_append _ _
      · rw [Function.update_of_ne hp]
    · refine placement_at hrep htail' (by rw [hn]; exact path_of_tail htail ht)
        ⟨done (q.heap t).path ++ todo (q.heap t).path, ?_⟩
      rw [Function.update_self, List.append_assoc]
  · obtain ⟨hres, hn, hrep⟩ := h.append_rotates ht hm hroom (lt_of_not_ge hfit)
    refine ⟨_, _, .of_contents hmoves.traced h.toListed hrep fun p hp => ?_, fun hnone => ?_⟩
    · rw [Function.update_of_ne (h.path_ne_next hp), Function.update_of_ne (h.path_ne_next hp)]
    · -- the new file holds this record alone
      have hnew : footerSize + b.length ≤ q.maxSegmentSize.toInt := by
        by_contra hbig
        rw [hres, if_neg hbig] at hnone
        cases hnone
      refine placement_at hrep htail' (by rw [hn, List.getLast?_concat]) ⟨[], ?_⟩
      rw [Function.update_self, Function.update_self, if_pos hnew]

/-- Every call on an open queue other than `Open` and `Close`. -/
theorem step_grown {op : Op} (h : Rep q done todo) (htail : TailOk q) (hok : q.Clean op)
    (hopen : op ≠ .openQueue) (hclose : op ≠ .closeQueue) (hstep : q.step op = some q') :
    ∃ done' todo', Grown q done todo q' done' todo' ∧
      ∀ io b, op = .append io b → (q.append io b).1 = none → ∀ pl ∈ placement q' b,
        pl.segment ∈ q'.segments → At (q'.contents done' todo' pl.segment) pl := by
  cases op with
  | openQueue => exact absurd rfl hopen
  | closeQueue => exact absurd rfl hclose
  | append io b =>
    obtain rfl : io = {} := hok
    obtain rfl : (q.append {} b).2 = q' := Option.some.inj hstep
    obtain ⟨t, ht, -, hlast | ⟨hclosed, hout⟩⟩ := htail
    · obtain ⟨done', todo', hgrown, hat⟩ := append_grown h (ht.trans hlast.symm) b
      refine ⟨done', todo', hgrown, ?_⟩
      rintro _ _ ⟨⟩ hnone pl hpl -
      exact hat hnone pl hpl
    · -- a stale tail takes no records, and its segment is not listed
      rw [append_closed_tail ht hclosed]
      refine ⟨done, todo, .of_rep (.refl q) h.toListed h, ?_⟩
      rintro _ _ ⟨⟩ - pl hpl hm
      obtain ⟨t', ht', rfl⟩ := Option.map_eq_some_iff.mp hpl
      obtain rfl : t = t' := Option.some.inj (ht.symm.trans ht')
      exact absurd hm hout
  | current =>
    rw [step, stepWith, Option.ite_none_left_eq_some] at hstep
    cases hstep.2
    obtain ⟨-, -, -, -, hrep', -⟩ := h.current
    have hmove : Move False q q.current.2 := .frame q.current_frame
    exact ⟨done, todo, .of_rep hmove.traced h.toListed hrep', fun _ _ heq => by cases heq⟩
  | advance =>
    cases hstep
    obtain ⟨done', todo', hgrown⟩ := advance_grown h hok
    exact ⟨done', todo', hgrown, fun _ _ heq => by cases heq⟩
  | setMaxSegmentSize size =>
    obtain ⟨⟨e, q₁⟩, hset, rfl⟩ := Option.map_eq_some_iff.mp hstep
    obtain ⟨done', todo', hgrown⟩ := setMaxSegmentSize_grown h hset
    exact ⟨done', todo', hgrown, fun _ _ heq => by cases heq⟩
  | purgeOlderThan fuel when =>
    obtain ⟨⟨e, q₁⟩, hloop, rfl⟩ := Option.map_eq_some_iff.mp hstep
    rw [purgeOlderThanWith, if_neg h.nonempty] at hloop
    obtain ⟨done', todo', hgrown⟩ := purgeLoop_grown h hloop
    exact ⟨done', todo', hgrown, fun _ _ heq => by cases heq⟩
  | wait ns =>
    cases hstep
    have hmove : Move False q { q with clock := q.clock + ns } := .frame (wait_frame q ns)
    exact ⟨done, todo, .of_rep hmove.traced h.toListed (wait_rep h ns), fun _ _ heq => by cases heq⟩

/-! ## Runs -/

namespace Ledger

/-- The files hold the records at the places that are known, and an open queue knows only
    places in its segments. -/
structure Inv (s : Ledger) : Prop where
  shape : Closed s.queue ∨ Core s.queue ∧ TailOk s.queue
  records : ∃ done todo, DiskRep s.queue done todo ∧
    (s.queue.segments = [] ∨ Rep s.queue done todo) ∧
    ∀ pl ∈ s.placed, (s.queue.heap pl.segment).path ∈ s.queue.dir ∧
      (s.queue.segments = [] ∨ pl.segment ∈ s.queue.segments) ∧
      At (s.queue.contents done todo pl.segment) pl

/-- An open queue. -/
theorem Inv.of_rep {placed : List Placement} (h : Rep q done todo) (ht : TailOk q)
    (hplaced : ∀ pl ∈ placed, pl.segment ∈ q.segments ∧ At (q.contents done todo pl.segment) pl) :
    Inv ⟨q, placed⟩ := by
  refine ⟨.inr ⟨h.toCore, ht⟩, done, todo, h.diskRep, .inr h, fun pl hpl => ?_⟩
  obtain ⟨hm, hat⟩ := hplaced pl hpl
  exact ⟨h.onDisk _ hm, .inr hm, hat⟩

/-- The places of the records after a call on an open queue. -/
theorem mem_placed {s : Ledger} {op : Op} {pl : Placement} (hne : q'.segments ≠ [])
    (hpl : pl ∈ (s.place q' op).filter fun pl => q'.segments = [] ∨ pl.segment ∈ q'.segments) :
    pl ∈ s.place q' op ∧ pl.segment ∈ q'.segments := by
  rw [List.mem_filter, decide_eq_true_eq] at hpl
  exact ⟨hpl.1, hpl.2.resolve_left hne⟩

theorem openQueue_inv {s : Ledger} {e : Option Err} (hi : s.Inv)
    (hopen : s.queue.openQueue = some (e, q')) :
    Inv ⟨q', (s.place q' .openQueue).filter fun pl => q'.segments = [] ∨ pl.segment ∈ q'.segments⟩ := by
  obtain ⟨-, done, todo, hdisk, -, hplaced⟩ := hi
  obtain ⟨hcore, htail, -⟩ := openQueue_shape hopen
  have hmem : ∀ pl ∈ (s.place q' .openQueue).filter fun pl =>
      q'.segments = [] ∨ pl.segment ∈ q'.segments, pl.segment ∈ q'.segments ∧
        ∃ old ∈ s.placed, pl.record = old.record ∧ pl.offset = old.offset ∧
          (q'.heap pl.segment).path = (s.queue.heap old.segment).path := by
    intro pl hpl
    obtain ⟨hplace, hm⟩ := mem_placed hcore.nonempty hpl
    obtain ⟨old, hold, hrelocate⟩ := List.mem_filterMap.mp hplace
    obtain ⟨p, hp, rfl⟩ := Option.map_eq_some_iff.mp hrelocate
    exact ⟨hm, old, hold, rfl, rfl, by simpa using List.find?_some hp⟩
  by_cases hne : s.queue.readDir = []
  · -- there are no files, and so no records
    obtain ⟨q₁, -, heq, -, hrep⟩ := openQueue_empty (dir_eq_empty hne)
    cases heq.symm.trans hopen
    refine .of_rep hrep (hcore.getLast_tailOk htail) fun pl hpl => ?_
    obtain ⟨-, old, hold, -⟩ := hmem pl hpl
    have hdir := (hplaced old hold).1
    rw [dir_eq_empty hne] at hdir
    exact absurd hdir (AList.notMem_empty _)
  · obtain ⟨q₁, heq, hrep, -⟩ := openQueue_rep hdisk hne
    cases heq.symm.trans hopen
    refine .of_rep hrep (hcore.getLast_tailOk htail) fun pl hpl => ?_
    obtain ⟨hm, old, hold, hrecord, hoffset, hpath⟩ := hmem pl hpl
    obtain ⟨before, after, hrecords, hoff⟩ := (hplaced old hold).2.2
    refine ⟨hm, before, after, ?_, hoffset.trans hoff⟩
    rw [hrecord, ← hrecords]
    unfold Queue.contents
    rw [hpath]

/-- A queue that is not open, with the files and the names it had. -/
theorem Inv.of_closed {s : Ledger} {placed : List Placement} (hi : s.Inv) (hc : Closed q')
    (hdir : q'.dir = s.queue.dir) (hpath : ∀ p, (q'.heap p).path = (s.queue.heap p).path)
    (hsub : ∀ pl ∈ placed, pl ∈ s.placed) : Inv ⟨q', placed⟩ := by
  obtain ⟨-, done, todo, hdisk, -, hplaced⟩ := hi
  refine ⟨.inl hc, done, todo, ?_, .inl hc.1, fun pl hpl => ?_⟩
  · unfold DiskRep
    rw [hdir]; exact hdisk
  · obtain ⟨hfile, -, hat⟩ := hplaced pl (hsub pl hpl)
    refine ⟨?_, .inl hc.1, ?_⟩
    · rw [hpath, hdir]; exact hfile
    · unfold Queue.contents
      rw [hpath]; exact hat

theorem closed_inv {s : Ledger} {op : Op} (hi : s.Inv) (hclosed : Closed s.queue)
    (hopen : op ≠ .openQueue) (hstep : s.queue.step op = some q') :
    Inv ⟨q', (s.place q' op).filter fun pl => q'.segments = [] ∨ pl.segment ∈ q'.segments⟩ := by
  obtain ⟨hclosed', hdir, hheap⟩ := step_closed hclosed hopen hstep
  refine hi.of_closed hclosed' hdir (fun p => by rw [hheap]) fun pl hpl => ?_
  have hm := (List.mem_filter.mp hpl).1
  cases op with
  | openQueue => exact absurd rfl hopen
  | append io b =>
    have hrefused : (s.queue.append io b).1 ≠ none := by
      unfold append appendWith
      rw [hclosed.2.2]
      simp
    rwa [place, if_neg hrefused] at hm
  | closeQueue | current | advance | setMaxSegmentSize | purgeOlderThan | wait => exact hm

theorem closeQueue_inv {s : Ledger} (hi : s.Inv) :
    Inv ⟨s.queue.closeQueue, (s.place s.queue.closeQueue .closeQueue).filter fun pl =>
      s.queue.closeQueue.segments = [] ∨ pl.segment ∈ s.queue.closeQueue.segments⟩ := by
  refine hi.of_closed ⟨rfl, rfl, rfl⟩ rfl (fun p => ?_) fun pl hpl => (List.mem_filter.mp hpl).1
  unfold closeQueue
  dsimp only
  split_ifs <;> rfl

theorem step_inv {s s' : Ledger} {op : Op} (hi : s.Inv) (hok : s.queue.Clean op)
    (hstep : s.step op = some s') : s'.Inv := by
  obtain ⟨q', hq', rfl⟩ := Option.map_eq_some_iff.mp hstep
  by_cases hopen : op = .openQueue
  · subst hopen
    obtain ⟨⟨e, q₁⟩, hq₁, rfl⟩ := Option.map_eq_some_iff.mp hq'
    exact openQueue_inv hi hq₁
  rcases hi.shape with hclosed | ⟨hcore, htail⟩
  · exact closed_inv hi hclosed hopen hq'
  by_cases hclose : op = .closeQueue
  · subst hclose
    cases hq'
    exact closeQueue_inv hi
  obtain ⟨-, done, todo, -, hor, hplaced⟩ := hi
  have hrep : Rep s.queue done todo := hor.resolve_left hcore.nonempty
  obtain ⟨done', todo', hgrown, hnew⟩ := step_grown hrep htail hok hopen hclose hq'
  have hmoves := step_moves hcore hopen hclose (fun _ _ _ => .inl trivial) hq'
  refine .of_rep hgrown.rep (hmoves.shape ⟨hcore, htail⟩).2 fun pl hpl => ?_
  obtain ⟨hplace, hm⟩ := mem_placed hgrown.rep.nonempty hpl
  refine ⟨hm, ?_⟩
  -- a record that was there is in the same place of a file that has only got longer
  have hold : pl ∈ s.placed → At (q'.contents done' todo' pl.segment) pl := fun hpl => by
    obtain ⟨-, hseg, hat⟩ := hplaced pl hpl
    exact hat.extend (hgrown.contents _ (hseg.resolve_left hcore.nonempty) hm)
  cases op with
  | openQueue => exact absurd rfl hopen
  | append io b =>
    rw [place] at hplace
    split_ifs at hplace with hnone
    · rcases List.mem_append.mp hplace with hpl | hpl
      · exact hold hpl
      · exact hnew io b rfl hnone pl (Option.mem_toList.mp hpl) hm
    · exact hold hplace
  | closeQueue | current | advance | setMaxSegmentSize | purgeOlderThan | wait => exact hold hplace

theorem init_inv (maxSize : Int64) (clock : ℤ) : Inv ⟨newQueue ∅ maxSize clock, []⟩ := by
  refine ⟨.inl ⟨rfl, rfl, rfl⟩, fun _ => [], fun _ => [], ?_, .inl rfl, fun pl hpl => ?_⟩
  · exact fun name hname => absurd hname (AList.notMem_empty name)
  · cases hpl

/-- The places follow the queue and do not change it. -/
theorem run_queue (s : Ledger) (ops : List Op) :
    (run step s ops).map Ledger.queue = run Queue.step s.queue ops := by
  induction ops generalizing s with
  | nil => rfl
  | cons op ops ih =>
    unfold run
    rw [show s.step op = (s.queue.step op).map _ from rfl]
    cases s.queue.step op with
    | none => rfl
    | some q' => exact ih _

end Ledger

/-! ## Reading -/

theorem readRecord_eq_record_iff {limit : Int64} {r : Bytes} :
    readRecord limit r = .record r ↔ (r.length : ℤ) ≤ limit.toInt ∧ r.length ≤ 512 * 1024 := by
  unfold readRecord
  split_ifs with hlimit hcap
  · simp; omega
  · simp; omega
  · simp; omega

theorem sendWrite_of_error {e : Err} (h : q.current.1 = .error e) (clientOk : Bool) :
    (WriteReplayer.sendWrite ⟨true, q⟩ clientOk).1 = .readError e := by
  unfold WriteReplayer.sendWrite
  dsimp only
  generalize q.current = r at h
  obtain ⟨res, q₁⟩ := r
  obtain rfl : res = .error e := h
  rfl

theorem sendWrite_eq_sent_iff {b : Bytes} :
    (WriteReplayer.sendWrite ⟨true, q⟩ true).1 = .sent b ↔ q.current.1 = .record b := by
  unfold WriteReplayer.sendWrite
  dsimp only
  generalize q.current = r
  obtain ⟨res, q₁⟩ := r
  cases res <;> simp

/-- `Current` reads the record that is next. -/
theorem Ledger.Inv.current_next {s : Ledger} {pl : Placement} (hi : s.Inv) (hpl : pl ∈ s.placed)
    (hnext : s.Next pl) : s.queue.current.1 = readRecord s.queue.maxSegmentSize pl.record := by
  obtain ⟨hshape, done, todo, -, hor, hplaced⟩ := hi
  obtain ⟨hhead, hpos⟩ := hnext
  have hopen : s.queue.segments ≠ [] := by
    rcases hshape with hclosed | ⟨hcore, -⟩
    · rw [hclosed.2.1] at hhead
      cases hhead
    · exact hcore.nonempty
  have hrep : Rep s.queue done todo := hor.resolve_left hopen
  obtain ⟨-, hseg, hat⟩ := hplaced pl hpl
  have hm : pl.segment ∈ s.queue.segments := hseg.resolve_left hopen
  obtain ⟨rest, htodo⟩ := hat.todo_eq (hpos.symm.trans (hrep.seg _ hm).pos)
  obtain ⟨n, heq, -⟩ := hrep.current_eq hhead hm
  rw [heq, htodo]
  rfl

/-- **Which accepted records can be read.** In every run from an empty directory, an
    accepted record that is next is returned by `Current`, and sent by `SendWrite`, exactly
    when it is no longer than the segment limit of that moment and than 512 KiB. -/
theorem accepted_readable_iff {maxSize : Int64} {clock : ℤ} {ops : List Op} {s : Ledger}
    {pl : Placement}
    (hok : Meets Ledger.step (fun s op => s.queue.Clean op) ⟨newQueue ∅ maxSize clock, []⟩ ops)
    (hrun : run Ledger.step ⟨newQueue ∅ maxSize clock, []⟩ ops = some s)
    (hpl : pl ∈ s.placed) (hnext : s.Next pl) :
    s.Returns pl ↔
      (pl.record.length : ℤ) ≤ s.queue.maxSegmentSize.toInt ∧ pl.record.length ≤ 512 * 1024 := by
  have hi : s.Inv := run_invariant Ledger.step (fun _ _ _ h hok hstep => Ledger.step_inv h hok hstep)
    (Ledger.init_inv maxSize clock) hok hrun
  have hcurrent := hi.current_next hpl hnext
  unfold Ledger.Returns
  rw [sendWrite_eq_sent_iff, and_self, hcurrent, readRecord_eq_record_iff]

/-- A record in the second segment, after the first one has been read; then a smaller limit. -/
def shrunkRun : List Op :=
  [.openQueue, .setMaxSegmentSize 20, .append {} [1, 2, 3], .append {} [4, 5, 6, 7, 8, 9], .current,
    .advance, .closeQueue, .openQueue]

theorem accepted_readable_iff_shrunkRun :
    (∃ s, ∃ pl ∈ s.placed, run Ledger.step ⟨newQueue ∅ 1000 0, []⟩ shrunkRun = some s ∧
      s.Next pl ∧ s.Returns pl) ∧
    ∃ s, ∃ pl ∈ s.placed, s.Next pl ∧ ¬ s.Returns pl ∧
      run Ledger.step ⟨newQueue ∅ 1000 0, []⟩ (shrunkRun ++ [.setMaxSegmentSize 5]) = some s := by
  have hall : Meets Ledger.step (fun s op => s.queue.Clean op) ⟨newQueue ∅ 1000 0, []⟩ shrunkRun ∧
      ∃ s ∈ run Ledger.step ⟨newQueue ∅ 1000 0, []⟩ shrunkRun, ∃ pl ∈ s.placed,
        s.Next pl ∧ (pl.record.length : ℤ) ≤ s.queue.maxSegmentSize.toInt ∧
          pl.record.length ≤ 512 * 1024 := by decide +kernel
  have hall' : Meets Ledger.step (fun s op => s.queue.Clean op) ⟨newQueue ∅ 1000 0, []⟩
        (shrunkRun ++ [.setMaxSegmentSize 5]) ∧
      ∃ s ∈ run Ledger.step ⟨newQueue ∅ 1000 0, []⟩ (shrunkRun ++ [.setMaxSegmentSize 5]),
        ∃ pl ∈ s.placed, s.Next pl ∧ ¬ (pl.record.length : ℤ) ≤ s.queue.maxSegmentSize.toInt := by
    decide +kernel
  obtain ⟨hok, s, hs, pl, hpl, hnext, hfits⟩ := hall
  obtain ⟨hok', s', hs', pl', hpl', hnext', hlong⟩ := hall'
  refine ⟨⟨s, pl, hpl, hs, hnext, (accepted_readable_iff hok hs hpl hnext).mpr hfits⟩,
    s', pl', hpl', hnext', fun hreturns => ?_, hs'⟩
  exact hlong ((accepted_readable_iff hok' hs' hpl' hnext').mp hreturns).1

/-- The first record of an open queue with one empty segment is next. -/
theorem Rep.first_record_next {t : ℕ} {b : Bytes} (h : Rep q (fun _ => []) (fun _ => []))
    (hs : q.segments = [t]) (ht : q.tail = some t)
    (hroom : q.diskUsage + b.length ≤ q.maxSize.toInt)
    (hfit : (q.heap t).size + b.length ≤ q.maxSegmentSize.toInt) :
    Ledger.step ⟨q, []⟩ (.append {} b) = some ⟨(q.append {} b).2, [⟨t, 0, b⟩]⟩ ∧
      Ledger.Next ⟨(q.append {} b).2, [⟨t, 0, b⟩]⟩ ⟨t, 0, b⟩ := by
  have hm : t ∈ q.segments := by rw [hs]; exact List.mem_cons_self
  obtain ⟨hnone, -, hrep⟩ := h.append_fits ht hm hroom hfit
  have hframe := segmentAppend_frame q {} t b
  have heq := h.append_eq_segmentAppend ht hm hroom hfit
  generalize hq' : (q.append {} b).2 = q' at hrep
  obtain rfl : (q.segmentAppend {} t b).2 = q' := by rw [← hq', heq]
  have hs' : (q.segmentAppend {} t b).2.segments = [t] := hframe.segments.trans hs
  have hseg := hrep.seg t (by rw [hs']; exact List.mem_cons_self)
  rw [hframe.path, Function.update_self, List.nil_append] at hseg
  have hsize := hseg.size_eq
  have hpos := hseg.pos
  simp only [blocks_nil, blocks_cons, List.length_nil, List.append_nil, length_block] at hsize hpos
  have hoffset : ((q.segmentAppend {} t b).2.heap t).size - footerSize - (b.length + 8) = 0 := by
    unfold footerSize
    omega
  refine ⟨?_, ?_, hpos⟩
  · unfold Ledger.step Ledger.place
    rw [show q.step (.append {} b) = some (q.append {} b).2 from rfl, hq']
    simp [hnone, placement, hframe.tail, ht, hs', hoffset]
  · rw [hframe.head, h.head_eq, hs]
    rfl

/-- With the default limits, a record of 512 KiB and one byte is accepted, and `SendWrite`
    does not get past it. -/
theorem long_record_blocks :
    ∃ b s pl, b.length = 512 * 1024 + 1 ∧
      Meets Ledger.step (fun s op => s.queue.Clean op)
        ⟨newQueue ∅ (10 * 1024 * 1024 * 1024) 0, []⟩ [.openQueue, .append {} b] ∧
      run Ledger.step ⟨newQueue ∅ (10 * 1024 * 1024 * 1024) 0, []⟩ [.openQueue, .append {} b] =
        some s ∧
      pl ∈ s.placed ∧ pl.record = b ∧ s.Next pl ∧ ¬ s.Returns pl ∧
      s.queue.current.1 = .error (.recordTooBig b.length) ∧
      ∀ clientOk, (WriteReplayer.sendWrite ⟨true, s.queue⟩ clientOk).1 =
        .readError (.recordTooBig b.length) := by
  have hall : ∃ q ∈ (newQueue ∅ (10 * 1024 * 1024 * 1024) 0).openQueue.map Prod.snd,
      q.segments = [0] ∧ q.tail = some 0 ∧ q.diskUsage = 8 ∧ (q.heap 0).size = 8 ∧
        q.maxSize.toInt = 10737418240 ∧ q.maxSegmentSize.toInt = 10485760 := by decide
  obtain ⟨q, hq, hs, ht, husage, hsize, hmax, hlimit⟩ := hall
  obtain ⟨q₁, -, hopen, -, hrep⟩ :=
    openQueue_empty (q := newQueue ∅ (10 * 1024 * 1024 * 1024) 0) rfl
  obtain rfl : q₁ = q := by
    rw [hopen] at hq
    exact Option.some.inj hq
  obtain ⟨b, hb⟩ : ∃ b : Bytes, b.length = 512 * 1024 + 1 :=
    ⟨List.replicate _ 0, List.length_replicate⟩
  obtain ⟨happend, hnext⟩ := hrep.first_record_next (b := b) hs ht (by omega) (by omega)
  have hfirst : Ledger.step ⟨newQueue ∅ (10 * 1024 * 1024 * 1024) 0, []⟩ .openQueue =
      some ⟨q₁, []⟩ := by
    unfold Ledger.step
    rw [show (newQueue ∅ (10 * 1024 * 1024 * 1024) 0).step .openQueue = some q₁ from hq]
    rfl
  have hok : Meets Ledger.step (fun s op => s.queue.Clean op)
      ⟨newQueue ∅ (10 * 1024 * 1024 * 1024) 0, []⟩ [.openQueue, .append {} b] :=
    ⟨trivial, fun _ _ => ⟨rfl, fun _ _ => trivial⟩⟩
  have hrun : run Ledger.step ⟨newQueue ∅ (10 * 1024 * 1024 * 1024) 0, []⟩
      [.openQueue, .append {} b] = some ⟨(q₁.append {} b).2, [⟨0, 0, b⟩]⟩ :=
    (run_cons_eq_some _).mpr ⟨_, hfirst, (run_cons_eq_some _).mpr ⟨_, happend, rfl⟩⟩
  have hi := run_invariant Ledger.step (fun _ _ _ h hok hstep => Ledger.step_inv h hok hstep)
    (Ledger.init_inv (10 * 1024 * 1024 * 1024) 0) hok hrun
  have hcurrent := hi.current_next List.mem_cons_self hnext
  have hlong : readRecord (q₁.append {} b).2.maxSegmentSize b = .error (.recordTooBig b.length) := by
    unfold readRecord
    rw [(append_kept _ _ _).maxSegmentSize, if_neg (by omega), if_pos (by omega)]
  refine ⟨b, _, ⟨0, 0, b⟩, hb, hok, hrun, List.mem_cons_self, rfl, hnext, fun hreturns => ?_,
    hcurrent.trans hlong, sendWrite_of_error (hcurrent.trans hlong)⟩
  cases hreturns.1.symm.trans (hcurrent.trans hlong)

end Queue

end MetricStore.Handoff
