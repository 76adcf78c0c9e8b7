import MetricStore.Handoff.WriteReplayer

/-!
# The loop of the write replayer

`WriteReplayer.run` (`internal/handoff/write_replayer.go`, lines 183–217) waits in a
`select` for one of two timers. Both are made in the same iteration, one of `PurgeInterval`
and one of the current retry interval. When the first fires, the queue is purged of old
records; when the second fires, a record is sent, and the retry interval is reset or
doubled.

Durations are `time.Duration`, that is 64-bit nanoseconds, and doubling wraps around. The
clock is an integer, and calls take no time. If both timers fire at once, `select` chooses;
the choice is an input of the iteration.

Two levels:
* `Timers` has the clock, the retry interval and the time of the last purge. The outcome of
  `SendWrite` is an input.
* `Replay` has the replayer itself, with its queue. `Replay.turn_timers` says that its
  iterations are iterations of the timers.

Results:
* `purge_timely_iff`: the purge is never more than `PurgeInterval + RetryMaxInterval` late
  exactly when `PurgeInterval` is less than `RetryInterval`.
* `purge_starved`: if `PurgeInterval` is greater than `RetryMaxInterval`, no run purges.
* `default_purge_late`: with the default intervals, an hour and ten seconds after the start
  nothing has been purged.
-/

namespace MetricStore.Handoff

open MetricStore.Common

namespace WriteReplayer

/-! ## Model -/

/-- The intervals of a `WriteReplayer` (lines 50–54), in nanoseconds. -/
structure Intervals where
  purgeInterval : Int64
  retryInterval : Int64
  retryMaxInterval : Int64
  maxAge : Int64
  deriving DecidableEq, Repr

/-- The defaults (lines 24–45): an hour, 10 ms, 10 s and a week. -/
def defaultIntervals : Intervals where
  purgeInterval := 3600 * 1000000000
  retryInterval := 10 * 1000000
  retryMaxInterval := 10 * 1000000000
  maxAge := 7 * 24 * 3600 * 1000000000

/-- `time.After`: the time until a timer of duration `d` fires. -/
def after (d : Int64) : ℤ := max d.toInt 0

/-- The branches of the `select`, apart from `done`. -/
inductive Branch
  | purge
  | retry
  deriving DecidableEq, Repr

/-- The variables of `run`, and the clock. -/
structure Timers where
  clock : ℤ
  currInterval : Int64
  /-- When `PurgeOlderThan` was last called, or the loop was started. -/
  lastPurge : ℤ
  deriving DecidableEq, Repr

/-- The inputs of an iteration: the branch taken if both timers fire at once, and whether
    `SendWrite` returns no error. -/
structure Outcome where
  tie : Branch
  sent : Bool
  deriving DecidableEq, Repr

variable (c : Intervals)

/-- The time a `select` waits. -/
def selectWait (currInterval : Int64) : ℤ := min (after c.purgeInterval) (after currInterval)

/-- The branch a `select` takes. -/
def selectBranch (currInterval : Int64) (tie : Branch) : Branch :=
  if after c.purgeInterval < after currInterval then .purge
  else if after currInterval < after c.purgeInterval then .retry
  else tie

/-- `currInterval` before the loop (lines 186–189). -/
def firstInterval : Int64 :=
  if c.retryInterval > c.retryMaxInterval then c.retryMaxInterval else c.retryInterval

/-- `currInterval` after a call of `SendWrite` (lines 203–212). -/
def nextInterval (currInterval : Int64) (sent : Bool) : Int64 :=
  if sent then c.retryInterval
  else if currInterval * 2 > c.retryMaxInterval then c.retryMaxInterval
  else currInterval * 2

namespace Timers

/-- The loop is entered. -/
def start (clock : ℤ) : Timers := ⟨clock, firstInterval c, clock⟩

/-- One iteration. -/
def turn (t : Timers) (o : Outcome) : Timers :=
  let clock := t.clock + selectWait c t.currInterval
  match selectBranch c t.currInterval o.tie with
  | .purge => { t with clock := clock, lastPurge := clock }
  | .retry => { t with clock := clock, currInterval := nextInterval c t.currInterval o.sent }

/-- The iterations of a run. -/
def turns (t : Timers) (os : List Outcome) : Timers := os.foldl (turn c) t

/-- The time since the last purge. -/
def elapsed (t : Timers) : ℤ := t.clock - t.lastPurge

end Timers

/-- At every iteration of every run, when it begins and when its `select` returns, the time
    since the last purge is within the bound. -/
def PurgeTimely : Prop :=
  ∀ (clock : ℤ) (os : List Outcome), let t := (Timers.start c clock).turns c os
    t.elapsed ≤ c.purgeInterval.toInt + c.retryMaxInterval.toInt ∧
      t.elapsed + selectWait c t.currInterval ≤
        c.purgeInterval.toInt + c.retryMaxInterval.toInt

/-- The replayer in its loop. The clock is that of its queue. -/
structure Replay where
  replayer : WriteReplayer
  currInterval : Int64
  lastPurge : ℤ

namespace Replay

def timers (s : Replay) : Timers := ⟨s.replayer.queue.clock, s.currInterval, s.lastPurge⟩

/-- `Open` starts the loop (line 146). -/
def start (w : WriteReplayer) : Replay := ⟨w, firstInterval c, w.queue.clock⟩

/-- What happens in the replayer: an iteration of the loop, or a call of `Write`. -/
inductive Event (Point : Type*)
  | turn (tie : Branch) (clientOk : Bool) (fuel : ℕ)
  | write (points : List Point)

/-- The replayer when the `select` has returned. -/
def waited (s : Replay) : WriteReplayer :=
  { s.replayer with
    queue := { s.replayer.queue with
      clock := s.replayer.queue.clock + selectWait c s.currInterval } }

/-- An iteration; `none` if a call does not return. `fuel` bounds the loop of
    `PurgeOlderThan`. -/
def turn (s : Replay) (tie : Branch) (clientOk : Bool) (fuel : ℕ) : Option Replay :=
  let w := s.waited c
  match selectBranch c s.currInterval tie with
  | .purge =>
    (w.queue.purgeOlderThan fuel (w.queue.clock - c.maxAge.toInt)).map fun r =>
      { s with replayer := { w with queue := r.2 }, lastPurge := w.queue.clock }
  | .retry =>
    match w.sendWrite clientOk with
    | (.panicked, _) => none
    | (.sent _, w) =>
      some { s with replayer := w, currInterval := nextInterval c s.currInterval true }
    | (_, w) => some { s with replayer := w, currInterval := nextInterval c s.currInterval false }

variable {Point : Type*} (encode : List Point → Option Bytes)

def step (s : Replay) : Event Point → Option Replay
  | .turn tie clientOk fuel => s.turn c tie clientOk fuel
  | .write points => some { s with replayer := (s.replayer.write encode {} points).2 }

end Replay

/-! ## The timers -/

variable {c}

theorem after_of_pos {d : Int64} (h : 0 < d.toInt) : after d = d.toInt := max_eq_left h.le

/-- A configuration as the comments on the fields have it. -/
structure Intervals.Valid (c : Intervals) : Prop where
  purge : 0 < c.purgeInterval.toInt
  retry : 0 < c.retryInterval.toInt
  retry_le : c.retryInterval.toInt ≤ c.retryMaxInterval.toInt

instance (c : Intervals) : Decidable c.Valid :=
  decidable_of_iff (0 < c.purgeInterval.toInt ∧ 0 < c.retryInterval.toInt ∧
      c.retryInterval.toInt ≤ c.retryMaxInterval.toInt)
    ⟨fun h => ⟨h.1, h.2.1, h.2.2⟩, fun h => ⟨h.purge, h.retry, h.retry_le⟩⟩

theorem Intervals.Valid.firstInterval (h : c.Valid) : firstInterval c = c.retryInterval := by
  unfold WriteReplayer.firstInterval
  rw [if_neg]
  rw [gt_iff_lt, Int64.lt_iff_toInt_lt]
  exact not_lt.mpr h.retry_le

theorem nextInterval_le (h : c.Valid) (d : Int64) (sent : Bool) :
    (nextInterval c d sent).toInt ≤ c.retryMaxInterval.toInt := by
  unfold nextInterval
  split_ifs with hsent hmax
  · exact h.retry_le
  · exact le_rfl
  · rw [gt_iff_lt, Int64.lt_iff_toInt_lt] at hmax
    exact not_lt.mp hmax

namespace Timers

theorem start_eq (h : c.Valid) (clock : ℤ) : start c clock = ⟨clock, c.retryInterval, clock⟩ := by
  unfold start
  rw [h.firstInterval]

/-- The purge timer fires first. -/
theorem turn_purge {t : Timers} (hlt : after c.purgeInterval < after t.currInterval)
    (o : Outcome) : t.turn c o =
      ⟨t.clock + after c.purgeInterval, t.currInterval, t.clock + after c.purgeInterval⟩ := by
  unfold turn selectBranch selectWait
  rw [if_pos hlt, min_eq_left hlt.le]

/-- The retry timer fires first. -/
theorem turn_retry {t : Timers} (hlt : after t.currInterval < after c.purgeInterval)
    (o : Outcome) : t.turn c o =
      ⟨t.clock + after t.currInterval, nextInterval c t.currInterval o.sent, t.lastPurge⟩ := by
  unfold turn selectBranch selectWait
  rw [if_neg hlt.not_gt, if_pos hlt, min_eq_right hlt.le]

/-- A retry that goes through, when the retry timer is not the later one. -/
theorem turn_sent {t : Timers} (hle : after t.currInterval ≤ after c.purgeInterval) :
    t.turn c ⟨.retry, true⟩ =
      ⟨t.clock + after t.currInterval, c.retryInterval, t.lastPurge⟩ := by
  unfold turn selectBranch selectWait nextInterval
  rw [if_neg hle.not_gt, ite_self, min_eq_right hle, if_pos rfl]

/-- What an iteration preserves holds in every run. -/
theorem turns_invariant {I : Timers → Prop} (hturn : ∀ t o, I t → I (t.turn c o)) {t : Timers}
    (h : I t) (os : List Outcome) : I (t.turns c os) := by
  induction os generalizing t with
  | nil => exact h
  | cons o os ih => exact ih (hturn t o h)

/-- If the purge interval is the shorter one, every iteration purges. -/
theorem turns_purge (h : c.Valid) (hlt : c.purgeInterval.toInt < c.retryInterval.toInt)
    (clock : ℤ) (os : List Outcome) :
    ((start c clock).turns c os).currInterval = c.retryInterval ∧
      ((start c clock).turns c os).elapsed = 0 := by
  have hstart : (start c clock).currInterval = c.retryInterval ∧ (start c clock).elapsed = 0 :=
    ⟨h.firstInterval, sub_self clock⟩
  refine turns_invariant (I := fun t => t.currInterval = c.retryInterval ∧ t.elapsed = 0)
    (fun t o ht => ?_) hstart os
  have hfirst : after c.purgeInterval < after t.currInterval := by
    rw [ht.1, after_of_pos h.purge, after_of_pos h.retry]
    exact hlt
  rw [turn_purge hfirst]
  exact ⟨ht.1, sub_self _⟩

/-- If it is not, every retry that goes through puts the purge off. -/
theorem turns_sent (h : c.Valid) (hle : c.retryInterval.toInt ≤ c.purgeInterval.toInt)
    (clock : ℤ) (n : ℕ) : (start c clock).turns c (List.replicate n ⟨.retry, true⟩) =
      ⟨clock + n * c.retryInterval.toInt, c.retryInterval, clock⟩ := by
  have hfrom : ∀ start : ℤ, turns c ⟨start, c.retryInterval, clock⟩
      (List.replicate n ⟨.retry, true⟩) =
        ⟨start + n * c.retryInterval.toInt, c.retryInterval, clock⟩ := by
    induction n with
    | zero => intro start; simp [turns]
    | succ n ih =>
      intro start
      have hturn : turn c ⟨start, c.retryInterval, clock⟩ ⟨.retry, true⟩ =
          ⟨start + c.retryInterval.toInt, c.retryInterval, clock⟩ := by
        rw [turn_sent (by rw [after_of_pos h.purge, after_of_pos h.retry]; exact hle),
          after_of_pos h.retry]
      rw [List.replicate_succ]
      unfold turns at ih ⊢
      rw [List.foldl_cons, hturn, ih]
      congr 1
      push_cast
      ring
  rw [start_eq h]
  exact hfrom clock

/-- If the purge interval is above the largest retry interval, nothing is ever purged. -/
theorem turns_starved (h : c.Valid) (hlt : c.retryMaxInterval.toInt < c.purgeInterval.toInt)
    (clock : ℤ) (os : List Outcome) : ((start c clock).turns c os).lastPurge = clock := by
  have hstart : (start c clock).currInterval.toInt ≤ c.retryMaxInterval.toInt ∧
      (start c clock).lastPurge = clock := by
    rw [start_eq h]
    exact ⟨h.retry_le, rfl⟩
  refine (turns_invariant (I := fun t =>
    t.currInterval.toInt ≤ c.retryMaxInterval.toInt ∧ t.lastPurge = clock) (fun t o ht => ?_)
    hstart os).2
  have hfirst : after t.currInterval < after c.purgeInterval := by
    rw [after_of_pos h.purge]
    exact max_lt (ht.1.trans_lt hlt) h.purge
  rw [turn_retry hfirst]
  exact ⟨nextInterval_le h _ _, ht.2⟩

end Timers

/-- **When the purge is not starved.** In every run, the time since the last purge stays
    within `PurgeInterval + RetryMaxInterval`, exactly when `PurgeInterval` is less than
    `RetryInterval`. -/
theorem purge_timely_iff (h : c.Valid) :
    PurgeTimely c ↔ c.purgeInterval.toInt < c.retryInterval.toInt := by
  constructor
  · intro htimely
    by_contra hle
    -- so many retries that go through are enough
    let n := (c.purgeInterval.toInt + c.retryMaxInterval.toInt + 1).toNat
    have hn : (n : ℤ) = c.purgeInterval.toInt + c.retryMaxInterval.toInt + 1 :=
      Int.toNat_of_nonneg (by have := h.purge; have := h.retry; have := h.retry_le; omega)
    have hbound := (htimely 0 (List.replicate n ⟨.retry, true⟩)).1
    rw [Timers.turns_sent h (not_lt.mp hle)] at hbound
    unfold Timers.elapsed at hbound
    have hone : (n : ℤ) * 1 ≤ n * c.retryInterval.toInt :=
      mul_le_mul_of_nonneg_left h.retry (Int.natCast_nonneg n)
    dsimp only at hbound
    omega
  · intro hlt clock os
    obtain ⟨hcurr, helapsed⟩ := Timers.turns_purge h hlt clock os
    have hwait : selectWait c c.retryInterval = c.purgeInterval.toInt := by
      unfold selectWait
      rw [after_of_pos h.purge, after_of_pos h.retry, min_eq_left hlt.le]
    dsimp only
    rw [hcurr, helapsed, hwait]
    have := h.purge
    have := h.retry
    have := h.retry_le
    omega

/-- A purge every second and retries every two to ten seconds. -/
def eagerIntervals : Intervals :=
  { defaultIntervals with purgeInterval := 1000000000, retryInterval := 2000000000 }

theorem purge_timely_iff_eagerIntervals :
    eagerIntervals.Valid ∧ PurgeTimely eagerIntervals :=
  ⟨by decide, (purge_timely_iff (by decide)).mpr (by decide)⟩

theorem defaultIntervals_valid : defaultIntervals.Valid := by decide

/-- With the default intervals, 361001 retries that go through take more than an hour and
    ten seconds. Whatever the retries do, nothing is ever purged. -/
theorem default_purge_late :
    defaultIntervals.Valid ∧
      ((Timers.start defaultIntervals 0).turns defaultIntervals
        (List.replicate 361001 ⟨.retry, true⟩)).elapsed >
          defaultIntervals.purgeInterval.toInt + defaultIntervals.retryMaxInterval.toInt ∧
      ¬ PurgeTimely defaultIntervals ∧
      ∀ clock os, ((Timers.start defaultIntervals clock).turns defaultIntervals os).lastPurge =
        clock := by
  have hlate : ((Timers.start defaultIntervals 0).turns defaultIntervals
      (List.replicate 361001 ⟨.retry, true⟩)).elapsed >
        defaultIntervals.purgeInterval.toInt + defaultIntervals.retryMaxInterval.toInt := by
    rw [Timers.turns_sent defaultIntervals_valid (by decide)]
    decide
  refine ⟨defaultIntervals_valid, hlate, fun htimely => ?_,
    Timers.turns_starved defaultIntervals_valid (by decide)⟩
  exact absurd (htimely 0 _).1 (not_le.mpr hlate)

/-! ## The replayer -/

namespace Replay

theorem sendWrite_clock (w : WriteReplayer) (clientOk : Bool) :
    (w.sendWrite clientOk).2.queue.clock = w.queue.clock := by
  have hcurrent := w.queue.current_kept.clock
  unfold sendWrite
  generalize w.queue.current = r at hcurrent
  obtain ⟨res, q⟩ := r
  cases res with
  | panicked => exact hcurrent
  | error e => exact hcurrent
  | record payload =>
    dsimp only
    split_ifs
    · exact hcurrent
    · exact q.advance_kept.clock.trans hcurrent

/-- An iteration of the replayer is an iteration of its timers. -/
theorem turn_timers {s s' : Replay} {tie : Branch} {clientOk : Bool} {fuel : ℕ}
    (h : s.turn c tie clientOk fuel = some s') : ∃ sent, s'.timers = s.timers.turn c ⟨tie, sent⟩ := by
  have hclock := sendWrite_clock (s.waited c) clientOk
  unfold turn at h
  dsimp only at h
  cases hbranch : selectBranch c s.currInterval tie with
  | purge =>
    rw [hbranch] at h
    obtain ⟨⟨e, q⟩, hpurge, rfl⟩ := Option.map_eq_some_iff.mp h
    have hkept : (s.waited c).queue.Kept q := by
      unfold Queue.purgeOlderThan Queue.purgeOlderThanWith at hpurge
      split_ifs at hpurge
      · cases hpurge; exact .refl _
      · exact Queue.purgeLoop_kept hpurge
    refine ⟨true, ?_⟩
    unfold timers Timers.turn
    dsimp only
    rw [hbranch, hkept.clock]
    rfl
  | retry =>
    rw [hbranch] at h
    dsimp only at h
    have hafter : ∀ sent, s.timers.turn c ⟨tie, sent⟩ =
        ⟨(s.waited c).queue.clock, nextInterval c s.currInterval sent, s.lastPurge⟩ := by
      intro sent
      unfold Timers.turn timers
      dsimp only
      rw [hbranch]
      rfl
    generalize (s.waited c).sendWrite clientOk = r at h hclock
    obtain ⟨res, w⟩ := r
    cases res with
    | panicked => cases h
    | sent payload => cases h; exact ⟨true, by rw [hafter, ← hclock]; rfl⟩
    | readError e => cases h; exact ⟨false, by rw [hafter, ← hclock]; rfl⟩
    | clientError payload => cases h; exact ⟨false, by rw [hafter, ← hclock]; rfl⟩

variable {Point : Type*} {encode : List Point → Option Bytes}

theorem write_clock (w : WriteReplayer) (points : List Point) :
    (w.write encode {} points).2.queue.clock = w.queue.clock := by
  unfold write
  split_ifs
  · rfl
  · cases encode points with
    | none => rfl
    | some payload => exact (w.queue.append_kept {} payload).clock

/-- A run of the replayer is a run of its timers. -/
theorem run_timers {events : List (Event Point)} {s s' : Replay}
    (hrun : run (step c encode) s events = some s') : ∃ os, s'.timers = s.timers.turns c os := by
  induction events generalizing s with
  | nil => cases hrun; exact ⟨[], rfl⟩
  | cons event events ih =>
    obtain ⟨s₁, hs₁, hrest⟩ := (run_cons_eq_some _).mp hrun
    obtain ⟨os, hos⟩ := ih hrest
    cases event with
    | turn tie clientOk fuel =>
      obtain ⟨sent, hsent⟩ := turn_timers hs₁
      exact ⟨⟨tie, sent⟩ :: os, by rw [hos, hsent]; rfl⟩
    | write points =>
      cases hs₁
      refine ⟨os, hos.trans (congrArg (fun t => Timers.turns c t os) ?_)⟩
      unfold timers
      dsimp only
      rw [write_clock]

/-- **Starvation.** If `PurgeInterval` is greater than `RetryMaxInterval`, as it is by
    default, `PurgeOlderThan` is not called in any run of the replayer. -/
theorem purge_starved (h : c.Valid) (hlt : c.retryMaxInterval.toInt < c.purgeInterval.toInt)
    {w : WriteReplayer} {events : List (Event Point)} {s : Replay}
    (hrun : run (step c encode) (start c w) events = some s) : s.lastPurge = w.queue.clock := by
  obtain ⟨os, hos⟩ := run_timers hrun
  have hlast : s.timers.lastPurge = w.queue.clock := by
    rw [hos]
    exact Timers.turns_starved h hlt w.queue.clock os
  exact hlast

end Replay

end WriteReplayer

end MetricStore.Handoff
