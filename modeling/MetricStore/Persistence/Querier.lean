import MetricStore.Persistence.FilterTranslator
import MetricStore.Persistence.Shards

/-!
# Range queries

Model of `Querier.Select` (`pkg/persistence/querier.go`, lines 30–68) up to its call of
`GetPoints`, which asks `forTimestampRange` for the shards to read. The times of a query are
milliseconds and those of the points nanoseconds; the end of the window is one nanosecond
before the end of the query.

Results:
* `select_window`: the window that `Select` asks for.
* `select_window_exact_iff`: exactly when its ends do not overflow, so that a wider window
  asks for more.
* `stored_points_found`: after every run of writes and deletions, each point that was not
  deleted lies in exactly one shard, the one of its day, and the query of any window around
  it reads that shard.
-/

namespace MetricStore.Persistence

open MetricStore.Common

/-- `MillisecondsToNanoseconds` (`transform/time.go`, lines 12–14). -/
def millisecondsToNanoseconds (ms : Int64) : Int64 := ms * 1000000 / 1

/-- `storage.SelectParams`. -/
structure SelectParams where
  start : Int64
  stop : Int64

/-- The arguments of `GetPoints`. -/
structure PointsQuery where
  name : Bytes
  start : Int64
  stop : Int64
  matchers : List Matcher

/-- The time lies in the window of the query, both ends included. -/
def PointsQuery.Covers (q : PointsQuery) (t : ℤ) : Prop := q.start.toInt ≤ t ∧ t ≤ q.stop.toInt

instance (q : PointsQuery) (t : ℤ) : Decidable (q.Covers t) :=
  inferInstanceAs (Decidable (_ ∧ _))

/-- The loop over the matchers (lines 47–57): the first one for the metric name is taken
    out. -/
def takeName : List Matcher → Except Bytes (Bytes × List Matcher)
  | [] => .ok ([], [])
  | m :: matchers =>
    if m.name = metricName then
      if m.type ≠ matchEqual then
        .error (lit "only strict equality is supported for metric names")
      else .ok (m.value, matchers)
    else
      match takeName matchers with
      | .error err => .error err
      | .ok (name, rest) => .ok (name, m :: rest)

/-- `Select` at the time `now`, up to the call of `GetPoints` (lines 30–62). -/
def select (now : Int64) (params : Option SelectParams) (labelMatchers : List Matcher) :
    Except Bytes PointsQuery :=
  let params := params.getD ⟨0, now / 1000000⟩
  if params.stop ≠ 0 ∧ params.stop < params.start then
    .error (lit "Start (" ++ formatInt params.start.toInt ++ lit ") must be before End (" ++
      formatInt params.stop.toInt ++ lit ")")
  else
    let stop := if params.stop = 0 then now / 1000000 else params.stop
    match takeName labelMatchers with
    | .error err => .error err
    | .ok (name, matchers) =>
      .ok ⟨name, millisecondsToNanoseconds params.start, millisecondsToNanoseconds stop - 1,
        matchers⟩

/-- An `int64` value. -/
def FitsInt64 (z : ℤ) : Prop := -2 ^ 63 ≤ z ∧ z < 2 ^ 63

instance (z : ℤ) : Decidable (FitsInt64 z) := inferInstanceAs (Decidable (_ ∧ _))

theorem toInt_millisecondsToNanoseconds {ms : Int64} (h : FitsInt64 (ms.toInt * 10 ^ 6)) :
    (millisecondsToNanoseconds ms).toInt = ms.toInt * 10 ^ 6 := by
  obtain ⟨h₀, h₁⟩ := h
  unfold millisecondsToNanoseconds
  rw [Int64.div_one, Int64.toInt_mul]
  exact Int.bmod_eq_of_le h₀ h₁

theorem toInt_millisecondsToNanoseconds_iff (ms : Int64) :
    (millisecondsToNanoseconds ms).toInt = ms.toInt * 10 ^ 6 ↔ FitsInt64 (ms.toInt * 10 ^ 6) := by
  refine ⟨fun h => ?_, toInt_millisecondsToNanoseconds⟩
  rw [← h]
  exact ⟨Int64.le_toInt _, Int64.toInt_lt _⟩

/-- Neither end of the `int64` range is a whole number of milliseconds. -/
theorem toInt_windowEnd_iff (ms : Int64) :
    (millisecondsToNanoseconds ms - 1).toInt = ms.toInt * 10 ^ 6 - 1 ↔
      FitsInt64 (ms.toInt * 10 ^ 6) := by
  constructor
  · intro h
    have h₀ := (millisecondsToNanoseconds ms - 1).le_toInt
    have h₁ := (millisecondsToNanoseconds ms - 1).toInt_lt
    rw [h] at h₀ h₁
    unfold FitsInt64
    omega
  · intro h
    have hone : (1 : Int64).toInt = 1 := rfl
    rw [Int64.toInt_sub, toInt_millisecondsToNanoseconds h, hone]
    unfold FitsInt64 at h
    exact Int.bmod_eq_of_le (by omega) (by omega)

/-- What `Select` passes to `GetPoints`. -/
theorem select_ok {now : Int64} {params : SelectParams} {labelMatchers : List Matcher}
    {q : PointsQuery} (hstop : params.stop ≠ 0)
    (h : select now (some params) labelMatchers = .ok q) :
    takeName labelMatchers = .ok (q.name, q.matchers) ∧ params.start ≤ params.stop ∧
      q.start = millisecondsToNanoseconds params.start ∧
      q.stop = millisecondsToNanoseconds params.stop - 1 := by
  unfold select at h
  dsimp only [Option.getD_some] at h
  split at h
  · cases h
  · next horder =>
    split at h
    · cases h
    · next name matchers htake =>
      cases h
      have hle : params.start ≤ params.stop := Int64.not_lt.mp fun hlt => horder ⟨hstop, hlt⟩
      exact ⟨htake, hle, rfl, rfl⟩

/-- **The window of a query.** -/
theorem select_window {now : Int64} {params : SelectParams} {labelMatchers : List Matcher}
    {q : PointsQuery} (hstop : params.stop ≠ 0) (hs : FitsInt64 (params.start.toInt * 10 ^ 6))
    (he : FitsInt64 (params.stop.toInt * 10 ^ 6))
    (h : select now (some params) labelMatchers = .ok q) :
    q.start.toInt = params.start.toInt * 10 ^ 6 ∧
      q.stop.toInt = params.stop.toInt * 10 ^ 6 - 1 := by
  obtain ⟨-, -, hqstart, hqstop⟩ := select_ok hstop h
  rw [hqstart, hqstop]
  exact ⟨toInt_millisecondsToNanoseconds hs, (toInt_windowEnd_iff _).mpr he⟩

/-! ## Wider windows -/

/-- The query asks for all that `q` asks for: the same series, at least the times of `q` and,
    of any adapter, at least the shards. -/
structure PointsQuery.Includes (q' q : PointsQuery) : Prop where
  name : q'.name = q.name
  matchers : q'.matchers = q.matchers
  covers : ∀ t, q.Covers t → q'.Covers t
  shards : ∀ (σ : Type) (a : InfluxAdapter σ),
    a.forTimestampRange q.start.toInt q.stop.toInt ⊆
      a.forTimestampRange q'.start.toInt q'.stop.toInt

theorem PointsQuery.includes_of_le {q' q : PointsQuery} (hname : q'.name = q.name)
    (hmatchers : q'.matchers = q.matchers) (hstart : q'.start.toInt ≤ q.start.toInt)
    (hstop : q.stop.toInt ≤ q'.stop.toInt) : q'.Includes q := by
  refine ⟨hname, hmatchers, fun t ht => ⟨hstart.trans ht.1, ht.2.trans hstop⟩, ?_⟩
  intro σ a id hid
  obtain ⟨hmem, hbefore, hafter⟩ := InfluxAdapter.mem_forTimestampRange.mp hid
  exact InfluxAdapter.mem_forTimestampRange.mpr
    ⟨hmem, hbefore.trans_le hstop, hstart.trans hafter⟩

/-- **The window without overflow.** The window that `Select` asks for is the one of its
    parameters, and asks for all that a narrower one asks for, exactly if both ends of it are
    `int64` values in nanoseconds. -/
theorem select_window_exact_iff {now : Int64} {params : SelectParams}
    {labelMatchers : List Matcher} {q : PointsQuery} (hstop : params.stop ≠ 0)
    (h : select now (some params) labelMatchers = .ok q) :
    ((q.start.toInt = params.start.toInt * 10 ^ 6 ∧
        q.stop.toInt = params.stop.toInt * 10 ^ 6 - 1) ∧
      ∀ (now' : Int64) (narrower : SelectParams) (q' : PointsQuery), narrower.stop ≠ 0 →
        params.start ≤ narrower.start → narrower.stop ≤ params.stop →
        select now' (some narrower) labelMatchers = .ok q' → q.Includes q') ↔
    FitsInt64 (params.start.toInt * 10 ^ 6) ∧ FitsInt64 (params.stop.toInt * 10 ^ 6) := by
  obtain ⟨htake, -, hqstart, hqstop⟩ := select_ok hstop h
  constructor
  · rintro ⟨⟨hs, he⟩, -⟩
    rw [hqstart, toInt_millisecondsToNanoseconds_iff] at hs
    rw [hqstop, toInt_windowEnd_iff] at he
    exact ⟨hs, he⟩
  · rintro ⟨hs, he⟩
    obtain ⟨hstart, hend⟩ := select_window hstop hs he h
    refine ⟨⟨hstart, hend⟩, fun now' narrower q' hstop' hle hge hselect => ?_⟩
    obtain ⟨htake', horder, -, -⟩ := select_ok hstop' hselect
    rw [htake] at htake'
    have hle := Int64.le_iff_toInt_le.mp hle
    have hge := Int64.le_iff_toInt_le.mp hge
    have horder := Int64.le_iff_toInt_le.mp horder
    -- the ends of the narrower window lie between those of the wider one
    have hs' : FitsInt64 (narrower.start.toInt * 10 ^ 6) := by
      unfold FitsInt64 at *
      omega
    have he' : FitsInt64 (narrower.stop.toInt * 10 ^ 6) := by
      unfold FitsInt64 at *
      omega
    obtain ⟨hstart', hend'⟩ := select_window hstop' hs' he' hselect
    obtain ⟨hname, hmatchers⟩ := Prod.mk.inj (Except.ok.inj htake')
    exact PointsQuery.includes_of_le hname hmatchers (by omega) (by omega)

/-- The window from one to two milliseconds. -/
theorem select_window_exact_iff_oneMillisecond :
    (2 : Int64) ≠ 0 ∧ select 0 (some ⟨1, 2⟩) [] = .ok ⟨[], 1000000, 1999999, []⟩ ∧
      (1000000 : Int64).toInt = (1 : Int64).toInt * 10 ^ 6 := by
  have hselect : select 0 (some ⟨1, 2⟩) [] = .ok ⟨[], 1000000, 1999999, []⟩ := rfl
  have hstop : (2 : Int64) ≠ 0 := by decide
  have hexact := (select_window_exact_iff hstop hselect).mpr (by decide)
  exact ⟨hstop, hselect, hexact.1.1⟩

/-- A range query that ends after the year 2262 asks for an empty window, and does not ask
    for the points of a narrower one. -/
theorem select_window_overflows :
    ∃ q q', select 0 (some ⟨-300000, 9300000000000⟩) [] = .ok q ∧
      select 0 (some ⟨-300000, 1600000000000⟩) [] = .ok q' ∧
      q.stop.toInt = -9146744073709551617 ∧ q'.Covers 0 ∧ ¬ q.Covers 0 :=
  ⟨_, _, rfl, rfl, by decide, by decide, by decide⟩

/-! ## The shard of a day -/

/-- A point in a shard's day is in the shard with the id of that day. -/
theorem eq_shardOf {id : ℕ} (hid : IsShardId id) {ts : ℤ} (hfits : DayFits ts)
    (h₀ : int64 id ≤ ts) (h₁ : ts < int64 id + day) : id = shardOf ts := by
  obtain ⟨hlt, haligned⟩ := hid
  obtain ⟨hf₀, hf₁⟩ := hfits
  have hstart : int64 (shardOf ts) = ts - ts % day := by
    refine int64_shardOf hf₀ ?_
    unfold day at *
    omega
  refine int64_injective hlt (uint64_lt _) ?_
  rw [hstart]
  unfold day at *
  omega

/-- The day of a point in a window overlaps the window: it starts strictly before the last
    nanosecond of a window that ends on a whole millisecond. -/
theorem day_overlaps {ts start stop : ℤ} (hfits : DayFits ts) (h₀ : start ≤ ts)
    (h₁ : ts < stop * 10 ^ 6) :
    ts - ts % day < stop * 10 ^ 6 - 1 ∧ start ≤ getShardEndForTimestamp (ts - ts % day) := by
  obtain ⟨hf₀, hf₁⟩ := hfits
  have haligned : (ts - ts % day) % day = 0 := by
    unfold day
    omega
  have hend : getShardEndForTimestamp (ts - ts % day) = ts - ts % day + day := by
    unfold getShardEndForTimestamp
    rw [haligned, sub_zero, int64_uint64 (by unfold day at *; omega) hf₁]
  rw [hend]
  unfold day at *
  omega

/-! ## Stored points are found -/

/-- **Stored points are found by range queries.** After every run of writes and deletions,
    an undeleted point whose day fits lies in exactly one shard, the one of its day, and
    every query that covers its time reads that shard. -/
theorem stored_points_found {σ : Type} (db : ShardStore σ) {s : σ}
    (hempty : ∀ id, db.contents s id = none) {ops : List InfluxAdapter.Op}
    {h : InfluxAdapter.History σ}
    (hrun : run (InfluxAdapter.step db) (InfluxAdapter.newHistory s) ops = some h)
    {p : Influx.Point} (hp : p ∈ h.undeleted) (hfits : DayFits p.time) :
    (∃! id, db.Stored h.adapter.influx id p) ∧
    (∀ id, db.Stored h.adapter.influx id p ↔
      id ∈ h.adapter.shards ∧ int64 id ≤ p.time ∧ p.time < int64 id + day) ∧
    ∀ (now : Int64) (params : SelectParams) (labelMatchers : List Matcher) (q : PointsQuery),
      params.start ≤ params.stop → params.stop ≠ 0 →
      FitsInt64 (params.start.toInt * 10 ^ 6) → FitsInt64 (params.stop.toInt * 10 ^ 6) →
      select now (some params) labelMatchers = .ok q →
      params.start.toInt * 10 ^ 6 ≤ p.time → p.time < params.stop.toInt * 10 ^ 6 →
      ∃ id ∈ h.adapter.forTimestampRange q.start.toInt q.stop.toInt,
        db.Stored h.adapter.influx id p := by
  have hinv := InfluxAdapter.run_inv hempty hrun
  have hstored := hinv.kept p hp
  have hshard : shardOf p.time ∈ h.adapter.shards := (hinv.same _).2 hstored.holds
  have hstart : int64 (shardOf p.time) = p.time - p.time % day := by
    refine int64_shardOf hfits.1 ?_
    have := hfits.2
    unfold day at *
    omega
  refine ⟨⟨shardOf p.time, hstored, fun id hid => hinv.placed id p hid⟩, fun id => ?_, ?_⟩
  · constructor
    · intro hid
      rw [hinv.placed id p hid, hstart]
      refine ⟨hshard, ?_⟩
      unfold day
      omega
    · rintro ⟨hmem, h₀, h₁⟩
      rw [eq_shardOf (hinv.ids id hmem) hfits h₀ h₁]
      exact hstored
  · intro now params labelMatchers q _ hstop hs he hselect h₀ h₁
    obtain ⟨hqstart, hqstop⟩ := select_window hstop hs he hselect
    refine ⟨shardOf p.time, InfluxAdapter.mem_forTimestampRange.2 ⟨hshard, ?_⟩, hstored⟩
    rw [hstart, hqstart, hqstop]
    exact day_overlaps hfits h₀ h₁

/-- Two points of 1 January 1970 and of the day before, and the deletion of a shard that is
    not there. -/
def newYear : List InfluxAdapter.Op :=
  [.write ⟨fun keys => keys, fun _ => .refl _⟩
    [⟨lit "up", 1500000, 0, ∅⟩, ⟨lit "up", -1, 0, ∅⟩], .delete 7]

theorem stored_points_found_newYear :
    ∃ h, run (InfluxAdapter.step memoryStore) (InfluxAdapter.newHistory ∅) newYear = some h ∧
      ∃ p ∈ h.undeleted, p.time = 1500000 ∧
        ∃ id ∈ h.adapter.forTimestampRange 1000000 1999999,
          memoryStore.Stored h.adapter.influx id p := by
  have hall : ∃ h ∈ run (InfluxAdapter.step memoryStore) (InfluxAdapter.newHistory ∅) newYear,
      ∃ p ∈ h.undeleted, p.time = 1500000 := by decide
  obtain ⟨h, hrun, p, hp, htime⟩ := hall
  have hfits : DayFits p.time := by
    rw [htime]
    unfold DayFits day
    omega
  have hfound := (stored_points_found memoryStore (fun _ => rfl) hrun hp hfits).2.2 0 ⟨1, 2⟩ []
    ⟨[], 1000000, 1999999, []⟩ (by decide) (by decide) (by decide) (by decide) rfl
  exact ⟨h, hrun, p, hp, htime, hfound (by rw [htime]; decide) (by rw [htime]; decide)⟩

end MetricStore.Persistence
