import MetricStore.Persistence.PointTranslator

/-!
# Writing points to the shards of the database

Model of `InfluxAdapter.WritePoints` (`pkg/persistence/influx_adapter.go`): the points
are translated, grouped by the UTC day they belong to, and written to the shard of each
day, which is created when the adapter does not know it yet.

The database is a parameter: a type of states, with the outcome of each call as a
function of the state (`InfluxStore`). The order in which the groups are written is the
order of a range over a Go map.

* `writePoints_crashes_iff`: `WritePoints` reaches the panic of `MustNewPoint` exactly
  when `ToInfluxPoints` does.
-/

namespace MetricStore.Persistence

open MetricStore.Common

/-- The calls of `InfluxStore` (lines 22–33) that a write makes: each gives a new state,
    and an error or nil. -/
structure InfluxStore (σ : Type) where
  createShard : ℕ → σ → σ × Option Bytes
  writeToShard : ℕ → List Influx.Point → σ → σ × Option Bytes

/-- `InfluxAdapter` (lines 35–41): the keys of the map of shards, and the database. -/
structure InfluxAdapter (σ : Type) where
  shards : List ℕ
  influx : σ

/-- 24 hours in nanoseconds. -/
def day : ℤ := 24 * 60 * 60 * 10 ^ 9

/-- `getShardStartForTimestamp` (lines 346–348). `Truncate` counts days from the zero
    time, a midnight, and `UnixNano` wraps around. -/
def getShardStartForTimestamp (ts : ℤ) : ℤ := int64 (uint64 (ts - ts % day))

variable {σ : Type}

namespace InfluxAdapter

/-- `findOrCreateShardForTimestamp` (lines 320–332). -/
def findOrCreateShardForTimestamp (db : InfluxStore σ) (t : InfluxAdapter σ) (ts : ℤ) :
    Except Panic (InfluxAdapter σ × ℕ) :=
  let shardId := uint64 (getShardStartForTimestamp ts)
  if shardId ∈ t.shards then .ok (t, shardId)
  else
    match db.createShard shardId t.influx with
    | (_, some err) => .error (.creatingShard err)
    | (influx, none) => .ok (⟨shardId :: t.shards, influx⟩, shardId)

/-- `pointBuckets[shardStart] = append(pointBuckets[shardStart], point)`. -/
def addToBucket (pointBuckets : GoMap ℤ (List Influx.Point)) (point : Influx.Point) :
    GoMap ℤ (List Influx.Point) :=
  let shardStart := getShardStartForTimestamp point.time
  pointBuckets.insert shardStart ((pointBuckets.lookup shardStart).getD [] ++ [point])

/-- The loop over the groups (lines 70–77): it stops at the first error of a write. -/
def writeBuckets (db : InfluxStore σ) (pointBuckets : GoMap ℤ (List Influx.Point)) :
    List ℤ → InfluxAdapter σ → Except Panic (InfluxAdapter σ × Option Bytes)
  | [], t => .ok (t, none)
  | bucketIndex :: rest, t =>
    match findOrCreateShardForTimestamp db t bucketIndex with
    | .error p => .error p
    | .ok (t, shardId) =>
      match db.writeToShard shardId ((pointBuckets.lookup bucketIndex).getD []) t.influx with
      | (influx, some err) => .ok (⟨t.shards, influx⟩, some err)
      | (influx, none) => writeBuckets db pointBuckets rest ⟨t.shards, influx⟩

/-- `WritePoints` (lines 62–80). -/
def writePoints (db : InfluxStore σ) (order : MapOrder ℤ) (t : InfluxAdapter σ)
    (points : List Rpc.Point) : Except Panic (InfluxAdapter σ × Option Bytes) :=
  match toInfluxPoints points with
  | .error p => .error p
  | .ok influxPoints =>
    let pointBuckets := influxPoints.foldl addToBucket ∅
    writeBuckets db pointBuckets (order.iterate pointBuckets.keys) t

/-! ## Panics -/

theorem findOrCreateShard_error {db : InfluxStore σ} {t : InfluxAdapter σ} {ts : ℤ} {p : Panic}
    (h : t.findOrCreateShardForTimestamp db ts = .error p) : ∃ err, p = .creatingShard err := by
  unfold findOrCreateShardForTimestamp at h
  dsimp only at h
  split at h
  · cases h
  · split at h
    · rename_i err _
      cases h
      exact ⟨err, rfl⟩
    · cases h

theorem writeBuckets_not_crashes (db : InfluxStore σ)
    (pointBuckets : GoMap ℤ (List Influx.Point)) (keys : List ℤ) (t : InfluxAdapter σ) :
    ¬ Crashes (writeBuckets db pointBuckets keys t) := by
  induction keys generalizing t with
  | nil => simp [writeBuckets, Crashes]
  | cons bucketIndex rest ih =>
    unfold writeBuckets
    cases hfound : t.findOrCreateShardForTimestamp db bucketIndex with
    | error p =>
      obtain ⟨err, rfl⟩ := findOrCreateShard_error hfound
      simp [Crashes]
    | ok r =>
      dsimp only
      split
      · simp [Crashes]
      · exact ih _

/-- **`WritePoints` reaches the panic of `MustNewPoint`** exactly when `ToInfluxPoints`
    does. -/
theorem writePoints_crashes_iff (db : InfluxStore σ) (order : MapOrder ℤ) (t : InfluxAdapter σ)
    (points : List Rpc.Point) :
    Crashes (t.writePoints db order points) ↔
      ¬ ∀ point ∈ points, isValidFloat point.value = true ∧ Storable point := by
  rw [← toInfluxPoints_crashes_iff]
  unfold writePoints
  cases toInfluxPoints points with
  | error p => simp [Crashes]
  | ok influxPoints =>
    refine iff_of_false (writeBuckets_not_crashes db _ _ t) ?_
    simp [Crashes]

end InfluxAdapter

end MetricStore.Persistence
