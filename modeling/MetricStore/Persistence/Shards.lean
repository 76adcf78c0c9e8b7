import MetricStore.Common.Run
import MetricStore.Persistence.InfluxAdapter

/-!
# The shards of the database

Model of the functions of `InfluxAdapter` (`pkg/persistence/influx_adapter.go`) that list,
choose and delete shards, and of whole runs of writes and deletions.

A shard holds the points of one UTC day and its id is `uint64` of the start of the day.
What the adapter relies on in the database is stated in `ShardStore`: `contents s id` are
the points written to the shard since it was created, `none` if there is no such shard.

Results:
* `writePoints_written`: what a write that returns nil adds to the shards.
* `Deleted`: what a deletion removes, whether it returns an error or not.
* `run_inv`: after every run the adapter and the database know the same shards, and every
  point lies in the shard of its day.
-/

namespace MetricStore.Persistence

open MetricStore.Common

/-! ## Days and ids -/

theorem int64_uint64 {z : ℤ} (h₀ : -2 ^ 63 ≤ z) (h₁ : z < 2 ^ 63) : int64 (uint64 z) = z := by
  unfold int64 uint64
  split <;> omega

theorem uint64_int64 {id : ℕ} (h : id < 2 ^ 64) : uint64 (int64 id) = id := by
  unfold int64 uint64
  split <;> omega

theorem int64_injective {id id' : ℕ} (h : id < 2 ^ 64) (h' : id' < 2 ^ 64)
    (heq : int64 id = int64 id') : id = id' := by
  rw [← uint64_int64 h, heq, uint64_int64 h']

theorem uint64_lt (z : ℤ) : uint64 z < 2 ^ 64 := by
  unfold uint64
  omega

theorem int64_bounds {id : ℕ} (h : id < 2 ^ 64) : -2 ^ 63 ≤ int64 id ∧ int64 id < 2 ^ 63 := by
  unfold int64
  split <;> omega

/-- `getShardEndForTimestamp` (lines 350–352). -/
def getShardEndForTimestamp (ts : ℤ) : ℤ := int64 (uint64 (ts - ts % day + day))

/-- The id of the shard that `WritePoints` puts a point in. The start of the day is
    computed twice, for the group and for the id of the group. -/
def shardOf (ts : ℤ) : ℕ := uint64 (getShardStartForTimestamp (getShardStartForTimestamp ts))

/-- The id of a shard: `uint64` of the start of a day. -/
def IsShardId (id : ℕ) : Prop := id < 2 ^ 64 ∧ int64 id % day = 0

/-- A day whose start and end are `int64` values. -/
def DayFits (ts : ℤ) : Prop := -2 ^ 63 ≤ ts - ts % day ∧ ts - ts % day + day < 2 ^ 63

theorem getShardStart_of_fits {ts : ℤ} (h₀ : -2 ^ 63 ≤ ts - ts % day)
    (h₁ : ts - ts % day < 2 ^ 63) : getShardStartForTimestamp ts = ts - ts % day :=
  int64_uint64 h₀ h₁

theorem getShardStart_of_aligned {z : ℤ} (hz : z % day = 0) (h₀ : -2 ^ 63 ≤ z) (h₁ : z < 2 ^ 63) :
    getShardStartForTimestamp z = z := by
  rw [getShardStart_of_fits (by omega) (by omega)]
  omega

/-- **Where a point goes**: to the shard of its day. -/
theorem int64_shardOf {ts : ℤ} (h₀ : -2 ^ 63 ≤ ts - ts % day) (h₁ : ts < 2 ^ 63) :
    int64 (shardOf ts) = ts - ts % day := by
  have hmod := Int.emod_nonneg ts (show day ≠ 0 by decide)
  have hstart := getShardStart_of_fits h₀ (by omega)
  have haligned : (ts - ts % day) % day = 0 := by
    unfold day
    omega
  unfold shardOf
  rw [hstart, getShardStart_of_aligned haligned h₀ (by omega), int64_uint64 h₀ (by omega)]

/-- The shard of a point is one of whole days, also when the start of the point's day is
    not an `int64`. -/
theorem isShardId_shardOf {ts : ℤ} (h₀ : -2 ^ 63 ≤ ts) (h₁ : ts < 2 ^ 63) :
    IsShardId (shardOf ts) := by
  refine ⟨uint64_lt _, ?_⟩
  by_cases hfits : -2 ^ 63 ≤ ts - ts % day
  · rw [int64_shardOf hfits h₁]
    unfold day
    omega
  · -- the first day of the range: its start wraps around to a time in the last one
    unfold shardOf getShardStartForTimestamp day at *
    unfold int64 uint64
    omega

/-! ## The database -/

/-- The calls of `InfluxStore` (lines 22–33) that write and delete, and what they do to
    the points of the shards. `CreateShard` of an existing shard changes nothing.
    `DeleteShard` first takes the shard out, and can fail only after that. -/
structure ShardStore (σ : Type) extends InfluxStore σ where
  deleteShard : ℕ → σ → σ × Option Bytes
  contents : σ → ℕ → Option (List Influx.Point)
  createShard_contents : ∀ id s, (createShard id s).2 = none → ∀ id',
    contents (createShard id s).1 id' =
      if id' = id then some ((contents s id).getD []) else contents s id'
  writeToShard_contents : ∀ id points s, (writeToShard id points s).2 = none →
    ∃ before, contents s id = some before ∧ ∀ id', contents (writeToShard id points s).1 id' =
      if id' = id then some (before ++ points) else contents s id'
  deleteShard_contents : ∀ id s id', contents (deleteShard id s).1 id' =
    if id' = id then none else contents s id'

variable {σ : Type}

/-- The database has the shard. -/
def ShardStore.Holds (db : ShardStore σ) (s : σ) (id : ℕ) : Prop := (db.contents s id).isSome

instance (db : ShardStore σ) (s : σ) (id : ℕ) : Decidable (db.Holds s id) :=
  inferInstanceAs (Decidable (_ = true))

/-- The point lies in the shard. -/
def ShardStore.Stored (db : ShardStore σ) (s : σ) (id : ℕ) (p : Influx.Point) : Prop :=
  ∃ points, db.contents s id = some points ∧ p ∈ points

theorem ShardStore.Stored.holds {db : ShardStore σ} {s : σ} {id : ℕ} {p : Influx.Point}
    (h : db.Stored s id p) : db.Holds s id := by
  obtain ⟨points, hpoints, -⟩ := h
  rw [Holds, hpoints]
  rfl

namespace InfluxAdapter

/-- `ShardIDs` (lines 244–254): from the largest id to the smallest. -/
def shardIDs (t : InfluxAdapter σ) : List ℕ := t.shards.insertionSort (· ≥ ·)

/-- `ShardIDsOldestSort` (lines 256–266): from the smallest id to the largest. -/
def shardIDsOldestSort (t : InfluxAdapter σ) : List ℕ := t.shards.insertionSort (· ≤ ·)

/-- `OldestShardID` (lines 270–277): the last of `ShardIDs`. -/
def oldestShardID (t : InfluxAdapter σ) : Except Bytes ℕ :=
  match t.shardIDs.getLast? with
  | none => .error (lit "Cannot determine oldest shardID when there are no shardIDs")
  | some shardId => .ok shardId

/-! ## Deletions -/

section Deletions

variable (deleteShard : ℕ → σ → σ × Option Bytes)

/-- `Delete` (lines 232–235). -/
def deleteWith (t : InfluxAdapter σ) (shardID : ℕ) : InfluxAdapter σ × Option Bytes :=
  (⟨t.shards.filter (· ≠ shardID), (deleteShard shardID t.influx).1⟩,
    (deleteShard shardID t.influx).2)

/-- `DeleteOldest` (lines 205–212): the error of `Delete` is dropped and the shard is
    deleted once more. -/
def deleteOldestWith (t : InfluxAdapter σ) : InfluxAdapter σ × Option Bytes :=
  match t.oldestShardID with
  | .error err => (t, some err)
  | .ok shardId =>
    let t := (t.deleteWith deleteShard shardId).1
    (⟨t.shards, (deleteShard shardId t.influx).1⟩, (deleteShard shardId t.influx).2)

/-- The loop of `DeleteOlderThan` (lines 217–229). -/
def deleteWhileWith (adjustedCutoff : ℤ) :
    List ℕ → InfluxAdapter σ → ℕ → InfluxAdapter σ × ℕ × Option Bytes
  | [], t, deleted => (t, deleted, none)
  | shardID :: ids, t, deleted =>
    if adjustedCutoff < int64 shardID then (t, deleted, none)
    else
      match t.deleteWith deleteShard shardID with
      | (t, some err) => (t, deleted, some err)
      | (t, none) => deleteWhileWith adjustedCutoff ids t (deleted + 1)

/-- A minute in nanoseconds. -/
def minute : ℤ := 60 * 10 ^ 9

/-- `adjustedCutoff` (line 215): the subtraction is one of times and does not wrap around. -/
def adjustedCutoff (cutoff : Int64) : ℤ := getShardStartForTimestamp (cutoff.toInt - minute)

/-- `DeleteOlderThan` (lines 214–230). -/
def deleteOlderThanWith (t : InfluxAdapter σ) (cutoff : Int64) :
    InfluxAdapter σ × ℕ × Option Bytes :=
  t.deleteWhileWith deleteShard (adjustedCutoff cutoff) t.shardIDsOldestSort 0

end Deletions

/-- `Delete` for a database that always takes the shard out; so are the other deletions. -/
abbrev delete (db : ShardStore σ) (t : InfluxAdapter σ) (shardID : ℕ) :
    InfluxAdapter σ × Option Bytes :=
  t.deleteWith db.deleteShard shardID

abbrev deleteOldest (db : ShardStore σ) (t : InfluxAdapter σ) : InfluxAdapter σ × Option Bytes :=
  t.deleteOldestWith db.deleteShard

abbrev deleteWhile (db : ShardStore σ) (adjustedCutoff : ℤ) (ids : List ℕ) (t : InfluxAdapter σ)
    (deleted : ℕ) : InfluxAdapter σ × ℕ × Option Bytes :=
  t.deleteWhileWith db.deleteShard adjustedCutoff ids deleted

abbrev deleteOlderThan (db : ShardStore σ) (t : InfluxAdapter σ) (cutoff : Int64) :
    InfluxAdapter σ × ℕ × Option Bytes :=
  t.deleteOlderThanWith db.deleteShard cutoff

/-- `forTimestampRange` (lines 354–371); `sort.Sort(ShardIDs(shards))` sorts by id. -/
def forTimestampRange (t : InfluxAdapter σ) (start stop : ℤ) : List ℕ :=
  (t.shards.filter fun shardId =>
    int64 shardId < stop && getShardEndForTimestamp (int64 shardId) ≥ start).insertionSort (· ≤ ·)

theorem mem_forTimestampRange {t : InfluxAdapter σ} {start stop : ℤ} {id : ℕ} :
    id ∈ t.forTimestampRange start stop ↔
      id ∈ t.shards ∧ int64 id < stop ∧ start ≤ getShardEndForTimestamp (int64 id) := by
  unfold forTimestampRange
  rw [List.mem_insertionSort, List.mem_filter]
  simp

/-! ## What a deletion removes -/

/-- The shards `gone` were deleted, and nothing else changed. -/
def Deleted (db : ShardStore σ) (t t' : InfluxAdapter σ) : Prop :=
  ∃ gone : List ℕ, t'.shards = t.shards.filter (· ∉ gone) ∧
    ∀ id, db.contents t'.influx id = if id ∈ gone then none else db.contents t.influx id

variable {db : ShardStore σ}

theorem Deleted.refl (t : InfluxAdapter σ) : Deleted db t t := ⟨[], by simp⟩

theorem Deleted.trans {t t' t'' : InfluxAdapter σ} (h : Deleted db t t') (h' : Deleted db t' t'') :
    Deleted db t t'' := by
  obtain ⟨gone, hshards, hcontents⟩ := h
  obtain ⟨gone', hshards', hcontents'⟩ := h'
  refine ⟨gone' ++ gone, ?_, ?_⟩
  · rw [hshards', hshards, List.filter_filter]
    refine List.filter_congr fun id _ => ?_
    simp
  · intro id
    rw [hcontents', hcontents]
    by_cases hid : id ∈ gone
    · simp [hid]
    · simp [hid]

variable (db) in
theorem delete_deleted (t : InfluxAdapter σ) (id : ℕ) : Deleted db t (t.delete db id).1 := by
  refine ⟨[id], ?_, ?_⟩
  · refine List.filter_congr fun id' _ => ?_
    simp
  · intro id'
    rw [delete, deleteWith, db.deleteShard_contents]
    simp

variable (db) in
theorem deleteOldest_deleted (t : InfluxAdapter σ) : Deleted db t (t.deleteOldest db).1 := by
  unfold deleteOldest deleteOldestWith
  split
  · exact .refl t
  · rename_i shardId _
    refine (delete_deleted db t shardId).trans ⟨[], by simp, fun id => ?_⟩
    dsimp only
    -- the shard is no longer there when it is deleted once more
    rw [db.deleteShard_contents, delete, deleteWith, db.deleteShard_contents]
    by_cases hid : id = shardId
    · simp [hid]
    · simp [hid]

variable (db) in
theorem deleteWhile_deleted (cutoff : ℤ) (ids : List ℕ) (t : InfluxAdapter σ) (deleted : ℕ) :
    Deleted db t (deleteWhile db cutoff ids t deleted).1 := by
  induction ids generalizing t deleted with
  | nil => exact .refl t
  | cons id ids ih =>
    unfold deleteWhile deleteWhileWith
    have hdelete := delete_deleted db t id
    unfold delete at hdelete
    split
    · exact .refl t
    · split
      · rename_i t' err heq
        rw [heq] at hdelete
        exact hdelete
      · rename_i t' heq
        rw [heq] at hdelete
        exact hdelete.trans (ih t' _)

/-! ## What a write adds -/

/-- The shards `ids` were added where they did not exist, and the points `new`. -/
structure Written (db : ShardStore σ) (t t' : InfluxAdapter σ) (ids : List ℕ)
    (new : ℕ → Influx.Point → Prop) : Prop where
  shards : ∀ id, id ∈ t'.shards ↔ id ∈ t.shards ∨ id ∈ ids
  nodup : t.shards.Nodup → t'.shards.Nodup
  holds : ∀ id, db.Holds t'.influx id ↔ db.Holds t.influx id ∨ id ∈ ids
  stored : ∀ id p, db.Stored t'.influx id p ↔ db.Stored t.influx id p ∨ new id p

theorem findOrCreateShard_written {t t' : InfluxAdapter σ} {ts : ℤ} {id : ℕ}
    (h : t.findOrCreateShardForTimestamp db.toInfluxStore ts = .ok (t', id)) :
    id = uint64 (getShardStartForTimestamp ts) ∧
      (∀ id', id' ∈ t'.shards ↔ id' ∈ t.shards ∨ id' = id) ∧
      (t.shards.Nodup → t'.shards.Nodup) ∧
      (∀ id', id' ≠ id → db.contents t'.influx id' = db.contents t.influx id') ∧
      ∀ p, db.Stored t'.influx id p ↔ db.Stored t.influx id p := by
  unfold findOrCreateShardForTimestamp at h
  dsimp only at h
  split at h
  · rename_i hmem
    cases h
    refine ⟨rfl, fun id' => ⟨Or.inl, ?_⟩, id, fun _ _ => rfl, fun _ => Iff.rfl⟩
    rintro (hid | rfl)
    · exact hid
    · exact hmem
  · rename_i hmem
    split at h
    · cases h
    · rename_i influx heq
      cases h
      have hcontents := db.createShard_contents _ _ (congrArg Prod.snd heq)
      rw [heq] at hcontents
      refine ⟨rfl, fun id' => ?_, fun hnodup => List.nodup_cons.2 ⟨hmem, hnodup⟩, ?_, ?_⟩
      · rw [List.mem_cons, or_comm]
      · intro id' hid'
        rw [hcontents, if_neg hid']
      · intro p
        unfold ShardStore.Stored
        rw [hcontents, if_pos rfl]
        cases db.contents t.influx (uint64 (getShardStartForTimestamp ts)) with
        | none => simp
        | some points => simp

/-- One group of points. -/
theorem writeBucket_written {t t₁ : InfluxAdapter σ} {ts : ℤ} {id : ℕ} {points : List Influx.Point}
    {influx : σ} (hfound : t.findOrCreateShardForTimestamp db.toInfluxStore ts = .ok (t₁, id))
    (hwrite : db.writeToShard id points t₁.influx = (influx, none)) :
    Written db t ⟨t₁.shards, influx⟩ [uint64 (getShardStartForTimestamp ts)]
      (fun id' p => id' = uint64 (getShardStartForTimestamp ts) ∧ p ∈ points) := by
  obtain ⟨rfl, hshards, hnodup, hothers, hsame⟩ := findOrCreateShard_written hfound
  obtain ⟨before, hbefore, hafter⟩ := db.writeToShard_contents _ _ _ (congrArg Prod.snd hwrite)
  rw [hwrite] at hafter
  dsimp only at hafter
  refine ⟨fun id' => ?_, hnodup, fun id' => ?_, fun id' p => ?_⟩
  · rw [hshards, List.mem_singleton]
  · unfold ShardStore.Holds
    rw [hafter, List.mem_singleton]
    by_cases hid : id' = uint64 (getShardStartForTimestamp ts)
    · simp [hid]
    · rw [if_neg hid, hothers _ hid]
      simp [hid]
  · by_cases hid : id' = uint64 (getShardStartForTimestamp ts)
    · subst hid
      rw [← hsame]
      unfold ShardStore.Stored
      rw [hafter, if_pos rfl, hbefore]
      simp
    · unfold ShardStore.Stored
      rw [hafter, if_neg hid, hothers _ hid]
      simp [hid]

theorem writeBuckets_written {pointBuckets : GoMap ℤ (List Influx.Point)} {keys : List ℤ}
    {t t' : InfluxAdapter σ}
    (h : writeBuckets db.toInfluxStore pointBuckets keys t = .ok (t', none)) :
    Written db t t' (keys.map fun k => uint64 (getShardStartForTimestamp k))
      (fun id p => ∃ k ∈ keys, id = uint64 (getShardStartForTimestamp k) ∧
        p ∈ (pointBuckets.lookup k).getD []) := by
  induction keys generalizing t with
  | nil =>
    cases h
    exact ⟨by simp, fun hnodup => hnodup, by simp, by simp⟩
  | cons k keys ih =>
    unfold writeBuckets at h
    split at h
    · cases h
    · rename_i t₁ id hfound
      split at h
      · cases h
      · rename_i influx hwrite
        obtain ⟨hshards, hnodup, hholds, hstored⟩ := writeBucket_written hfound hwrite
        obtain ⟨hshards', hnodup', hholds', hstored'⟩ := ih h
        refine ⟨fun id' => ?_, fun hn => hnodup' (hnodup hn), fun id' => ?_, fun id' p => ?_⟩
        · rw [hshards', hshards, List.map_cons, List.mem_singleton, List.mem_cons, or_assoc]
        · rw [hholds', hholds, List.map_cons, List.mem_singleton, List.mem_cons, or_assoc]
        · rw [hstored', hstored, List.exists_mem_cons_iff, or_assoc]

/-- The groups: each day has its points. -/
theorem mem_pointBuckets (points : List Influx.Point) (k : ℤ) (p : Influx.Point) :
    p ∈ ((points.foldl addToBucket ∅).lookup k).getD [] ↔
      p ∈ points ∧ k = getShardStartForTimestamp p.time := by
  have hstep : ∀ (m : GoMap ℤ (List Influx.Point)) (q : Influx.Point), True → True ∧
      ∀ p, p ∈ ((addToBucket m q).lookup k).getD [] ↔
        p ∈ (m.lookup k).getD [] ∨ p = q ∧ k = getShardStartForTimestamp q.time := by
    intro m q _
    refine ⟨trivial, fun p => ?_⟩
    unfold addToBucket
    dsimp only
    by_cases hk : k = getShardStartForTimestamp q.time
    · subst hk
      rw [AList.lookup_insert]
      simp
    · rw [AList.lookup_insert_ne hk]
      simp [hk]
  have hfold := (foldl_collects (fun m : GoMap ℤ (List Influx.Point) => (m.lookup k).getD [])
    (fun _ => True) hstep points (a := ∅) trivial).2 p
  rw [hfold]
  simp

theorem mem_keys_pointBuckets (points : List Influx.Point) (k : ℤ) :
    k ∈ (points.foldl addToBucket ∅).keys ↔
      ∃ p ∈ points, k = getShardStartForTimestamp p.time := by
  have hstep : ∀ (m : GoMap ℤ (List Influx.Point)) (q : Influx.Point), True → True ∧
      ∀ k, k ∈ (addToBucket m q).keys ↔ k ∈ m.keys ∨ k = getShardStartForTimestamp q.time := by
    intro m q _
    refine ⟨trivial, fun k => ?_⟩
    unfold addToBucket
    rw [← AList.mem_keys, ← AList.mem_keys, AList.mem_insert, or_comm]
  have hfold := (foldl_collects (fun m : GoMap ℤ (List Influx.Point) => m.keys)
    (fun _ => True) hstep points (a := ∅) trivial).2 k
  rw [hfold]
  simp

/-- **What a write adds** when it returns nil: every point to the shard of its day. -/
theorem writePoints_written {order : MapOrder ℤ} {t t' : InfluxAdapter σ}
    {points : List Rpc.Point} (h : t.writePoints db.toInfluxStore order points = .ok (t', none)) :
    ∃ influxPoints, toInfluxPoints points = .ok influxPoints ∧
      Written db t t' (influxPoints.map fun p => shardOf p.time)
        (fun id p => p ∈ influxPoints ∧ id = shardOf p.time) := by
  unfold writePoints at h
  split at h
  · cases h
  · rename_i influxPoints hpoints
    obtain ⟨hshards, hnodup, hholds, hstored⟩ := writeBuckets_written h
    have hkeys : ∀ k, k ∈ order.iterate (influxPoints.foldl addToBucket ∅).keys ↔
        ∃ p ∈ influxPoints, k = getShardStartForTimestamp p.time := by
      intro k
      rw [(order.perm _).mem_iff, mem_keys_pointBuckets]
    have hids : ∀ id, id ∈ (order.iterate (influxPoints.foldl addToBucket ∅).keys).map
          (fun k => uint64 (getShardStartForTimestamp k)) ↔
        id ∈ influxPoints.map fun p => shardOf p.time := by
      intro id
      simp only [List.mem_map, hkeys]
      constructor
      · rintro ⟨k, ⟨p, hp, rfl⟩, rfl⟩
        exact ⟨p, hp, rfl⟩
      · rintro ⟨p, hp, rfl⟩
        exact ⟨_, ⟨p, hp, rfl⟩, rfl⟩
    refine ⟨influxPoints, hpoints, ⟨fun id => ?_, hnodup, fun id => ?_, fun id p => ?_⟩⟩
    · rw [hshards, hids]
    · rw [hholds, hids]
    · rw [hstored]
      refine or_congr_right ?_
      constructor
      · rintro ⟨k, -, rfl, hp⟩
        obtain ⟨hmem, rfl⟩ := (mem_pointBuckets influxPoints k p).1 hp
        exact ⟨hmem, rfl⟩
      · rintro ⟨hp, rfl⟩
        exact ⟨_, (hkeys _).2 ⟨p, hp, rfl⟩, rfl, (mem_pointBuckets influxPoints _ p).2 ⟨hp, rfl⟩⟩

/-! ## Runs -/

/-- The calls that change shards. -/
inductive Op
  | write (order : MapOrder ℤ) (points : List Rpc.Point)
  | delete (shardID : ℕ)
  | deleteOldest
  | deleteOlderThan (cutoff : Int64)

/-- An adapter, and the points written to it whose shard was not deleted since. -/
structure History (σ : Type) where
  adapter : InfluxAdapter σ
  undeleted : List Influx.Point

/-- The history after a deletion that gives `t'`. -/
def History.deletion (db : ShardStore σ) (h : History σ) (t' : InfluxAdapter σ) : History σ :=
  ⟨t', h.undeleted.filter fun p => ¬ (db.Holds h.adapter.influx (shardOf p.time) ∧
    ¬ db.Holds t'.influx (shardOf p.time))⟩

/-- One call; a call of `WritePoints` returns nil. -/
def step (db : ShardStore σ) (h : History σ) : Op → Option (History σ)
  | .write order points =>
    match h.adapter.writePoints db.toInfluxStore order points, toInfluxPoints points with
    | .ok (t', none), .ok influxPoints => some ⟨t', h.undeleted ++ influxPoints⟩
    | _, _ => none
  | .delete shardID => some (h.deletion db (h.adapter.delete db shardID).1)
  | .deleteOldest => some (h.deletion db (h.adapter.deleteOldest db).1)
  | .deleteOlderThan cutoff => some (h.deletion db (h.adapter.deleteOlderThan db cutoff).1)

/-- Everything a call can do. -/
theorem step_cases {h h' : History σ} {op : Op} (hstep : step db h op = some h') :
    (∃ order points influxPoints, op = .write order points ∧
      toInfluxPoints points = .ok influxPoints ∧ h'.undeleted = h.undeleted ++ influxPoints ∧
      Written db h.adapter h'.adapter (influxPoints.map fun p => shardOf p.time)
        (fun id p => p ∈ influxPoints ∧ id = shardOf p.time)) ∨
    ∃ t', Deleted db h.adapter t' ∧ h' = h.deletion db t' := by
  cases op with
  | write order points =>
    simp only [step] at hstep
    split at hstep
    · rename_i t' influxPoints hwrite hpoints
      obtain ⟨_, hpoints', hwritten⟩ := writePoints_written hwrite
      rw [hpoints] at hpoints'
      cases hpoints'
      cases hstep
      exact Or.inl ⟨order, points, influxPoints, rfl, hpoints, rfl, hwritten⟩
    · cases hstep
  | delete shardID =>
    exact Or.inr ⟨_, delete_deleted db _ _, (Option.some.inj hstep).symm⟩
  | deleteOldest =>
    exact Or.inr ⟨_, deleteOldest_deleted db _, (Option.some.inj hstep).symm⟩
  | deleteOlderThan cutoff =>
    exact Or.inr ⟨_, deleteWhile_deleted db _ _ _ _, (Option.some.inj hstep).symm⟩

/-- The adapter and the database know the same shards, every point lies in the shard of
    its day, and every undeleted point is there. -/
structure Inv (db : ShardStore σ) (h : History σ) : Prop where
  nodup : h.adapter.shards.Nodup
  ids : ∀ id ∈ h.adapter.shards, IsShardId id
  same : ∀ id, id ∈ h.adapter.shards ↔ db.Holds h.adapter.influx id
  placed : ∀ id p, db.Stored h.adapter.influx id p → id = shardOf p.time
  kept : ∀ p ∈ h.undeleted, db.Stored h.adapter.influx (shardOf p.time) p

/-- The times of translated points are `int64` values. -/
theorem time_of_toInfluxPoints {points : List Rpc.Point} {influxPoints : List Influx.Point}
    (h : toInfluxPoints points = .ok influxPoints) {p : Influx.Point} (hp : p ∈ influxPoints) :
    -2 ^ 63 ≤ p.time ∧ p.time < 2 ^ 63 := by
  obtain ⟨point, -, hpoint⟩ := exists_of_mem_toInfluxPoints h hp
  rw [time_toInfluxPoint hpoint]
  exact ⟨point.timestamp.le_toInt, point.timestamp.toInt_lt⟩

theorem Inv.write {h h' : History σ} (hi : Inv db h) {points : List Rpc.Point}
    {influxPoints : List Influx.Point} (hpoints : toInfluxPoints points = .ok influxPoints)
    (hundeleted : h'.undeleted = h.undeleted ++ influxPoints)
    (hwritten : Written db h.adapter h'.adapter (influxPoints.map fun p => shardOf p.time)
      (fun id p => p ∈ influxPoints ∧ id = shardOf p.time)) : Inv db h' := by
  obtain ⟨hshards, hnodup, hholds, hstored⟩ := hwritten
  refine ⟨hnodup hi.nodup, ?_, ?_, ?_, ?_⟩
  · intro id hid
    rcases (hshards id).1 hid with hid | hid
    · exact hi.ids id hid
    · obtain ⟨p, hp, rfl⟩ := List.mem_map.1 hid
      obtain ⟨h₀, h₁⟩ := time_of_toInfluxPoints hpoints hp
      exact isShardId_shardOf h₀ h₁
  · intro id
    rw [hshards, hholds, hi.same]
  · intro id p hp
    rcases (hstored id p).1 hp with hp | ⟨-, hid⟩
    · exact hi.placed id p hp
    · exact hid
  · intro p hp
    rw [hundeleted, List.mem_append] at hp
    rcases hp with hp | hp
    · exact (hstored _ p).2 (Or.inl (hi.kept p hp))
    · exact (hstored _ p).2 (Or.inr ⟨hp, rfl⟩)

theorem Inv.deletion {h : History σ} (hi : Inv db h) {t' : InfluxAdapter σ}
    (hdeleted : Deleted db h.adapter t') : Inv db (h.deletion db t') := by
  obtain ⟨gone, hshards, hcontents⟩ := hdeleted
  have hmem : ∀ id, id ∈ t'.shards ↔ id ∈ h.adapter.shards ∧ id ∉ gone := by
    intro id
    rw [hshards, List.mem_filter, decide_eq_true_eq]
  have hstored : ∀ id p, db.Stored t'.influx id p ↔
      db.Stored h.adapter.influx id p ∧ id ∉ gone := by
    intro id p
    unfold ShardStore.Stored
    rw [hcontents]
    by_cases hid : id ∈ gone
    · simp [hid]
    · simp [hid]
  refine ⟨?_, ?_, ?_, ?_, ?_⟩
  · show t'.shards.Nodup
    rw [hshards]
    exact hi.nodup.filter _
  · intro id hid
    exact hi.ids id ((hmem id).1 hid).1
  · intro id
    show id ∈ t'.shards ↔ db.Holds t'.influx id
    rw [hmem, hi.same]
    unfold ShardStore.Holds
    rw [hcontents]
    by_cases hid : id ∈ gone
    · simp [hid]
    · simp [hid]
  · intro id p hp
    exact hi.placed id p ((hstored id p).1 hp).1
  · intro p hp
    obtain ⟨hp, hheld⟩ := List.mem_filter.1 hp
    have hbefore := hi.kept p hp
    refine (hstored _ p).2 ⟨hbefore, fun hgone => ?_⟩
    -- a shard that is gone was held before and is not held now
    rw [decide_eq_true_eq] at hheld
    refine hheld ⟨hbefore.holds, ?_⟩
    unfold ShardStore.Holds
    rw [hcontents, if_pos hgone]
    simp

/-- An adapter over an empty database. -/
def newHistory (s : σ) : History σ := ⟨⟨[], s⟩, []⟩

/-- **Every run** keeps the shards of the adapter and of the database the same, and every
    point in the shard of its day. -/
theorem run_inv {s : σ} (hempty : ∀ id, db.contents s id = none) {ops : List Op} {h : History σ}
    (hrun : run (step db) (newHistory s) ops = some h) : Inv db h := by
  have hinit : Inv db (newHistory s) := by
    refine ⟨List.nodup_nil, by simp [newHistory], fun id => ?_, ?_, by simp [newHistory]⟩
    · simp [newHistory, ShardStore.Holds, hempty]
    · rintro id p ⟨points, hpoints, -⟩
      rw [show (newHistory s).adapter.influx = s from rfl, hempty] at hpoints
      cases hpoints
  refine run_preserves (step db) ?_ hinit hrun
  intro h op h' hi hstep
  rcases step_cases hstep with
    ⟨order, points, influxPoints, rfl, hpoints, hundeleted, hwritten⟩ | ⟨t', hdeleted, rfl⟩
  · exact hi.write hpoints hundeleted hwritten
  · exact hi.deletion hdeleted

end InfluxAdapter

/-! ## A database in memory -/

/-- A database whose calls fail only where the shard to write to is missing. -/
def memoryStore : ShardStore (GoMap ℕ (List Influx.Point)) where
  createShard id s := (if id ∈ s then s else s.insert id [], none)
  writeToShard id points s :=
    match s.lookup id with
    | none => (s, some (lit "shard not found"))
    | some before => (s.insert id (before ++ points), none)
  deleteShard id s := (s.erase id, none)
  contents s id := s.lookup id
  createShard_contents := by
    intro id s _ id'
    by_cases hid : id' = id
    · subst hid
      by_cases hmem : id' ∈ s
      · obtain ⟨points, hpoints⟩ := Option.isSome_iff_exists.1 (AList.lookup_isSome.2 hmem)
        simp [hmem, hpoints]
      · simp [hmem, AList.lookup_eq_none.2 hmem]
    · rw [if_neg hid]
      split
      · rfl
      · exact AList.lookup_insert_ne hid
  writeToShard_contents := by
    intro id points s h
    cases hs : s.lookup id with
    | none => simp [hs] at h
    | some before =>
      refine ⟨before, rfl, fun id' => ?_⟩
      by_cases hid : id' = id
      · subst hid
        rw [if_pos rfl]
        exact AList.lookup_insert _
      · rw [if_neg hid]
        exact AList.lookup_insert_ne hid
  deleteShard_contents := by
    intro id s id'
    by_cases hid : id' = id
    · subst hid
      rw [if_pos rfl]
      exact AList.lookup_erase _ _
    · rw [if_neg hid]
      exact AList.lookup_erase_ne hid

end MetricStore.Persistence
