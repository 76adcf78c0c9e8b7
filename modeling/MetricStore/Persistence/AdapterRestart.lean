import MetricStore.Persistence.ShardDeletion

/-!
# Restarts

`NewInfluxAdapter` (`pkg/persistence/influx_adapter.go`, lines 43–56) lists the shards of the
database it is given and panics at one whose id is not the start of a day (`checkShardId`).
This file follows a process that writes and deletes, ends at any time, also within a call,
and is started again on the database it has left.

What a call does to the database is the list of its calls of the database (`storeCalls`).
`step_influx` says that they lead to the state the call returns with; a process that ends
within the call has made the first of them.

Results:
* `checkShardId_eq_ok_iff`: the ids that `NewInfluxAdapter` accepts.
* `mem_storeCalls_createShard`: every shard that `WritePoints` creates is that of a point.
* `restart_never_panics`: no restart panics, in any run from a database without shards.
-/

namespace MetricStore.Persistence

open MetricStore.Common

/-! ## The alignment test -/

/-- The panic of `checkShardId`, with the two times it logs. -/
structure Misaligned where
  derivedStartTime : ℤ
  expectedStartTime : ℤ
  deriving DecidableEq, Repr

/-- `checkShardId` (lines 334–344). -/
def checkShardId (shardId : ℕ) : Except Misaligned Unit :=
  let shardStart := int64 shardId
  if shardStart ≠ getShardStartForTimestamp shardStart then
    .error ⟨shardStart, getShardStartForTimestamp shardStart⟩
  else .ok ()

/-- A time whose day starts before the first `int64` is far from the wrapped start. -/
theorem getShardStart_eq_self_iff {z : ℤ} (h₀ : -2 ^ 63 ≤ z) (h₁ : z < 2 ^ 63) :
    getShardStartForTimestamp z = z ↔ z % day = 0 := by
  refine ⟨fun h => ?_, fun hz => getShardStart_of_aligned hz h₀ h₁⟩
  unfold getShardStartForTimestamp int64 uint64 day at *
  omega

/-- **The alignment test** accepts the ids of whole days. -/
theorem checkShardId_eq_ok_iff {id : ℕ} (h : id < 2 ^ 64) :
    checkShardId id = .ok () ↔ IsShardId id := by
  obtain ⟨h₀, h₁⟩ := int64_bounds h
  unfold checkShardId IsShardId
  rw [← getShardStart_eq_self_iff h₀ h₁]
  dsimp only
  split_ifs with hne
  · exact iff_of_false (by simp) fun hid => hne hid.2.symm
  · exact iff_of_true rfl ⟨h, (not_not.mp hne).symm⟩

theorem checkShardId_of_isShardId {id : ℕ} (h : IsShardId id) : checkShardId id = .ok () :=
  (checkShardId_eq_ok_iff h.1).mpr h

variable {σ : Type}

/-! ## A new adapter -/

namespace InfluxAdapter

/-- The loop of `NewInfluxAdapter` (lines 50–53). -/
def loadShards : List ℕ → InfluxAdapter σ → Except Misaligned (InfluxAdapter σ)
  | [], t => .ok t
  | shardId :: ids, t =>
    match checkShardId shardId with
    | .error p => .error p
    | .ok () => loadShards ids ⟨t.shards.insert shardId, t.influx⟩

/-- `NewInfluxAdapter` (lines 43–56). -/
def newInfluxAdapter (db : FallibleStore σ) (influx : σ) : Except Misaligned (InfluxAdapter σ) :=
  loadShards (db.shardIDs influx) ⟨[], influx⟩

theorem loadShards_ok {ids : List ℕ} (h : ∀ id ∈ ids, IsShardId id) (t : InfluxAdapter σ) :
    ∃ t', loadShards ids t = .ok t' ∧ t'.influx = t.influx ∧
      ∀ id, id ∈ t'.shards ↔ id ∈ t.shards ∨ id ∈ ids := by
  induction ids generalizing t with
  | nil => exact ⟨t, rfl, rfl, by simp⟩
  | cons id ids ih =>
    obtain ⟨hid, hids⟩ := List.forall_mem_cons.mp h
    obtain ⟨t', hload, hinflux, hshards⟩ := ih hids ⟨t.shards.insert id, t.influx⟩
    refine ⟨t', ?_, hinflux, fun id' => ?_⟩
    · rw [loadShards, checkShardId_of_isShardId hid]
      exact hload
    · rw [hshards, List.mem_insert_iff, List.mem_cons, or_comm (a := id' = id), or_assoc]

/-! ## The calls of the database -/

/-- A call of the database that may change it. -/
inductive StoreCall
  | createShard (id : ℕ)
  | writeToShard (id : ℕ) (points : List Influx.Point)
  | deleteShard (id : ℕ)

/-- The database after the call, whatever it returns. -/
def StoreCall.perform (db : FallibleStore σ) (s : σ) : StoreCall → σ
  | .createShard id => (db.createShard id s).1
  | .writeToShard id points => (db.writeToShard id points s).1
  | .deleteShard id => (db.deleteShard id s).1

theorem StoreCall.perform_createShard (db : FallibleStore σ) (s : σ) (id : ℕ) :
    StoreCall.perform db s (.createShard id) = (db.createShard id s).1 := rfl

theorem StoreCall.perform_writeToShard (db : FallibleStore σ) (s : σ) (id : ℕ)
    (points : List Influx.Point) :
    StoreCall.perform db s (.writeToShard id points) = (db.writeToShard id points s).1 := rfl

theorem StoreCall.perform_deleteShard (db : FallibleStore σ) (s : σ) (id : ℕ) :
    StoreCall.perform db s (.deleteShard id) = (db.deleteShard id s).1 := rfl

/-- The calls of the loop over the groups (lines 70–77). -/
def bucketCalls (db : FallibleStore σ) (pointBuckets : GoMap ℤ (List Influx.Point)) :
    List ℤ → InfluxAdapter σ → List StoreCall
  | [], _ => []
  | bucketIndex :: rest, t =>
    let shardId := uint64 (getShardStartForTimestamp bucketIndex)
    (if shardId ∈ t.shards then [] else [.createShard shardId]) ++
      match findOrCreateShardForTimestamp db.toInfluxStore t bucketIndex with
      | .error _ => []
      | .ok (t, shardId) =>
        let points := (pointBuckets.lookup bucketIndex).getD []
        .writeToShard shardId points :: match db.writeToShard shardId points t.influx with
          | (_, some _) => []
          | (influx, none) => bucketCalls db pointBuckets rest ⟨t.shards, influx⟩

/-- The calls of the database that `op` makes, also when it panics. -/
def storeCalls (db : FallibleStore σ) (t : InfluxAdapter σ) : Op → List StoreCall
  | .write order points =>
    match toInfluxPoints points with
    | .error _ => []
    | .ok influxPoints =>
      let pointBuckets := influxPoints.foldl addToBucket ∅
      bucketCalls db pointBuckets (order.iterate pointBuckets.keys) t
  | op => (t.deleteCalls db.deleteShard op).map fun c => .deleteShard c.id

variable {db : FallibleStore σ}

/-- The calls of the loop lead to the database it returns with. -/
theorem writeBuckets_influx {pointBuckets : GoMap ℤ (List Influx.Point)} {keys : List ℤ}
    {t t' : InfluxAdapter σ} {err : Option Bytes}
    (h : writeBuckets db.toInfluxStore pointBuckets keys t = .ok (t', err)) :
    t'.influx = (bucketCalls db pointBuckets keys t).foldl (StoreCall.perform db) t.influx := by
  induction keys generalizing t with
  | nil => cases h; rfl
  | cons k keys ih =>
    rw [writeBuckets] at h
    rw [bucketCalls]
    cases hfound : t.findOrCreateShardForTimestamp db.toInfluxStore k with
    | error p => rw [hfound] at h; cases h
    | ok r =>
      obtain ⟨t₁, id⟩ := r
      rw [hfound] at h
      dsimp only at h ⊢
      -- the first call, if there is one, is that of `findOrCreateShardForTimestamp`
      have hcreate : ((if uint64 (getShardStartForTimestamp k) ∈ t.shards then []
          else [StoreCall.createShard (uint64 (getShardStartForTimestamp k))]).foldl
            (StoreCall.perform db) t.influx) = t₁.influx := by
        unfold findOrCreateShardForTimestamp at hfound
        dsimp only at hfound
        split_ifs at hfound ⊢ with hknown
        · cases hfound; rfl
        · split at hfound
          · cases hfound
          · next influx heq =>
            cases hfound
            rw [List.foldl_cons, StoreCall.perform_createShard, heq]
            rfl
      rw [List.foldl_append, hcreate, List.foldl_cons, StoreCall.perform_writeToShard]
      generalize db.writeToShard id ((pointBuckets.lookup k).getD []) t₁.influx = w at h ⊢
      obtain ⟨influx, werr⟩ := w
      cases werr with
      | some e => cases h; rfl
      | none => exact ih h

theorem deleteWhile_influx (cutoff : ℤ) (ids : List ℕ) (t : InfluxAdapter σ) (deleted : ℕ) :
    (t.deleteWhileWith db.deleteShard cutoff ids deleted).1.influx =
      ((whileCalls db.deleteShard cutoff ids t.influx).map fun c =>
        StoreCall.deleteShard c.id).foldl (StoreCall.perform db) t.influx := by
  induction ids generalizing t deleted with
  | nil => rfl
  | cons id ids ih =>
    rw [deleteWhileWith, whileCalls]
    split_ifs
    · rfl
    · rw [List.map_cons, List.foldl_cons, StoreCall.perform_deleteShard]
      unfold deleteWith
      generalize db.deleteShard id t.influx = r
      obtain ⟨s, err⟩ := r
      cases err with
      | some err => rfl
      | none => exact ih ⟨_, s⟩ _

/-- **A call that returns** has made its calls of the database, and no others. -/
theorem step_influx {t t' : InfluxAdapter σ} {op : Op} (h : db.step t op = some t') :
    t'.influx = (t.storeCalls db op).foldl (StoreCall.perform db) t.influx := by
  cases op with
  | write order points =>
    simp only [FallibleStore.step, writePoints] at h
    rw [storeCalls]
    cases hpoints : toInfluxPoints points with
    | error p => simp [hpoints] at h
    | ok influxPoints =>
      rw [hpoints] at h
      dsimp only at h
      split at h
      · cases h
      · next t₁ err hwrite => cases h; exact writeBuckets_influx hwrite
  | delete shardID => cases h; rfl
  | deleteOldest =>
    cases h
    unfold deleteOldestWith storeCalls deleteCalls
    cases t.oldestShardID with
    | error err => rfl
    | ok id => rfl
  | deleteOlderThan cutoff => cases h; exact deleteWhile_influx _ _ t 0

/-! ## The shards that are created -/

theorem mem_bucketCalls_createShard {pointBuckets : GoMap ℤ (List Influx.Point)} {keys : List ℤ}
    {t : InfluxAdapter σ} {id : ℕ} (h : .createShard id ∈ bucketCalls db pointBuckets keys t) :
    ∃ k ∈ keys, id = uint64 (getShardStartForTimestamp k) := by
  induction keys generalizing t with
  | nil => cases h
  | cons k keys ih =>
    rw [bucketCalls, List.mem_append] at h
    rcases h with hcreate | hrest
    · refine ⟨k, List.mem_cons_self, ?_⟩
      split_ifs at hcreate with hknown
      · cases hcreate
      · cases List.mem_singleton.mp hcreate; rfl
    · split at hrest
      · cases hrest
      · rcases List.mem_cons.mp hrest with heq | hrest
        · cases heq
        · split at hrest
          · cases hrest
          · obtain ⟨k', hk', hid⟩ := ih hrest
            exact ⟨k', List.mem_cons_of_mem k hk', hid⟩

/-- Only `WritePoints` creates shards, and only those of its points. -/
theorem mem_storeCalls_createShard {t : InfluxAdapter σ} {op : Op} {id : ℕ}
    (h : .createShard id ∈ t.storeCalls db op) : ∃ ts : Int64, id = shardOf ts.toInt := by
  have hdelete : ∀ op', StoreCall.createShard id ∉
      (t.deleteCalls db.deleteShard op').map fun c => StoreCall.deleteShard c.id := by
    intro op' hmem
    obtain ⟨c, -, hc⟩ := List.mem_map.mp hmem
    cases hc
  cases op with
  | write order points =>
    rw [storeCalls] at h
    split at h
    · cases h
    · next influxPoints hpoints =>
      obtain ⟨k, hk, rfl⟩ := mem_bucketCalls_createShard h
      have hkey := (order.perm _).mem_iff.mp hk
      obtain ⟨p, hp, rfl⟩ := (mem_keys_pointBuckets influxPoints k).mp hkey
      obtain ⟨point, -, hpoint⟩ := exists_of_mem_toInfluxPoints hpoints hp
      exact ⟨point.timestamp, by rw [shardOf, time_toInfluxPoint hpoint]⟩
  | delete shardID => exact absurd h (hdelete _)
  | deleteOldest => exact absurd h (hdelete _)
  | deleteOlderThan cutoff => exact absurd h (hdelete _)

theorem isShardId_of_createShard {t : InfluxAdapter σ} {op : Op} {id : ℕ}
    (h : .createShard id ∈ t.storeCalls db op) : IsShardId id := by
  obtain ⟨ts, rfl⟩ := mem_storeCalls_createShard h
  exact isShardId_shardOf ts.le_toInt ts.toInt_lt

end InfluxAdapter

/-! ## Runs with restarts -/

namespace FallibleStore

open InfluxAdapter

/-- A process with its adapter, or the database that it has left. -/
inductive Process (σ : Type)
  | running (t : InfluxAdapter σ)
  | stopped (influx : σ)

def Process.database : Process σ → σ
  | .running t => t.influx
  | .stopped influx => influx

/-- What happens to a process: it makes a call, it ends after `n` calls of the database that
    `op` makes, or it is started. -/
inductive Event
  | call (op : Op)
  | kill (op : Op) (n : ℕ)
  | start

variable (db : FallibleStore σ)

/-- One event; `none` if `NewInfluxAdapter` panics. A call that panics ends the process. A
    process that is stopped makes no calls, and one that runs is not started. -/
def processStep : Process σ → Event → Option (Process σ)
  | .running t, .call op =>
    match db.step t op with
    | some t' => some (.running t')
    | none => some (.stopped ((t.storeCalls db op).foldl (StoreCall.perform db) t.influx))
  | .running t, .kill op n =>
    some (.stopped (((t.storeCalls db op).take n).foldl (StoreCall.perform db) t.influx))
  | .stopped influx, .start =>
    match newInfluxAdapter db influx with
    | .error _ => none
    | .ok t => some (.running t)
  | p, _ => some p

/-- Every shard of the database is that of a whole day. -/
def Aligned (s : σ) : Prop := ∀ id ∈ db.shardIDs s, IsShardId id

variable {db}

theorem Aligned.perform {s : σ} (h : db.Aligned s) {c : StoreCall}
    (hc : ∀ id, c = .createShard id → IsShardId id) : db.Aligned (c.perform db s) := by
  intro id' hid'
  cases c with
  | createShard id =>
    rcases db.createShard_ids id s id' hid' with rfl | hold
    · exact hc id' rfl
    · exact h id' hold
  | writeToShard id points => exact h id' (db.writeToShard_ids id points s id' hid')
  | deleteShard id => exact h id' (db.deleteShard_ids id s id' hid')

theorem Aligned.foldl {calls : List StoreCall} {s : σ} (h : db.Aligned s)
    (hcalls : ∀ id, .createShard id ∈ calls → IsShardId id) :
    db.Aligned (calls.foldl (StoreCall.perform db) s) := by
  induction calls generalizing s with
  | nil => exact h
  | cons c calls ih =>
    refine ih (h.perform fun id hid => ?_) fun id hid => hcalls id (List.mem_cons_of_mem c hid)
    exact hcalls id (hid ▸ List.mem_cons_self)

/-- A new adapter on such a database, which knows all its shards. -/
theorem Aligned.newInfluxAdapter {s : σ} (h : db.Aligned s) :
    ∃ t, newInfluxAdapter db s = .ok t ∧ t.influx = s ∧ db.Tracks t := by
  obtain ⟨t, hload, hinflux, hshards⟩ := loadShards_ok h ⟨[], s⟩
  refine ⟨t, hload, hinflux, fun id hid => ?_⟩
  rw [hinflux] at hid
  exact (hshards id).mpr (.inr hid)

theorem processStep_aligned (p : Process σ) (e : Event) (h : db.Aligned p.database) :
    ∃ p', db.processStep p e = some p' ∧ db.Aligned p'.database := by
  cases p with
  | running t =>
    cases e with
    | call op =>
      have hall : db.Aligned ((t.storeCalls db op).foldl (StoreCall.perform db) t.influx) :=
        Aligned.foldl h fun _ hid => isShardId_of_createShard hid
      simp only [processStep]
      cases hstep : db.step t op with
      | none => exact ⟨.stopped _, rfl, hall⟩
      | some t' =>
        refine ⟨.running t', rfl, ?_⟩
        show db.Aligned t'.influx
        rw [step_influx hstep]
        exact hall
    | kill op n =>
      refine ⟨_, rfl, Aligned.foldl h fun id hid => ?_⟩
      exact isShardId_of_createShard (List.mem_of_mem_take hid)
    | start => exact ⟨_, rfl, h⟩
  | stopped s =>
    cases e with
    | start =>
      obtain ⟨t, hnew, hinflux, -⟩ := Aligned.newInfluxAdapter h
      refine ⟨.running t, ?_, ?_⟩
      · simp only [processStep]
        rw [show newInfluxAdapter db s = .ok t from hnew]
      · show db.Aligned t.influx
        rw [hinflux]
        exact h
    | call op => exact ⟨_, rfl, h⟩
    | kill op n => exact ⟨_, rfl, h⟩

/-- **Restarts.** The shard of every point passes the alignment test, and so do all that
    `WritePoints` creates. From a database without shards no run has a start that panics, and
    neither would one that comes after it. -/
theorem restart_never_panics {s : σ} (hempty : db.shardIDs s = []) :
    (∀ ts : Int64, checkShardId (shardOf ts.toInt) = .ok ()) ∧
    (∀ (t : InfluxAdapter σ) (order : MapOrder ℤ) (points : List Rpc.Point) (id : ℕ),
      .createShard id ∈ t.storeCalls db (.write order points) → checkShardId id = .ok ()) ∧
    ∀ events : List Event, ∃ p, run db.processStep (.stopped s) events = some p ∧
      ∃ t, newInfluxAdapter db p.database = .ok t := by
  refine ⟨fun ts => ?_, fun t order points id hid => ?_, fun events => ?_⟩
  · exact checkShardId_of_isShardId (isShardId_shardOf ts.le_toInt ts.toInt_lt)
  · exact checkShardId_of_isShardId (isShardId_of_createShard hid)
  · have halignedStart : db.Aligned (Process.stopped s).database := by
      intro id hid
      rw [Process.database, hempty] at hid
      cases hid
    obtain ⟨p, hrun, haligned⟩ := run_total db.processStep
      (I := fun p => db.Aligned p.database) processStep_aligned events halignedStart
    obtain ⟨t, hnew, -⟩ := Aligned.newInfluxAdapter haligned
    exact ⟨p, hrun, t, hnew⟩

/-- The process ends after it has created the shard of a point in the first day of the range,
    and is started again. -/
theorem restart_never_panics_firstDay :
    scriptedStore.shardIDs ⟨[], []⟩ = [] ∧ ∃ p, run scriptedStore.processStep (.stopped ⟨[], []⟩)
        [.start, .kill (.write (.first 0) [⟨lit "load", Int64.minValue + 2, 0, ∅⟩]) 1, .start] =
          some p ∧
      ∃ t, newInfluxAdapter scriptedStore p.database = .ok t :=
  ⟨rfl, (restart_never_panics rfl).2.2 _⟩

end FallibleStore

end MetricStore.Persistence
