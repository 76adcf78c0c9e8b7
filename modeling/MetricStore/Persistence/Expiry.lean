import MetricStore.Common.Window
import MetricStore.Persistence.Retention

/-!
# Expiry over time

Model of the part of `Store` (`pkg/persistence/store.go`, lines 153–209) that removes old data
while points are written. `periodicExpiry` calls `deleteExpiredData` at the start and with every
tick. That call first deletes the shards older than the retention period, then asks how much of
the disk is free, and deletes the oldest shard if it is too little. Writes may come in between.

A step is a call of the adapter, and the calls of the database succeed. The times and what
`diskFreeReporter` says are inputs; percentages are rational numbers. `emitStorageDurationMetric`
is in `Persistence.ContiguousShards`.

What the store is for is a `Window` of the points written: a pass removes the days up to a
cutoff, and pressure on the disk removes the earliest day.

Results, for points from 1970 on:
* `store_refines_window`: at every moment of every run, the points stored are those of the
  window, in one shard for each day.
* `retained_iff`: without pressure, a point stored stays exactly until a pass whose cutoff,
  moved back by a minute, is on the point's day or later. So a pass removes every point that
  is older than the retention period by a minute, and with them younger ones of the same day.
* `pressure_removes_days`: each check under pressure removes one day, the earliest, until there
  is none, today's not excepted; each is counted, whether or not there was a day left.
-/

namespace MetricStore.Persistence

open MetricStore.Common InfluxAdapter

/-! ## Model -/

/-- `UNCONFIGURED_RETENTION_PERIOD` and `UNCONFIGURED_DISK_FREE_PERCENT_TARGET`. -/
def unconfigured : ℤ := -1

/-- `RetentionConfig` (lines 28–32), without the frequency of the passes. -/
structure RetentionConfig where
  retentionPeriod : Int64
  diskFreePercentTarget : ℚ

/-- `Store`: its adapter and two counters. -/
structure Store (σ : Type) where
  adapter : InfluxAdapter σ
  expiredShardsTotal : ℕ
  prunedShardsTotal : ℕ

/-- What happens: a write that returns nil, and the two halves of `deleteExpiredData`. -/
inductive StoreAct
  | write (order : MapOrder ℤ) (points : List Rpc.Point)
  | expire (now : ℤ)
  | checkDisk (diskFree : Except Bytes ℚ)

namespace RetentionConfig

/-- `time.Now().Add(-store.expiryConfig.RetentionPeriod)` as `UnixNano` (lines 175, 195). -/
def cutoff (config : RetentionConfig) (now : ℤ) : Int64 :=
  Int64.ofInt (now - config.retentionPeriod.toInt)

/-- Whether `deleteExpiredData` deletes the oldest shard (lines 180–187). -/
def underPressure (config : RetentionConfig) (diskFree : Except Bytes ℚ) : Bool :=
  if config.diskFreePercentTarget > unconfigured then
    match diskFree with
    | .error _ => false
    | .ok diskFree => diskFree < config.diskFreePercentTarget
  else false

end RetentionConfig

namespace Store

variable {σ : Type} (db : ShardStore σ) (config : RetentionConfig)

/-- `deleteOlderThan` (lines 194–201). -/
def deleteOlderThan (s : Store σ) (cutoff : Int64) : Store σ :=
  let r := s.adapter.deleteOlderThan db cutoff
  { s with adapter := r.1, expiredShardsTotal := s.expiredShardsTotal + r.2.1 }

/-- `deleteOldest` (lines 203–209). -/
def deleteOldest (s : Store σ) : Store σ :=
  { s with
    adapter := (s.adapter.deleteOldest db).1
    prunedShardsTotal := s.prunedShardsTotal + 1 }

/-- The first half of `deleteExpiredData` (lines 174–178). -/
def expire (s : Store σ) (now : ℤ) : Store σ :=
  if config.retentionPeriod.toInt > unconfigured then s.deleteOlderThan db (config.cutoff now)
  else s

/-- The second half of `deleteExpiredData` (lines 180–191). -/
def checkDisk (s : Store σ) (diskFree : Except Bytes ℚ) : Store σ :=
  if config.underPressure diskFree then s.deleteOldest db else s

/-- A step; `none` if the write does not return nil. -/
def step (s : Store σ) : StoreAct → Option (Store σ)
  | .write order points =>
    match s.adapter.writePoints db.toInfluxStore order points with
    | .ok (t, none) => some { s with adapter := t }
    | _ => none
  | .expire now => some (s.expire db config now)
  | .checkDisk diskFree => some (s.checkDisk db config diskFree)

/-- `NewStore` over an empty database. -/
def start (influx : σ) : Store σ := ⟨⟨[], influx⟩, 0, 0⟩

end Store

/-! ## Specification -/

/-- The start of the UTC day of a point. -/
def dayOf (p : Influx.Point) : ℤ := p.time - p.time % day

/-- What a step means for the window of the points. -/
def StoreAct.windowActs (config : RetentionConfig) : StoreAct → List (Window.Act Influx.Point ℤ)
  | .write _ points =>
    match toInfluxPoints points with
    | .ok influxPoints => [.write {p | p ∈ influxPoints}]
    | .error _ => []
  | .expire now =>
    if config.retentionPeriod.toInt > unconfigured then [.expire (cutoffDay (config.cutoff now))]
    else []
  | .checkDisk diskFree => if config.underPressure diskFree then [.prune] else []

/-- The window after the steps. -/
def window (config : RetentionConfig) (acts : List StoreAct) : Set Influx.Point :=
  Window.runActs dayOf (acts.flatMap (StoreAct.windowActs config)) ∅

/-- Points are from 1970 on, and the time of a cutoff is an `int64`, as is the start of its
    day. -/
def StoreAct.InRange (config : RetentionConfig) : StoreAct → Prop
  | .write _ points => ∀ point ∈ points, 0 ≤ point.timestamp
  | .expire now => -2 ^ 63 + minute + day ≤ now - config.retentionPeriod.toInt ∧
      now - config.retentionPeriod.toInt < 2 ^ 63
  | .checkDisk _ => True

/-- The store has the points of the window, in one shard for each day. -/
structure Refines {σ : Type} (db : ShardStore σ) (s : Store σ) (w : Set Influx.Point) : Prop where
  nodup : s.adapter.shards.Nodup
  times : ∀ p ∈ w, 0 ≤ p.time ∧ p.time < 2 ^ 63
  shards : ∀ id, id ∈ s.adapter.shards ↔ ∃ p ∈ w, id = shardOf p.time
  stored : ∀ id p, db.Stored s.adapter.influx id p ↔ p ∈ w ∧ id = shardOf p.time

/-! ## Refinement -/

section Refinement

variable {σ : Type} {db : ShardStore σ} {config : RetentionConfig} {s s' : Store σ}
  {w : Set Influx.Point}

theorem int64_shardOf_eq_dayOf {p : Influx.Point} (h₀ : 0 ≤ p.time) (h₁ : p.time < 2 ^ 63) :
    int64 (shardOf p.time) = dayOf p := by
  apply int64_shardOf _ h₁
  unfold day
  omega

theorem cutoffDay_cutoff {now : ℤ} (h : StoreAct.InRange config (.expire now)) :
    cutoffDay (config.cutoff now) = (now - config.retentionPeriod.toInt - minute) -
      (now - config.retentionPeriod.toInt - minute) % day := by
  obtain ⟨h₀, h₁⟩ := h
  have htoInt : (config.cutoff now).toInt = now - config.retentionPeriod.toInt := by
    apply Int64.toInt_ofInt_of_le
    · unfold minute day at h₀
      omega
    · exact h₁
  rw [cutoffDay, htoInt]

theorem le_cutoffDay {now : ℤ} (h : StoreAct.InRange config (.expire now)) :
    -2 ^ 63 ≤ cutoffDay (config.cutoff now) := by
  rw [cutoffDay_cutoff h]
  obtain ⟨h₀, -⟩ := h
  unfold minute day at *
  omega

namespace Refines

theorem isShardId (h : Refines db s w) {id : ℕ} (hid : id ∈ s.adapter.shards) :
    IsShardId id ∧ 0 ≤ int64 id := by
  obtain ⟨p, hp, rfl⟩ := (h.shards id).mp hid
  obtain ⟨h₀, h₁⟩ := h.times p hp
  refine ⟨isShardId_shardOf (by omega) h₁, ?_⟩
  rw [int64_shardOf_eq_dayOf h₀ h₁]
  unfold dayOf day
  omega

/-- After a deletion of shards, the points of the other shards are left. -/
theorem removes (h : Refines db s w) {t : InfluxAdapter σ} {gone : List ℕ}
    (hremoves : Removes db s.adapter t gone) (hnodup : t.shards.Nodup) {w' : Set Influx.Point}
    (hw' : ∀ p, p ∈ w' ↔ p ∈ w ∧ shardOf p.time ∉ gone) {expired pruned : ℕ} :
    Refines db ⟨t, expired, pruned⟩ w' := by
  obtain ⟨hshards, hcontents⟩ := hremoves
  refine ⟨hnodup, fun p hp => h.times p ((hw' p).mp hp).1, fun id => ?_, fun id p => ?_⟩
  · show id ∈ t.shards ↔ _
    rw [hshards, h.shards]
    constructor
    · rintro ⟨⟨p, hp, rfl⟩, hgone⟩
      exact ⟨p, (hw' p).mpr ⟨hp, hgone⟩, rfl⟩
    · rintro ⟨p, hp, rfl⟩
      obtain ⟨hp, hgone⟩ := (hw' p).mp hp
      exact ⟨⟨p, hp, rfl⟩, hgone⟩
  · show db.Stored t.influx id p ↔ _
    have hstored : db.Stored t.influx id p ↔ db.Stored s.adapter.influx id p ∧ id ∉ gone := by
      unfold ShardStore.Stored
      rw [hcontents]
      by_cases hid : id ∈ gone
      · simp [hid]
      · simp [hid]
    rw [hstored, h.stored, hw']
    constructor
    · rintro ⟨⟨hp, rfl⟩, hgone⟩
      exact ⟨⟨hp, hgone⟩, rfl⟩
    · rintro ⟨⟨hp, hgone⟩, rfl⟩
      exact ⟨⟨hp, rfl⟩, hgone⟩

/-- A write adds its points. -/
theorem write (h : Refines db s w) {t : InfluxAdapter σ} {points : List Rpc.Point}
    {influxPoints : List Influx.Point} (hpoints : toInfluxPoints points = .ok influxPoints)
    (hrange : ∀ point ∈ points, 0 ≤ point.timestamp)
    (hwritten : Written db s.adapter t (influxPoints.map fun p => shardOf p.time)
      (fun id p => p ∈ influxPoints ∧ id = shardOf p.time)) :
    Refines db { s with adapter := t } (w ∪ {p | p ∈ influxPoints}) := by
  obtain ⟨hshards, hnodup, -, hstored⟩ := hwritten
  refine ⟨hnodup h.nodup, ?_, fun id => ?_, fun id p => ?_⟩
  · rintro p (hp | hp)
    · exact h.times p hp
    · obtain ⟨point, hmem, hpoint⟩ := exists_of_mem_toInfluxPoints hpoints hp
      rw [time_toInfluxPoint hpoint]
      exact ⟨Int64.le_iff_toInt_le.mp (hrange point hmem), point.timestamp.toInt_lt⟩
  · show id ∈ t.shards ↔ _
    rw [hshards, h.shards, List.mem_map]
    constructor
    · rintro (⟨p, hp, rfl⟩ | ⟨p, hp, rfl⟩)
      · exact ⟨p, Or.inl hp, rfl⟩
      · exact ⟨p, Or.inr hp, rfl⟩
    · rintro ⟨p, hp | hp, rfl⟩
      · exact Or.inl ⟨p, hp, rfl⟩
      · exact Or.inr ⟨p, hp, rfl⟩
  · show db.Stored t.influx id p ↔ _
    rw [hstored, h.stored, Set.mem_union, or_and_right]
    rfl

/-- A pass removes the days up to the cutoff. -/
theorem deleteOlderThan (h : Refines db s w) (hok : ∀ id s, (db.deleteShard id s).2 = none)
    {cutoff : Int64} (hcutoff : -2 ^ 63 ≤ cutoffDay cutoff) :
    Refines db (s.deleteOlderThan db cutoff) (Window.expire dayOf (cutoffDay cutoff) w) := by
  have hstraddles : ¬ Straddles s.adapter (cutoffDay cutoff) := by
    rintro ⟨-, id, hid, hneg, -⟩
    have := (h.isShardId hid).2
    omega
  obtain ⟨hremoves, -⟩ := (deletesOlderThan_iff hok h.nodup
    (fun id hid => (h.isShardId hid).1) cutoff).mpr ⟨Or.inr hcutoff, hstraddles⟩
  obtain ⟨gone, hshards, -⟩ := deleteWhile_deleted db (adjustedCutoff cutoff)
    s.adapter.shardIDsOldestSort s.adapter 0
  apply h.removes hremoves
  · show (deleteWhile db _ _ _ _).1.shards.Nodup
    rw [hshards]
    exact h.nodup.filter _
  · intro p
    show p ∈ w ∧ cutoffDay cutoff < dayOf p ↔ _
    apply and_congr_right
    intro hp
    have hshard : shardOf p.time ∈ s.adapter.shards := (h.shards _).mpr ⟨p, hp, rfl⟩
    obtain ⟨h₀, h₁⟩ := h.times p hp
    rw [List.mem_filter, decide_eq_true_eq, int64_shardOf_eq_dayOf h₀ h₁, ← not_le]
    simp [hshard]

/-- A check under pressure removes the earliest day. -/
theorem deleteOldest (h : Refines db s w) (hok : ∀ id s, (db.deleteShard id s).2 = none) :
    Refines db (s.deleteOldest db) (Window.prune dayOf w) := by
  by_cases hnil : s.adapter.shards = []
  · -- there is nothing to delete
    have hempty : ∀ p, p ∉ w := by
      intro p hp
      have hshard := (h.shards (shardOf p.time)).mpr ⟨p, hp, rfl⟩
      rw [hnil] at hshard
      cases hshard
    have hsame : (s.adapter.deleteOldest db).1 = s.adapter := by
      have hids : s.adapter.shardIDs = [] := by
        unfold shardIDs
        rw [hnil]
        rfl
      unfold InfluxAdapter.deleteOldest deleteOldestWith oldestShardID
      rw [hids]
      rfl
    have hprune : Window.prune dayOf w = w := by
      ext p
      exact ⟨fun hp => hp.1, fun hp => absurd hp (hempty p)⟩
    unfold Store.deleteOldest
    rw [hsame, hprune]
    exact ⟨h.nodup, h.times, h.shards, h.stored⟩
  · obtain ⟨id, hid, hearliest, hremoves, -⟩ := (deletesOldest_iff hok
      (fun id hid => (h.isShardId hid).1) hnil).mpr (Or.inl fun id hid => (h.isShardId hid).2)
    obtain ⟨gone, hshards, -⟩ := deleteOldest_deleted db s.adapter
    obtain ⟨q, hq, rfl⟩ := (h.shards id).mp hid
    obtain ⟨hq₀, hq₁⟩ := h.times q hq
    apply h.removes hremoves
    · rw [hshards]
      exact h.nodup.filter _
    · intro p
      show p ∈ w ∧ (∃ y ∈ w, dayOf y < dayOf p) ↔ _
      apply and_congr_right
      intro hp
      obtain ⟨h₀, h₁⟩ := h.times p hp
      have hshard : shardOf p.time ∈ s.adapter.shards := (h.shards _).mpr ⟨p, hp, rfl⟩
      have hday := int64_shardOf_eq_dayOf h₀ h₁
      have hqday := int64_shardOf_eq_dayOf hq₀ hq₁
      rw [List.mem_singleton]
      constructor
      · rintro ⟨y, hy, hlt⟩ heq
        obtain ⟨hy₀, hy₁⟩ := h.times y hy
        have hle := hearliest _ ((h.shards _).mpr ⟨y, hy, rfl⟩)
        rw [int64_shardOf_eq_dayOf hy₀ hy₁, ← heq, hday] at hle
        omega
      · intro hne
        refine ⟨q, hq, ?_⟩
        have hle := hearliest _ hshard
        have hdiff : int64 (shardOf p.time) ≠ int64 (shardOf q.time) := by
          intro heq
          exact hne (int64_injective (h.isShardId hshard).1.1 (h.isShardId hid).1.1 heq)
        omega

end Refines

/-- **A step** of the store is one of the window. -/
theorem Refines.step (h : Refines db s w) (hok : ∀ id s, (db.deleteShard id s).2 = none)
    {a : StoreAct} (hrange : a.InRange config) (hstep : s.step db config a = some s') :
    Refines db s' (Window.runActs dayOf (a.windowActs config) w) := by
  cases a with
  | write order points =>
    simp only [Store.step] at hstep
    split at hstep
    · next t hwrite =>
      cases hstep
      obtain ⟨influxPoints, hpoints, hwritten⟩ := writePoints_written hwrite
      simp only [StoreAct.windowActs, hpoints]
      exact h.write hpoints hrange hwritten
    · cases hstep
  | expire now =>
    cases hstep
    simp only [Store.expire, StoreAct.windowActs]
    split_ifs
    · exact h.deleteOlderThan hok (le_cutoffDay hrange)
    · exact h
  | checkDisk diskFree =>
    cases hstep
    simp only [Store.checkDisk, StoreAct.windowActs]
    split_ifs
    · exact h.deleteOldest hok
    · exact h

theorem Refines.run (hok : ∀ id s, (db.deleteShard id s).2 = none) {acts : List StoreAct}
    (hrange : ∀ a ∈ acts, a.InRange config) (h : Refines db s w)
    (hrun : run (Store.step db config) s acts = some s') :
    Refines db s' (Window.runActs dayOf (acts.flatMap (StoreAct.windowActs config)) w) := by
  induction acts generalizing s w with
  | nil =>
    cases hrun
    exact h
  | cons a acts ih =>
    obtain ⟨s₁, hstep, hrun⟩ := (run_cons_eq_some _).mp hrun
    obtain ⟨ha, hrange⟩ := List.forall_mem_cons.mp hrange
    rw [List.flatMap_cons, Window.runActs_append]
    exact ih hrange (h.step hok ha hstep) hrun

theorem start_refines {influx : σ} (hempty : ∀ id, db.contents influx id = none) :
    Refines db (Store.start influx) ∅ := by
  refine ⟨List.nodup_nil, fun p hp => hp.elim, fun id => ?_, fun id p => ?_⟩
  · simp [Store.start]
  · simp [Store.start, ShardStore.Stored, hempty]

end Refinement

/-! ## Whole runs -/

section Runs

variable {σ : Type} {config : RetentionConfig}

/-- **The store is a window.** At every moment of every run of writes, passes and checks of the
    disk, if the calls of the database succeed and all points are from 1970 on: the points stored
    are those of the window, each in the shard of its day, and there is a shard for exactly the
    days that have points. -/
theorem store_refines_window (db : ShardStore σ) (hok : ∀ id s, (db.deleteShard id s).2 = none)
    {influx : σ} (hempty : ∀ id, db.contents influx id = none) {acts : List StoreAct}
    (hrange : ∀ a ∈ acts, a.InRange config) {s : Store σ}
    (hrun : run (Store.step db config) (.start influx) acts = some s) :
    Refines db s (window config acts) :=
  (start_refines hempty).run hok hrange hrun

/-- A retention period of a week, and a fifth of the disk. -/
def weekConfig : RetentionConfig := ⟨604800000000000, 20⟩

/-- A point at noon of the tenth day, and a write of it. -/
def noonPoint : Rpc.Point := ⟨lit "up", 907200000000000, 0, ∅⟩

def writeNoon : StoreAct := .write ⟨fun keys => keys, fun _ => .refl _⟩ [noonPoint]

theorem writeNoon_inRange : writeNoon.InRange weekConfig := by
  unfold writeNoon StoreAct.InRange
  decide

theorem run_writeNoon :
    ∃ s, run (Store.step memoryStore weekConfig) (.start ∅) [writeNoon] = some s ∧
      s.adapter.shards.length = 1 := by
  have hall : ∃ s ∈ run (Store.step memoryStore weekConfig) (.start ∅) [writeNoon],
      s.adapter.shards.length = 1 := by decide
  obtain ⟨s, hrun, hlength⟩ := hall
  exact ⟨s, hrun, hlength⟩

/-- Points of three days in a row. Then a pass on the seventeenth day, for which the first day is
    too old, and a check that finds a tenth of the disk free. -/
def threeDays : List StoreAct :=
  [writeNoon,
    .write ⟨fun keys => keys, fun _ => .refl _⟩ [⟨lit "up", 993600000000000, 1, ∅⟩],
    .write ⟨fun keys => keys, fun _ => .refl _⟩ [⟨lit "up", 1080000000000000, 2, ∅⟩],
    .expire 1501200000000000, .checkDisk (.ok 10)]

theorem threeDays_inRange : ∀ a ∈ threeDays, a.InRange weekConfig := by
  simp only [threeDays, List.forall_mem_cons]
  have hwrite (order : MapOrder ℤ) (point : Rpc.Point) (h : 0 ≤ point.timestamp) :
      (StoreAct.write order [point]).InRange weekConfig := by
    simpa [StoreAct.InRange] using h
  exact ⟨writeNoon_inRange, hwrite _ _ (by decide), hwrite _ _ (by decide),
    ⟨by decide, by decide⟩, trivial, List.forall_mem_nil _⟩

/-- The pass removes the first day and the check the second. -/
theorem store_refines_window_threeDays :
    ∃ s, run (Store.step memoryStore weekConfig) (.start ∅) threeDays = some s ∧
      s.adapter.shards = [1036800000000000] ∧ s.expiredShardsTotal = 1 ∧
      s.prunedShardsTotal = 1 ∧ Refines memoryStore s (window weekConfig threeDays) := by
  have hall : ∃ s ∈ run (Store.step memoryStore weekConfig) (.start ∅) threeDays,
      s.adapter.shards = [1036800000000000] ∧ s.expiredShardsTotal = 1 ∧
        s.prunedShardsTotal = 1 := by decide
  obtain ⟨s, hrun, hshards, hexpired, hpruned⟩ := hall
  exact ⟨s, hrun, hshards, hexpired, hpruned,
    store_refines_window memoryStore (fun _ _ => rfl) (fun _ => rfl) threeDays_inRange hrun⟩

/-- The write adds the point. -/
def StoreAct.Writes (p : Influx.Point) : StoreAct → Prop
  | .write _ points => ∃ influxPoints, toInfluxPoints points = .ok influxPoints ∧ p ∈ influxPoints
  | _ => False

theorem mem_windowActs_write {a : StoreAct} {new : Set Influx.Point}
    (h : .write new ∈ a.windowActs config) {p : Influx.Point} (hp : p ∈ new) : a.Writes p := by
  cases a with
  | write order points =>
    simp only [StoreAct.windowActs] at h
    split at h
    · next influxPoints hpoints =>
      cases List.mem_singleton.mp h
      exact ⟨influxPoints, hpoints, hp⟩
    · cases h
  | expire now =>
    simp only [StoreAct.windowActs] at h
    split_ifs at h
    · cases List.mem_singleton.mp h
    · cases h
  | checkDisk diskFree =>
    simp only [StoreAct.windowActs] at h
    split_ifs at h
    · cases List.mem_singleton.mp h
    · cases h

theorem mem_windowActs_expire {a : StoreAct} {cutoff : ℤ} :
    .expire cutoff ∈ a.windowActs config ↔ ∃ now, a = .expire now ∧
      config.retentionPeriod.toInt > unconfigured ∧ cutoff = cutoffDay (config.cutoff now) := by
  cases a with
  | write order points =>
    simp only [StoreAct.windowActs]
    split <;> simp
  | expire now =>
    simp only [StoreAct.windowActs]
    split_ifs with hconfigured
    · simp [hconfigured]
    · simp [hconfigured]
  | checkDisk diskFree =>
    simp only [StoreAct.windowActs]
    split_ifs <;> simp

theorem mem_windowActs_prune {a : StoreAct} (h : .prune ∈ a.windowActs config) :
    ∃ diskFree, a = .checkDisk diskFree ∧ config.underPressure diskFree = true := by
  cases a with
  | write order points =>
    simp only [StoreAct.windowActs] at h
    split at h <;> simp at h
  | expire now =>
    simp only [StoreAct.windowActs] at h
    split_ifs at h <;> simp at h
  | checkDisk diskFree =>
    simp only [StoreAct.windowActs] at h
    split_ifs at h with hpressure
    · exact ⟨diskFree, rfl, hpressure⟩
    · cases h

/-- The point is stored. -/
def Store.Has (db : ShardStore σ) (s : Store σ) (p : Influx.Point) : Prop :=
  db.Stored s.adapter.influx (shardOf p.time) p

theorem Refines.has_iff {db : ShardStore σ} {s : Store σ} {w : Set Influx.Point}
    (h : Refines db s w) (p : Influx.Point) : s.Has db p ↔ p ∈ w := by
  rw [Store.Has, h.stored]
  exact ⟨And.left, fun hp => ⟨hp, rfl⟩⟩

/-- **How long a point is kept.** A point stored in a reachable state is stored after more
    steps without pressure on the disk, and without a write of the same point, exactly if in
    every pass since then the time one retention period and one minute ago was on an earlier
    day than the point's.

    So a point is gone after a pass at which it is older than that, and is there as long as it
    is younger by a day; in between, its day decides. -/
theorem retained_iff (db : ShardStore σ) (hok : ∀ id s, (db.deleteShard id s).2 = none)
    {influx : σ} (hempty : ∀ id, db.contents influx id = none) {before after : List StoreAct}
    (hrange : ∀ a ∈ before ++ after, a.InRange config)
    (hconfigured : config.retentionPeriod.toInt > unconfigured) {s s' : Store σ}
    (hrun : run (Store.step db config) (.start influx) before = some s)
    (hrun' : run (Store.step db config) s after = some s')
    (hdisk : ∀ diskFree, .checkDisk diskFree ∈ after → config.underPressure diskFree = false)
    {p : Influx.Point} (hp : s.Has db p) (hnew : ∀ a ∈ after, ¬ a.Writes p) :
    let age (now : ℤ) := now - config.retentionPeriod.toInt - minute
    (s'.Has db p ↔ ∀ now, .expire now ∈ after → age now - age now % day < dayOf p) ∧
      ((∃ now, .expire now ∈ after ∧ p.time < age now) → ¬ s'.Has db p) ∧
      ((∀ now, .expire now ∈ after → age now + day ≤ p.time) → s'.Has db p) := by
  intro age
  have hbefore : ∀ a ∈ before, a.InRange config :=
    fun a ha => hrange a (List.mem_append_left _ ha)
  have hafter : ∀ a ∈ after, a.InRange config := fun a ha => hrange a (List.mem_append_right _ ha)
  have href := (start_refines hempty).run hok hbefore hrun
  have href' := href.run hok hafter hrun'
  have hcutoff : ∀ now, .expire now ∈ after →
      cutoffDay (config.cutoff now) = age now - age now % day :=
    fun now hnow => cutoffDay_cutoff (hafter _ hnow)
  have hexact : s'.Has db p ↔ ∀ now, .expire now ∈ after → age now - age now % day < dayOf p := by
    rw [href'.has_iff, Window.mem_run_iff dayOf _ _ ((href.has_iff p).mp hp)]
    · constructor
      · intro hall now hnow
        rw [← hcutoff now hnow]
        apply hall
        rw [List.mem_flatMap]
        exact ⟨_, hnow, mem_windowActs_expire.mpr ⟨now, rfl, hconfigured, rfl⟩⟩
      · intro hall cutoff hmem
        obtain ⟨a, ha, hmem⟩ := List.mem_flatMap.mp hmem
        obtain ⟨now, rfl, -, rfl⟩ := mem_windowActs_expire.mp hmem
        rw [hcutoff now ha]
        exact hall now ha
    · intro hmem
      obtain ⟨a, ha, hmem⟩ := List.mem_flatMap.mp hmem
      obtain ⟨diskFree, rfl, hpressure⟩ := mem_windowActs_prune hmem
      rw [hdisk diskFree ha] at hpressure
      cases hpressure
    · intro new hmem hpnew
      obtain ⟨a, ha, hmem⟩ := List.mem_flatMap.mp hmem
      exact hnew a ha (mem_windowActs_write hmem hpnew)
  refine ⟨hexact, ?_, fun hyoung => hexact.mpr fun now hnow => ?_⟩
  · rintro ⟨now, hnow, hold⟩ hhas
    have hlater := hexact.mp hhas now hnow
    have hmono : p.time / day ≤ age now / day := Int.ediv_le_ediv (by decide) hold.le
    have h₁ := Int.emod_add_mul_ediv p.time day
    have h₂ := Int.emod_add_mul_ediv (age now) day
    unfold dayOf at hlater
    unfold day at *
    omega
  · have hnext := hyoung now hnow
    have h₁ := Int.emod_nonneg (age now) (show day ≠ 0 by decide)
    have h₂ := Int.emod_lt_of_pos p.time (show 0 < day by decide)
    unfold dayOf
    omega

theorem has_noon {s : Store _}
    (hrun : run (Store.step memoryStore weekConfig) (.start ∅) [writeNoon] = some s) :
    ∃ p, s.Has memoryStore p ∧ p.time = 907200000000000 := by
  obtain ⟨p, hp⟩ : ∃ p, toInfluxPoint noonPoint = .ok p := ⟨_, rfl⟩
  have href := (start_refines fun _ => rfl).run (fun _ _ => rfl)
    (fun a ha => List.mem_singleton.mp ha ▸ writeNoon_inRange) hrun
  have hpoints : toInfluxPoints [noonPoint] = .ok [p] := by
    rw [toInfluxPoints, hp]
    rfl
  have hwindow : p ∈ Window.runActs dayOf (writeNoon.windowActs weekConfig) ∅ := by
    rw [writeNoon, StoreAct.windowActs, hpoints]
    exact Or.inr (List.mem_singleton_self p)
  refine ⟨p, (href.has_iff p).mpr ?_, time_toInfluxPoint hp⟩
  rw [List.flatMap_singleton]
  exact hwindow

/-- At nine on the seventeenth day, the point from noon of the tenth is younger than a week, and
    is gone after the pass. -/
theorem retained_iff_noon :
    ∃ s s' p, run (Store.step memoryStore weekConfig) (.start ∅) [writeNoon] = some s ∧
      run (Store.step memoryStore weekConfig) s [.expire 1501200000000000] = some s' ∧
      s.Has memoryStore p ∧ 1501200000000000 - p.time < weekConfig.retentionPeriod.toInt ∧
      ¬ s'.Has memoryStore p := by
  obtain ⟨s, hrun, -⟩ := run_writeNoon
  obtain ⟨p, hp, htime⟩ := has_noon hrun
  have hrange : ∀ a ∈ [writeNoon] ++ [.expire 1501200000000000], a.InRange weekConfig := by
    intro a ha
    simp only [List.cons_append, List.nil_append, List.mem_cons, List.not_mem_nil, or_false] at ha
    rcases ha with rfl | rfl
    · exact writeNoon_inRange
    · exact ⟨by decide, by decide⟩
  have hiff := (retained_iff memoryStore (fun _ _ => rfl) (fun _ => rfl) hrange (by decide) hrun
    (show run _ s [StoreAct.expire 1501200000000000] = some _ from rfl) (by simp) hp (by
      simp [StoreAct.Writes])).1
  refine ⟨s, _, p, hrun, rfl, hp, by rw [htime]; decide, fun hhas => ?_⟩
  have hlater := hiff.mp hhas 1501200000000000 (List.mem_singleton_self _)
  unfold dayOf at hlater
  rw [htime] at hlater
  exact absurd hlater (by decide)

/-- The days before the point's that have points. -/
def Store.earlierDays (db : ShardStore σ) (s : Store σ) (p : Influx.Point) : Set ℤ :=
  {d | d < dayOf p ∧ ∃ q, s.Has db q ∧ dayOf q = d}

section Pressure

variable {db : ShardStore σ} {s s' : Store σ} {w : Set Influx.Point}

theorem Refines.earlierDays_eq (h : Refines db s w) (p : Influx.Point) :
    s.earlierDays db p = Window.below dayOf w p := by
  ext d
  constructor
  · rintro ⟨hlt, q, hq, rfl⟩
    exact ⟨⟨q, (h.has_iff q).mp hq, rfl⟩, hlt⟩
  · rintro ⟨⟨q, hq, rfl⟩, hlt⟩
    exact ⟨hlt, q, (h.has_iff q).mpr hq, rfl⟩

/-- The days of the points are those of the shards. -/
theorem Refines.days_eq (h : Refines db s w) :
    dayOf '' w = (s.adapter.shards.map int64).toFinset := by
  ext d
  rw [List.coe_toFinset, Set.mem_ofPred_eq, List.mem_map]
  constructor
  · rintro ⟨p, hp, rfl⟩
    obtain ⟨h₀, h₁⟩ := h.times p hp
    exact ⟨_, (h.shards _).mpr ⟨p, hp, rfl⟩, int64_shardOf_eq_dayOf h₀ h₁⟩
  · rintro ⟨id, hid, rfl⟩
    obtain ⟨p, hp, rfl⟩ := (h.shards id).mp hid
    obtain ⟨h₀, h₁⟩ := h.times p hp
    exact ⟨p, hp, (int64_shardOf_eq_dayOf h₀ h₁).symm⟩

theorem Refines.days_finite (h : Refines db s w) : (dayOf '' w).Finite := by
  rw [h.days_eq]
  exact Finset.finite_toSet _

/-- A point has fewer earlier days than there are shards. -/
theorem Refines.earlierDays_lt (h : Refines db s w) {p : Influx.Point} (hp : p ∈ w) :
    (Window.below dayOf w p).ncard < s.adapter.shards.length := by
  have hsub : Window.below dayOf w p ⊂ dayOf '' w := by
    refine ⟨Set.inter_subset_left, fun hall => ?_⟩
    have hself : dayOf p < dayOf p := (hall ⟨p, hp, rfl⟩).2
    omega
  have hlt := Set.ncard_lt_ncard hsub h.days_finite
  rw [h.days_eq, Set.ncard_coe_finset] at hlt
  have hcard := List.toFinset_card_le (s.adapter.shards.map int64)
  rw [List.length_map] at hcard
  omega

/-- Checks under pressure, one after the other. -/
theorem run_checks {checks : List (Except Bytes ℚ)}
    (hpressure : ∀ diskFree ∈ checks, config.underPressure diskFree = true) (s : Store σ) :
    run (Store.step db config) s (checks.map .checkDisk) =
      some ((fun s => s.deleteOldest db)^[checks.length] s) := by
  induction checks generalizing s with
  | nil => rfl
  | cons diskFree checks ih =>
    obtain ⟨hfirst, hrest⟩ := List.forall_mem_cons.mp hpressure
    rw [List.map_cons, List.length_cons, Function.iterate_succ_apply, run_cons_eq_some]
    refine ⟨s.deleteOldest db, ?_, ih hrest _⟩
    simp only [Store.step, Store.checkDisk, hfirst, if_true]

theorem iterate_deleteOldest (hok : ∀ id s, (db.deleteShard id s).2 = none) (h : Refines db s w)
    (n : ℕ) :
    Refines db ((fun s => s.deleteOldest db)^[n] s) ((Window.prune dayOf)^[n] w) ∧
      ((fun s => s.deleteOldest db)^[n] s).prunedShardsTotal = s.prunedShardsTotal + n := by
  induction n with
  | zero => exact ⟨h, rfl⟩
  | succ n ih =>
    rw [Function.iterate_succ_apply', Function.iterate_succ_apply']
    exact ⟨ih.1.deleteOldest hok, congrArg (· + 1) ih.2⟩

end Pressure

/-- **Pressure on the disk.** From a reachable state, `n` checks in a row that find too little
    free space leave the points that have at least `n` earlier days with points: each removes the
    earliest day that is left. After as many checks as there are shards nothing is left, not
    even the points of today. The counter of pruned shards is increased by every check. -/
theorem pressure_removes_days (db : ShardStore σ) (hok : ∀ id s, (db.deleteShard id s).2 = none)
    {influx : σ} (hempty : ∀ id, db.contents influx id = none) {acts : List StoreAct}
    (hrange : ∀ a ∈ acts, a.InRange config) {s : Store σ}
    (hrun : run (Store.step db config) (.start influx) acts = some s)
    {checks : List (Except Bytes ℚ)}
    (hpressure : ∀ diskFree ∈ checks, config.underPressure diskFree = true) :
    ∃ s', run (Store.step db config) s (checks.map .checkDisk) = some s' ∧
      (∀ p, s'.Has db p ↔ s.Has db p ∧ checks.length ≤ (s.earlierDays db p).ncard) ∧
      (s.adapter.shards.length ≤ checks.length → ∀ p, ¬ s'.Has db p) ∧
      s'.prunedShardsTotal = s.prunedShardsTotal + checks.length := by
  have href := (start_refines hempty).run hok hrange hrun
  obtain ⟨href', hcount⟩ := iterate_deleteOldest hok href checks.length
  have hexact : ∀ p, ((fun s => s.deleteOldest db)^[checks.length] s).Has db p ↔
      s.Has db p ∧ checks.length ≤ (s.earlierDays db p).ncard := by
    intro p
    rw [href'.has_iff, href.has_iff, href.earlierDays_eq,
      Window.mem_prune_iterate_iff dayOf href.days_finite]
  refine ⟨_, run_checks hpressure s, hexact, fun hmany p hp => ?_, hcount⟩
  obtain ⟨hhas, hle⟩ := (hexact p).mp hp
  have hlt := href.earlierDays_lt ((href.has_iff p).mp hhas)
  rw [← href.earlierDays_eq] at hlt
  omega

/-- One check under pressure, and the only day is gone. -/
theorem pressure_removes_days_noon :
    ∃ s s' p, run (Store.step memoryStore weekConfig) (.start ∅) [writeNoon] = some s ∧
      run (Store.step memoryStore weekConfig) s [.checkDisk (.ok 10)] = some s' ∧
      s.Has memoryStore p ∧ ¬ s'.Has memoryStore p ∧ s'.prunedShardsTotal = 1 := by
  obtain ⟨s, hrun, hlength⟩ := run_writeNoon
  obtain ⟨p, hp, -⟩ := has_noon hrun
  have hpressure : ∀ diskFree ∈ [(.ok 10 : Except Bytes ℚ)],
      weekConfig.underPressure diskFree = true := by
    intro diskFree hmem
    cases List.mem_singleton.mp hmem
    decide
  obtain ⟨s', hrun', -, hnone, hcount⟩ := pressure_removes_days memoryStore (fun _ _ => rfl)
    (fun _ => rfl) (fun a ha => List.mem_singleton.mp ha ▸ writeNoon_inRange) hrun hpressure
  have hzero : s.prunedShardsTotal = 0 := by
    have hall : ∀ s ∈ run (Store.step memoryStore weekConfig) (.start ∅) [writeNoon],
        s.prunedShardsTotal = 0 := by decide
    exact hall s hrun
  refine ⟨s, s', p, hrun, hrun', hp, hnone (by rw [hlength]; rfl) p, ?_⟩
  rw [hcount, hzero]
  rfl

end Runs

end MetricStore.Persistence
