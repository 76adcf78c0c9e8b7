import MetricStore.Persistence.Shards

/-!
# Deletions that fail

`Delete`, `DeleteOldest` and `DeleteOlderThan` of `InfluxAdapter`
(`pkg/persistence/influx_adapter.go`, lines 205–235) take a shard out of the adapter's set
before they ask the database to delete it, whatever the database answers. `DeleteOldest` drops
the answer of its first `DeleteShard` and asks once more.

`FallibleStore` is a database in which `DeleteShard` may fail at any time and leave the shard
where it is, or not. The deletions are those of `Shards`, for any such database.

Results:
* `sound_iff`: a call keeps every shard of the database in the adapter's set, and reports a
  failure exactly if there was one, exactly if it is safe: no shard stays in the database
  after a failed `DeleteShard`, and where the first of the two calls of `DeleteOldest` fails
  so does the second.
* `deletions_sound_iff`: the same for whole runs.
* `failed_deletion_forgotten`: a shard that the database keeps, and an error that is lost.
-/

namespace MetricStore.Persistence

open MetricStore.Common

/-! ## A database with failing deletions -/

/-- The calls of `InfluxStore` (lines 22–33) that add and delete shards; `shardIDs` is
    `ShardIDs`. Only `CreateShard` adds a shard, and a shard is gone when `DeleteShard` has
    returned nil. Nothing is said about a `DeleteShard` that returns an error. -/
structure FallibleStore (σ : Type) extends InfluxStore σ where
  deleteShard : ℕ → σ → σ × Option Bytes
  shardIDs : σ → List ℕ
  createShard_ids : ∀ id s, ∀ id' ∈ shardIDs (createShard id s).1, id' = id ∨ id' ∈ shardIDs s
  writeToShard_ids : ∀ id points s, ∀ id' ∈ shardIDs (writeToShard id points s).1, id' ∈ shardIDs s
  deleteShard_ids : ∀ id s, ∀ id' ∈ shardIDs (deleteShard id s).1, id' ∈ shardIDs s
  deleteShard_ok : ∀ id s, (deleteShard id s).2 = none → id ∉ shardIDs (deleteShard id s).1

variable {σ : Type}

namespace InfluxAdapter

section Deletions

variable (deleteShard : ℕ → σ → σ × Option Bytes)

/-- A call of `DeleteShard`: for which shard, and in which state of the database. -/
structure DeleteCall (σ : Type) where
  id : ℕ
  before : σ

/-- The state of the database and the error after the call. -/
def DeleteCall.result (c : DeleteCall σ) : σ × Option Bytes := deleteShard c.id c.before

/-- The calls that the loop of `DeleteOlderThan` makes. -/
def whileCalls (adjustedCutoff : ℤ) : List ℕ → σ → List (DeleteCall σ)
  | [], _ => []
  | shardID :: ids, s =>
    if adjustedCutoff < int64 shardID then []
    else
      ⟨shardID, s⟩ :: match deleteShard shardID s with
        | (_, some _) => []
        | (s, none) => whileCalls adjustedCutoff ids s

/-- The calls of `DeleteShard` that `op` makes. -/
def deleteCalls (t : InfluxAdapter σ) : Op → List (DeleteCall σ)
  | .write _ _ => []
  | .delete shardID => [⟨shardID, t.influx⟩]
  | .deleteOldest =>
    match t.oldestShardID with
    | .error _ => []
    | .ok shardId => [⟨shardId, t.influx⟩, ⟨shardId, (deleteShard shardId t.influx).1⟩]
  | .deleteOlderThan cutoff =>
    whileCalls deleteShard (adjustedCutoff cutoff) t.shardIDsOldestSort t.influx

end Deletions

end InfluxAdapter

/-! ## Runs -/

namespace FallibleStore

open InfluxAdapter

variable (db : FallibleStore σ)

/-- The adapter after a call, whether it returned an error or not; `none` if it panicked. -/
def step (t : InfluxAdapter σ) : Op → Option (InfluxAdapter σ)
  | .write order points =>
    match t.writePoints db.toInfluxStore order points with
    | .error _ => none
    | .ok (t', _) => some t'
  | .delete shardID => some (t.deleteWith db.deleteShard shardID).1
  | .deleteOldest => some (t.deleteOldestWith db.deleteShard).1
  | .deleteOlderThan cutoff => some (t.deleteOlderThanWith db.deleteShard cutoff).1

/-- Every shard that the database holds is in the adapter's set. -/
def Tracks (t : InfluxAdapter σ) : Prop := ∀ id ∈ db.shardIDs t.influx, id ∈ t.shards

instance (t : InfluxAdapter σ) : Decidable (db.Tracks t) :=
  inferInstanceAs (Decidable (∀ id ∈ db.shardIDs t.influx, _))

/-- The call returned an error. -/
def Fails (c : DeleteCall σ) : Prop := (c.result db.deleteShard).2 ≠ none

instance (c : DeleteCall σ) : Decidable (db.Fails c) := inferInstanceAs (Decidable (_ ≠ none))

/-- The shard is still there after the call. -/
def Keeps (c : DeleteCall σ) : Prop := c.id ∈ db.shardIDs (c.result db.deleteShard).1

instance (c : DeleteCall σ) : Decidable (db.Keeps c) := inferInstanceAs (Decidable (_ ∈ _))

/-- `DeleteOldest` and `DeleteOlderThan` return an error exactly if a call of `DeleteShard`
    did, or if there was no shard for `DeleteOldest`. -/
def Reports (t : InfluxAdapter σ) (op : Op) : Prop :=
  match op with
  | .deleteOldest => (t.deleteOldestWith db.deleteShard).2 ≠ none ↔
      t.shards = [] ∨ ∃ c ∈ t.deleteCalls db.deleteShard op, db.Fails c
  | .deleteOlderThan cutoff => (t.deleteOlderThanWith db.deleteShard cutoff).2.2 ≠ none ↔
      ∃ c ∈ t.deleteCalls db.deleteShard op, db.Fails c
  | _ => True

/-- After the call the adapter knows every shard of the database, and the call has reported
    what failed. -/
def Sound (t : InfluxAdapter σ) (op : Op) : Prop :=
  (∀ t' ∈ db.step t op, db.Tracks t') ∧ db.Reports t op

/-- No call of `DeleteShard` fails and leaves its shard in the database. Of the two calls of
    `DeleteOldest` the second counts, and it fails if the first one does. -/
def Safe (t : InfluxAdapter σ) (op : Op) : Prop :=
  match op with
  | .write _ _ => True
  | .deleteOldest => ∀ first second, t.deleteCalls db.deleteShard op = [first, second] →
      ¬ (db.Fails second ∧ db.Keeps second) ∧ (db.Fails first → db.Fails second)
  | op => ∀ c ∈ t.deleteCalls db.deleteShard op, ¬ (db.Fails c ∧ db.Keeps c)

variable {db} {t t' : InfluxAdapter σ}

theorem not_keeps_iff (c : DeleteCall σ) : ¬ (db.Fails c ∧ db.Keeps c) ↔ ¬ db.Keeps c := by
  refine ⟨fun h hkeeps => ?_, fun h hboth => h hboth.2⟩
  by_cases hfails : db.Fails c
  · exact h ⟨hfails, hkeeps⟩
  · exact db.deleteShard_ok c.id c.before (not_not.mp hfails) hkeeps

/-! ## Writes -/

theorem findOrCreateShard_tracks {ts : ℤ} {id : ℕ} (h : db.Tracks t)
    (hfound : t.findOrCreateShardForTimestamp db.toInfluxStore ts = .ok (t', id)) :
    db.Tracks t' := by
  unfold findOrCreateShardForTimestamp at hfound
  dsimp only at hfound
  split_ifs at hfound with hknown
  · cases hfound; exact h
  · split at hfound
    · cases hfound
    · next influx heq =>
      cases hfound
      intro id' hid'
      have hadded := db.createShard_ids _ _ id' (by rw [heq]; exact hid')
      rcases hadded with rfl | hold
      · exact List.mem_cons_self
      · exact List.mem_cons_of_mem _ (h id' hold)

theorem writeBuckets_tracks {pointBuckets : GoMap ℤ (List Influx.Point)} {keys : List ℤ}
    {err : Option Bytes} (h : db.Tracks t)
    (hwrite : writeBuckets db.toInfluxStore pointBuckets keys t = .ok (t', err)) :
    db.Tracks t' := by
  induction keys generalizing t with
  | nil => cases hwrite; exact h
  | cons k keys ih =>
    rw [writeBuckets] at hwrite
    split at hwrite
    · cases hwrite
    · next t₁ id hfound =>
      have htracks := findOrCreateShard_tracks h hfound
      have hnext : ∀ influx err', db.writeToShard id ((pointBuckets.lookup k).getD []) t₁.influx =
          (influx, err') → db.Tracks ⟨t₁.shards, influx⟩ := by
        intro influx err' heq id' hid'
        exact htracks id' (db.writeToShard_ids id _ _ id' (by rw [heq]; exact hid'))
      split at hwrite
      · next influx err' heq => cases hwrite; exact hnext influx _ heq
      · next influx heq => exact ih (hnext influx _ heq) hwrite

/-! ## Deletions -/

/-- Without `shardID` the adapter's set has all shards of the database exactly if that one is
    gone. -/
theorem tracks_filter_iff {s : σ} (h : ∀ id ∈ db.shardIDs s, id ∈ t.shards) (shardID : ℕ) :
    db.Tracks ⟨t.shards.filter (· ≠ shardID), s⟩ ↔ shardID ∉ db.shardIDs s := by
  have hmem : ∀ id, id ∈ t.shards.filter (· ≠ shardID) ↔ id ∈ t.shards ∧ id ≠ shardID := by simp
  constructor
  · intro htracks hkept
    exact ((hmem shardID).mp (htracks shardID hkept)).2 rfl
  · intro hgone id hid
    refine (hmem id).mpr ⟨h id hid, ?_⟩
    rintro rfl
    exact hgone hid

/-- A deletion forgets its shard, and no other. -/
theorem deleteWith_tracks_iff (h : db.Tracks t) (shardID : ℕ) :
    db.Tracks (t.deleteWith db.deleteShard shardID).1 ↔ ¬ db.Keeps ⟨shardID, t.influx⟩ :=
  tracks_filter_iff (fun id hid => h id (db.deleteShard_ids _ _ id hid)) shardID

theorem oldestShardID_isOk (t : InfluxAdapter σ) :
    (∃ err, t.oldestShardID = .error err ∧ t.shards = []) ∨
      ∃ id, t.oldestShardID = .ok id ∧ t.shards ≠ [] := by
  unfold oldestShardID
  cases hlast : t.shardIDs.getLast? with
  | none =>
    refine .inl ⟨_, rfl, ?_⟩
    have hperm : t.shardIDs.Perm t.shards := List.perm_insertionSort _ _
    rw [List.getLast?_eq_none_iff.mp hlast] at hperm
    exact hperm.symm.eq_nil
  | some id =>
    refine .inr ⟨id, rfl, fun hnil => ?_⟩
    rw [InfluxAdapter.shardIDs, hnil] at hlast
    cases hlast

/-- The two calls of `DeleteOldest`. -/
theorem deleteOldest_sound_iff (h : db.Tracks t) :
    db.Sound t .deleteOldest ↔ db.Safe t .deleteOldest := by
  unfold Sound Safe Reports
  simp only [step, deleteCalls, deleteOldestWith, Option.mem_some_iff, forall_eq']
  obtain ⟨err, herr, hnil⟩ | ⟨id, hid, hne⟩ := oldestShardID_isOk t
  · simp only [herr]
    exact iff_of_true ⟨h, by simp [hnil]⟩ (by simp)
  · simp only [hid, hne, false_or]
    set first : DeleteCall σ := ⟨id, t.influx⟩ with hfirst
    set second : DeleteCall σ := ⟨id, (db.deleteShard id t.influx).1⟩ with hsecond
    have htracks : db.Tracks ⟨(t.deleteWith db.deleteShard id).1.shards, (db.deleteShard id
        (t.deleteWith db.deleteShard id).1.influx).1⟩ ↔ ¬ db.Keeps second := by
      refine tracks_filter_iff (fun id' hid' => ?_) id
      have hbetween := db.deleteShard_ids _ _ id' hid'
      exact h id' (db.deleteShard_ids _ _ id' hbetween)
    rw [htracks]
    have hreports : (db.Fails second ↔ ∃ c ∈ [first, second], db.Fails c) ↔
        (db.Fails first → db.Fails second) := by
      simp only [List.mem_cons, List.not_mem_nil, or_false, exists_eq_or_imp, exists_eq_left]
      tauto
    refine (and_congr_right fun _ => hreports).trans ?_
    constructor
    · rintro ⟨hgone, hfails⟩ c₁ c₂ hcalls
      obtain ⟨rfl, rfl⟩ : first = c₁ ∧ second = c₂ := by simpa using hcalls
      exact ⟨fun hboth => hgone hboth.2, hfails⟩
    · intro hsafe
      obtain ⟨hgone, hfails⟩ := hsafe first second rfl
      exact ⟨(not_keeps_iff second).mp hgone, hfails⟩

theorem whileCalls_cons {cutoff : ℤ} {id : ℕ} (hle : ¬ cutoff < int64 id) (ids : List ℕ) (s : σ) :
    whileCalls db.deleteShard cutoff (id :: ids) s = ⟨id, s⟩ ::
      match db.deleteShard id s with
      | (_, some _) => []
      | (s, none) => whileCalls db.deleteShard cutoff ids s := by
  rw [whileCalls, if_neg hle]

/-- The loop of `DeleteOlderThan` stops at the first error, so that only its last shard may
    still be there. -/
theorem deleteWhile_tracks_iff {cutoff : ℤ} {ids : List ℕ} {deleted : ℕ} (h : db.Tracks t) :
    db.Tracks (t.deleteWhileWith db.deleteShard cutoff ids deleted).1 ↔
      ∀ c ∈ whileCalls db.deleteShard cutoff ids t.influx, ¬ db.Keeps c := by
  induction ids generalizing t deleted with
  | nil => exact iff_of_true h (by simp [whileCalls])
  | cons id ids ih =>
    by_cases hlate : cutoff < int64 id
    · rw [deleteWhileWith, whileCalls, if_pos hlate, if_pos hlate]
      exact iff_of_true h (by simp)
    · have hone := deleteWith_tracks_iff h id
      rw [deleteWhileWith, if_neg hlate, whileCalls_cons hlate, List.forall_mem_cons, ← hone]
      have hok := db.deleteShard_ok id t.influx
      unfold deleteWith at hone ⊢
      generalize hr : db.deleteShard id t.influx = r at hone hok
      obtain ⟨s, err⟩ := r
      cases err with
      | some err => simp
      | none =>
        have htracks : db.Tracks ⟨t.shards.filter (· ≠ id), s⟩ := hone.mpr fun hkeeps => by
          unfold Keeps DeleteCall.result at hkeeps
          rw [hr] at hkeeps
          exact hok rfl hkeeps
        simp only [htracks, true_and]
        exact ih htracks

theorem deleteWhile_reports (cutoff : ℤ) (ids : List ℕ) (t : InfluxAdapter σ) (deleted : ℕ) :
    (t.deleteWhileWith db.deleteShard cutoff ids deleted).2.2 ≠ none ↔
      ∃ c ∈ whileCalls db.deleteShard cutoff ids t.influx, db.Fails c := by
  induction ids generalizing t deleted with
  | nil => simp [deleteWhileWith, whileCalls]
  | cons id ids ih =>
    by_cases hlate : cutoff < int64 id
    · rw [deleteWhileWith, whileCalls, if_pos hlate, if_pos hlate]
      simp
    · rw [deleteWhileWith, if_neg hlate, whileCalls_cons hlate, List.exists_mem_cons_iff]
      unfold deleteWith Fails DeleteCall.result
      generalize db.deleteShard id t.influx = r
      obtain ⟨s, err⟩ := r
      cases err with
      | some err => simp
      | none =>
        simp only [ne_eq, not_true_eq_false, false_or]
        exact ih _ _

/-- **One call.** -/
theorem sound_iff (h : db.Tracks t) (op : Op) : db.Sound t op ↔ db.Safe t op := by
  cases op with
  | write order points =>
    refine iff_of_true ⟨fun t' ht' => ?_, trivial⟩ trivial
    simp only [step] at ht'
    split at ht'
    · cases ht'
    · next t₁ err hwrite =>
      cases ht'
      unfold writePoints at hwrite
      split at hwrite
      · cases hwrite
      · exact writeBuckets_tracks h hwrite
  | delete shardID =>
    unfold Sound Safe Reports step deleteCalls
    simp only [Option.mem_some_iff, forall_eq', and_true, List.mem_singleton, forall_eq,
      not_keeps_iff]
    exact deleteWith_tracks_iff h shardID
  | deleteOldest => exact deleteOldest_sound_iff h
  | deleteOlderThan cutoff =>
    unfold Sound Safe Reports step deleteCalls deleteOlderThanWith
    simp only [Option.mem_some_iff, forall_eq', not_keeps_iff, deleteWhile_reports, and_true]
    exact deleteWhile_tracks_iff h

/-- **Failed deletions.** In every run from an adapter that knows the shards of its database,
    all calls are sound exactly if all are safe. -/
theorem deletions_sound_iff (h : db.Tracks t) (ops : List Op) :
    Meets db.step db.Sound t ops ↔ Meets db.step db.Safe t ops :=
  meets_congr db.step (fun _ op h => sound_iff h op) (fun _ _ t' _ hsound ht' => hsound.1 t' ht')
    ops h

/-! ## A database with a script of failures -/

/-- What becomes of a shard that is to be deleted: it is gone, or `DeleteShard` returns an
    error and the shard is still there, or it returns an error and the shard is gone. -/
inductive Fate
  | removed
  | kept
  | lost
  deriving DecidableEq, Repr

/-- The shards, and the fates of the next ones to be deleted. -/
structure Scripted where
  ids : List ℕ
  fates : List Fate
  deriving DecidableEq, Repr

/-- `DeleteShard` of a shard that is there, according to the script. -/
def Scripted.delete (id : ℕ) (s : Scripted) : Scripted × Option Bytes :=
  match s.fates with
  | [] => (⟨s.ids.filter (· ≠ id), []⟩, none)
  | .removed :: fates => (⟨s.ids.filter (· ≠ id), fates⟩, none)
  | .kept :: fates => (⟨s.ids, fates⟩, some (lit "i/o error"))
  | .lost :: fates => (⟨s.ids.filter (· ≠ id), fates⟩, some (lit "i/o error"))

/-- `DeleteShard` returns nil for a shard that is not there. -/
def scriptedStore : FallibleStore Scripted where
  createShard id s := ({ s with ids := id :: s.ids }, none)
  writeToShard _ _ s := (s, none)
  deleteShard id s := if id ∈ s.ids then s.delete id else (s, none)
  shardIDs s := s.ids
  createShard_ids id s id' h := List.mem_cons.mp h
  writeToShard_ids _ _ _ _ h := h
  deleteShard_ids id s id' h := by
    split_ifs at h with hid
    · unfold Scripted.delete at h
      split at h
      · exact List.mem_of_mem_filter h
      · exact List.mem_of_mem_filter h
      · exact h
      · exact List.mem_of_mem_filter h
    · exact h
  deleteShard_ok id s hok := by
    split_ifs at hok ⊢ with hid
    · unfold Scripted.delete at hok ⊢
      split
      · simp
      · simp
      · next fates heq => simp [heq] at hok
      · next fates heq => simp [heq] at hok
    · exact hid

/-- Two shards. The first deletion succeeds, and the second one loses its shard. -/
def twoShards : InfluxAdapter Scripted :=
  ⟨[0, 86400000000000], [0, 86400000000000], [.removed, .lost]⟩

theorem deletions_sound_iff_twoShards :
    scriptedStore.Tracks twoShards ∧
      Meets scriptedStore.step scriptedStore.Sound twoShards
        [.deleteOldest, .delete 86400000000000] := by
  have htracks : scriptedStore.Tracks twoShards := by decide
  have hsafe : Meets scriptedStore.step scriptedStore.Safe twoShards
      [.deleteOldest, .delete 86400000000000] := by
    refine ⟨?_, fun t ht => ⟨?_, fun _ _ => trivial⟩⟩
    · intro first second hcalls
      cases hcalls
      decide
    · cases ht
      intro c hc
      obtain rfl := List.mem_singleton.mp hc
      decide
  exact ⟨htracks, (deletions_sound_iff htracks _).mpr hsafe⟩

/-- `Delete` forgets a shard that the database keeps, and `DeleteOldest` returns nil after a
    `DeleteShard` that failed. -/
theorem failed_deletion_forgotten :
    (∃ t, scriptedStore.step ⟨[0], [0], [.kept]⟩ (.delete 0) = some t ∧
      t.shards = [] ∧ scriptedStore.shardIDs t.influx = [0]) ∧
    (deleteOldestWith scriptedStore.deleteShard ⟨[0], [0], [.lost]⟩).2 = none ∧
    ∃ c ∈ deleteCalls scriptedStore.deleteShard ⟨[0], [0], [.lost]⟩ .deleteOldest,
      scriptedStore.Fails c := by
  refine ⟨⟨_, rfl, by decide, by decide⟩, by decide, ⟨0, [0], [.lost]⟩, ?_, by decide⟩
  exact List.mem_cons_self

end FallibleStore

end MetricStore.Persistence
