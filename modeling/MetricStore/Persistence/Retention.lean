import MetricStore.Persistence.Shards

/-!
# Retention

`DeleteOldest` and `DeleteOlderThan` of `InfluxAdapter` (`pkg/persistence/influx_adapter.go`,
lines 205–277) against what they are for: removing the data of the earliest days.

The ids are sorted as unsigned integers. The id of a day before 1970 is `uint64` of a
negative time, and comes after those of all later days; the comparison with the cutoff
is one of signed integers.

Results:
* `retention_iff`: `DeleteOldest` deletes the earliest shard exactly when no two shards are
  on different sides of 1970, and `DeleteOlderThan` deletes the shards up to the cutoff
  exactly when there is no shard before 1970 to delete while one after it stays.
* `shard_before_1970_kept`: of the last day of 1969 and the first of 1970, `DeleteOldest`
  deletes the second, and `DeleteOlderThan` none where it should delete the first.
-/

namespace MetricStore.Persistence

open MetricStore.Common

/-! ## Prefixes of sorted lists -/

/-- The longest prefix of a sorted list on which `p` holds. -/
theorem mem_takeWhile_of_sorted {l : List ℕ} (hsorted : l.Pairwise (· ≤ ·)) (p : ℕ → Bool)
    (x : ℕ) : x ∈ l.takeWhile p ↔ x ∈ l ∧ ∀ y ∈ l, y ≤ x → p y = true := by
  induction l with
  | nil => simp
  | cons a l ih =>
    obtain ⟨hle, hsorted⟩ := List.pairwise_cons.1 hsorted
    by_cases ha : p a = true
    · rw [List.takeWhile_cons_of_pos ha, List.mem_cons, List.mem_cons, ih hsorted,
        List.forall_mem_cons]
      constructor
      · rintro (rfl | ⟨hx, hall⟩)
        · -- nothing in the list is below its head
          refine ⟨Or.inl rfl, fun _ => ha, fun y hy hyx => ?_⟩
          rw [le_antisymm hyx (hle y hy)]
          exact ha
        · exact ⟨Or.inr hx, fun _ => ha, hall⟩
      · rintro ⟨rfl | hx, -, hall⟩
        · exact Or.inl rfl
        · exact Or.inr ⟨hx, hall⟩
    · rw [List.takeWhile_cons_of_neg ha]
      constructor
      · intro h
        cases h
      · rintro ⟨hx, hall⟩
        refine absurd (hall a List.mem_cons_self ?_) ha
        rcases List.mem_cons.1 hx with rfl | hx
        · exact le_rfl
        · exact hle x hx

namespace InfluxAdapter

variable {σ : Type} {db : ShardStore σ}

/-! ## What is deleted -/

/-- The shards `gone` were deleted, with their points, and nothing else changed. -/
def Removes (db : ShardStore σ) (t t' : InfluxAdapter σ) (gone : List ℕ) : Prop :=
  (∀ id, id ∈ t'.shards ↔ id ∈ t.shards ∧ id ∉ gone) ∧
    ∀ id, db.contents t'.influx id = if id ∈ gone then none else db.contents t.influx id

/-- Of the shards of the adapter, it was these and no others. -/
theorem Removes.iff {t t' : InfluxAdapter σ} {gone : List ℕ} (h : Removes db t t' gone)
    (hsub : gone ⊆ t.shards) {gone' : List ℕ} (hsub' : gone' ⊆ t.shards) :
    Removes db t t' gone' ↔ ∀ id ∈ t.shards, id ∈ gone ↔ id ∈ gone' := by
  obtain ⟨hshards, hcontents⟩ := h
  constructor
  · rintro ⟨hshards', -⟩ id hid
    have hboth := (hshards id).symm.trans (hshards' id)
    simp only [hid, true_and] at hboth
    exact not_iff_not.1 hboth
  · intro hsame
    have hmem : ∀ id, id ∈ gone ↔ id ∈ gone' := by
      intro id
      refine ⟨fun hid => (hsame id (hsub hid)).1 hid, fun hid => (hsame id (hsub' hid)).2 hid⟩
    refine ⟨fun id => ?_, fun id => ?_⟩
    · rw [hshards, hmem]
    · rw [hcontents]
      simp only [hmem]

/-- The loop deletes the ids up to the first one after the cutoff. -/
theorem deleteWhile_removes (hok : ∀ id s, (db.deleteShard id s).2 = none) (cutoff : ℤ)
    (ids : List ℕ) (t : InfluxAdapter σ) (deleted : ℕ) :
    Removes db t (deleteWhile db cutoff ids t deleted).1
        (ids.takeWhile fun id => int64 id ≤ cutoff) ∧
      (deleteWhile db cutoff ids t deleted).2
        = (deleted + (ids.takeWhile fun id => int64 id ≤ cutoff).length, none) := by
  induction ids generalizing t deleted with
  | nil => simp [deleteWhileWith, Removes]
  | cons id ids ih =>
    unfold deleteWhile deleteWhileWith
    by_cases hid : int64 id ≤ cutoff
    · rw [if_neg (by omega), List.takeWhile_cons_of_pos (by simpa using hid)]
      have hdelete : t.deleteWith db.deleteShard id
          = (⟨t.shards.filter (· ≠ id), (db.deleteShard id t.influx).1⟩, none) := by
        rw [deleteWith, hok]
      rw [hdelete]
      dsimp only
      obtain ⟨⟨hshards, hcontents⟩, hcount⟩ :=
        ih ⟨t.shards.filter (· ≠ id), (db.deleteShard id t.influx).1⟩ (deleted + 1)
      refine ⟨⟨fun id' => ?_, fun id' => ?_⟩, ?_⟩
      · rw [hshards, List.mem_filter, List.mem_cons, decide_eq_true_eq]
        tauto
      · rw [hcontents, db.deleteShard_contents]
        by_cases hfirst : id' = id
        · simp [hfirst]
        · simp [hfirst]
      · rw [hcount, List.length_cons]
        congr 1
        omega
    · rw [if_pos (by omega), List.takeWhile_cons_of_neg (by simpa using hid)]
      simp [Removes]

/-- The last element of a list sorted downwards is the smallest. -/
theorem oldestShardID_spec {t : InfluxAdapter σ} (hne : t.shards ≠ []) :
    ∃ id ∈ t.shards, t.oldestShardID = .ok id ∧ ∀ id' ∈ t.shards, id ≤ id' := by
  have hperm : t.shardIDs.Perm t.shards := List.perm_insertionSort _ _
  have hsorted : t.shardIDs.Pairwise (· ≥ ·) := List.pairwise_insertionSort _ _
  cases hlast : t.shardIDs.getLast? with
  | none =>
    rw [List.getLast?_eq_none_iff] at hlast
    rw [hlast] at hperm
    exact absurd hperm.symm.eq_nil hne
  | some id =>
    obtain ⟨before, hbefore⟩ := List.getLast?_eq_some_iff.1 hlast
    rw [hbefore, List.pairwise_append] at hsorted
    refine ⟨id, hperm.mem_iff.1 (hbefore ▸ by simp), by rw [oldestShardID, hlast], ?_⟩
    intro id' hid'
    rw [← hperm.mem_iff, hbefore, List.mem_append, List.mem_singleton] at hid'
    rcases hid' with hid' | rfl
    · exact hsorted.2.2 id' hid' id (List.mem_singleton.2 rfl)
    · exact le_rfl

/-- `DeleteOldest` deletes the smallest id. -/
theorem deleteOldest_removes (hok : ∀ id s, (db.deleteShard id s).2 = none) {t : InfluxAdapter σ}
    {id : ℕ} (hid : t.oldestShardID = .ok id) :
    Removes db t (t.deleteOldest db).1 [id] ∧ (t.deleteOldest db).2 = none := by
  unfold deleteOldest deleteOldestWith
  rw [hid]
  dsimp only [deleteWith]
  refine ⟨⟨fun id' => ?_, fun id' => ?_⟩, hok _ _⟩
  · rw [List.mem_filter, List.mem_singleton, decide_eq_true_eq]
  · rw [db.deleteShard_contents, db.deleteShard_contents]
    by_cases hfirst : id' = id
    · simp [hfirst]
    · simp [hfirst]

/-! ## What should be deleted -/

/-- `DeleteOldest` returns nil and deletes the shard of the earliest day. -/
def DeletesOldest (db : ShardStore σ) (t : InfluxAdapter σ) : Prop :=
  ∃ id ∈ t.shards, (∀ id' ∈ t.shards, int64 id ≤ int64 id') ∧
    Removes db t (t.deleteOldest db).1 [id] ∧ (t.deleteOldest db).2 = none

/-- The start of the UTC day of the time one minute before the cutoff. -/
def cutoffDay (cutoff : Int64) : ℤ :=
  (cutoff.toInt - minute) - (cutoff.toInt - minute) % day

/-- `DeleteOlderThan` returns nil and the number of shards up to the day of the cutoff, and
    deletes them. -/
def DeletesOlderThan (db : ShardStore σ) (t : InfluxAdapter σ) (cutoff : Int64) : Prop :=
  Removes db t (t.deleteOlderThan db cutoff).1
      (t.shards.filter fun id => int64 id ≤ cutoffDay cutoff) ∧
    (t.deleteOlderThan db cutoff).2
      = ((t.shards.filter fun id => int64 id ≤ cutoffDay cutoff).length, none)

/-- Ids on the same side of 1970 are in the order of their days. -/
theorem int64_le_of_le {id id' : ℕ} (hlt : id' < 2 ^ 64) (hle : id ≤ id')
    (hside : 0 ≤ int64 id' ∨ int64 id < 0) : int64 id ≤ int64 id' := by
  unfold int64 at *
  split at hside <;> split at hside <;> split <;> omega

theorem deletesOldest_iff (hok : ∀ id s, (db.deleteShard id s).2 = none) {t : InfluxAdapter σ}
    (hids : ∀ id ∈ t.shards, IsShardId id) (hne : t.shards ≠ []) :
    DeletesOldest db t ↔
      (∀ id ∈ t.shards, 0 ≤ int64 id) ∨ ∀ id ∈ t.shards, int64 id < 0 := by
  obtain ⟨id, hid, holdest, hleast⟩ := oldestShardID_spec hne
  obtain ⟨hremoves, hnil⟩ := deleteOldest_removes hok holdest
  constructor
  · rintro ⟨id', hid', hearliest, hremoves', -⟩
    -- the shard deleted is the one with the smallest id
    have hsame := (hremoves.iff (by simpa using hid) (by simpa using hid')).1 hremoves' id hid
    obtain rfl : id = id' := by simpa using hsame
    by_contra hsides
    simp only [not_or, not_forall, not_le, not_lt] at hsides
    obtain ⟨⟨before, hbefore, hneg⟩, after, hafter, hnonneg⟩ := hsides
    have hlt := hearliest before hbefore
    have hle := hleast after hafter
    have hbound := (hids after hafter).1
    unfold int64 at *
    split at hlt <;> split at hneg <;> split at hnonneg <;> omega
  · intro hsides
    refine ⟨id, hid, fun id' hid' => ?_, hremoves, hnil⟩
    refine int64_le_of_le (hids id' hid').1 (hleast id' hid') ?_
    rcases hsides with hnonneg | hneg
    · exact Or.inl (hnonneg id' hid')
    · exact Or.inr (hneg id hid)

/-- `DeleteOlderThan` deletes an id if no smaller one is after its cutoff. -/
theorem deletesOlderThan_iff_forall (hok : ∀ id s, (db.deleteShard id s).2 = none)
    {t : InfluxAdapter σ} (hnodup : t.shards.Nodup) (cutoff : Int64) :
    DeletesOlderThan db t cutoff ↔ ∀ id ∈ t.shards,
      (∀ id' ∈ t.shards, id' ≤ id → int64 id' ≤ adjustedCutoff cutoff) ↔
        int64 id ≤ cutoffDay cutoff := by
  have hperm : t.shardIDsOldestSort.Perm t.shards := List.perm_insertionSort _ _
  have hsorted : t.shardIDsOldestSort.Pairwise (· ≤ ·) := List.pairwise_insertionSort _ _
  obtain ⟨hremoves, hcount⟩ :=
    deleteWhile_removes hok (adjustedCutoff cutoff) t.shardIDsOldestSort t 0
  have hmem : ∀ id, id ∈ (t.shardIDsOldestSort.takeWhile fun id =>
        decide (int64 id ≤ adjustedCutoff cutoff)) ↔
      id ∈ t.shards ∧ ∀ id' ∈ t.shards, id' ≤ id → int64 id' ≤ adjustedCutoff cutoff := by
    intro id
    rw [mem_takeWhile_of_sorted hsorted]
    simp only [hperm.mem_iff, decide_eq_true_eq]
  have hmem' : ∀ id, id ∈ (t.shards.filter fun id => decide (int64 id ≤ cutoffDay cutoff)) ↔
      id ∈ t.shards ∧ int64 id ≤ cutoffDay cutoff := by
    intro id
    rw [List.mem_filter, decide_eq_true_eq]
  have hiff := hremoves.iff (fun id hid => ((hmem id).1 hid).1)
    (fun id hid => ((hmem' id).1 hid).1)
  have hsame : (∀ id ∈ t.shards, id ∈ (t.shardIDsOldestSort.takeWhile fun id =>
        decide (int64 id ≤ adjustedCutoff cutoff)) ↔
      id ∈ (t.shards.filter fun id => decide (int64 id ≤ cutoffDay cutoff))) ↔
      ∀ id ∈ t.shards, (∀ id' ∈ t.shards, id' ≤ id → int64 id' ≤ adjustedCutoff cutoff) ↔
        int64 id ≤ cutoffDay cutoff := by
    refine forall₂_congr fun id hid => ?_
    rw [hmem, hmem']
    simp only [hid, true_and]
  rw [← hsame, ← hiff]
  refine ⟨And.left, fun hright => ⟨hright, ?_⟩⟩
  -- the number: two lists without duplicates that have the same elements
  rw [hiff] at hright
  have hsub : (t.shardIDsOldestSort.takeWhile fun id =>
      decide (int64 id ≤ adjustedCutoff cutoff)).Perm
        (t.shards.filter fun id => decide (int64 id ≤ cutoffDay cutoff)) := by
    refine (List.perm_ext_iff_of_nodup ?_ (hnodup.filter _)).2 fun id => ?_
    · exact (hperm.nodup_iff.2 hnodup).sublist (List.takeWhile_sublist _)
    · constructor
      · intro hid
        exact (hright id ((hmem id).1 hid).1).1 hid
      · intro hid
        exact (hright id ((hmem' id).1 hid).1).2 hid
  rw [← hsub.length_eq, ← Nat.zero_add (List.length _)]
  exact hcount

/-- A shard before 1970 should be deleted while one after it stays. -/
def Straddles (t : InfluxAdapter σ) (cutoff : ℤ) : Prop :=
  (∃ id ∈ t.shards, 0 ≤ int64 id ∧ cutoff < int64 id) ∧
    ∃ id ∈ t.shards, int64 id < 0 ∧ int64 id ≤ cutoff

/-- The one day that starts before the smallest `int64`: `UnixNano` of its start is a time in
    the last day. -/
theorem adjustedCutoff_of_wrap {cutoff : Int64} (h : cutoffDay cutoff < -2 ^ 63) :
    adjustedCutoff cutoff = 9223371273709551616 := by
  have hmin := cutoff.le_toInt
  have hfirst : cutoffDay cutoff = -106752 * day := by
    unfold cutoffDay minute day at *
    omega
  show int64 (uint64 (cutoffDay cutoff)) = _
  rw [hfirst]
  decide

/-- Then the loop looks for shards up to a time after all of them. -/
theorem isShardId_le_of_wrap {cutoff : Int64} (h : cutoffDay cutoff < -2 ^ 63) {id : ℕ}
    (hid : IsShardId id) : int64 id ≤ adjustedCutoff cutoff ∧ cutoffDay cutoff < int64 id := by
  obtain ⟨hlt, haligned⟩ := hid
  obtain ⟨h₀, h₁⟩ := int64_bounds hlt
  refine ⟨?_, by omega⟩
  rw [adjustedCutoff_of_wrap h]
  unfold day at haligned
  omega

/-- The ids are in the order of time on each side of 1970, and those before it are larger. -/
theorem forall_older_iff {t : InfluxAdapter σ} (hids : ∀ id ∈ t.shards, IsShardId id)
    (cutoff : ℤ) :
    (∀ id ∈ t.shards, (∀ id' ∈ t.shards, id' ≤ id → int64 id' ≤ cutoff) ↔ int64 id ≤ cutoff) ↔
      ¬ Straddles t cutoff := by
  constructor
  · rintro hall ⟨⟨after, hafter, hnonneg, hlate⟩, before, hbefore, hneg, hearly⟩
    -- the id of the shard before 1970 is larger, and the loop stops before it
    have hle : after ≤ before := by
      have hbound := (hids after hafter).1
      unfold int64 at hnonneg hneg
      split at hnonneg <;> split at hneg <;> omega
    have := (hall before hbefore).2 hearly after hafter hle
    omega
  · intro hstraddles id hid
    refine ⟨fun hall => hall id hid le_rfl, fun hearly id' hid' hle => ?_⟩
    by_contra hlate
    by_cases hside : 0 ≤ int64 id ∨ int64 id' < 0
    · have := int64_le_of_le (hids id hid).1 hle hside
      omega
    · exact hstraddles ⟨⟨id', hid', by omega, by omega⟩, id, hid, by omega, hearly⟩

theorem deletesOlderThan_iff (hok : ∀ id s, (db.deleteShard id s).2 = none)
    {t : InfluxAdapter σ} (hnodup : t.shards.Nodup) (hids : ∀ id ∈ t.shards, IsShardId id)
    (cutoff : Int64) :
    DeletesOlderThan db t cutoff ↔
      (t.shards = [] ∨ -2 ^ 63 ≤ cutoffDay cutoff) ∧ ¬ Straddles t (cutoffDay cutoff) := by
  rw [deletesOlderThan_iff_forall hok hnodup]
  have hcutoff := cutoff.toInt_lt
  by_cases hfits : -2 ^ 63 ≤ cutoffDay cutoff
  · have hadjusted : adjustedCutoff cutoff = cutoffDay cutoff := by
      refine getShardStart_of_fits hfits ?_
      unfold minute day
      omega
    rw [hadjusted, forall_older_iff hids]
    simp only [hfits, or_true, true_and]
  · -- the cutoff wraps around, so that all shards are deleted and none should be
    have hempty : t.shards = [] → ¬ Straddles t (cutoffDay cutoff) := by
      rintro hnil ⟨⟨id, hid, -⟩, -⟩
      rw [hnil] at hid
      cases hid
    have hall := fun id hid => isShardId_le_of_wrap (not_le.1 hfits) (hids id hid)
    simp only [hfits, or_false]
    constructor
    · intro hright
      have hnil : t.shards = [] := by
        refine List.eq_nil_iff_forall_not_mem.2 fun id hid => ?_
        have := (hright id hid).1 fun id' hid' _ => (hall id' hid').1
        have := (hall id hid).2
        omega
      exact ⟨hnil, hempty hnil⟩
    · rintro ⟨hnil, -⟩ id hid
      rw [hnil] at hid
      cases hid

/-- **Retention.** For the shards of any run of writes and deletions, if the calls of the
    database succeed: `DeleteOldest` deletes the shard of the earliest day exactly when all
    shards are from 1970 on or all are before it. `DeleteOlderThan` deletes the shards up
    to the day of the cutoff, and counts them, exactly when that day is an `int64` (or there
    are no shards) and it does not have to delete a shard before 1970 while one from 1970 on
    stays. -/
theorem retention_iff (db : ShardStore σ) (hok : ∀ id s, (db.deleteShard id s).2 = none) {s : σ}
    (hempty : ∀ id, db.contents s id = none) {ops : List Op} {h : History σ}
    (hrun : run (step db) (newHistory s) ops = some h) :
    (h.adapter.shards ≠ [] → (DeletesOldest db h.adapter ↔
      (∀ id ∈ h.adapter.shards, 0 ≤ int64 id) ∨ ∀ id ∈ h.adapter.shards, int64 id < 0)) ∧
    ∀ cutoff, DeletesOlderThan db h.adapter cutoff ↔
      (h.adapter.shards = [] ∨ -2 ^ 63 ≤ cutoffDay cutoff) ∧
        ¬ Straddles h.adapter (cutoffDay cutoff) := by
  have hinv := run_inv hempty hrun
  exact ⟨fun hne => deletesOldest_iff hok hinv.ids hne,
    fun cutoff => deletesOlderThan_iff hok hinv.nodup hinv.ids cutoff⟩

/-- Writes of points at the given times. -/
def writesAt (times : List Int64) : List Op :=
  [.write ⟨fun keys => keys, fun _ => .refl _⟩ (times.map fun time => ⟨lit "up", time, 0, ∅⟩)]

/-- Points of the first and the third day of 1970. -/
theorem retention_january :
    ∃ h, run (step memoryStore) (newHistory ∅) (writesAt [1, 172800000000000]) = some h ∧
      h.adapter.shards.length = 2 ∧ DeletesOldest memoryStore h.adapter ∧
      DeletesOlderThan memoryStore h.adapter 172800000000000 := by
  have hall : ∃ h ∈ run (step memoryStore) (newHistory ∅) (writesAt [1, 172800000000000]),
      h.adapter.shards.length = 2 ∧ h.adapter.shards ≠ [] ∧
        ∀ id ∈ h.adapter.shards, 0 ≤ int64 id := by decide
  obtain ⟨h, hrun, hlength, hne, hnonneg⟩ := hall
  obtain ⟨holdest, holder⟩ := retention_iff memoryStore (fun _ _ => rfl) (fun _ => rfl) hrun
  refine ⟨h, hrun, hlength, (holdest hne).2 (Or.inl hnonneg), (holder _).2 ⟨Or.inr (by decide), ?_⟩⟩
  rintro ⟨-, id, hid, hneg, -⟩
  have := hnonneg id hid
  omega

/-- **The data before 1970 is kept**: with points of the last day of 1969 and the first of
    1970, `DeleteOldest` leaves the shard of 1969, and `DeleteOlderThan` with the cutoff at
    the start of 1970 deletes nothing. -/
theorem shard_before_1970_kept :
    ∃ h, run (step memoryStore) (newHistory ∅) (writesAt [-1, 1]) = some h ∧
      h.adapter.shards.map int64 = [-day, 0] ∧
      (h.adapter.deleteOldest memoryStore).1.shards.map int64 = [-day] ∧
      cutoffDay 0 = -day ∧
      (h.adapter.deleteOlderThan memoryStore 0).1.shards.map int64 = [-day, 0] ∧
      (h.adapter.deleteOlderThan memoryStore 0).2 = (0, none) := by
  have hall : ∃ h ∈ run (step memoryStore) (newHistory ∅) (writesAt [-1, 1]),
      h.adapter.shards.map int64 = [-day, 0] ∧
      (h.adapter.deleteOldest memoryStore).1.shards.map int64 = [-day] ∧
      cutoffDay 0 = -day ∧
      (h.adapter.deleteOlderThan memoryStore 0).1.shards.map int64 = [-day, 0] ∧
      (h.adapter.deleteOlderThan memoryStore 0).2 = (0, none) := by decide
  obtain ⟨h, hrun, hkept⟩ := hall
  exact ⟨h, hrun, hkept⟩

end InfluxAdapter

end MetricStore.Persistence
