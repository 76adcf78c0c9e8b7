import MetricStore.Persistence.Shards

/-!
# The oldest contiguous shard

Model of `removeFutureShardIds` and `InfluxAdapter.OldestContiguousShardID`
(`pkg/persistence/influx_adapter.go`, lines 279–315), from which the store computes how many
days it reports to hold (`store.go`, lines 211–219).

The ids are compared as `uint64`, and so is the cutoff, a day after the current time: shards of
days before 1970 have ids above `2 ^ 63` and count as future ones. `time.Now` is the number of
nanoseconds since 1970; `UnixNano` reduces it to an `int64`, and the conversion to `uint64` gives
it back as long as it is below `2 ^ 64`.

The loop walks down the sorted ids as long as each is one day before the last. That the next id
is not a day before says nothing by itself about the ids behind it; but ids of shards are at
least a day apart, also where the ids of the days before 1970 begin.

Results:
* `day_le_of_lt`: two shards are at least a day apart.
* `contiguous_chain`: the loop ends at a chain of days without a shard before it.
* `oldestContiguousShardID_spec`: the result for every set of shards and every time.
* `oldestContiguousShardID_of_run`: the same for the shards after any run of writes and deletions.
-/

namespace MetricStore.Persistence

open MetricStore.Common

/-! ## Model -/

/-- The cutoff of `removeFutureShardIds` (line 282):
    `uint64(now.Add(24 * time.Hour).UnixNano())`. -/
def futureCutoff (now : ℤ) : ℕ := uint64 (int64 (uint64 (now + day)))

/-- `removeFutureShardIds` (lines 279–290). -/
def removeFutureShardIds (now : ℤ) (shardIds : List ℕ) : List ℕ :=
  shardIds.filter fun id => id ≤ futureCutoff now

/-- The loop of `OldestContiguousShardID` (lines 301–307) from `lastContiguousShardId` on. -/
def contiguous : ℕ → List ℕ → ℕ
  | last, [] => last
  | last, id :: ids => if uint64 (last - id) = uint64 day then contiguous id ids else last

namespace InfluxAdapter

variable {σ : Type}

/-- `OldestContiguousShardID` (lines 294–310). -/
def oldestContiguousShardID (now : ℤ) (t : InfluxAdapter σ) : Except Bytes ℕ :=
  match removeFutureShardIds now t.shardIDs with
  | [] => .error (lit "Cannot determine oldest shardID when there are no shardIDs")
  | id :: ids => .ok (contiguous id ids)

end InfluxAdapter

/-! ## The loop -/

theorem futureCutoff_eq (now : ℤ) : futureCutoff now = uint64 (now + day) :=
  uint64_int64 (uint64_lt _)

/-- **Shards are at least a day apart.** Where the ids of days after 1970 end and those of days
    before begin there is a gap of almost two days. -/
theorem day_le_of_lt {a b : ℕ} (ha : IsShardId a) (hb : IsShardId b) (hlt : a < b) :
    (a : ℤ) + day ≤ b := by
  obtain ⟨ha₁, ha₂⟩ := ha
  obtain ⟨hb₁, hb₂⟩ := hb
  unfold day int64 at *
  split_ifs at ha₂ hb₂ <;> omega

/-- The test of the loop, for an id that is less than the last. -/
theorem uint64_sub_eq_iff {last id : ℕ} (hlast : last < 2 ^ 64) (hlt : id < last) :
    uint64 (last - id) = uint64 day ↔ (id : ℤ) + day = last := by
  unfold uint64 day
  omega

/-- From `s` to `m` there is an id every day, and none a day before `s`. -/
structure Chain (ids : List ℕ) (m s : ℕ) : Prop where
  mem : s ∈ ids
  days : ∃ k : ℕ, (m : ℤ) = s + k * day ∧ ∀ j ≤ k, ∃ id ∈ ids, (id : ℤ) = s + j * day
  first : ∀ id ∈ ids, (id : ℤ) + day ≠ s

/-- A chain of one day. -/
theorem Chain.single {ids : List ℕ} {m : ℕ} (h : ∀ id ∈ ids, (id : ℤ) + day ≠ m) :
    Chain (m :: ids) m m := by
  refine ⟨List.mem_cons_self, ⟨0, by simp, fun j hj => ?_⟩, fun id hid => ?_⟩
  · obtain rfl : j = 0 := by omega
    exact ⟨m, List.mem_cons_self, by simp⟩
  · rcases List.mem_cons.1 hid with rfl | hid
    · unfold day
      omega
    · exact h id hid

theorem Chain.le {ids : List ℕ} {m s : ℕ} (h : Chain ids m s) : s ≤ m := by
  obtain ⟨k, hk, -⟩ := h.days
  unfold day at hk
  omega

/-- A chain with one more day. -/
theorem Chain.cons {ids : List ℕ} {m id s : ℕ} (h : Chain ids id s) (hday : (id : ℤ) + day = m) :
    Chain (m :: ids) m s := by
  have hle := h.le
  obtain ⟨k, hk, hdays⟩ := h.days
  refine ⟨List.mem_cons_of_mem m h.mem, ⟨k + 1, ?_, fun j hj => ?_⟩, fun x hx => ?_⟩
  · rw [← hday, hk]
    push_cast
    ring
  · rcases Nat.lt_or_ge k j with hlt | hge
    · obtain rfl : j = k + 1 := by omega
      refine ⟨m, List.mem_cons_self, ?_⟩
      rw [← hday, hk]
      push_cast
      ring
    · obtain ⟨x, hx, hxj⟩ := hdays j hge
      exact ⟨x, List.mem_cons_of_mem m hx, hxj⟩
  · rcases List.mem_cons.1 hx with rfl | hx
    · unfold day at *
      omega
    · exact h.first x hx

/-- **The loop** over ids in descending order finds the end of the chain. -/
theorem contiguous_chain {ids : List ℕ} {last : ℕ} (hids : ∀ id ∈ last :: ids, IsShardId id)
    (hsorted : (last :: ids).Pairwise (· > ·)) :
    Chain (last :: ids) last (contiguous last ids) := by
  induction ids generalizing last with
  | nil => exact Chain.single (by simp)
  | cons id ids ih =>
    obtain ⟨hlast, hrest⟩ := List.forall_mem_cons.1 hids
    obtain ⟨hbelow, hsorted⟩ := List.pairwise_cons.1 hsorted
    have hlt : id < last := hbelow id List.mem_cons_self
    unfold contiguous
    split_ifs with htest
    · exact (ih hrest hsorted).cons ((uint64_sub_eq_iff hlast.1 hlt).1 htest)
    · refine Chain.single fun x hx hday => ?_
      rcases List.mem_cons.1 hx with rfl | hx'
      · exact htest ((uint64_sub_eq_iff hlast.1 hlt).2 hday)
      · -- `id` would be less than a day after `x`
        have hxid : x < id := (List.pairwise_cons.1 hsorted).1 x hx'
        have := day_le_of_lt (hrest x hx) (hrest id List.mem_cons_self) hxid
        omega

/-- Every id of a shard from one end of a chain to the other is in it. -/
theorem Chain.mem_of_between {ids : List ℕ} {m s id : ℕ} (h : Chain ids m s)
    (hids : ∀ id ∈ ids, IsShardId id) (hid : IsShardId id) (hs : s ≤ id) (hm : id ≤ m) :
    id ∈ ids := by
  obtain ⟨k, hk, hdays⟩ := h.days
  -- the last day of the chain that is not after `id`
  obtain ⟨j, hj, hle, hlt⟩ : ∃ j ≤ k, (s : ℤ) + j * day ≤ id ∧ (id : ℤ) < s + j * day + day := by
    refine ⟨(id - s) / 86400000000000, ?_, ?_, ?_⟩
    · unfold day at hk
      omega
    · unfold day
      push_cast [hs]
      omega
    · unfold day
      push_cast [hs]
      omega
  obtain ⟨x, hx, hxj⟩ := hdays j hj
  rcases lt_or_ge x id with hbelow | habove
  · have := day_le_of_lt (hids x hx) hid hbelow
    omega
  · obtain rfl : x = id := by omega
    exact hx

/-- The day before is the one before in `uint64`, unless it is the first after 1970. -/
theorem uint64_sub_day {s : ℕ} (hs : IsShardId s) :
    (uint64 (s - day) : ℤ) + day = s ∨ s = 0 ∧ uint64 (s - day) = 18446657673709551616 := by
  obtain ⟨hlt, haligned⟩ := hs
  rcases le_or_gt day s with hday | hday
  · left
    unfold uint64
    unfold day at *
    omega
  · right
    have hsmall : int64 s = s := by
      unfold int64
      unfold day at hday
      split_ifs <;> omega
    rw [hsmall] at haligned
    have hzero : s = 0 := by
      unfold day at *
      omega
    subst hzero
    exact ⟨rfl, rfl⟩

/-- A day before the first of a chain there is no id, also with the wrap-around of `uint64`. -/
theorem Chain.not_mem_before {ids : List ℕ} {m s : ℕ} (h : Chain ids m s)
    (hids : ∀ id ∈ ids, IsShardId id) (hm : IsShardId m) (hmax : ∀ id ∈ ids, id ≤ m) :
    uint64 (s - day) ∉ ids := by
  intro hmem
  rcases uint64_sub_day (hids s h.mem) with hday | ⟨hzero, hwrapped⟩
  · exact h.first _ hmem hday
  · -- the chain would lead from the last day before 1970 to the first one after it
    obtain ⟨k, hk, -⟩ := h.days
    have hle := hmax _ hmem
    obtain ⟨hlt, haligned⟩ := hm
    have hnegative : int64 m = m - 2 ^ 64 := by
      unfold int64
      rw [if_neg (by omega)]
    rw [hnegative] at haligned
    rw [hwrapped] at hle
    unfold day at haligned hk
    omega

namespace InfluxAdapter

variable {σ : Type} {t : InfluxAdapter σ} {now : ℤ}

theorem mem_removeFutureShardIds {id : ℕ} :
    id ∈ removeFutureShardIds now t.shardIDs ↔ id ∈ t.shards ∧ id ≤ futureCutoff now := by
  unfold removeFutureShardIds shardIDs
  rw [List.mem_filter, List.mem_insertionSort, decide_eq_true_eq]

/-- The ids that remain are in descending order. -/
theorem pairwise_removeFutureShardIds (hnodup : t.shards.Nodup) (now : ℤ) :
    (removeFutureShardIds now t.shardIDs).Pairwise (· > ·) := by
  have hsorted : t.shardIDs.Pairwise (· ≥ ·) := List.pairwise_insertionSort (· ≥ ·) t.shards
  have hne : t.shardIDs.Nodup := (List.perm_insertionSort (· ≥ ·) t.shards).nodup_iff.2 hnodup
  refine ((hsorted.and hne).imp ?_).filter _
  rintro a b ⟨hge, hne⟩
  exact lt_of_le_of_ne hge hne.symm

/-! ## The result -/

/-- `s` is the oldest shard of an unbroken series up to the newest one that is not after the
    bound: every day from `s` to that one has a shard, and the day before `s` has none that is
    not after the bound. -/
def IsOldestContiguous (shards : List ℕ) (bound s : ℕ) : Prop :=
  s ∈ shards ∧ ∀ m, IsGreatest {id | id ∈ shards ∧ id ≤ bound} m →
    s ≤ m ∧ (∀ id, IsShardId id → s ≤ id → id ≤ m → id ∈ shards) ∧
    ¬ (uint64 (s - day) ∈ shards ∧ uint64 (s - day) ≤ bound)

theorem oldestContiguousShardID_cases (hnodup : t.shards.Nodup)
    (hids : ∀ id ∈ t.shards, IsShardId id) (now : ℤ) :
    (∃ err, t.oldestContiguousShardID now = .error err) ∧
        (∀ id ∈ t.shards, ¬ id ≤ futureCutoff now) ∨
      (∃ s, t.oldestContiguousShardID now = .ok s ∧
          IsOldestContiguous t.shards (futureCutoff now) s) ∧
        ∃ id ∈ t.shards, id ≤ futureCutoff now := by
  have hsorted := pairwise_removeFutureShardIds hnodup now
  have hmem : ∀ id, id ∈ removeFutureShardIds now t.shardIDs ↔
      id ∈ t.shards ∧ id ≤ futureCutoff now := fun _ => mem_removeFutureShardIds
  unfold oldestContiguousShardID
  cases hremoved : removeFutureShardIds now t.shardIDs with
  | nil =>
    refine .inl ⟨⟨_, rfl⟩, fun id hid hle => ?_⟩
    have := (hmem id).2 ⟨hid, hle⟩
    rw [hremoved] at this
    cases this
  | cons m ids =>
    rw [hremoved] at hsorted hmem
    obtain ⟨hm, hmle⟩ := (hmem m).1 List.mem_cons_self
    have hids' : ∀ id ∈ m :: ids, IsShardId id := fun id hid => hids id ((hmem id).1 hid).1
    have hmax : ∀ id ∈ m :: ids, id ≤ m := by
      intro id hid
      rcases List.mem_cons.1 hid with rfl | hid
      · exact le_rfl
      · exact ((List.pairwise_cons.1 hsorted).1 id hid).le
    have hchain := contiguous_chain hids' hsorted
    refine .inr ⟨⟨_, rfl, ((hmem _).1 hchain.mem).1, fun m' hm' => ?_⟩, m, hm, hmle⟩
    obtain rfl : m' = m := le_antisymm (hmax m' ((hmem m').2 hm'.1)) (hm'.2 ⟨hm, hmle⟩)
    refine ⟨hchain.le, fun id hid hs hle => ?_, fun hbefore => ?_⟩
    · exact ((hmem id).1 (hchain.mem_of_between hids' hid hs hle)).1
    · exact hchain.not_mem_before hids' (hids _ hm) hmax ((hmem _).2 hbefore)

/-- **The oldest contiguous shard**, for every set of shards and every time after 1970. The
    bound is a day after the current time, as a `uint64`. There is an error exactly if no shard
    is at or before the bound; otherwise the result is the oldest shard of the unbroken series
    up to the newest one that is. -/
theorem oldestContiguousShardID_spec (t : InfluxAdapter σ) (hnodup : t.shards.Nodup)
    (hids : ∀ id ∈ t.shards, IsShardId id) (now : ℤ) (hnow : 0 < now) :
    (now + day < 2 ^ 64 → (futureCutoff now : ℤ) = now + day) ∧
    ((∃ err, t.oldestContiguousShardID now = .error err) ↔
      ∀ id ∈ t.shards, ¬ id ≤ futureCutoff now) ∧
    ((∃ id ∈ t.shards, id ≤ futureCutoff now) →
      ∃ s, t.oldestContiguousShardID now = .ok s ∧
        IsOldestContiguous t.shards (futureCutoff now) s) := by
  refine ⟨fun hfits => ?_, ?_⟩
  · rw [futureCutoff_eq, uint64_of_nonneg _ hfits]
    · exact Int.toNat_of_nonneg (by unfold day; omega)
    · unfold day
      omega
  · rcases oldestContiguousShardID_cases hnodup hids now with ⟨herr, hnone⟩ | ⟨⟨s, hs, hok⟩, hsome⟩
    · refine ⟨⟨fun _ => hnone, fun _ => herr⟩, ?_⟩
      rintro ⟨id, hid, hle⟩
      exact absurd hle (hnone id hid)
    · refine ⟨⟨?_, ?_⟩, fun _ => ⟨s, hs, hok⟩⟩
      · rintro ⟨err, herr⟩
        rw [hs] at herr
        cases herr
      · intro hnone
        obtain ⟨id, hid, hle⟩ := hsome
        exact absurd hle (hnone id hid)

/-- Shards of the days 5, 8 and 9 after 1970, and one of the distant future. -/
def fewDays : InfluxAdapter Unit :=
  ⟨[777600000000000, 432000000000000, 77760000000000000, 691200000000000], ()⟩

/-- During day 9 the series goes back to day 8. -/
theorem oldestContiguousShardID_spec_fewDays :
    (0 : ℤ) < 800000000000000 ∧ fewDays.shards.Nodup ∧ (∀ id ∈ fewDays.shards, IsShardId id) ∧
    fewDays.oldestContiguousShardID 800000000000000 = .ok 691200000000000 ∧
    IsOldestContiguous fewDays.shards (futureCutoff 800000000000000) 691200000000000 := by
  have hnow : (0 : ℤ) < 800000000000000 := by decide
  have hnodup : fewDays.shards.Nodup := by decide
  have hids : ∀ id ∈ fewDays.shards, IsShardId id := by
    simp [fewDays, IsShardId, int64, day]
  have hresult : fewDays.oldestContiguousShardID 800000000000000 = .ok 691200000000000 := rfl
  obtain ⟨-, -, hok⟩ := oldestContiguousShardID_spec fewDays hnodup hids 800000000000000 hnow
  obtain ⟨s, hs, holdest⟩ := hok ⟨777600000000000, by decide, by decide⟩
  rw [hresult] at hs
  cases hs
  exact ⟨hnow, hnodup, hids, hresult, holdest⟩

/-- **After any run** of writes and deletions on an empty database. -/
theorem oldestContiguousShardID_of_run {db : ShardStore σ} {s : σ}
    (hempty : ∀ id, db.contents s id = none) {ops : List Op} {h : History σ}
    (hrun : run (step db) (newHistory s) ops = some h) (now : ℤ) :
    (∃ err, h.adapter.oldestContiguousShardID now = .error err) ∧
      (∀ id, db.Holds h.adapter.influx id → ¬ id ≤ futureCutoff now) ∨
    ∃ id, h.adapter.oldestContiguousShardID now = .ok id ∧
      IsOldestContiguous h.adapter.shards (futureCutoff now) id := by
  have hinv := run_inv hempty hrun
  rcases oldestContiguousShardID_cases hinv.nodup hinv.ids now with ⟨herr, hnone⟩ | ⟨hok, -⟩
  · exact .inl ⟨herr, fun id hid => hnone id ((hinv.same id).2 hid)⟩
  · exact .inr hok

end InfluxAdapter

end MetricStore.Persistence
