import MetricStore.Common.Float64
import MetricStore.Common.Run
import MetricStore.Ingress.Nozzle
import MetricStore.Ingress.RollupKeys

/-!
# Rollups over intervals

Model of `counterRollup` and `histogramRollup` (`internal/nozzle/rollup/counter.go`,
`histogram.go`). A rollup has two maps: the keys recorded since the last `Rollup`, which
that call clears, and what was recorded for each key since the rollup was made, which
nothing clears.

`Record` and `Rollup` hold a mutex, so that every interleaving of callers is a sequence of
calls. The two rollups differ in what they keep for a key and in the points they make of it;
`Kind` has these, and the rest is written once.

Prometheus' histogram is modelled without its second set of counts, which is empty between
calls. The arithmetic of `float64` is a parameter, apart from the conversion of integers.

Results:
* `run_kept`: what the maps hold after a sequence of calls.
* `rollup_emits`: what a `Rollup` in that state returns.
* `rollups_of_rollup`: that is what the nozzle's step takes.
* `rollups_cumulative`: the points have the sum and the number of all recordings of the key,
  as `float64`s; they do not decrease.
-/

namespace MetricStore.Ingress

open MetricStore.Common MetricStore.Batch

/-! ## The histogram of Prometheus -/

/-- The operations on `float64`s that the histogram uses. -/
structure Floats where
  le : BitVec 64 → BitVec 64 → Bool
  add : BitVec 64 → BitVec 64 → BitVec 64
  div : BitVec 64 → BitVec 64 → BitVec 64
  format : BitVec 64 → Bytes

namespace Prometheus

/-- `DefBuckets`: 0.005, 0.01, 0.025, 0.05, 0.1, 0.25, 0.5, 1, 2.5, 5 and 10. -/
def defBuckets : List (BitVec 64) :=
  [0x3f747ae147ae147b, 0x3f847ae147ae147b, 0x3f9999999999999a, 0x3fa999999999999a,
    0x3fb999999999999a, 0x3fd0000000000000, 0x3fe0000000000000, 0x3ff0000000000000,
    0x4004000000000000, 0x4014000000000000, 0x4024000000000000]

/-- `histogramCounts`. -/
structure HistogramCounts where
  sumBits : BitVec 64
  count : UInt64
  buckets : List UInt64

/-- `newHistogram`, with the default buckets. -/
def newHistogram : HistogramCounts := ⟨0, 0, defBuckets.map fun _ => 0⟩

/-- `Observe`. A value above all bounds is in no bucket. -/
def HistogramCounts.observe (floats : Floats) (h : HistogramCounts) (v : BitVec 64) :
    HistogramCounts where
  sumBits := floats.add h.sumBits v
  count := h.count + 1
  buckets := h.buckets.modify (defBuckets.findIdx fun bound => floats.le v bound) (· + 1)

/-- The buckets that `Write` returns: the bounds with the counts up to them. -/
def HistogramCounts.cumulative (h : HistogramCounts) : List (BitVec 64 × UInt64) :=
  defBuckets.zip (h.buckets.scanl (· + ·) 0).tail

end Prometheus

/-! ## The rollups -/

/-- The fields of a rollup that do not change. -/
structure RollupConfig where
  nodeIndex : Bytes
  metricName : Bytes
  rollupTags : List Bytes

/-- `labelsFromKey`, as a rollup calls it. -/
def RollupConfig.labels (config : RollupConfig) (key : Bytes) :
    Except Csv.ReadError (GoMap Bytes Bytes) :=
  labelsFromKey key config.nodeIndex config.rollupTags

/-- What a rollup keeps for a key: at first, and after a recording; what a read of a key that
    is not there gives, `none` if it panics; and the batch that is emitted. -/
structure Kind (σ : Type) where
  initial : σ
  observe : σ → Int64 → σ
  missing : Option σ
  batch : Int64 → GoMap Bytes Bytes → σ → PointsBatch

/-- `counterRollup`. -/
def counterRollup (config : RollupConfig) : Kind Int64 where
  initial := 0
  observe total value := total + value
  missing := some 0
  batch timestamp labels total :=
    Total.batch config.metricName timestamp ⟨labels, Float64.ofInt total.toInt⟩

/-- `NanosecondsToSeconds` (lines 130–132). -/
def nanosecondsToSeconds (floats : Floats) (ns : Int64) : BitVec 64 :=
  floats.div (Float64.ofInt ns.toInt) (Float64.ofInt (10 ^ 9))

/-- What `Write` returns, with the labels of the key (`histogram.go`, lines 69–72). -/
def written (floats : Floats) (labels : GoMap Bytes Bytes) (h : Prometheus.HistogramCounts) :
    Histogram where
  labels := labels
  buckets := h.cumulative.map fun (bound, n) => (floats.format bound, Float64.ofInt n.toNat)
  sampleCount := Float64.ofInt h.count.toNat
  sampleSum := h.sumBits

/-- `histogramRollup`. -/
def histogramRollup (config : RollupConfig) (floats : Floats) :
    Kind Prometheus.HistogramCounts where
  initial := Prometheus.newHistogram
  observe h timeInNanoseconds := h.observe floats (nanosecondsToSeconds floats timeInNanoseconds)
  missing := none
  batch timestamp labels h :=
    Histogram.batch config.metricName timestamp (written floats labels h)

/-- The maps of a rollup. -/
structure Rollup (σ : Type) where
  inInterval : GoMap Bytes Unit
  kept : GoMap Bytes σ

/-- `NewCounterRollup`, `NewHistogramRollup`. -/
def newRollup {σ : Type} : Rollup σ := ⟨∅, ∅⟩

section Calls

variable {σ : Type} (config : RollupConfig) (kind : Kind σ)

/-- `Record` (`counter.go`, lines 33–41; `histogram.go`, lines 37–52). -/
def record (r : Rollup σ) (sourceId : Bytes) (tags : GoMap Bytes Bytes) (value : Int64) :
    Rollup σ :=
  let key := keyFromTags config.rollupTags sourceId tags
  { inInterval := r.inInterval.insert key ()
    kept := r.kept.insert key (kind.observe ((r.kept.lookup key).getD kind.initial) value) }

/-- The loop of `Rollup` over the keys; `none` if it panics. -/
def emit (kept : GoMap Bytes σ) (timestamp : Int64) : List Bytes → Option (List PointsBatch)
  | [] => some []
  | key :: keys =>
    match config.labels key with
    | .error _ => emit kept timestamp keys
    | .ok labels =>
      ((kept.lookup key).or kind.missing).bind fun s =>
        (emit kept timestamp keys).map fun batches =>
          kind.batch timestamp labels s :: batches

/-- `Rollup` (`counter.go`, lines 43–71; `histogram.go`, lines 54–128). -/
def rollup (r : Rollup σ) (order : MapOrder Bytes) (timestamp : Int64) :
    Option (List PointsBatch × Rollup σ) :=
  (emit config kind r.kept timestamp (order.iterate r.inInterval.keys)).map fun batches =>
    (batches, { r with inInterval := ∅ })

/-- A call of a rollup; the order is that of the range over the map. -/
inductive Call
  | record (sourceId : Bytes) (tags : GoMap Bytes Bytes) (value : Int64)
  | rollup (order : MapOrder Bytes) (timestamp : Int64)

/-- One call. -/
def rollupStep (r : Rollup σ) : Call → Option (Rollup σ)
  | .record sourceId tags value => some (record config kind r sourceId tags value)
  | .rollup order timestamp => (rollup config kind r order timestamp).map Prod.snd

end Calls

/-! ## Specification: what was recorded -/

section History

variable (rollupTags : List Bytes)

/-- The key and the value of a `Record`. -/
def Call.recorded : Call → Option (Bytes × Int64)
  | .record sourceId tags value => some (keyFromTags rollupTags sourceId tags, value)
  | .rollup _ _ => none

/-- The values recorded for a key. -/
def recordings (calls : List Call) (key : Bytes) : List Int64 :=
  ((calls.filterMap (Call.recorded rollupTags)).filter fun e => e.1 = key).map Prod.snd

/-- A value was recorded for the key, and no `Rollup` came after it. -/
def RecordedSinceRollup (calls : List Call) (key : Bytes) : Prop :=
  ∃ call ∈ calls.reverse.takeWhile fun call => (call.recorded rollupTags).isSome,
    ∃ value, call.recorded rollupTags = some (key, value)

/-- The sum of the values recorded for a key. -/
def recordedTotal (calls : List Call) (key : Bytes) : ℤ :=
  ((recordings rollupTags calls key).map Int64.toInt).sum

/-- The sum of the recordings in the arithmetic of `int64`, as a `float64`. -/
def counterValue (calls : List Call) (key : Bytes) : BitVec 64 :=
  Float64.ofInt ((recordedTotal rollupTags calls key).bmod (2 ^ 64))

/-- The number of recordings, a `uint64`, as a `float64`. -/
def countValue (calls : List Call) (key : Bytes) : BitVec 64 :=
  Float64.ofInt ((recordings rollupTags calls key).length % 2 ^ 64 : ℕ)

variable {rollupTags} {calls : List Call} {key : Bytes}

theorem recordings_append (later : List Call) :
    recordings rollupTags (calls ++ later) key =
      recordings rollupTags calls key ++ recordings rollupTags later key := by
  simp [recordings]

theorem recordedSinceRollup_concat (call : Call) :
    RecordedSinceRollup rollupTags (calls ++ [call]) key ↔
      ∃ key' value, call.recorded rollupTags = some (key', value) ∧
        (key' = key ∨ RecordedSinceRollup rollupTags calls key) := by
  unfold RecordedSinceRollup
  rw [List.reverse_append, List.reverse_singleton, List.singleton_append]
  cases hcall : call.recorded rollupTags with
  | none => simp [hcall]
  | some e =>
    obtain ⟨key', value⟩ := e
    simp [hcall]

/-- What was recorded since the last `Rollup` was recorded. -/
theorem recordings_ne_nil (h : RecordedSinceRollup rollupTags calls key) :
    recordings rollupTags calls key ≠ [] := by
  obtain ⟨call, hcall, value, hrecorded⟩ := h
  have hmem : call ∈ calls := List.mem_reverse.1 ((List.takeWhile_sublist _).mem hcall)
  apply List.ne_nil_of_mem (a := value)
  rw [recordings, List.mem_map]
  refine ⟨(key, value), List.mem_filter.2 ⟨?_, by simp⟩, rfl⟩
  exact List.mem_filterMap.2 ⟨call, hmem, hrecorded⟩

end History

/-! ## The maps after a sequence of calls -/

section Runs

variable {σ : Type} (config : RollupConfig) (kind : Kind σ)

/-- What is kept for a key with these recordings. -/
def summary (values : List Int64) : Option σ :=
  if values = [] then none else some (values.foldl kind.observe kind.initial)

theorem summary_concat (values : List Int64) (value : Int64) :
    summary kind (values ++ [value]) =
      some (kind.observe ((summary kind values).getD kind.initial) value) := by
  unfold summary
  rw [if_neg (by simp), List.foldl_append]
  split_ifs with hnil
  · subst hnil
    rfl
  · rfl

/-- What the maps hold after the calls. -/
structure Keeps (calls : List Call) (r : Rollup σ) : Prop where
  inInterval : ∀ key, key ∈ r.inInterval ↔ RecordedSinceRollup config.rollupTags calls key
  kept : ∀ key, r.kept.lookup key = summary kind (recordings config.rollupTags calls key)

theorem keeps_new : Keeps config kind [] (newRollup : Rollup σ) where
  inInterval key := by simp [newRollup, RecordedSinceRollup]
  kept key := by simp [newRollup, recordings, summary]

variable {config kind} {calls : List Call} {r : Rollup σ}

theorem keeps_record (h : Keeps config kind calls r) (sourceId : Bytes)
    (tags : GoMap Bytes Bytes) (value : Int64) :
    Keeps config kind (calls ++ [.record sourceId tags value])
      (record config kind r sourceId tags value) where
  inInterval key := by
    rw [recordedSinceRollup_concat, ← h.inInterval key, record, AList.mem_insert]
    simp [Call.recorded, eq_comm]
  kept key := by
    rw [record, recordings_append]
    by_cases hkey : key = keyFromTags config.rollupTags sourceId tags
    · subst hkey
      rw [AList.lookup_insert, h.kept]
      have hvalue : recordings config.rollupTags [.record sourceId tags value]
          (keyFromTags config.rollupTags sourceId tags) = [value] := by
        simp [recordings, Call.recorded]
      rw [hvalue, summary_concat]
    · have hnone : recordings config.rollupTags [.record sourceId tags value] key = [] := by
        simp [recordings, Call.recorded, Ne.symm hkey]
      rw [AList.lookup_insert_ne hkey, h.kept, hnone, List.append_nil]

/-- `Rollup` clears the interval only. -/
theorem keeps_rollup (h : Keeps config kind calls r) (order : MapOrder Bytes)
    (timestamp : Int64) :
    Keeps config kind (calls ++ [.rollup order timestamp]) { r with inInterval := ∅ } where
  inInterval key := by
    rw [recordedSinceRollup_concat]
    simp [Call.recorded]
  kept key := by
    have hnone : recordings config.rollupTags [.rollup order timestamp] key = [] := rfl
    rw [recordings_append, hnone, List.append_nil, h.kept]

/-- One batch for each of the keys, which are those recorded since the last `Rollup` that
    have labels. -/
def EmitsExactly (config : RollupConfig) (calls : List Call)
    (emits : Bytes → GoMap Bytes Bytes → PointsBatch → Prop) (batches : List PointsBatch) : Prop :=
  ∃ keys : List Bytes, keys.Nodup ∧
    (∀ key, key ∈ keys ↔ RecordedSinceRollup config.rollupTags calls key ∧
      ∃ labels, config.labels key = .ok labels) ∧
    List.Forall₂ (fun key batch => ∃ labels, config.labels key = .ok labels ∧
      emits key labels batch) keys batches

/-- The loop of `Rollup` over keys that are all kept. -/
theorem emit_kept (timestamp : Int64) {kept : GoMap Bytes σ} {value : Bytes → σ} :
    ∀ keys : List Bytes, (∀ key ∈ keys, kept.lookup key = some (value key)) →
    ∃ batches, emit config kind kept timestamp keys = some batches ∧
      List.Forall₂ (fun key batch => ∃ labels, config.labels key = .ok labels ∧
          batch = kind.batch timestamp labels (value key))
        (keys.filter fun key => (config.labels key).isOk) batches := by
  intro keys
  induction keys with
  | nil =>
    intro _
    exact ⟨[], rfl, .nil⟩
  | cons key keys ih =>
    intro hkept
    rw [List.forall_mem_cons] at hkept
    obtain ⟨batches, hemit, hbatches⟩ := ih hkept.2
    cases hlabels : config.labels key with
    | error err =>
      refine ⟨batches, ?_, ?_⟩
      · rw [emit, hlabels]
        exact hemit
      · rw [List.filter_cons_of_neg (by simp [hlabels, Except.isOk, Except.toBool])]
        exact hbatches
    | ok labels =>
      refine ⟨kind.batch timestamp labels (value key) :: batches, ?_, ?_⟩
      · rw [emit, hlabels]
        simp only [hkept.1, hemit, Option.map_some]
        rfl
      · rw [List.filter_cons_of_pos (by simp [hlabels, Except.isOk, Except.toBool])]
        exact .cons ⟨labels, hlabels, rfl⟩ hbatches

/-- What `Rollup` returns after the calls. -/
theorem rollup_emits (h : Keeps config kind calls r) (order : MapOrder Bytes)
    (timestamp : Int64) :
    ∃ batches, rollup config kind r order timestamp =
        some (batches, { r with inInterval := ∅ }) ∧
      EmitsExactly config calls (fun key labels batch => batch = kind.batch timestamp labels
        ((recordings config.rollupTags calls key).foldl kind.observe kind.initial)) batches := by
  have hmem : ∀ key, key ∈ order.iterate r.inInterval.keys ↔
      RecordedSinceRollup config.rollupTags calls key := by
    intro key
    rw [(order.perm _).mem_iff, ← AList.mem_keys, h.inInterval]
  have hkept : ∀ key ∈ order.iterate r.inInterval.keys, r.kept.lookup key =
      some ((recordings config.rollupTags calls key).foldl kind.observe kind.initial) := by
    intro key hkey
    rw [h.kept, summary, if_neg (recordings_ne_nil ((hmem key).1 hkey))]
  obtain ⟨batches, hemit, hbatches⟩ := emit_kept timestamp _ hkept
  refine ⟨batches, by rw [rollup, hemit]; rfl, _, ?_, ?_, hbatches⟩
  · exact ((order.perm _).nodup_iff.2 r.inInterval.keys_nodup).filter _
  · intro key
    rw [List.mem_filter, hmem]
    apply and_congr_right
    intro _
    cases hlabels : config.labels key with
    | error err => simp [Except.isOk, Except.toBool]
    | ok labels => simp [Except.isOk, Except.toBool]

/-- Every call returns, and the maps hold what was recorded. -/
theorem run_kept : ∀ (later : List Call) {calls : List Call} {r : Rollup σ},
    Keeps config kind calls r →
    ∃ r', run (rollupStep config kind) r later = some r' ∧
      Keeps config kind (calls ++ later) r' := by
  intro later
  induction later with
  | nil =>
    intro calls r h
    rw [List.append_nil]
    exact ⟨r, rfl, h⟩
  | cons call later ih =>
    intro calls r h
    have hstep : ∃ r', rollupStep config kind r call = some r' ∧
        Keeps config kind (calls ++ [call]) r' := by
      cases call with
      | record sourceId tags value => exact ⟨_, rfl, keeps_record h sourceId tags value⟩
      | rollup order timestamp =>
        obtain ⟨batches, hrollup, -⟩ := rollup_emits h order timestamp
        refine ⟨_, ?_, keeps_rollup h order timestamp⟩
        rw [rollupStep, hrollup]
        rfl
    obtain ⟨r', hr', hkeeps⟩ := hstep
    obtain ⟨t, ht, hkeeps⟩ := ih hkeeps
    rw [List.append_assoc, List.singleton_append] at hkeeps
    exact ⟨t, (run_cons_eq_some _).2 ⟨r', hr', ht⟩, hkeeps⟩

end Runs

/-! ## The batches that the nozzle is given -/

theorem emit_eq_map {σ : Type} {config : RollupConfig} {kind : Kind σ} {kept : GoMap Bytes σ}
    {timestamp : Int64} : ∀ {keys : List Bytes} {batches : List PointsBatch},
    emit config kind kept timestamp keys = some batches →
    ∃ l : List (GoMap Bytes Bytes × σ), batches = l.map fun e => kind.batch timestamp e.1 e.2 := by
  intro keys
  induction keys with
  | nil =>
    intro batches h
    cases h
    exact ⟨[], rfl⟩
  | cons key keys ih =>
    intro batches h
    rw [emit] at h
    cases hlabels : config.labels key with
    | error err =>
      rw [hlabels] at h
      exact ih h
    | ok labels =>
      rw [hlabels] at h
      obtain ⟨s, -, hrest⟩ := Option.bind_eq_some_iff.1 h
      obtain ⟨rest, hemit, rfl⟩ := Option.map_eq_some_iff.1 hrest
      obtain ⟨l, rfl⟩ := ih hemit
      exact ⟨(labels, s) :: l, rfl⟩

/-- What the two rollups return when the ticker of the nozzle fires is what its step takes. -/
theorem rollups_of_rollup {config config' : RollupConfig} {floats : Floats}
    (hname : config'.metricName = config.metricName) {r r' : Rollup Int64}
    {h h' : Rollup Prometheus.HistogramCounts} {order order' : MapOrder Bytes}
    {timestamp : Int64} {batches batches' : List PointsBatch}
    (htotal : rollup config (counterRollup config) r order timestamp = some (batches, r'))
    (hduration : rollup config' (histogramRollup config' floats) h order' timestamp =
      some (batches', h')) :
    ∃ totals durations, batches ++ batches' =
      Nozzle.rollups config.metricName timestamp totals durations := by
  obtain ⟨totals, hemit, heq⟩ := Option.map_eq_some_iff.1 htotal
  obtain ⟨rfl, -⟩ := Prod.mk.inj heq
  obtain ⟨durations, hemit', heq'⟩ := Option.map_eq_some_iff.1 hduration
  obtain ⟨rfl, -⟩ := Prod.mk.inj heq'
  obtain ⟨l, rfl⟩ := emit_eq_map hemit
  obtain ⟨l', rfl⟩ := emit_eq_map hemit'
  refine ⟨l.map fun e => ⟨e.1, Float64.ofInt e.2.toInt⟩,
    l'.map fun e => written floats e.1 e.2, ?_⟩
  rw [Nozzle.rollups, List.map_map, List.map_map, ← hname]
  show l.map (fun e => Total.batch config.metricName timestamp _) ++ _ = _
  rw [← hname]
  rfl

/-! ## The values of the points -/

section Values

/-- `total += value`, for every value. -/
theorem toInt_foldl_add (values : List Int64) (total : Int64) :
    (values.foldl (fun total value => total + value) total).toInt =
      (total.toInt + (values.map Int64.toInt).sum).bmod (2 ^ 64) := by
  induction values generalizing total with
  | nil => simp
  | cons value values ih =>
    rw [List.foldl_cons, ih, Int64.toInt_add, Int.bmod_add_bmod, List.map_cons, List.sum_cons,
      Int.add_assoc]

/-- The histogram counts its observations. -/
theorem count_foldl_observe (config : RollupConfig) (floats : Floats) (values : List Int64)
    (h : Prometheus.HistogramCounts) :
    (values.foldl (histogramRollup config floats).observe h).count.toNat =
      (h.count.toNat + values.length) % 2 ^ 64 := by
  induction values generalizing h with
  | nil => exact (Nat.mod_eq_of_lt h.count.toNat_lt).symm
  | cons value values ih =>
    have hcount : ((histogramRollup config floats).observe h value).count = h.count + 1 := rfl
    rw [List.foldl_cons, ih, hcount, UInt64.toNat_add, List.length_cons]
    show ((h.count.toNat + 1) % 2 ^ 64 + values.length) % 2 ^ 64 = _
    omega

variable {rollupTags : List Bytes} {calls : List Call} {key : Bytes}

theorem bmod_recordedTotal (hlow : -2 ^ 63 ≤ recordedTotal rollupTags calls key)
    (hhigh : recordedTotal rollupTags calls key < 2 ^ 63) :
    (recordedTotal rollupTags calls key).bmod (2 ^ 64) = recordedTotal rollupTags calls key :=
  Int.bmod_eq_of_le (by omega) (by omega)

theorem recordedTotal_append (later : List Call) :
    recordedTotal rollupTags (calls ++ later) key =
      recordedTotal rollupTags calls key + recordedTotal rollupTags later key := by
  simp [recordedTotal, recordings_append]

theorem recordedTotal_nonneg (h : ∀ value ∈ recordings rollupTags calls key, 0 ≤ value) :
    0 ≤ recordedTotal rollupTags calls key := by
  apply List.sum_nonneg
  intro n hn
  obtain ⟨value, hvalue, rfl⟩ := List.mem_map.1 hn
  exact Int64.le_iff_toInt_le.1 (h value hvalue)

end Values

/-! ## The emitted points -/

section Points

variable (config : RollupConfig) (calls : List Call)

/-- The batch of a counter: one point with the sum of the recordings. -/
structure CounterBatch (timestamp : Int64) (key : Bytes) (labels : GoMap Bytes Bytes)
    (batch : PointsBatch) : Prop where
  points : batch.points =
    [⟨config.metricName ++ lit "_total", timestamp, counterValue config.rollupTags calls key,
      labels⟩]
  size : batch.size = (batch.points.map estimatePointSize).sum

/-- The batch of a histogram: its buckets, and points with the number of recordings. -/
structure HistogramBatch (timestamp : Int64) (key : Bytes) (labels : GoMap Bytes Bytes)
    (batch : PointsBatch) : Prop where
  points : ∃ buckets sum, batch.points = buckets ++
    [⟨config.metricName ++ lit "_duration_seconds_bucket", timestamp,
        countValue config.rollupTags calls key, labels.insert (lit "le") (lit "+Inf")⟩,
      ⟨config.metricName ++ lit "_duration_seconds_count", timestamp,
        countValue config.rollupTags calls key, labels⟩,
      ⟨config.metricName ++ lit "_duration_seconds_sum", timestamp, sum, labels⟩]
  size : batch.size = (batch.points.map estimatePointSize).sum

/-- Every call returns, and a `Rollup` after them emits the batches described. -/
def Emits {σ : Type} (kind : Kind σ)
    (emits : Int64 → Bytes → GoMap Bytes Bytes → PointsBatch → Prop) : Prop :=
  ∃ r, run (rollupStep config kind) newRollup calls = some r ∧
    ∀ order timestamp, ∃ batches r', rollup config kind r order timestamp = some (batches, r') ∧
      EmitsExactly config calls (emits timestamp) batches

variable {config calls}

/-- From the batches that the loop makes to a description of them. -/
theorem emits_of_batch {σ : Type} {kind : Kind σ}
    {emits : Int64 → Bytes → GoMap Bytes Bytes → PointsBatch → Prop}
    (h : ∀ timestamp key labels, emits timestamp key labels (kind.batch timestamp labels
      ((recordings config.rollupTags calls key).foldl kind.observe kind.initial))) :
    Emits config calls kind emits := by
  obtain ⟨r, hrun, hkeeps⟩ := run_kept calls (keeps_new config kind)
  refine ⟨r, hrun, fun order timestamp => ?_⟩
  obtain ⟨batches, hrollup, keys, hnodup, hkeys, hbatches⟩ := rollup_emits hkeeps order timestamp
  refine ⟨batches, _, hrollup, keys, hnodup, hkeys, hbatches.imp ?_⟩
  rintro key batch ⟨labels, hlabels, rfl⟩
  exact ⟨labels, hlabels, h timestamp key labels⟩

theorem counterBatch_batch (timestamp : Int64) (key : Bytes) (labels : GoMap Bytes Bytes) :
    CounterBatch config calls timestamp key labels ((counterRollup config).batch timestamp labels
      ((recordings config.rollupTags calls key).foldl (counterRollup config).observe 0)) where
  points := by
    have htotal := toInt_foldl_add (recordings config.rollupTags calls key) 0
    rw [Int64.toInt_zero, Int.zero_add] at htotal
    rw [counterValue, recordedTotal, ← htotal]
    rfl
  size := PointsBatch.size_eq _

theorem histogramBatch_batch (floats : Floats) (timestamp : Int64) (key : Bytes)
    (labels : GoMap Bytes Bytes) :
    HistogramBatch config calls timestamp key labels
      ((histogramRollup config floats).batch timestamp labels
        ((recordings config.rollupTags calls key).foldl (histogramRollup config floats).observe
          Prometheus.newHistogram)) where
  points := by
    have hcount := count_foldl_observe config floats (recordings config.rollupTags calls key)
      Prometheus.newHistogram
    rw [show Prometheus.newHistogram.count.toNat = 0 from rfl, Nat.zero_add] at hcount
    rw [countValue, ← hcount]
    exact ⟨_, _, rfl⟩
  size := PointsBatch.size_eq _

end Points

section Theorem

variable (rollupTags : List Bytes) (calls : List Call)

/-- The values are the sum and the number of the recordings: the nearest `float64`, and the
    very number up to `2^53`. -/
structure Exact (key : Bytes) : Prop where
  counter : -2 ^ 63 ≤ recordedTotal rollupTags calls key →
    recordedTotal rollupTags calls key < 2 ^ 63 →
    Float64.Nearest (counterValue rollupTags calls key) (recordedTotal rollupTags calls key)
  counter_small : |recordedTotal rollupTags calls key| ≤ 2 ^ 53 →
    Float64.toRat (counterValue rollupTags calls key) = recordedTotal rollupTags calls key
  count : (recordings rollupTags calls key).length < 2 ^ 64 →
    Float64.Nearest (countValue rollupTags calls key) (recordings rollupTags calls key).length
  count_small : (recordings rollupTags calls key).length ≤ 2 ^ 53 →
    Float64.toRat (countValue rollupTags calls key) = (recordings rollupTags calls key).length

/-- The values of an earlier `Rollup` are not larger. -/
structure NeverDecreases (earlier : List Call) (key : Bytes) : Prop where
  counter : (∀ value ∈ recordings rollupTags calls key, 0 ≤ value) →
    recordedTotal rollupTags calls key < 2 ^ 63 →
    Float64.toRat (counterValue rollupTags earlier key) ≤
      Float64.toRat (counterValue rollupTags calls key)
  count : (recordings rollupTags calls key).length < 2 ^ 64 →
    Float64.toRat (countValue rollupTags earlier key) ≤
      Float64.toRat (countValue rollupTags calls key)

variable {rollupTags calls}

theorem counterValue_eq {key : Bytes} (hlow : -2 ^ 63 ≤ recordedTotal rollupTags calls key)
    (hhigh : recordedTotal rollupTags calls key < 2 ^ 63) :
    counterValue rollupTags calls key = Float64.ofInt (recordedTotal rollupTags calls key) := by
  rw [counterValue, bmod_recordedTotal hlow hhigh]

theorem countValue_eq {key : Bytes} (h : (recordings rollupTags calls key).length < 2 ^ 64) :
    countValue rollupTags calls key =
      Float64.ofInt (recordings rollupTags calls key).length := by
  rw [countValue, Nat.mod_eq_of_lt h]

theorem exact_values (key : Bytes) : Exact rollupTags calls key where
  counter hlow hhigh := by
    rw [counterValue_eq hlow hhigh]
    exact Float64.nearest_ofInt (by omega)
  counter_small h := by
    have hbounds := abs_le.1 h
    rw [counterValue_eq (by omega) (by omega)]
    exact Float64.toRat_ofInt_of_le (by omega) (by omega)
  count h := by
    rw [countValue_eq h]
    exact Float64.nearest_ofInt (by omega)
  count_small h := by
    rw [countValue_eq (by omega)]
    exact Float64.toRat_ofInt_of_le (by omega) (by omega)

theorem never_decreases {earlier : List Call} (hbefore : earlier <+: calls) (key : Bytes) :
    NeverDecreases rollupTags calls earlier key := by
  obtain ⟨later, rfl⟩ := hbefore
  constructor
  · intro hnonneg hfits
    rw [recordings_append, List.forall_mem_append] at hnonneg
    have hearlier := recordedTotal_nonneg hnonneg.1
    have hlater := recordedTotal_nonneg hnonneg.2
    rw [recordedTotal_append] at hfits
    have htotal : recordedTotal rollupTags (earlier ++ later) key = _ := recordedTotal_append later
    rw [counterValue_eq (by omega) (by omega), counterValue_eq (by omega) (by omega), htotal]
    exact Float64.toRat_ofInt_mono hearlier (by omega) (by omega)
  · intro hfits
    rw [recordings_append, List.length_append] at hfits
    rw [countValue_eq (by omega), countValue_eq (by rwa [recordings_append, List.length_append]),
      recordings_append, List.length_append]
    exact Float64.toRat_ofInt_mono (by omega) (by omega) (by omega)

end Theorem

/-- Rollups are cumulative and complete: after every sequence of calls, a `Rollup` emits one
    batch for each key recorded since the last one that has labels, with the sum and the
    number of all its recordings, as `float64`s, which never decrease. -/
theorem rollups_cumulative (config : RollupConfig) (floats : Floats) (calls : List Call) :
    Emits config calls (counterRollup config) (CounterBatch config calls) ∧
    Emits config calls (histogramRollup config floats) (HistogramBatch config calls) ∧
    (∀ key, Exact config.rollupTags calls key) ∧
    ∀ earlier key, earlier <+: calls → NeverDecreases config.rollupTags calls earlier key :=
  ⟨emits_of_batch counterBatch_batch, emits_of_batch (histogramBatch_batch floats), exact_values,
    fun _ key hbefore => never_decreases hbefore key⟩

/-- The recordings `2^53` and 1 are emitted as `2^53`, and `2^63 - 1` and 1 as `-2^63`. -/
theorem counter_rounds_and_wraps :
    let config : RollupConfig := ⟨lit "0", lit "http", []⟩
    let order : MapOrder Bytes := ⟨id, List.Perm.refl⟩
    let calls (value : Int64) : List Call :=
      [.record (lit "id") ∅ value, .rollup order 0, .record (lit "id") ∅ 1]
    let emitted (value : Int64) : Option (List (List (BitVec 64))) :=
      (run (rollupStep config (counterRollup config)) newRollup (calls value)).bind fun r =>
        (rollup config (counterRollup config) r order 0).map fun (batches, _) =>
          batches.map fun batch => batch.points.map Rpc.Point.value
    let total (value : Int64) : ℤ := recordedTotal [] (calls value) (keyFromTags [] (lit "id") ∅)
    (emitted (Int64.ofInt (2 ^ 53)) = some [[0x4340000000000000]] ∧
      total (Int64.ofInt (2 ^ 53)) = 2 ^ 53 + 1 ∧ Float64.toRat 0x4340000000000000 = 2 ^ 53) ∧
    emitted Int64.maxValue = some [[0xc3e0000000000000]] ∧
      total Int64.maxValue = 2 ^ 63 ∧ Float64.toRat 0xc3e0000000000000 = -2 ^ 63 := by
  have hrounded : (0x4340000000000000 : BitVec 64) = Float64.ofInt (2 ^ 53) := by decide +kernel
  have hwrapped : (0xc3e0000000000000 : BitVec 64) = Float64.ofInt (-2 ^ 63) := by decide +kernel
  refine ⟨⟨by decide +kernel, by decide +kernel, ?_⟩, by decide +kernel, by decide +kernel, ?_⟩
  · rw [hrounded, Float64.toRat_ofInt_of_le (by decide) (by decide)]
    norm_num
  · have hround : Float64.round53 (-2 ^ 63 : ℤ).natAbs = 2 ^ 63 := by decide +kernel
    rw [hwrapped, Float64.toRat_ofInt (by decide), if_pos (by decide), hround]
    norm_num

end MetricStore.Ingress
