import MetricStore.Persistence.InfluxAdapter

/-!
# The local appender

Model of `persistence.Appender` (`pkg/persistence/appender.go`): `Add` collects points
whose value is finite, with their labels truncated, and `Commit` writes what was
collected.

* `add_collects`: what `Add` collects.
* `commit_crashes_iff`: `Commit` reaches the panic of `MustNewPoint` exactly when a
  collected point cannot be translated.
-/

namespace MetricStore.Persistence

open MetricStore.Common Influx

/-- `Appender` (lines 25–33). -/
structure Appender where
  points : List Rpc.Point
  labelTruncationLength : ℕ

/-- A value cut to the truncation length. -/
def truncate (length : ℕ) (value : Bytes) : Bytes :=
  if length < value.length then value.take length else value

/-- The labels as they are stored: values truncated, and no metric name. -/
def storedLabels (length : ℕ) (labels : GoMap Bytes Bytes) : GoMap Bytes Bytes :=
  (labels.mapValues (truncate length)).erase metricName

/-- `cleanLabels` (lines 133–145). -/
def cleanLabels (length : ℕ) (l : Labels) : GoMap Bytes Bytes := storedLabels length l.toMap

/-- The point that `Add` collects (lines 73–78). -/
def collectedPoint (length : ℕ) (l : Labels) (time : Int64) (value : Float64) : Rpc.Point :=
  ⟨l.get metricName, time, value, cleanLabels length l⟩

namespace Appender

/-- `NewAppender` (lines 35–49) with `WithLabelTruncationLength`. -/
def newAppender (labelTruncationLength : ℕ) : Appender := ⟨[], labelTruncationLength⟩

/-- `Add` (lines 65–82), with its error. -/
def add (a : Appender) (l : Labels) (time : Int64) (value : Float64) :
    Appender × Option Bytes :=
  if isValidFloat value then
    (⟨a.points ++ [collectedPoint a.labelTruncationLength l time value],
      a.labelTruncationLength⟩, none)
  else (a, some (lit "NaN float cannot be added"))

/-- `Commit` (lines 110–127): the collected points are dropped, also after an error. -/
def commit {σ : Type} (db : InfluxStore σ) (order : MapOrder ℤ) (a : Appender)
    (adapter : InfluxAdapter σ) : Except Panic (Appender × InfluxAdapter σ × Option Bytes) :=
  match adapter.writePoints db order a.points with
  | .error p => .error p
  | .ok (adapter, err) => .ok ({ a with points := [] }, adapter, err)

/-! ## What is collected -/

theorem add_collects {length : ℕ} (l : Labels) (time : Int64) (value : Float64) (a : Appender)
    (ha : a.labelTruncationLength = length) :
    (a.add l time value).1.labelTruncationLength = length ∧
      ∀ p, p ∈ (a.add l time value).1.points ↔
        p ∈ a.points ∨ isValidFloat value = true ∧ p = collectedPoint length l time value := by
  subst ha
  unfold add
  by_cases hv : isValidFloat value = true
  · rw [if_pos hv]; simp [hv]
  · rw [if_neg hv]; simp [hv]

/-- Every collected point can be translated. -/
def Ready (a : Appender) : Prop :=
  ∀ p ∈ a.points, isValidFloat p.value = true ∧ Storable p

variable {σ : Type} {db : InfluxStore σ}

/-- **`Commit` crashes** exactly when a collected point cannot be translated. -/
theorem commit_crashes_iff (db : InfluxStore σ) (order : MapOrder ℤ) (a : Appender)
    (adapter : InfluxAdapter σ) :
    Crashes (a.commit db order adapter) ↔ ¬ a.Ready := by
  unfold Ready commit
  rw [← InfluxAdapter.writePoints_crashes_iff db order adapter]
  cases adapter.writePoints db order a.points with
  | error p => simp [Crashes]
  | ok r => simp [Crashes]

/-- After `Commit` nothing is left. -/
theorem commit_eq_ok {order : MapOrder ℤ} {a : Appender} {adapter : InfluxAdapter σ}
    {r : Appender × InfluxAdapter σ × Option Bytes} (h : a.commit db order adapter = .ok r) :
    r.1 = newAppender a.labelTruncationLength := by
  unfold commit at h
  split at h
  · cases h
  · cases h; rfl

end Appender

/-! ## The point as stored -/

/-- The point that `Add` collects for an `rpc.Point` passed through `ConvertLabels`: a
    label `__name__` replaces the name. -/
def internodePoint (length : ℕ) (p : Rpc.Point) : Rpc.Point :=
  ⟨(p.labels.lookup metricName).getD p.name, p.timestamp, p.value, storedLabels length p.labels⟩

theorem lookup_storedLabels (length : ℕ) (labels : GoMap Bytes Bytes) (k : Bytes) :
    (storedLabels length labels).lookup k
      = if k = metricName then none else (labels.lookup k).map (truncate length) := by
  unfold storedLabels
  by_cases hk : k = metricName
  · rw [if_pos hk, hk, AList.lookup_erase]
  · rw [if_neg hk, AList.lookup_erase_ne hk, GoMap.lookup_mapValues]

/-- Maps that agree, but for the metric name, are stored alike. -/
theorem lookup_storedLabels_congr {m m' : GoMap Bytes Bytes} (length : ℕ)
    (h : ∀ k, k ≠ metricName → m.lookup k = m'.lookup k) (k : Bytes) :
    (storedLabels length m).lookup k = (storedLabels length m').lookup k := by
  rw [lookup_storedLabels, lookup_storedLabels]
  by_cases hk : k = metricName
  · rw [if_pos hk, if_pos hk]
  · rw [if_neg hk, if_neg hk, h k hk]

theorem storable_collectedPoint_convertLabels (length : ℕ) (p : Rpc.Point) :
    Storable (collectedPoint length (convertLabels p) p.timestamp p.value) ↔
      Storable (internodePoint length p) :=
  Storable.congr (get_convertLabels p) rfl
    (lookup_storedLabels_congr _ fun _ hk => lookup_toMap_convertLabels p hk)

end MetricStore.Persistence
