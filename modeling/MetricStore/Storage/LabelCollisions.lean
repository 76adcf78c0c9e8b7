import MetricStore.Storage.Replicas

/-!
# Labels that collide

`queuePoints` (`internal/metricstore/metric_store.go`, lines 443–466) sanitizes the names of
the labels of a point in a range over the label map. Of labels whose names become equal the
one that is visited last counts, and a Go map has no order of its own. A label whose name
becomes `__name__` is overwritten with the name of the metric.

The order of a range is the order of the map (`GoMap`), and `SamePoint` relates the orders
of one point.

Results:
* `fromMap_eq_iff`: label sets are equal if the maps they are made of have the same contents.
* `sanitized_once_iff`: exactly which points have one label set for all orders.
* `collision_splits_series`: a point with two.
-/

namespace MetricStore.Persistence

open MetricStore.Common

/-- `labels.FromMap` does not depend on the order of the map. -/
theorem fromMap_eq_iff {m m' : GoMap Bytes Bytes} :
    Labels.fromMap m = Labels.fromMap m' ↔ ∀ k, m.lookup k = m'.lookup k := by
  constructor
  · intro h k
    rw [← lookup_toMap_fromMap, h, lookup_toMap_fromMap]
  · intro h
    have : Std.Total fun e e' : Bytes × Bytes => e.1 ≤ e'.1 := ⟨fun e e' => List.le_total e.1 e'.1⟩
    have : IsTrans (Bytes × Bytes) fun e e' => e.1 ≤ e'.1 := ⟨fun _ _ _ => List.le_trans⟩
    refine List.Perm.eq_of_pairwise ?_ (List.pairwise_insertionSort _ _)
      (List.pairwise_insertionSort _ _)
      ((fromMap_perm m).trans ((GoMap.pairs_perm h).trans (fromMap_perm m').symm))
    -- labels with the same name are the same entry of the map
    intro e e' he he' hle hge
    have hname := List.le_antisymm hle hge
    rw [(fromMap_perm m).mem_iff] at he
    rw [(fromMap_perm m').mem_iff] at he'
    have hvalue := GoMap.mem_pairs.mp he
    rw [h, hname, GoMap.mem_pairs.mp he'] at hvalue
    exact Prod.ext hname (Option.some.inj hvalue).symm

end MetricStore.Persistence

namespace MetricStore.Storage

open MetricStore.Common MetricStore.Persistence

/-- The label set that `queuePoints` passes to the appender, if it passes the point on. -/
def passedLabelSet (point : Rpc.Point) : Option Labels :=
  if isValidFloat point.value then some (sanitizedLabelSet point) else none

theorem queuePoint_eq {n : ℕ} (routing : Routing n) (a : ReplicatedAppender n)
    (point : Rpc.Point) :
    queuePoint routing a point = match passedLabelSet point with
      | some l => a.add routing l point.timestamp point.value
      | none => a := by
  unfold queuePoint passedLabelSet
  split_ifs
  · rfl
  · rfl

/-- Labels whose sanitized names are equal have equal values, unless that name is `__name__`. -/
def CollisionFree (point : Rpc.Point) : Prop :=
  ∀ e ∈ point.labels.pairs, ∀ e' ∈ point.labels.pairs,
    sanitizeLabelName e.1 = sanitizeLabelName e'.1 → sanitizeLabelName e.1 ≠ metricName →
      e.2 = e'.2

instance (point : Rpc.Point) : Decidable (CollisionFree point) :=
  inferInstanceAs (Decidable (∀ e ∈ point.labels.pairs, ∀ e' ∈ point.labels.pairs, _ → _ → _))

variable {p q : Rpc.Point}

/-- The label that is visited last. -/
theorem lookup_sanitizedLabels (point : Rpc.Point) (k : Bytes) :
    (sanitizedLabels point).lookup k =
      (point.labels.pairs.filter fun e => sanitizeLabelName e.1 = k).getLast?.map Prod.snd := by
  rw [sanitizedLabels, GoMap.lookup_ofPairs_eq, List.filter_map, List.getLast?_map, Option.map_map]
  rfl

theorem CollisionFree.lookup_iff (h : CollisionFree p) (hsame : SamePoint p q) {k v : Bytes}
    (hk : k ≠ metricName) : (sanitizedLabels q).lookup k = some v ↔
      ∃ e ∈ p.labels.pairs, sanitizeLabelName e.1 = k ∧ e.2 = v := by
  have hmem : ∀ e, e ∈ q.labels.pairs ↔ e ∈ p.labels.pairs := fun e =>
    (GoMap.pairs_perm hsame.2.2.2).mem_iff.symm
  rw [lookup_sanitizedLabels, Option.map_eq_some_iff]
  constructor
  · rintro ⟨e, hlast, rfl⟩
    obtain ⟨he, hname⟩ := List.mem_filter.mp (List.mem_of_getLast? hlast)
    exact ⟨e, (hmem e).mp he, of_decide_eq_true hname, rfl⟩
  · rintro ⟨e, he, rfl, rfl⟩
    have hin : e ∈ q.labels.pairs.filter fun e' => sanitizeLabelName e'.1 = sanitizeLabelName e.1 :=
      List.mem_filter.mpr ⟨(hmem e).mpr he, by simp⟩
    obtain ⟨e', hlast⟩ := Option.isSome_iff_exists.mp
      (List.getLast?_isSome.mpr (List.ne_nil_of_mem hin))
    obtain ⟨he', hname⟩ := List.mem_filter.mp (List.mem_of_getLast? hlast)
    have hname := of_decide_eq_true hname
    exact ⟨e', hlast, h e' ((hmem e').mp he') e he hname (hname ▸ hk)⟩

/-- Without collisions all orders give one label set. -/
theorem CollisionFree.sanitizedLabelSet_eq (h : CollisionFree p) (hsame : SamePoint p q) :
    sanitizedLabelSet q = sanitizedLabelSet p := by
  unfold sanitizedLabelSet
  rw [fromMap_eq_iff, hsame.1]
  intro k
  by_cases hk : k = metricName
  · rw [hk, AList.lookup_insert, AList.lookup_insert]
  · rw [AList.lookup_insert_ne hk, AList.lookup_insert_ne hk]
    refine Option.ext fun v => ?_
    rw [h.lookup_iff hsame hk, h.lookup_iff ⟨rfl, rfl, rfl, fun _ => rfl⟩ hk]

/-- Every label is the last one in some order, and then its value counts. -/
theorem exists_sanitized_last (p : Rpc.Point) {e : Bytes × Bytes} (he : e ∈ p.labels.pairs) :
    ∃ q, SamePoint p q ∧ (sanitizedLabels q).lookup (sanitizeLabelName e.1) = some e.2 := by
  have hperm : (p.labels.pairs.erase e ++ [e]).Perm p.labels.pairs :=
    (List.perm_append_singleton e _).trans (List.perm_cons_erase he).symm
  obtain ⟨labels, hpairs, hlookup⟩ := GoMap.exists_of_perm hperm
  refine ⟨{ p with labels := labels }, ⟨rfl, rfl, rfl, fun k => (hlookup k).symm⟩, ?_⟩
  rw [lookup_sanitizedLabels, hpairs, List.filter_append]
  simp

theorem sanitizedLabelSet_lookup {point point' : Rpc.Point} {k : Bytes}
    (h : sanitizedLabelSet point = sanitizedLabelSet point') (hk : k ≠ metricName) :
    (sanitizedLabels point).lookup k = (sanitizedLabels point').lookup k := by
  have hlookup := fromMap_eq_iff.mp h k
  rwa [AList.lookup_insert_ne hk, AList.lookup_insert_ne hk] at hlookup

/-- **Sanitization as a function of the point.** In all orders of its label map a point is
    passed on with the same label set, and collected alike by all appenders, exactly if it is
    not passed on at all or its labels do not collide. -/
theorem sanitized_once_iff (p : Rpc.Point) :
    (∀ q r, SamePoint p q → SamePoint p r → passedLabelSet q = passedLabelSet r ∧
      ∀ (n : ℕ) (routing : Routing n) (a : ReplicatedAppender n),
        queuePoint routing a q = queuePoint routing a r) ↔
    (isValidFloat p.value = true → CollisionFree p) := by
  constructor
  · intro h hvalid e he e' he' hname hk
    obtain ⟨q, hq, hlookup⟩ := exists_sanitized_last p he
    obtain ⟨r, hr, hlookup'⟩ := exists_sanitized_last p he'
    have hpassed := (h q r hq hr).1
    unfold passedLabelSet at hpassed
    rw [← hq.2.2.1, ← hr.2.2.1, if_pos hvalid, if_pos hvalid, Option.some.injEq] at hpassed
    have heq := sanitizedLabelSet_lookup hpassed hk
    rw [hlookup, hname, hlookup'] at heq
    exact Option.some.inj heq
  · intro h q r hq hr
    have hpassed : passedLabelSet q = passedLabelSet r := by
      unfold passedLabelSet
      rw [← hq.2.2.1, ← hr.2.2.1]
      split_ifs with hvalid
      · rw [(h hvalid).sanitizedLabelSet_eq hq, (h hvalid).sanitizedLabelSet_eq hr]
      · rfl
    refine ⟨hpassed, fun n routing a => ?_⟩
    rw [queuePoint_eq, queuePoint_eq, hpassed, ← hq.2.1, ← hr.2.1, ← hq.2.2.1, ← hr.2.2.1]

/-- The labels `a.b` and `a-b`, in the two orders of the map. -/
theorem collision_splits_series :
    let point : Rpc.Point := ⟨lit "up", 0, 0, GoMap.ofPairs [(lit "a.b", [1]), (lit "a-b", [2])]⟩
    let other : Rpc.Point := ⟨lit "up", 0, 0, GoMap.ofPairs [(lit "a-b", [2]), (lit "a.b", [1])]⟩
    (∀ k, point.labels.lookup k = other.labels.lookup k) ∧
      passedLabelSet point = some [(metricName, lit "up"), (lit "a_b", [1])] ∧
      passedLabelSet other = some [(metricName, lit "up"), (lit "a_b", [2])] := by
  refine ⟨fun k => ?_, by decide, by decide⟩
  refine Option.ext fun v => ?_
  rw [GoMap.lookup_ofPairs (by decide), GoMap.lookup_ofPairs (by decide)]
  simp [or_comm]

end MetricStore.Storage
