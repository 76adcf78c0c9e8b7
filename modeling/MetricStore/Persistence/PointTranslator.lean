import MetricStore.Influx.Point

/-!
# Translation of points

Model of `pkg/persistence/transform/point_translator.go` and of the label sets of
Prometheus (`pkg/labels/labels.go`) that it works on: sanitization of names, the
conversion of an `rpc.Point` into a label set, and `ToInfluxPoints`, which stores a few
labels as fields and the others as tags and panics where `NewPoint` fails.

* `toInfluxPoint_ok_iff`: a point is translated exactly when its value is finite and
  it is `Storable`: its time is in range and its series key is short enough.
* `toInfluxPoints_crashes_iff`: when `ToInfluxPoints` panics.
* `lookup_toMap_convertLabels`, `get_convertLabels`: the labels and the name that
  `ConvertLabels` passes on.
-/

namespace MetricStore.Rpc

open MetricStore.Common

/-- `rpc.Point`; a nil map of labels is an empty one. -/
structure Point where
  name : Bytes
  timestamp : Int64
  value : BitVec 64
  labels : GoMap Bytes Bytes
  deriving DecidableEq

end MetricStore.Rpc

namespace MetricStore.Persistence

open MetricStore.Common MetricStore.Influx

/-! ## Label sets -/

/-- `labels.Labels`: a slice of labels. -/
abbrev Labels := List (Bytes × Bytes)

/-- `labels.MetricName`. -/
def metricName : Bytes := lit "__name__"

/-- `Labels.Get`: the first label of that name, or the empty string. -/
def Labels.get (l : Labels) (name : Bytes) : Bytes :=
  match l.find? fun e => e.1 = name with
  | some e => e.2
  | none => []

/-- `Labels.Map`. -/
def Labels.toMap (l : Labels) : GoMap Bytes Bytes := GoMap.ofPairs l

/-- `labels.FromMap`: the labels in the order of their names. -/
def Labels.fromMap (m : GoMap Bytes Bytes) : Labels :=
  m.pairs.insertionSort fun e e' => e.1 ≤ e'.1

/-! ## Sanitization -/

/-- Whether byte `b` at position `n` is kept; only metric names may have colons. -/
def keepsByte (colon : Bool) (n : ℕ) (b : UInt8) : Bool :=
  b = 95 || (colon && b = 58) || (65 ≤ b && b ≤ 90) || (97 ≤ b && b ≤ 122) ||
    (0 < n && 48 ≤ b && b ≤ 57)

/-- The loop of the two sanitizers: other bytes become underscores. -/
def sanitize (colon : Bool) (name : Bytes) : Bytes :=
  name.mapIdx fun n b => if keepsByte colon n b then b else 95

/-- `SanitizeMetricName` (lines 51–69). -/
def sanitizeMetricName (name : Bytes) : Bytes := sanitize true name

/-- `SanitizeLabelName` (lines 75–93). -/
def sanitizeLabelName (name : Bytes) : Bytes := sanitize false name

/-- `IsValidFloat` (lines 95–97). -/
def isValidFloat (value : Float64) : Bool := !isInf value && !isNaN value

/-- `ConvertLabels` (lines 99–113). -/
def convertLabels (point : Rpc.Point) : Labels := point.labels.pairs ++ [(metricName, point.name)]

/-! ## Translation -/

/-- `UNINDEXED_LABELS` (lines 12–19). -/
def unindexedLabels : List Bytes :=
  [lit "uri", lit "content_length", lit "user_agent", lit "request_id", lit "forwarded",
    lit "remote_address"]

/-- The loop over the labels of a point (lines 32–38). -/
def translateLabel (acc : Fields × Tags) (label : Bytes × Bytes) : Fields × Tags :=
  if label.1 ∈ unindexedLabels then (acc.1.insert label.1 (.string label.2), acc.2)
  else (acc.1, acc.2.set label.1 label.2)

/-- The fields and the tags of a point (lines 26–38). -/
def translateLabels (point : Rpc.Point) : Fields × Tags :=
  point.labels.pairs.foldl translateLabel
    (AList.singleton (lit "value") (.float point.value), [])

/-- The panics of the write path: of `MustNewPoint`, and of the logger when a shard
    cannot be created. -/
inductive Panic
  | mustNewPoint (message : Bytes)
  | creatingShard (err : Bytes)
  deriving DecidableEq

/-- `MustNewPoint`. -/
def mustNewPoint (name : Bytes) (tags : Tags) (fields : Fields) (t : ℤ) :
    Except Panic Influx.Point :=
  match newPoint name tags fields t with
  | .error err => .error (.mustNewPoint err)
  | .ok pt => .ok pt

/-- The body of the loop of `ToInfluxPoints` (lines 25–42). -/
def toInfluxPoint (point : Rpc.Point) : Except Panic Influx.Point :=
  mustNewPoint point.name (translateLabels point).2 (translateLabels point).1
    point.timestamp.toInt

/-- `ToInfluxPoints` (lines 21–45). -/
def toInfluxPoints : List Rpc.Point → Except Panic (List Influx.Point)
  | [] => .ok []
  | point :: points =>
    match toInfluxPoint point with
    | .error p => .error p
    | .ok pt =>
      match toInfluxPoints points with
      | .error p => .error p
      | .ok pts => .ok (pt :: pts)

/-! ## The fields and tags of a point -/

/-- The labels that become tags. -/
def tagLabels (labels : GoMap Bytes Bytes) : Tags :=
  labels.pairs.filter fun e => e.1 ∉ unindexedLabels

/-- The names of the fields: the value, and the labels that become fields. -/
def fieldNames (labels : GoMap Bytes Bytes) : List Bytes :=
  lit "value" :: (labels.pairs.map Prod.fst).filter fun name => name ∈ unindexedLabels

/-- A point whose time and series key the database takes. -/
def Storable (point : Rpc.Point) : Prop :=
  (minNanoTime ≤ point.timestamp.toInt ∧ point.timestamp.toInt ≤ maxNanoTime) ∧
    ∀ field ∈ fieldNames point.labels,
      keySize point.name (tagLabels point.labels) + 4 + field.length ≤ maxKeyLength

instance (point : Rpc.Point) : Decidable (Storable point) :=
  inferInstanceAs (Decidable (_ ∧ _))

/-- `Storable` does not depend on the order of the labels. -/
theorem Storable.congr {p q : Rpc.Point} (hname : p.name = q.name)
    (htime : p.timestamp = q.timestamp) (hlabels : ∀ k, p.labels.lookup k = q.labels.lookup k) :
    Storable p ↔ Storable q := by
  have hperm := GoMap.pairs_perm hlabels
  have hfields : (fieldNames p.labels).Perm (fieldNames q.labels) :=
    ((hperm.map Prod.fst).filter _).cons _
  have hsize : keySize p.name (tagLabels p.labels) = keySize q.name (tagLabels q.labels) := by
    rw [hname]
    exact keySize_perm _ (hperm.filter _)
  unfold Storable
  rw [htime, hsize]
  simp only [hfields.mem_iff]

/-- The tags collected by the loop over labels with distinct names. -/
theorem foldl_translateLabel_tags {l : Labels} (acc : Fields × Tags)
    (hnodup : ((acc.2 ++ l).map Prod.fst).Nodup) :
    (l.foldl translateLabel acc).2.Perm (acc.2 ++ l.filter fun e => e.1 ∉ unindexedLabels) := by
  induction l generalizing acc with
  | nil => simp
  | cons e l ih =>
    obtain ⟨fields, tags⟩ := acc
    have hsub : ((tags ++ l).map Prod.fst).Nodup :=
      hnodup.sublist (((List.sublist_cons_self e l).append_left tags).map _)
    rw [List.foldl_cons]
    by_cases he : e.1 ∈ unindexedLabels
    · -- a field: the tags are unchanged
      have hstep : translateLabel (fields, tags) e = (fields.insert e.1 (.string e.2), tags) :=
        if_pos he
      rw [hstep, List.filter_cons_of_neg (by simpa using he)]
      exact ih (fields.insert e.1 (.string e.2), tags) hsub
    · -- a tag with a new name
      have hnew : e.1 ∉ tags.map Prod.fst := by
        intro hmem
        rw [List.map_append, List.nodup_append] at hnodup
        exact hnodup.2.2 e.1 hmem e.1 (by simp) rfl
      have hset : (tags.set e.1 e.2).Perm (e :: tags) := Tags.set_perm hnew e.2
      have hstep : translateLabel (fields, tags) e = (fields, tags.set e.1 e.2) := if_neg he
      rw [hstep, List.filter_cons_of_pos (by simpa using he)]
      have hnodup' : ((tags.set e.1 e.2 ++ l).map Prod.fst).Nodup := by
        refine (List.Perm.nodup_iff ?_).1 hnodup
        refine List.Perm.map _ ?_
        exact List.perm_middle.trans (hset.symm.append_right l)
      refine (ih (fields, tags.set e.1 e.2) hnodup').trans ?_
      exact (hset.append_right _).trans List.perm_middle.symm

theorem translateLabels_tags (point : Rpc.Point) :
    (translateLabels point).2.Perm (tagLabels point.labels) :=
  foldl_translateLabel_tags _ (by simpa using point.labels.nodup_pairs)

/-- The fields collected by the loop: the ones before it, and the unindexed labels. -/
theorem foldl_translateLabel_fields {l : Labels} (acc : Fields × Tags)
    (hnodup : (l.map Prod.fst).Nodup)
    (hnew : ∀ e ∈ l, e.1 ∈ unindexedLabels → e.1 ∉ acc.1) (f : Bytes × FieldValue) :
    f ∈ (l.foldl translateLabel acc).1.pairs ↔ f ∈ acc.1.pairs ∨
      ∃ e ∈ l, e.1 ∈ unindexedLabels ∧ f = (e.1, .string e.2) := by
  induction l generalizing acc with
  | nil => simp
  | cons e l ih =>
    obtain ⟨fields, tags⟩ := acc
    rw [List.map_cons, List.nodup_cons] at hnodup
    rw [List.foldl_cons]
    by_cases he : e.1 ∈ unindexedLabels
    · have hstep : translateLabel (fields, tags) e = (fields.insert e.1 (.string e.2), tags) :=
        if_pos he
      have hfresh : e.1 ∉ fields := hnew e (by simp) he
      rw [hstep, ih (fields.insert e.1 (.string e.2), tags) hnodup.2 ?_]
      · have hins : f ∈ GoMap.pairs (fields.insert e.1 (.string e.2)) ↔
            f ∈ fields.pairs ∨ f = (e.1, .string e.2) := by
          obtain ⟨k, v⟩ := f
          rw [GoMap.mem_pairs, GoMap.mem_pairs]
          by_cases hk : k = e.1
          · subst hk
            rw [AList.lookup_insert, AList.lookup_eq_none.2 hfresh]
            simp [eq_comm]
          · rw [AList.lookup_insert_ne hk]
            simp [hk]
        simp only [hins, List.mem_cons, exists_eq_or_imp, he, true_and, or_assoc]
      · intro e' he' hu
        rw [AList.mem_insert, not_or]
        refine ⟨?_, hnew e' (List.mem_cons_of_mem _ he') hu⟩
        intro heq
        exact hnodup.1 (List.mem_map.2 ⟨e', he', heq⟩)
    · have hstep : translateLabel (fields, tags) e = (fields, tags.set e.1 e.2) := if_neg he
      rw [hstep, ih (fields, tags.set e.1 e.2) hnodup.2
        fun e' he' => hnew e' (List.mem_cons_of_mem _ he')]
      simp [he]

theorem mem_translateLabels_fields (point : Rpc.Point) (f : Bytes × FieldValue) :
    f ∈ (translateLabels point).1.pairs ↔ f = (lit "value", .float point.value) ∨
      ∃ e ∈ point.labels.pairs, e.1 ∈ unindexedLabels ∧ f = (e.1, .string e.2) := by
  unfold translateLabels
  rw [foldl_translateLabel_fields _ point.labels.nodup_pairs]
  · simp [GoMap.pairs, AList.singleton]
  · -- no unindexed label is called value
    intro e _ hu hmem
    replace hmem : e.1 = lit "value" := by simpa using AList.mem_keys.1 hmem
    rw [hmem] at hu
    exact absurd hu (by decide)

/-! ## When a point is translated -/

theorem float_finite_iff (v : Float64) :
    (FieldValue.float v).Finite ↔ isValidFloat v = true := by
  simp [FieldValue.Finite, isValidFloat]

/-- A nanosecond timestamp is never the zero `time.Time`. -/
theorem toInt_ne_zeroTime (t : Int64) : t.toInt ≠ zeroTime := by
  have := t.le_toInt
  unfold zeroTime
  omega

theorem acceptable_translateLabels_iff (point : Rpc.Point) :
    Acceptable point.name (translateLabels point).2 (translateLabels point).1
        point.timestamp.toInt ↔ isValidFloat point.value = true ∧ Storable point := by
  have hmem := mem_translateLabels_fields point
  have hnil : (translateLabels point).1.pairs ≠ [] :=
    List.ne_nil_of_mem ((hmem (lit "value", .float point.value)).2 (Or.inl rfl))
  have hfinite : (∀ f ∈ (translateLabels point).1.pairs, f.2.Finite ∧ f.1 ≠ []) ↔
      isValidFloat point.value = true := by
    rw [← float_finite_iff]
    refine ⟨fun h => (h _ ((hmem _).2 (Or.inl rfl))).1, fun hv f hf => ?_⟩
    rcases (hmem f).1 hf with rfl | ⟨e, -, hu, rfl⟩
    · exact ⟨hv, show lit "value" ≠ [] by decide⟩
    · refine ⟨trivial, fun hnil => ?_⟩
      rw [show e.1 = [] from hnil] at hu
      exact absurd hu (by decide)
  have hnames : ∀ P : Bytes → Prop, (∀ f ∈ (translateLabels point).1.pairs, P f.1) ↔
      ∀ field ∈ fieldNames point.labels, P field := by
    intro P
    simp only [hmem, fieldNames, List.forall_mem_cons, List.mem_filter, List.mem_map,
      decide_eq_true_eq]
    constructor
    · intro h
      refine ⟨h _ (Or.inl rfl), ?_⟩
      rintro _ ⟨⟨e, he, rfl⟩, hu⟩
      exact h _ (Or.inr ⟨e, he, hu, rfl⟩)
    · rintro ⟨hvalue, hlabels⟩ f (rfl | ⟨e, he, hu, rfl⟩)
      · exact hvalue
      · exact hlabels e.1 ⟨⟨e, he, rfl⟩, hu⟩
  unfold Acceptable Storable
  rw [hfinite, keySize_perm _ (translateLabels_tags point),
    hnames fun field =>
      keySize point.name (tagLabels point.labels) + 4 + field.length ≤ maxKeyLength]
  tauto

theorem toInfluxPoint_ok_iff (point : Rpc.Point) :
    (∃ pt, toInfluxPoint point = .ok pt) ↔
      isValidFloat point.value = true ∧ Storable point := by
  rw [← acceptable_translateLabels_iff, ← newPoint_ok_iff (toInt_ne_zeroTime _)]
  unfold toInfluxPoint mustNewPoint
  cases newPoint point.name (translateLabels point).2 (translateLabels point).1
    point.timestamp.toInt with
  | error err => simp
  | ok pt => simp

/-- The computation ends in the panic of `MustNewPoint`. -/
def Crashes {α : Type} (x : Except Panic α) : Prop := ∃ message, x = .error (.mustNewPoint message)

instance {α : Type} : ∀ x : Except Panic α, Decidable (Crashes x)
  | .error (.mustNewPoint message) => isTrue ⟨message, rfl⟩
  | .error (.creatingShard _) => isFalse nofun
  | .ok _ => isFalse nofun

theorem toInfluxPoint_error {point : Rpc.Point} {p : Panic} (h : toInfluxPoint point = .error p) :
    Crashes (toInfluxPoint point) := by
  unfold toInfluxPoint mustNewPoint at h ⊢
  split at h
  · rename_i err _
    exact ⟨err, rfl⟩
  · cases h

/-- **When `ToInfluxPoints` panics**: when a value is not finite or a point is not
    storable. -/
theorem toInfluxPoints_crashes_iff (points : List Rpc.Point) :
    Crashes (toInfluxPoints points) ↔
      ¬ ∀ point ∈ points, isValidFloat point.value = true ∧ Storable point := by
  induction points with
  | nil => simp [toInfluxPoints, Crashes]
  | cons point points ih =>
    rw [List.forall_mem_cons, ← toInfluxPoint_ok_iff]
    simp only [toInfluxPoints]
    cases hpoint : toInfluxPoint point with
    | error p =>
      obtain ⟨message, hmessage⟩ := toInfluxPoint_error hpoint
      rw [hpoint] at hmessage
      cases hmessage
      simp [Crashes]
    | ok pt =>
      cases hpoints : toInfluxPoints points with
      | error p =>
        rw [hpoints] at ih
        simpa [Crashes] using ih
      | ok pts =>
        rw [hpoints] at ih
        simpa [Crashes] using ih

theorem time_toInfluxPoint {point : Rpc.Point} {pt : Influx.Point}
    (h : toInfluxPoint point = .ok pt) : pt.time = point.timestamp.toInt := by
  unfold toInfluxPoint mustNewPoint newPoint at h
  split at h
  · cases h
  · rename_i heq
    split at heq
    · cases heq
    · cases heq
      cases h
      rfl

/-- Every translated point comes from a point of the list. -/
theorem exists_of_mem_toInfluxPoints {points : List Rpc.Point} {pts : List Influx.Point}
    (h : toInfluxPoints points = .ok pts) {pt : Influx.Point} (hpt : pt ∈ pts) :
    ∃ point ∈ points, toInfluxPoint point = .ok pt := by
  induction points generalizing pts with
  | nil =>
    cases h
    cases hpt
  | cons point points ih =>
    unfold toInfluxPoints at h
    split at h
    · cases h
    · rename_i pt' hpoint
      split at h
      · cases h
      · rename_i pts' hpoints
        cases h
        rcases List.mem_cons.1 hpt with rfl | hpt
        · exact ⟨point, List.mem_cons_self, hpoint⟩
        · obtain ⟨q, hq, htranslated⟩ := ih hpoints hpt
          exact ⟨q, List.mem_cons_of_mem _ hq, htranslated⟩

/-! ## Label sets and maps -/

theorem fromMap_perm (m : GoMap Bytes Bytes) : (Labels.fromMap m).Perm m.pairs :=
  List.perm_insertionSort _ _

theorem lookup_toMap_fromMap (m : GoMap Bytes Bytes) (k : Bytes) :
    (Labels.fromMap m).toMap.lookup k = m.lookup k := by
  have hnodup : ((Labels.fromMap m).map Prod.fst).Nodup :=
    (((fromMap_perm m).map Prod.fst).nodup_iff).2 m.nodup_pairs
  refine Option.ext fun v => ?_
  rw [Labels.toMap, GoMap.lookup_ofPairs hnodup, (fromMap_perm m).mem_iff, GoMap.mem_pairs]

theorem get_fromMap (m : GoMap Bytes Bytes) (k : Bytes) :
    (Labels.fromMap m).get k = (m.lookup k).getD [] := by
  unfold Labels.get
  rw [GoMap.find?_of_perm (fromMap_perm m)]
  cases m.lookup k <;> rfl

theorem lookup_toMap_convertLabels (point : Rpc.Point) {k : Bytes} (hk : k ≠ metricName) :
    (convertLabels point).toMap.lookup k = point.labels.lookup k := by
  unfold convertLabels Labels.toMap
  rw [GoMap.ofPairs_concat, AList.lookup_insert_ne hk]
  refine Option.ext fun v => ?_
  rw [GoMap.lookup_ofPairs point.labels.nodup_pairs, GoMap.mem_pairs]

/-- The name after `ConvertLabels`: a label `__name__` of the point comes before the
    point's own name. -/
theorem get_convertLabels (point : Rpc.Point) :
    (convertLabels point).get metricName
      = (point.labels.lookup metricName).getD point.name := by
  unfold convertLabels Labels.get
  rw [List.find?_append, GoMap.find?_of_perm (.refl _)]
  cases point.labels.lookup metricName with
  | none => simp
  | some v => simp

end MetricStore.Persistence
