import MetricStore.Influx.TagSets
import MetricStore.Storage.Listeners

/-!
# The series that a shard gives back

A point is stored under the series key that `MakeKey` makes of its name and its tags, which are
its labels but for the unindexed and the empty ones. A query reads the labels of a series from
its key again: `GetPoints` (`pkg/persistence/influx_adapter.go`, lines 82–169) asks each shard for
its iterators, and `CreateIterators` of the vendored `influxdb`
(`tsdb/engine/tsm1/engine_additions.go`, lines 14–219) makes one for each group of `TagSets`, with
the points under the keys of the group and the labels of its first key.

The queries here have no matchers but the name, and a window that covers the shard. Points are
those that the shard has taken; where two of a series have the same time the later one counts,
which is left out. A series without points does not become part of an answer.

Results:
* `ingressPoint_wellNamed`: the names of a point from the ingress listener, once they are
  sanitized, hide no sign of the key.
* `labels_read_back_iff`: the labels of such a point are read back, and the database finds it
  under its key, exactly if no label value but the last one ends in a backslash.
* `shard_answer_iff`: a shard answers with the series that were stored in it, each with its own
  labels and points, exactly if this holds for all of them and no two are grouped by the same
  text. So `a="x|y", b="z"` and `a="x", b="y|z"` become one series.
  Labels without bars are enough for the latter, unless the name is one of `systemSources`.
-/

namespace MetricStore.Storage

open MetricStore.Common MetricStore.Influx MetricStore.Persistence

/-! ## The key of a point -/

/-- The tags in the key of a point: its labels by name, but for the unindexed and the empty
    ones. -/
def seriesTags (point : Rpc.Point) : Tags :=
  (point.labels.pairs.filter fun e => e.1 ∉ unindexedLabels ∧ e.2 ≠ []).insertionSort
    fun e e' => e.1 ≤ e'.1

/-- The key under which a point is stored. -/
def seriesKey (point : Rpc.Point) : Bytes := makeKey point.name (seriesTags point)

theorem mem_seriesTags {point : Rpc.Point} {t : Bytes × Bytes} :
    t ∈ seriesTags point ↔ t ∈ point.labels.pairs ∧ t.1 ∉ unindexedLabels ∧ t.2 ≠ [] := by
  rw [seriesTags, List.mem_insertionSort, List.mem_filter, decide_eq_true_eq]

theorem pairwise_insertionSort_names (l : Tags) :
    (l.insertionSort fun e e' => e.1 ≤ e'.1).Pairwise fun e e' => e.1 ≤ e'.1 := by
  have : Std.Total fun e e' : Bytes × Bytes => e.1 ≤ e'.1 := ⟨fun e e' => List.le_total e.1 e'.1⟩
  have : IsTrans (Bytes × Bytes) fun e e' => e.1 ≤ e'.1 := ⟨fun _ _ _ => List.le_trans⟩
  exact List.pairwise_insertionSort _ _

theorem seriesTags_ordered (point : Rpc.Point) : (seriesTags point).Ordered := by
  have hnodup : ((seriesTags point).map Prod.fst).Nodup := by
    refine ((List.perm_insertionSort _ _).map Prod.fst).nodup_iff.mpr ?_
    exact point.labels.nodup_pairs.sublist (List.filter_sublist.map Prod.fst)
  have hsorted := List.pairwise_map.mpr (pairwise_insertionSort_names
    (point.labels.pairs.filter fun e => e.1 ∉ unindexedLabels ∧ e.2 ≠ []))
  exact List.pairwise_map.mp (pairwise_lt_of_nodup hsorted hnodup)

/-- `Tags.Set` keeps the tags in the order of their names. -/
theorem set_sorted {tags : Tags} (h : tags.Pairwise fun t u => t.1 ≤ u.1) (key value : Bytes) :
    (tags.set key value).Pairwise fun t u => t.1 ≤ u.1 := by
  unfold Tags.set
  split
  · next i hi =>
    obtain ⟨hlt, hname, -⟩ := List.findIdx?_eq_some_iff_getElem.mp hi
    have hnames : (List.set tags i (key, value)).map Prod.fst = tags.map Prod.fst := by
      rw [List.map_set]
      refine List.ext_getElem (by simp) fun j hj hj' => ?_
      rw [List.getElem_set]
      split_ifs with hij
      · subst hij
        simpa using (of_decide_eq_true hname).symm
      · rfl
    rw [← List.pairwise_map (f := Prod.fst), hnames, List.pairwise_map]
    exact h
  · exact pairwise_insertionSort_names _

theorem translateLabels_sorted (point : Rpc.Point) :
    (translateLabels point).2.Pairwise fun t u => t.1 ≤ u.1 := by
  have hloop : ∀ (l : Labels) (acc : Fields × Tags), (acc.2.Pairwise fun t u => t.1 ≤ u.1) →
      (l.foldl translateLabel acc).2.Pairwise fun t u => t.1 ≤ u.1 := by
    intro l
    induction l with
    | nil => exact fun acc h => h
    | cons e l ih =>
      intro acc h
      refine ih _ ?_
      unfold translateLabel
      split_ifs
      · exact h
      · exact set_sorted h e.1 e.2
  exact hloop _ _ List.Pairwise.nil

/-- The tags of `ToInfluxPoints` that get into the key. -/
theorem indexed_translateLabels (point : Rpc.Point) :
    (translateLabels point).2.indexed = seriesTags point := by
  have hperm : (translateLabels point).2.indexed.Perm (seriesTags point) := by
    refine ((translateLabels_tags point).filter _).trans ?_
    rw [tagLabels, List.filter_filter]
    refine List.Perm.trans (List.Perm.of_eq (List.filter_congr fun e _ => ?_))
      (List.perm_insertionSort _ _).symm
    simp [and_comm]
  refine List.Perm.eq_of_pairwise ?_ ((translateLabels_sorted point).sublist List.filter_sublist)
    (pairwise_insertionSort_names _) hperm
  intro t u ht hu hle hge
  -- tags with the same name are the same label
  have hpairs : ∀ t ∈ seriesTags point, point.labels.lookup t.1 = some t.2 :=
    fun t ht => GoMap.mem_pairs.mp (mem_seriesTags.mp ht).1
  have hname := List.le_antisymm hle hge
  have hvalue := hpairs t (hperm.mem_iff.mp ht)
  rw [hname, hpairs u hu, Option.some.injEq] at hvalue
  exact Prod.ext hname hvalue.symm

theorem eq_makeKey_of_pointKey {name key : Bytes} {tags : Tags} {fields : Fields} {t : ℤ}
    (h : pointKey name tags fields t = .ok key) : key = makeKey name tags := by
  unfold pointKey at h
  split at h
  · cases h
  · split at h
    · cases h
    · split at h
      · cases h
      · dsimp only at h
        split at h
        · cases h
        · exact (Except.ok.inj h).symm

theorem makeKey_indexed (name : Bytes) (tags : Tags) :
    makeKey name tags.indexed = makeKey name tags := by
  rw [makeKey, makeKey, hashKey_indexed]

theorem key_toInfluxPoint {point : Rpc.Point} {p : Influx.Point}
    (h : toInfluxPoint point = .ok p) : p.key = seriesKey point := by
  unfold toInfluxPoint mustNewPoint newPoint at h
  generalize hpoint : pointKey point.name (translateLabels point).2 (translateLabels point).1
    point.timestamp.toInt = r at h
  cases r with
  | error err => cases h
  | ok key =>
    cases h
    rw [seriesKey, ← indexed_translateLabels, makeKey_indexed]
    exact eq_makeKey_of_pointKey hpoint

/-! ## Names that hide no sign -/

/-- A name that is taken as it is, and names of labels that do not end in a backslash. -/
structure WellNamed (point : Rpc.Point) : Prop where
  name : PlainName point.name
  labels : ∀ e ∈ point.labels.pairs, ¬ EndsInBackslash e.1

/-- The signs of a key are not in a sanitized name. -/
theorem not_mem_sanitize {c : UInt8} (hc : c ∈ [comma, 32, backslash]) (colon : Bool)
    (name : Bytes) : c ∉ sanitize colon name := by
  intro hmem
  obtain ⟨n, hn, heq⟩ := List.mem_mapIdx.mp hmem
  have hkept : ∀ b, keepsByte colon n b = true → b ∉ [comma, 32, backslash] := by
    intro b hb hmem
    simp only [List.mem_cons, List.not_mem_nil, or_false] at hmem
    rcases hmem with rfl | rfl | rfl
    all_goals
      revert hb
      cases colon <;> simp [keepsByte, comma, backslash]
  split_ifs at heq with hb
  · exact hkept _ hb (heq ▸ hc)
  · rw [← heq] at hc
    revert hc
    decide

theorem sanitizeMetricName_plain {name : Bytes} (h : name ≠ []) :
    PlainName (sanitizeMetricName name) where
  ne_nil := by simpa [sanitizeMetricName, sanitize] using h
  no_comma := not_mem_sanitize (by simp) _ _
  no_space := not_mem_sanitize (by simp) _ _
  no_backslash := not_mem_sanitize (by simp) _ _

/-- **Sanitized names hide no sign.** -/
theorem ingressPoint_wellNamed (length : ℕ) {p : Rpc.Point} (h : p.name ≠ []) :
    WellNamed (ingressPoint length p) := by
  refine ⟨sanitizeMetricName_plain h, ?_⟩
  rintro ⟨k, v⟩ he hend
  have hlookup := GoMap.mem_pairs.mp he
  simp only [ingressPoint, lookup_storedLabels] at hlookup
  split_ifs at hlookup
  have hkey : k ∈ sanitizedLabels p := by
    rw [← AList.lookup_isSome]
    cases hfound : (sanitizedLabels p).lookup k with
    | none => simp [hfound] at hlookup
    | some v' => rfl
  rw [sanitizedLabels, GoMap.mem_ofPairs, List.map_map] at hkey
  obtain ⟨e, -, rfl⟩ := List.mem_map.mp hkey
  exact not_mem_sanitize (by simp) false e.1 (List.mem_of_getLast? hend)

/-! ## Reading the key of a point -/

theorem indexed_seriesTags (point : Rpc.Point) : (seriesTags point).indexed = seriesTags point := by
  rw [Tags.indexed, List.filter_eq_self]
  exact fun t ht => decide_eq_true (mem_seriesTags.mp ht).2.2

namespace WellNamed

variable {point : Rpc.Point} (h : WellNamed point)

include h

theorem keyName_seriesKey : keyName (seriesKey point) = point.name := h.name.keyName_makeKey _

theorem tagNames : ∀ t ∈ seriesTags point, ¬ EndsInBackslash t.1 :=
  fun t ht => h.labels t (mem_seriesTags.mp ht).1

theorem walkTags_seriesKey_iff :
    walkTags (seriesKey point) = seriesTags point ↔ Influx.Readable (seriesTags point) := by
  rw [seriesKey, h.name.walkTags_makeKey, indexed_seriesTags]
  exact walkLoop_hashKey_iff fun t ht => (mem_seriesTags.mp ht).2.2

theorem seriesLabels_seriesKey_iff :
    seriesLabels (seriesKey point) = (metricName, point.name) :: seriesTags point ↔
      Influx.Readable (seriesTags point) := by
  rw [seriesKey, h.name.seriesLabels_makeKey, indexed_seriesTags, metricName, List.cons.injEq,
    and_iff_right rfl]
  exact walkLoop_hashKey_iff fun t ht => (mem_seriesTags.mp ht).2.2

theorem makeKey_walkTags_iff :
    makeKey (keyName (seriesKey point)) (walkTags (seriesKey point)) = seriesKey point ↔
      Influx.Readable (seriesTags point) := by
  rw [h.keyName_seriesKey, seriesKey]
  have hnames : ∀ t ∈ (seriesTags point).indexed, ¬ EndsInBackslash t.1 := by
    rw [indexed_seriesTags]
    exact h.tagNames
  rw [h.name.makeKey_walkTags_iff _ hnames, indexed_seriesTags]

end WellNamed

/-- **Labels come back from the key.** For every point that can be stored and whose names hide no
    sign, these are equivalent: a query reads the name and the indexed labels of the point from
    its key; the name and the tags that the index reads make the same key again, under which the
    point is found; no label value but the last one, by name, ends in a backslash. -/
theorem labels_read_back_iff {point : Rpc.Point} (hnamed : WellNamed point) {p : Influx.Point}
    (h : toInfluxPoint point = .ok p) :
    (seriesLabels p.key = (metricName, point.name) :: seriesTags point ↔
        Influx.Readable (seriesTags point)) ∧
      (makeKey (keyName p.key) (walkTags p.key) = p.key ↔ Influx.Readable (seriesTags point)) := by
  rw [key_toInfluxPoint h]
  exact ⟨hnamed.seriesLabels_seriesKey_iff, hnamed.makeKey_walkTags_iff⟩

/-- A point from the ingress listener with the labels `disk` and `host`. -/
def diskPoint (disk host : Bytes) : Rpc.Point :=
  ingressPoint 256 ⟨lit "disk.used", 7, 0, GoMap.ofPairs [(lit "disk", disk), (lit "host", host)]⟩

/-- The disk `C:\` of a host hides the host, and comes back if it is the last label. -/
theorem labels_read_back_iff_disk :
    (∃ p, toInfluxPoint (diskPoint (lit "C:\\") (lit "a")) = .ok p ∧
      makeKey (keyName p.key) (walkTags p.key) ≠ p.key) ∧
    ∃ p, toInfluxPoint (diskPoint (lit "C:\\") []) = .ok p ∧
      seriesLabels p.key = [(metricName, lit "disk_used"), (lit "disk", lit "C:\\")] := by
  have hnamed (disk host : Bytes) : WellNamed (diskPoint disk host) :=
    ingressPoint_wellNamed 256 (show lit "disk.used" ≠ [] by decide)
  obtain ⟨p, hp⟩ : ∃ p, toInfluxPoint (diskPoint (lit "C:\\") (lit "a")) = .ok p := ⟨_, rfl⟩
  obtain ⟨q, hq⟩ : ∃ q, toInfluxPoint (diskPoint (lit "C:\\") []) = .ok q := ⟨_, rfl⟩
  refine ⟨⟨p, hp, mt (labels_read_back_iff (hnamed _ _) hp).2.mp (by decide)⟩, q, hq, ?_⟩
  exact ((labels_read_back_iff (hnamed _ _) hq).1.mpr (by decide)).trans (by decide)

/-! ## The answer of a shard -/

/-- The names of the tags of the measurement in all shards of the query. -/
abbrev queryDims (shards : List (List Rpc.Point)) (name : Bytes) : List Bytes :=
  fieldDimensions (shards.map fun points => points.map seriesKey) name

/-- The series of a measurement in the answer of a shard to a query of some shards. Each
    iterator has the labels of the first key of its group, and the points under all of them. -/
def shardAnswer (shards : List (List Rpc.Point)) (points : List Rpc.Point) (name : Bytes) :
    List (Labels × List Rpc.Point) :=
  ((tagSets (queryDims shards name) name (indexSeries (points.map seriesKey) name)).map fun keys =>
    (seriesLabels (keys.headD []), points.filter fun point => seriesKey point ∈ keys)).filter
      fun series => series.2 ≠ []

/-- The different tags of the points of a measurement. -/
def storedTags (points : List Rpc.Point) (name : Bytes) : List Tags :=
  ((points.filter fun point => point.name = name).map seriesTags).dedup

/-- The series that are stored: each with its labels and its points. -/
def storedSeries (points : List Rpc.Point) (name : Bytes) : List (Labels × List Rpc.Point) :=
  (storedTags points name).map fun tags =>
    ((metricName, name) :: tags,
      points.filter fun point => point.name = name ∧ seriesTags point = tags)

theorem mem_storedTags {points : List Rpc.Point} {name : Bytes} {tags : Tags} :
    tags ∈ storedTags points name ↔ ∃ q ∈ points, q.name = name ∧ seriesTags q = tags := by
  simp [storedTags, and_assoc]

section Answer

variable {shards : List (List Rpc.Point)} {points : List Rpc.Point} {name : Bytes}

/-- The index has the tags of the points, if they can be read back. -/
theorem indexSeries_eq (hnamed : ∀ q ∈ points, WellNamed q)
    (hread : ∀ tags ∈ storedTags points name, Influx.Readable tags) :
    indexSeries (points.map seriesKey) name = storedTags points name := by
  unfold indexSeries storedTags
  have hfilter : (points.filter ((fun key => decide (keyName key = name)) ∘ seriesKey)) =
      points.filter fun q => q.name = name :=
    List.filter_congr fun q hq => by rw [Function.comp_apply, (hnamed q hq).keyName_seriesKey]
  rw [List.filter_map, hfilter, List.map_map]
  congr 1
  refine List.map_congr_left fun q hq => ?_
  obtain ⟨hq, hname⟩ := List.mem_filter.mp hq
  exact (hnamed q hq).walkTags_seriesKey_iff.mpr
    (hread _ (mem_storedTags.mpr ⟨q, hq, of_decide_eq_true hname, rfl⟩))

/-- The labels of every iterator can be read back. -/
theorem readable_of_mem_shardAnswer {tags : Tags} {own : List Rpc.Point}
    (h : ((metricName, name) :: tags, own) ∈ shardAnswer shards points name) :
    Influx.Readable tags := by
  obtain ⟨keys, -, heq⟩ := List.mem_map.mp (List.mem_of_mem_filter h)
  have hlabels := congrArg Prod.fst heq
  dsimp only at hlabels
  unfold seriesLabels at hlabels
  dsimp only at hlabels
  split_ifs at hlabels
  obtain ⟨-, htags⟩ := List.cons.inj hlabels
  rw [← htags]
  exact readable_walkLoop (by decide) _

theorem map_makeTagsKey_storedTags (hshard : points ∈ shards) (hnamed : ∀ q ∈ points, WellNamed q)
    (hread : ∀ tags ∈ storedTags points name, Influx.Readable tags) :
    (storedTags points name).map (makeTagsKey (queryDims shards name)) =
      (storedTags points name).map (groupText name) := by
  refine List.map_congr_left fun tags htags => ?_
  obtain ⟨q, -, -, rfl⟩ := mem_storedTags.mp htags
  rw [← indexSeries_eq hnamed hread] at htags
  exact makeTagsKey_eq (List.mem_map_of_mem hshard) htags (seriesTags_ordered q)

/-- The points under the key of a series are those of the series. -/
theorem seriesKey_eq_iff (hnamed : ∀ q ∈ points, WellNamed q)
    (hread : ∀ tags ∈ storedTags points name, Influx.Readable tags) {tags : Tags}
    (htags : tags ∈ storedTags points name) {q : Rpc.Point} (hq : q ∈ points) :
    seriesKey q = makeKey name tags ↔ q.name = name ∧ seriesTags q = tags := by
  refine ⟨fun hkey => ?_, fun ⟨hname, heq⟩ => by rw [seriesKey, hname, heq]⟩
  obtain ⟨q', hq', rfl, rfl⟩ := mem_storedTags.mp htags
  have hname : q.name = q'.name := by
    rw [← (hnamed q hq).keyName_seriesKey, hkey]
    exact (hnamed q' hq').keyName_seriesKey
  refine ⟨hname, ?_⟩
  have hown := hread _ (mem_storedTags.mpr ⟨q, hq, hname, rfl⟩)
  rw [← (hnamed q hq).walkTags_seriesKey_iff.mpr hown, hkey]
  exact (hnamed q' hq').walkTags_seriesKey_iff.mpr (hread _ htags)

/-- A shard answers with the series that it stores, if they are read back and have texts of
    their own. -/
theorem shardAnswer_perm (hshard : points ∈ shards) (hnamed : ∀ q ∈ points, WellNamed q)
    (hread : ∀ tags ∈ storedTags points name, Influx.Readable tags)
    (htexts : ((storedTags points name).map (groupText name)).Nodup) :
    (shardAnswer shards points name).Perm (storedSeries points name) := by
  rw [← map_makeTagsKey_storedTags hshard hnamed hread] at htexts
  rw [shardAnswer, indexSeries_eq hnamed hread]
  refine (((tagSets_perm htexts).map _).filter _).trans (List.Perm.of_eq ?_)
  have hentry : ∀ tags ∈ storedTags points name,
      (seriesLabels ([makeKey name tags].headD []),
        points.filter fun q => seriesKey q ∈ [makeKey name tags]) =
      ((metricName, name) :: tags,
        points.filter fun q => q.name = name ∧ seriesTags q = tags) := by
    intro tags htags
    obtain ⟨q, hq, rfl, rfl⟩ := mem_storedTags.mp htags
    refine Prod.ext ((hnamed q hq).seriesLabels_seriesKey_iff.mpr (hread _ htags)) ?_
    refine List.filter_congr fun q' hq' => ?_
    rw [decide_eq_decide, List.mem_singleton]
    exact seriesKey_eq_iff hnamed hread htags hq'
  rw [List.map_map, storedSeries, List.filter_eq_self.mpr]
  · exact List.map_congr_left hentry
  · intro series hseries
    obtain ⟨tags, htags, rfl⟩ := List.mem_map.mp hseries
    obtain ⟨q, hq, hname, heq⟩ := mem_storedTags.mp htags
    rw [Function.comp_apply, hentry tags htags, decide_eq_true_eq]
    exact List.ne_nil_of_mem (List.mem_filter.mpr ⟨hq, decide_eq_true ⟨hname, heq⟩⟩)

/-- Names and values without bars are grouped by texts of their own. -/
theorem injOn_groupText (hsource : name ∉ systemSources)
    (hbars : ∀ tags ∈ storedTags points name, tags.NoBars) :
    Set.InjOn (groupText name) {tags | tags ∈ storedTags points name} := by
  intro tags htags tags' htags' heq
  unfold groupText at heq
  rw [if_neg hsource, if_neg hsource] at heq
  exact barText_injective (hbars tags htags) (hbars tags' htags') heq

/-- **What a shard gives back.** A shard of points whose names hide no sign answers a query of a
    measurement with the series that it stores, each with its own labels and points, exactly if
    no label value of them but the last one ends in a backslash, and no two of them are grouped
    by the same text; two without bars never are, unless the measurement is a system source. -/
theorem shard_answer_iff (hshard : points ∈ shards) (hnamed : ∀ q ∈ points, WellNamed q)
    (name : Bytes) :
    ((shardAnswer shards points name).Perm (storedSeries points name) ↔
      (∀ tags ∈ storedTags points name, Influx.Readable tags) ∧
        Set.InjOn (groupText name) {tags | tags ∈ storedTags points name}) ∧
    (name ∉ systemSources → (∀ tags ∈ storedTags points name, tags.NoBars) →
      Set.InjOn (groupText name) {tags | tags ∈ storedTags points name}) := by
  refine ⟨?_, injOn_groupText⟩
  have hnodup : (storedTags points name).Nodup := List.nodup_dedup _
  constructor
  · intro hperm
    have hread : ∀ tags ∈ storedTags points name, Influx.Readable tags := fun tags htags =>
      readable_of_mem_shardAnswer (hperm.mem_iff.mpr (List.mem_map_of_mem htags))
    refine ⟨hread, ?_⟩
    -- there are no fewer texts than series
    have hlength : (storedTags points name).length ≤
        ((storedTags points name).map (groupText name)).dedup.length := by
      have hanswer : (shardAnswer shards points name).length ≤ (tagSets (queryDims shards name) name
          (indexSeries (points.map seriesKey) name)).length :=
        (List.length_filter_le _ _).trans (List.length_map _).le
      have hstored : (storedSeries points name).length = (storedTags points name).length :=
        List.length_map _
      rwa [hperm.length_eq, hstored, indexSeries_eq hnamed hread, length_tagSets,
        map_makeTagsKey_storedTags hshard hnamed hread] at hanswer
    have hself := (List.dedup_sublist _).eq_of_length_le
      ((List.length_map (groupText name)).le.trans hlength)
    have htexts : ((storedTags points name).map (groupText name)).Nodup :=
      hself ▸ List.nodup_dedup _
    exact fun tags htags tags' htags' heq => List.inj_on_of_nodup_map htexts htags htags' heq
  · rintro ⟨hread, hinj⟩
    exact shardAnswer_perm hshard hnamed hread (hnodup.map_on fun tags htags tags' htags' heq =>
      hinj htags htags' heq)

/-- Two series that differ in where the bar is, and one that has none. -/
def barPoints : List Rpc.Point :=
  [⟨lit "up", 1, 0, GoMap.ofPairs [(lit "a", lit "x|y"), (lit "b", lit "z")]⟩,
    ⟨lit "up", 2, 0, GoMap.ofPairs [(lit "a", lit "x"), (lit "b", lit "y|z")]⟩,
    ⟨lit "down", 3, 0, GoMap.ofPairs [(lit "a", lit "x")]⟩]

theorem barPoints_wellNamed : ∀ q ∈ barPoints, WellNamed q := by
  have hall : ∀ q ∈ barPoints, PlainName q.name ∧ ∀ e ∈ q.labels.pairs, ¬ EndsInBackslash e.1 := by
    decide
  exact fun q hq => ⟨(hall q hq).1, (hall q hq).2⟩

/-- The two series of `up` become one, and `down` is as it was stored. -/
theorem shard_answer_iff_barPoints :
    ¬ (shardAnswer [barPoints] barPoints (lit "up")).Perm (storedSeries barPoints (lit "up")) ∧
      (shardAnswer [barPoints] barPoints (lit "down")).Perm
        (storedSeries barPoints (lit "down")) := by
  have hshard : barPoints ∈ [barPoints] := List.mem_singleton_self _
  constructor
  · rw [(shard_answer_iff hshard barPoints_wellNamed _).1]
    rintro ⟨-, hinj⟩
    have hfirst : [(lit "a", lit "x|y"), (lit "b", lit "z")] ∈
        storedTags barPoints (lit "up") := by decide
    have hsecond : [(lit "a", lit "x"), (lit "b", lit "y|z")] ∈
        storedTags barPoints (lit "up") := by decide
    exact absurd (hinj hfirst hsecond (by decide)) (by decide)
  · refine (shard_answer_iff hshard barPoints_wellNamed _).1.mpr ⟨by decide, ?_⟩
    have hinj : ∀ tags ∈ storedTags barPoints (lit "down"),
        ∀ tags' ∈ storedTags barPoints (lit "down"),
        groupText (lit "down") tags = groupText (lit "down") tags' → tags = tags' := by decide
    exact fun tags htags tags' htags' heq => hinj tags htags tags' htags' heq

end Answer

end MetricStore.Storage
