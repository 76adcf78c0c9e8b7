import MetricStore.Common.Sort
import MetricStore.Persistence.InfluxAdapter

/-!
# Assembling the series of a query

Model of `SeriesSetBuilder` (`pkg/persistence/transform/series_set_builder.go`) and of the
iterator of a series (`transform/series_set.go`). `GetPoints` (`influx_adapter.go`,
lines 118–168) reads each shard in a goroutine of its own, and each adds the points of every
series it has read with `AddSeriesPoints`, under a lock. `SeriesSet` then sorts the slices of
a series by their first sample and joins them.

The hash of a label set is a parameter. A run of the goroutines is a list of calls in the
order in which they get the lock.

Results:
* `lookup_build_iff`: what the builder holds after any calls.
* `mem_seriesSet_iff`: the series, each with the joined slices of its calls.
* `seek_eq_findIdx`: where `Seek` stops.
* `series_assembly`: the series of any collection of calls, in any order.
-/

namespace MetricStore.Persistence

open MetricStore.Common

/-! ## Samples -/

/-- `NanosecondsToMilliseconds` (`transform/time.go`, lines 24–26). -/
def nanosecondsToMilliseconds (ns : Int64) : Int64 := ns * 1 / 1000000

/-- `query.FloatPoint`, of which the time and the bits of the value are read. -/
structure FloatPoint where
  time : Int64
  value : BitVec 64
  deriving DecidableEq

/-- `seriesSample` (`series_set.go`, lines 10–13). -/
structure SeriesSample where
  timeInMilliseconds : Int64
  value : BitVec 64
  deriving DecidableEq

/-- The sample of a point (lines 57–60). -/
def toSample (point : FloatPoint) : SeriesSample :=
  ⟨nanosecondsToMilliseconds point.time, point.value⟩

/-- The samples of one call. Those of a call without points are not kept, so that the first
    sample exists. -/
abbrev ShardSamples := { samples : List SeriesSample // samples ≠ [] }

/-- The samples of the points of a call (lines 48–61), if there are any. -/
def toSamples (points : List FloatPoint) : Option ShardSamples :=
  if h : points = [] then none else some ⟨points.map toSample, by simpa using h⟩

/-- The time that `Less` compares. -/
def firstTime (s : ShardSamples) : ℤ := (s.1.head s.2).timeInMilliseconds.toInt

/-- `Less` (lines 23–25). -/
abbrev less (a b : ShardSamples) : Prop := firstTime a < firstTime b

/-! ## The builder -/

/-- `seriesData` (lines 12–15). -/
structure SeriesData where
  labels : Labels
  samples : List ShardSamples

/-- `SeriesSetBuilder` (lines 31–36). -/
structure SeriesSetBuilder where
  data : GoMap UInt64 SeriesData
  count : ℕ

/-- `NewSeriesBuilder` (lines 38–42). -/
def newSeriesBuilder : SeriesSetBuilder := ⟨∅, 0⟩

/-- `concreteSeries` (`series_set.go`, lines 35–38). -/
structure ConcreteSeries where
  labels : Labels
  samples : List SeriesSample
  deriving DecidableEq

/-- A call of `AddSeriesPoints`, from the goroutine that reads the shard of the given day
    after the Unix epoch. -/
structure Call where
  shard : ℕ
  labels : Labels
  points : List FloatPoint

variable (hash : Labels → UInt64)

/-- `AddSeriesPoints` (lines 44–74). -/
def SeriesSetBuilder.addSeriesPoints (b : SeriesSetBuilder) (seriesLabels : Labels)
    (points : List FloatPoint) : SeriesSetBuilder :=
  match toSamples points with
  | none => b
  | some samples =>
    let seriesID := hash seriesLabels
    let data := match b.data.lookup seriesID with
      | some sd => b.data.insert seriesID ⟨sd.labels, sd.samples ++ [samples]⟩
      | none => b.data.insert seriesID ⟨seriesLabels, [samples]⟩
    ⟨data, b.count + points.length⟩

/-- The builder after the calls. -/
def build (calls : List Call) : SeriesSetBuilder :=
  calls.foldl (fun b c => b.addSeriesPoints hash c.labels c.points) newSeriesBuilder

/-- The slices, one after the other. -/
def joined (slices : List ShardSamples) : List SeriesSample := (slices.map Subtype.val).flatten

/-- The body of the loop of `SeriesSet` (lines 89–95). -/
def SeriesData.series (sorting : Sorting less) (datum : SeriesData) : ConcreteSeries :=
  ⟨datum.labels, joined (sorting.sort datum.samples)⟩

/-- `SeriesSet` (lines 83–101). -/
def SeriesSetBuilder.seriesSet (order : MapOrder UInt64) (sorting : Sorting less)
    (b : SeriesSetBuilder) : List ConcreteSeries :=
  (order.iterate b.data.keys).filterMap fun id => (b.data.lookup id).map (·.series sorting)

/-! ## What the builder holds -/

/-- The slices that the calls add to a series. -/
def slices (calls : List Call) (labels : Labels) : List ShardSamples :=
  calls.filterMap fun c => if c.labels = labels then toSamples c.points else none

/-- The slices that the calls add under a key of the map, each with the labels of its call. -/
def slicesAt (calls : List Call) (id : UInt64) : List (Labels × ShardSamples) :=
  calls.filterMap fun c =>
    if hash c.labels = id then (toSamples c.points).map fun s => (c.labels, s) else none

/-- The first call of a key gives the labels. -/
def dataOf : List (Labels × ShardSamples) → Option SeriesData
  | [] => none
  | e :: es => some ⟨e.1, (e :: es).map Prod.snd⟩

theorem dataOf_concat (l : List (Labels × ShardSamples)) (e : Labels × ShardSamples) :
    dataOf (l ++ [e]) = match dataOf l with
      | some sd => some ⟨sd.labels, sd.samples ++ [e.2]⟩
      | none => some ⟨e.1, [e.2]⟩ := by
  cases l with
  | nil => rfl
  | cons e' es => simp [dataOf]

theorem lookup_addSeriesPoints (b : SeriesSetBuilder) (l : Labels) (points : List FloatPoint)
    (s : ShardSamples) (hs : toSamples points = some s) (id : UInt64) :
    (b.addSeriesPoints hash l points).data.lookup id =
      if hash l = id then
        match b.data.lookup id with
        | some sd => some ⟨sd.labels, sd.samples ++ [s]⟩
        | none => some ⟨l, [s]⟩
      else b.data.lookup id := by
  unfold SeriesSetBuilder.addSeriesPoints
  rw [hs]
  dsimp only
  by_cases hid : hash l = id
  · subst hid
    rw [if_pos rfl]
    cases b.data.lookup (hash l) with
    | none => exact AList.lookup_insert _
    | some sd => exact AList.lookup_insert _
  · rw [if_neg hid]
    cases b.data.lookup (hash l) with
    | none => exact AList.lookup_insert_ne (Ne.symm hid)
    | some sd => exact AList.lookup_insert_ne (Ne.symm hid)

theorem lookup_build (calls : List Call) (id : UInt64) :
    (build hash calls).data.lookup id = dataOf (slicesAt hash calls id) := by
  induction calls using List.reverseRecOn with
  | nil => rfl
  | append_singleton calls c ih =>
    have hbuild : build hash (calls ++ [c]) =
        (build hash calls).addSeriesPoints hash c.labels c.points := by simp [build]
    rw [hbuild, slicesAt, List.filterMap_append, ← slicesAt]
    cases hs : toSamples c.points with
    | none =>
      have hsame : (build hash calls).addSeriesPoints hash c.labels c.points =
          build hash calls := by
        unfold SeriesSetBuilder.addSeriesPoints
        rw [hs]
      rw [hsame, ih]
      simp [hs]
    | some s =>
      rw [lookup_addSeriesPoints hash _ _ _ s hs, ih]
      by_cases hid : hash c.labels = id
      · simp [hid, hs, dataOf_concat]
      · simp [hid]

variable {hash} {calls : List Call}

/-- The hash tells the label sets of the calls apart. -/
def Separates (hash : Labels → UInt64) (calls : List Call) : Prop :=
  ∀ a ∈ calls, ∀ b ∈ calls, hash a.labels = hash b.labels → a.labels = b.labels

theorem slicesAt_hash (hinj : Separates hash calls) {c : Call} (hc : c ∈ calls) :
    slicesAt hash calls (hash c.labels) = (slices calls c.labels).map fun s => (c.labels, s) := by
  unfold slicesAt slices
  rw [List.map_filterMap]
  refine List.filterMap_congr fun c' hc' => ?_
  by_cases hlabels : c'.labels = c.labels
  · simp [hlabels]
  · have hhash : hash c'.labels ≠ hash c.labels := fun h => hlabels (hinj c' hc' c hc h)
    simp [hlabels, hhash]

theorem exists_of_mem_slices {l : Labels} {s : ShardSamples} (h : s ∈ slices calls l) :
    ∃ c ∈ calls, c.labels = l ∧ toSamples c.points = some s := by
  obtain ⟨c, hc, hs⟩ := List.mem_filterMap.mp h
  by_cases hl : c.labels = l
  · rw [if_pos hl] at hs
    exact ⟨c, hc, hl, hs⟩
  · rw [if_neg hl] at hs
    cases hs

/-- **What the builder holds**: under the hash of each label set that has received points, the
    label set and its slices in the order of the calls. -/
theorem lookup_build_iff (hinj : Separates hash calls) {id : UInt64} {d : SeriesData} :
    (build hash calls).data.lookup id = some d ↔
      id = hash d.labels ∧ slices calls d.labels ≠ [] ∧ d.samples = slices calls d.labels := by
  -- the entry of a label set with slices
  have hentry : ∀ l, slices calls l ≠ [] →
      (build hash calls).data.lookup (hash l) = some ⟨l, slices calls l⟩ := by
    intro l hl
    obtain ⟨s, hs⟩ := List.exists_mem_of_ne_nil _ hl
    obtain ⟨c, hc, rfl, -⟩ := exists_of_mem_slices hs
    rw [lookup_build, slicesAt_hash hinj hc]
    generalize hslices : slices calls c.labels = rest at hl ⊢
    cases rest with
    | nil => exact absurd rfl hl
    | cons s rest => simp [dataOf]
  constructor
  · intro h
    have hne : slicesAt hash calls id ≠ [] := by
      intro hnil
      rw [lookup_build, hnil] at h
      cases h
    obtain ⟨e, he⟩ := List.exists_mem_of_ne_nil _ hne
    obtain ⟨c, hc, hce⟩ := List.mem_filterMap.mp he
    have hid : hash c.labels = id := by
      by_contra hid
      rw [if_neg hid] at hce
      cases hce
    subst hid
    have hl : slices calls c.labels ≠ [] := by
      intro hnil
      rw [slicesAt_hash hinj hc, hnil] at hne
      exact hne rfl
    rw [hentry _ hl] at h
    cases h
    exact ⟨rfl, hl, rfl⟩
  · rintro ⟨rfl, hne, hsamples⟩
    rw [hentry _ hne, ← hsamples]

/-! ## The series -/

section Series

variable (order : MapOrder UInt64) (sorting : Sorting less)

/-- **The series of a set** of calls. -/
theorem mem_seriesSet_iff (hinj : Separates hash calls) {s : ConcreteSeries} :
    s ∈ (build hash calls).seriesSet order sorting ↔
      slices calls s.labels ≠ [] ∧ s.samples = joined (sorting.sort (slices calls s.labels)) := by
  unfold SeriesSetBuilder.seriesSet
  rw [List.mem_filterMap]
  constructor
  · rintro ⟨id, -, hs⟩
    obtain ⟨d, hd, rfl⟩ := Option.map_eq_some_iff.mp hs
    obtain ⟨-, hne, hsamples⟩ := (lookup_build_iff hinj).mp hd
    exact ⟨hne, by rw [SeriesData.series, hsamples]⟩
  · rintro ⟨hne, hsamples⟩
    have hd := (lookup_build_iff (d := ⟨s.labels, slices calls s.labels⟩) hinj).mpr ⟨rfl, hne, rfl⟩
    refine ⟨hash s.labels, ?_, ?_⟩
    · rw [(order.perm _).mem_iff]
      exact GoMap.mem_keys_of_lookup hd
    · rw [hd, Option.map_some, SeriesData.series, ← hsamples]

/-- No two series have the same labels, since they are under different keys. -/
theorem nodup_labels_seriesSet (hinj : Separates hash calls) :
    (((build hash calls).seriesSet order sorting).map ConcreteSeries.labels).Nodup := by
  have hkeys : ∀ keys : List UInt64, (∀ id ∈ keys, id ∈ (build hash calls).data.keys) →
      ((keys.filterMap fun id => ((build hash calls).data.lookup id).map (·.series sorting)).map
        fun s => hash s.labels) = keys := by
    intro keys
    induction keys with
    | nil => intro _; rfl
    | cons id keys ih =>
      intro hmem
      obtain ⟨hid, hrest⟩ := List.forall_mem_cons.mp hmem
      have hfound := AList.lookup_isSome.mpr (AList.mem_keys.mp hid)
      obtain ⟨d, hd⟩ := Option.isSome_iff_exists.mp hfound
      have hhash : hash d.labels = id := ((lookup_build_iff hinj).mp hd).1.symm
      rw [List.filterMap_cons_some (by rw [hd]; rfl), List.map_cons, ih hrest]
      exact congrArg (· :: keys) hhash
  refine List.Nodup.of_map hash ?_
  rw [List.map_map]
  have hnodup : (order.iterate (build hash calls).data.keys).Nodup :=
    (order.perm _).nodup_iff.mpr (AList.keys_nodup _)
  exact (hkeys _ fun id hid => (order.perm _).mem_iff.mp hid) ▸ hnodup

end Series

/-! ## Days -/

/-- A day in milliseconds. -/
def dayMilliseconds : ℤ := 24 * 60 * 60 * 1000

/-- The calls of a query: their points are in the order of their times and in the day of
    their shard, and two calls with points for one label set come from different shards. -/
structure Collected (calls : List Call) : Prop where
  ascending : ∀ c ∈ calls, c.points.Pairwise fun p p' => p.time.toInt ≤ p'.time.toInt
  inShard : ∀ c ∈ calls, ∀ p ∈ c.points,
    c.shard * day ≤ p.time.toInt ∧ p.time.toInt < (c.shard + 1) * day
  different : calls.Pairwise fun c c' =>
    c.labels = c'.labels → c.points ≠ [] → c'.points ≠ [] → c.shard ≠ c'.shard

/-- The samples are in order, and all of one day. -/
structure InDay (d : ℕ) (s : ShardSamples) : Prop where
  sorted : s.1.Pairwise fun x x' => x.timeInMilliseconds.toInt ≤ x'.timeInMilliseconds.toInt
  bounds : ∀ x ∈ s.1, d * dayMilliseconds ≤ x.timeInMilliseconds.toInt ∧
    x.timeInMilliseconds.toInt < (d + 1) * dayMilliseconds

def DifferentDays (a b : ShardSamples) : Prop := ∃ d d', InDay d a ∧ InDay d' b ∧ d ≠ d'

def EarlierDay (a b : ShardSamples) : Prop := ∃ d d', InDay d a ∧ InDay d' b ∧ d < d'

theorem toInt_nanosecondsToMilliseconds {ns : Int64} (h : 0 ≤ ns.toInt) :
    (nanosecondsToMilliseconds ns).toInt = ns.toInt / 1000000 := by
  have hmillion : (1000000 : Int64).toInt = 1000000 := rfl
  have hlt := ns.toInt_lt
  unfold nanosecondsToMilliseconds
  rw [Int64.mul_one, Int64.toInt_div, hmillion, Int.tdiv_eq_ediv_of_nonneg h]
  exact Int.bmod_eq_of_le (by omega) (by omega)

theorem Collected.inDay (h : Collected calls) {c : Call} (hc : c ∈ calls) {s : ShardSamples}
    (hs : toSamples c.points = some s) : InDay c.shard s := by
  unfold toSamples at hs
  split_ifs at hs
  cases hs
  have htime : ∀ p ∈ c.points, (toSample p).timeInMilliseconds.toInt = p.time.toInt / 1000000 := by
    intro p hp
    have hbound := (h.inShard c hc p hp).1
    refine toInt_nanosecondsToMilliseconds ?_
    unfold day at hbound
    omega
  constructor
  · rw [List.pairwise_map]
    refine (List.Pairwise.imp_mem.mp (h.ascending c hc)).imp_of_mem fun {p p'} hp hp' hle => ?_
    rw [htime p hp, htime p' hp']
    exact Int.ediv_le_ediv (by decide) (hle hp hp')
  · intro x hx
    obtain ⟨p, hp, rfl⟩ := List.mem_map.mp hx
    obtain ⟨h₀, h₁⟩ := h.inShard c hc p hp
    rw [htime p hp]
    unfold day dayMilliseconds at *
    omega

theorem Collected.slices_different (h : Collected calls) (l : Labels) :
    (slices calls l).Pairwise DifferentDays := by
  unfold slices
  rw [List.pairwise_filterMap]
  refine h.different.imp_of_mem fun {c c'} hc hc' hdiff s hs s' hs' => ?_
  split_ifs at hs hs' with hl hl'
  have hne : ∀ {points : List FloatPoint} {s}, toSamples points = some s → points ≠ [] := by
    rintro _ _ hs rfl
    cases hs
  exact ⟨c.shard, c'.shard, h.inDay hc hs, h.inDay hc' hs',
    hdiff (hl.trans hl'.symm) (hne hs) (hne hs')⟩

theorem DifferentDays.symm {a b : ShardSamples} (h : DifferentDays a b) : DifferentDays b a := by
  obtain ⟨d, d', ha, hb, hne⟩ := h
  exact ⟨d', d, hb, ha, hne.symm⟩

/-- The times of two days do not overlap, so `Less` compares the days. -/
theorem DifferentDays.earlier {a b : ShardSamples} (h : DifferentDays a b) (hless : ¬ less b a) :
    EarlierDay a b := by
  obtain ⟨d, d', ha, hb, hne⟩ := h
  refine ⟨d, d', ha, hb, ?_⟩
  have hfirst := ha.bounds _ (List.head_mem a.2)
  have hfirst' := hb.bounds _ (List.head_mem b.2)
  unfold less firstTime at hless
  unfold dayMilliseconds at hfirst hfirst'
  omega

theorem EarlierDay.le {a b : ShardSamples} (h : EarlierDay a b) :
    ∀ x ∈ a.1, ∀ y ∈ b.1, x.timeInMilliseconds.toInt < y.timeInMilliseconds.toInt := by
  intro x hx y hy
  obtain ⟨d, d', ha, hb, hlt⟩ := h
  have hx' := ha.bounds x hx
  have hy' := hb.bounds y hy
  unfold dayMilliseconds at hx' hy'
  omega

theorem EarlierDay.asymm {a b : ShardSamples} (h : EarlierDay a b) : ¬ EarlierDay b a := by
  intro h'
  have hlt := h.le _ (List.head_mem a.2) _ (List.head_mem b.2)
  have hgt := h'.le _ (List.head_mem b.2) _ (List.head_mem a.2)
  omega

/-- The joined slices are in the order of time. -/
theorem Collected.joined_sorted (h : Collected calls) (sorting : Sorting less) (l : Labels) :
    (joined (sorting.sort (slices calls l))).Pairwise fun x y =>
      x.timeInMilliseconds.toInt ≤ y.timeInMilliseconds.toInt := by
  unfold joined
  rw [List.pairwise_flatten, List.pairwise_map]
  constructor
  · intro samples hsamples
    obtain ⟨s, hs, rfl⟩ := List.mem_map.mp hsamples
    obtain ⟨c, hc, -, hcs⟩ := exists_of_mem_slices ((sorting.perm _).mem_iff.mp hs)
    exact (h.inDay hc hcs).sorted
  · have hearlier := sorting.pairwise_sort DifferentDays.symm (h.slices_different l)
      fun a b => DifferentDays.earlier
    exact hearlier.imp fun hab x hx y hy => (hab.le x hx y hy).le

/-- The joined slices are the samples of the points. -/
theorem joined_perm (sorting : Sorting less) (calls : List Call) (l : Labels) :
    (joined (sorting.sort (slices calls l))).Perm
      ((calls.filter fun c => c.labels = l).flatMap fun c => c.points.map toSample) := by
  refine (((sorting.perm _).map Subtype.val).flatten).trans (.of_eq ?_)
  induction calls with
  | nil => rfl
  | cons c calls ih =>
    unfold slices at ih ⊢
    by_cases hl : c.labels = l
    · rw [List.filter_cons_of_pos (by simpa using hl), List.flatMap_cons, ← ih]
      unfold toSamples
      by_cases hpoints : c.points = []
      · simp [hl, hpoints]
      · simp [hl, hpoints]
    · rw [List.filter_cons_of_neg (by simpa using hl), ← ih]
      simp [hl]

/-! ## The iterator -/

/-- `concreteSeriesIterator` (`series_set.go`, lines 49–52). -/
structure ConcreteSeriesIterator where
  cur : ℤ
  series : ConcreteSeries

/-- `Seek` (`series_set.go`, lines 62–67). -/
def ConcreteSeriesIterator.seek (it : ConcreteSeriesIterator) (t : Int64) :
    ConcreteSeriesIterator × Bool :=
  let cur := search it.series.samples.length fun n =>
    it.series.samples[n]?.any fun x => t ≤ x.timeInMilliseconds
  (⟨cur, it.series⟩, cur < it.series.samples.length)

/-- **`Seek`** in a series that is in the order of time. -/
theorem seek_eq_findIdx (it : ConcreteSeriesIterator) (t : Int64)
    (hsorted : it.series.samples.Pairwise fun x y =>
      x.timeInMilliseconds.toInt ≤ y.timeInMilliseconds.toInt) :
    (it.seek t).1 =
        ⟨it.series.samples.findIdx fun x => t ≤ x.timeInMilliseconds, it.series⟩ ∧
      ((it.seek t).2 = false ↔ ∀ x ∈ it.series.samples, x.timeInMilliseconds < t) := by
  have hmono : it.series.samples.Pairwise fun x y =>
      decide (t ≤ x.timeInMilliseconds) = true → decide (t ≤ y.timeInMilliseconds) = true := by
    refine hsorted.imp fun {x y} hle => ?_
    rw [decide_eq_true_eq, decide_eq_true_eq, Int64.le_iff_toInt_le, Int64.le_iff_toInt_le]
    exact fun h => h.trans hle
  have hsearch := search_eq_findIdx hmono
  unfold ConcreteSeriesIterator.seek
  dsimp only
  rw [hsearch]
  refine ⟨rfl, ?_⟩
  rw [decide_eq_false_iff_not, Nat.not_lt]
  have hnone : it.series.samples.length ≤
      it.series.samples.findIdx (fun x => decide (t ≤ x.timeInMilliseconds)) ↔
        ∀ x ∈ it.series.samples, decide (t ≤ x.timeInMilliseconds) = false := by
    rw [← List.findIdx_eq_length]
    exact ⟨fun h => Nat.le_antisymm List.findIdx_le_length h, fun h => h.ge⟩
  rw [hnone]
  refine forall₂_congr fun x _ => ?_
  rw [decide_eq_false_iff_not, Int64.not_le]

/-! ## Assembly -/

theorem slices_perm {calls' : List Call} (h : calls'.Perm calls) (l : Labels) :
    (slices calls' l).Perm (slices calls l) := h.filterMap _

theorem slices_ne_nil_iff {l : Labels} :
    slices calls l ≠ [] ↔ ∃ c ∈ calls, c.labels = l ∧ c.points ≠ [] := by
  constructor
  · intro hne
    obtain ⟨s, hs⟩ := List.exists_mem_of_ne_nil _ hne
    obtain ⟨c, hc, hl, hcs⟩ := exists_of_mem_slices hs
    refine ⟨c, hc, hl, fun hnil => ?_⟩
    rw [hnil] at hcs
    cases hcs
  · rintro ⟨c, hc, hl, hpoints⟩
    have hsome : toSamples c.points = some ⟨c.points.map toSample, by simpa using hpoints⟩ :=
      dif_neg hpoints
    exact List.ne_nil_of_mem (List.mem_filterMap.mpr ⟨c, hc, by rw [if_pos hl, hsome]⟩)

/-- The set does not depend on the orders in which the calls were made and the map is visited,
    nor on the sort. -/
theorem seriesSet_perm (hcalls : Collected calls) (hinj : Separates hash calls)
    {calls' : List Call} (hperm : calls'.Perm calls) (order order' : MapOrder UInt64)
    (sorting sorting' : Sorting less) :
    ((build hash calls').seriesSet order' sorting').Perm
      ((build hash calls).seriesSet order sorting) := by
  have hinj' : Separates hash calls' := fun a ha b hb =>
    hinj a (hperm.mem_iff.mp ha) b (hperm.mem_iff.mp hb)
  have hsort : ∀ l, sorting'.sort (slices calls' l) = sorting.sort (slices calls l) := fun l =>
    sorting.sort_eq_sort sorting' DifferentDays.symm (hcalls.slices_different l)
      (fun _ _ => DifferentDays.earlier) (fun _ _ => EarlierDay.asymm) (slices_perm hperm l)
  have hnodup := (nodup_labels_seriesSet order sorting hinj).of_map
  have hnodup' := (nodup_labels_seriesSet order' sorting' hinj').of_map
  rw [List.perm_ext_iff_of_nodup hnodup' hnodup]
  intro s
  rw [mem_seriesSet_iff order' sorting' hinj', mem_seriesSet_iff order sorting hinj, hsort]
  have hne : slices calls' s.labels ≠ [] ↔ slices calls s.labels ≠ [] :=
    not_congr ⟨fun h => (h ▸ slices_perm hperm s.labels).symm.eq_nil,
      fun h => (h ▸ slices_perm hperm s.labels).eq_nil⟩
  rw [hne]

/-- **Assembly of the series.** Whatever the order of the calls, `SeriesSet` has one series
    for each label set that received points. Its samples are those of the points added for
    it, in the order of time, and `Seek` stops at the first one that is not before `t`. -/
theorem series_assembly (hcalls : Collected calls) (hinj : Separates hash calls)
    (order : MapOrder UInt64) (sorting : Sorting less) :
    (((build hash calls).seriesSet order sorting).map ConcreteSeries.labels).Nodup ∧
    (∀ l, l ∈ ((build hash calls).seriesSet order sorting).map ConcreteSeries.labels ↔
      ∃ c ∈ calls, c.labels = l ∧ c.points ≠ []) ∧
    (∀ s ∈ (build hash calls).seriesSet order sorting,
      s.samples.Perm ((calls.filter fun c => c.labels = s.labels).flatMap fun c =>
        c.points.map toSample) ∧
      (s.samples.Pairwise fun x y => x.timeInMilliseconds ≤ y.timeInMilliseconds) ∧
      ∀ (cur : ℤ) (t : Int64),
        (ConcreteSeriesIterator.seek ⟨cur, s⟩ t).1 =
            ⟨s.samples.findIdx fun x => t ≤ x.timeInMilliseconds, s⟩ ∧
          ((ConcreteSeriesIterator.seek ⟨cur, s⟩ t).2 = false ↔
            ∀ x ∈ s.samples, x.timeInMilliseconds < t)) ∧
    ∀ (calls' : List Call) (order' : MapOrder UInt64) (sorting' : Sorting less),
      calls'.Perm calls →
      ((build hash calls').seriesSet order' sorting').Perm
        ((build hash calls).seriesSet order sorting) := by
  refine ⟨nodup_labels_seriesSet order sorting hinj, fun l => ?_, fun s hs => ?_, ?_⟩
  · rw [← slices_ne_nil_iff, List.mem_map]
    constructor
    · rintro ⟨s, hs, rfl⟩
      exact ((mem_seriesSet_iff order sorting hinj).mp hs).1
    · intro hne
      exact ⟨⟨l, joined (sorting.sort (slices calls l))⟩,
        (mem_seriesSet_iff order sorting hinj).mpr ⟨hne, rfl⟩, rfl⟩
  · obtain ⟨-, hsamples⟩ := (mem_seriesSet_iff order sorting hinj).mp hs
    have hsorted := hcalls.joined_sorted sorting s.labels
    rw [← hsamples] at hsorted
    refine ⟨?_, hsorted.imp Int64.le_iff_toInt_le.mpr, fun cur t => ?_⟩
    · rw [hsamples]
      exact joined_perm sorting calls s.labels
    · exact seek_eq_findIdx ⟨cur, s⟩ t hsorted
  · intro calls' order' sorting' hperm
    exact seriesSet_perm hcalls hinj hperm order order' sorting sorting'

/-- The second day of a series is read first, then another series, then the first day. -/
def secondDayFirst : List Call :=
  [⟨1, [(lit "job", lit "a")], [⟨86400000000000, 3⟩, ⟨86400001500000, 4⟩]⟩,
    ⟨0, [], [⟨7000000, 9⟩]⟩, ⟨0, [(lit "job", lit "a")], [⟨1999999, 1⟩]⟩]

/-- A hash that tells those two label sets apart. -/
def countLabels (l : Labels) : UInt64 := .ofNat l.length

theorem series_assembly_secondDayFirst :
    ((build countLabels secondDayFirst).seriesSet (.first 1) (.byKey firstTime)).map
        ConcreteSeries.labels = [[(lit "job", lit "a")], []] ∧
      ((build countLabels secondDayFirst.reverse).seriesSet (.first 0) (.byKey firstTime)).Perm
        ((build countLabels secondDayFirst).seriesSet (.first 1) (.byKey firstTime)) := by
  have hcalls : Collected secondDayFirst := by
    refine ⟨?_, ?_, ?_⟩
    · decide
    · decide
    · decide
  have hinj : Separates countLabels secondDayFirst := by
    unfold Separates
    decide
  obtain ⟨-, -, -, hperm⟩ := series_assembly hcalls hinj (.first 1) (.byKey firstTime)
  exact ⟨by decide, hperm _ _ _ (List.reverse_perm _)⟩

end MetricStore.Persistence
