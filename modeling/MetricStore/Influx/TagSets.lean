import MetricStore.Influx.SeriesKey

/-!
# The tag sets of a shard

Model of how the index of a shard gives the series of a measurement to a query, from the vendored
`influxdb`: `FieldDimensions` (`tsdb/shard.go`, lines 881–945 and 1259–1278), `TagSets`
(`tsdb/index.go`, lines 2541–2654) and `MakeTagsKey` (`tsdb/meta.go`, lines 47–98).

The index has the name and the tags of each point, as they are read from its key. A query
groups the series of a measurement by the values of all tags of the measurement: the names and
the values are put one after the other with bars between them. Bars in names and values are not
escaped, so that different series may be in one group. A query looks for the values of a series
under the key made of the name and the tags again.

Results:
* `makeTagsKey_eq`: the text of a series is that of all its tags.
* `barText_injective`: tags without bars have texts of their own.
* `tagSets_perm`, `length_tagSets`: the groups are the series exactly if no two have the same
  text.
-/

namespace MetricStore.Influx

open MetricStore.Common

/-! ## Model -/

/-- The bar. -/
def bar : UInt8 := 124

/-- The loop of `MakeTagsKey` that selects the tags with the given names. -/
def selectTags : List Bytes → Tags → Tags
  | k :: keys, t :: tags =>
    if k < t.1 then selectTags keys (t :: tags)
    else if t.1 < k then selectTags (k :: keys) tags
    else t :: selectTags keys tags
  | _, _ => []
termination_by keys tags => keys.length + tags.length

/-- The names, each with a bar behind it, and the values with bars between them. -/
def barText (tags : Tags) : Bytes :=
  if tags = [] then []
  else (tags.flatMap fun t => t.1 ++ [bar]) ++ [bar].intercalate (tags.map Prod.snd)

/-- `MakeTagsKey`. -/
def makeTagsKey (keys : List Bytes) (tags : Tags) : Bytes := barText (selectTags keys tags)

/-- The series of a measurement in the index of a shard with points of the given keys. -/
def indexSeries (keys : List Bytes) (name : Bytes) : List Tags :=
  ((keys.filter fun key => keyName key = name).map walkTags).dedup

/-- The measurements for which `FieldDimensions` has no tags: names of system sources. -/
def systemSources : List Bytes := [lit "_fieldKeys", lit "_series", lit "_tagKeys"]

/-- `FieldDimensions`: the names of the tags of a measurement in the shards, sorted as `TagSets`
    does. -/
def fieldDimensions (shards : List (List Bytes)) (name : Bytes) : List Bytes :=
  if name ∈ systemSources then []
  else (shards.flatMap fun keys =>
    (indexSeries keys name).flatMap fun tags => tags.map Prod.fst).dedup.insertionSort (· ≤ ·)

/-- `TagSets` without a condition: the series keys of each group. -/
def tagSets (dims : List Bytes) (name : Bytes) (series : List Tags) : List (List Bytes) :=
  ((series.map (makeTagsKey dims)).dedup.insertionSort (· ≤ ·)).map fun key =>
    ((series.filter fun tags => makeTagsKey dims tags = key).map (makeKey name)).insertionSort
      (· ≤ ·)

/-- The text by which a series of the measurement is grouped: none for a system source. -/
def groupText (name : Bytes) (tags : Tags) : Bytes :=
  if name ∈ systemSources then [] else barText tags

/-! ## The text of a series -/

/-- Tags in the order of their names, which are different. -/
abbrev Tags.Ordered (tags : Tags) : Prop := tags.Pairwise fun t u => t.1 < u.1

theorem pairwise_lt_of_nodup {l : List Bytes} (hsorted : l.Pairwise (· ≤ ·)) (hnodup : l.Nodup) :
    l.Pairwise (· < ·) := by
  refine (hsorted.and hnodup).imp fun {a b} h => ?_
  have htotal : a < b ∨ a = b ∨ b < a := Std.Trichotomous.rel_or_eq_or_rel_swap
  exact htotal.resolve_right fun hle => hle.elim h.2 h.1

theorem selectTags_eq {keys : List Bytes} {tags : Tags} (hkeys : keys.Pairwise (· < ·))
    (htags : tags.Ordered) (h : ∀ t ∈ tags, t.1 ∈ keys) : selectTags keys tags = tags := by
  fun_induction selectTags keys tags with
  | case1 k keys t tags hlt ih =>
    -- a name that no tag has
    refine ih hkeys.of_cons htags fun u hu => ?_
    obtain rfl | hmem := List.mem_cons.mp (h u hu)
    · obtain rfl | hu := List.mem_cons.mp hu
      · exact absurd hlt (List.lt_irrefl _)
      · exact absurd (List.lt_trans hlt (List.rel_of_pairwise_cons htags hu)) (List.lt_irrefl _)
    · exact hmem
  | case2 k keys t tags hle hlt ih =>
    obtain heq | hmem := List.mem_cons.mp (h t List.mem_cons_self)
    · exact absurd (heq ▸ hlt) (List.lt_irrefl _)
    · exact absurd (List.lt_trans hlt (List.rel_of_pairwise_cons hkeys hmem)) (List.lt_irrefl _)
  | case3 k keys t tags hle hge ih =>
    have heq : t.1 = k := by
      have htotal : t.1 < k ∨ t.1 = k ∨ k < t.1 := Std.Trichotomous.rel_or_eq_or_rel_swap
      exact (htotal.resolve_left hge).resolve_right hle
    rw [ih hkeys.of_cons htags.of_cons]
    intro u hu
    obtain hk | hmem := List.mem_cons.mp (h u (List.mem_cons_of_mem _ hu))
    · have hlt := List.rel_of_pairwise_cons htags hu
      rw [heq, hk] at hlt
      exact absurd hlt (List.lt_irrefl _)
    · exact hmem
  | case4 keys tags hnot =>
    cases tags with
    | nil => rfl
    | cons t tags =>
      cases keys with
      | nil => exact absurd (h t List.mem_cons_self) (by simp)
      | cons k keys => exact (hnot k keys t tags rfl rfl).elim

theorem pairwise_fieldDimensions (shards : List (List Bytes)) (name : Bytes) :
    (fieldDimensions shards name).Pairwise (· < ·) := by
  unfold fieldDimensions
  split_ifs
  · exact List.Pairwise.nil
  · refine pairwise_lt_of_nodup (List.pairwise_insertionSort _ _) ?_
    exact (List.perm_insertionSort _ _).nodup_iff.mpr (List.nodup_dedup _)

theorem mem_fieldDimensions {shards : List (List Bytes)} {name : Bytes}
    (hname : name ∉ systemSources) {keys : List Bytes} (hkeys : keys ∈ shards) {tags : Tags}
    (htags : tags ∈ indexSeries keys name) {t : Bytes × Bytes} (ht : t ∈ tags) :
    t.1 ∈ fieldDimensions shards name := by
  unfold fieldDimensions
  rw [if_neg hname, (List.perm_insertionSort _ _).mem_iff, List.mem_dedup, List.mem_flatMap]
  exact ⟨keys, hkeys, List.mem_flatMap.mpr ⟨tags, htags, List.mem_map_of_mem ht⟩⟩

/-- **The text of a series of the measurement** is that of all its tags. -/
theorem makeTagsKey_eq {shards : List (List Bytes)} {name : Bytes} {keys : List Bytes}
    (hkeys : keys ∈ shards) {tags : Tags} (htags : tags ∈ indexSeries keys name)
    (hordered : tags.Ordered) :
    makeTagsKey (fieldDimensions shards name) tags = groupText name tags := by
  unfold makeTagsKey groupText
  by_cases hname : name ∈ systemSources
  · rw [if_pos hname, fieldDimensions, if_pos hname, selectTags]
    · rfl
    · simp
  · rw [if_neg hname, selectTags_eq (pairwise_fieldDimensions shards name) hordered]
    exact fun t ht => mem_fieldDimensions hname hkeys htags ht

theorem barText_eq {tags : Tags} (h : tags ≠ []) :
    barText tags = [bar].intercalate (tags.map Prod.fst ++ tags.map Prod.snd) := by
  have hvalues : tags.map Prod.snd ≠ [] := by simpa using h
  have hgo : ∀ l : Tags,
      (l.flatMap fun t => t.1 ++ [bar]) ++ [bar].intercalate (tags.map Prod.snd) =
        [bar].intercalate (l.map Prod.fst ++ tags.map Prod.snd) := by
    intro l
    induction l with
    | nil => rfl
    | cons t l ih =>
      rw [List.flatMap_cons, List.append_assoc, ih, List.map_cons, List.cons_append,
        List.intercalate_cons_of_ne_nil (by simp [hvalues])]
  rw [barText, if_neg h, hgo]

theorem barText_eq_nil_iff {tags : Tags} : barText tags = [] ↔ tags = [] := by
  unfold barText
  split_ifs with h
  · simp [h]
  · cases tags with
    | nil => exact absurd rfl h
    | cons t tags => simp

/-- Names and values without bars. -/
def Tags.NoBars (tags : Tags) : Prop := ∀ t ∈ tags, bar ∉ t.1 ∧ bar ∉ t.2

/-- **Tags without bars have texts of their own.** -/
theorem barText_injective {tags tags' : Tags} (h : tags.NoBars) (h' : tags'.NoBars)
    (heq : barText tags = barText tags') : tags = tags' := by
  by_cases hnil : tags = []
  · rw [hnil, barText_eq_nil_iff.mpr rfl, eq_comm, barText_eq_nil_iff] at heq
    rw [hnil, heq]
  have hnil' : tags' ≠ [] := by
    rintro rfl
    exact hnil (barText_eq_nil_iff.mp (heq.trans (barText_eq_nil_iff.mpr rfl)))
  have hsplit : ∀ l : Tags, l.NoBars → l ≠ [] →
      List.splitOn bar (barText l) = l.map Prod.fst ++ l.map Prod.snd := by
    intro l hl hne
    rw [barText_eq hne]
    apply List.splitOn_intercalate
    · intro s hs
      obtain hs | hs := List.mem_append.mp hs
      · obtain ⟨t, ht, rfl⟩ := List.mem_map.mp hs
        exact (hl t ht).1
      · obtain ⟨t, ht, rfl⟩ := List.mem_map.mp hs
        exact (hl t ht).2
    · simpa using hne
  have hlists := hsplit tags h hnil
  rw [heq, hsplit tags' h' hnil'] at hlists
  have hlength : tags'.length = tags.length := by
    have := congrArg List.length hlists
    simp only [List.length_append, List.length_map] at this
    omega
  obtain ⟨hnames, hvalues⟩ := List.append_inj hlists (by simpa using hlength)
  have hzip : ∀ l : Tags, l = (l.map Prod.fst).zip (l.map Prod.snd) := by
    intro l
    rw [List.zip_map', List.map_id']
  rw [hzip tags, hzip tags', hnames, hvalues]

/-! ## The groups -/

section Groups

variable {dims : List Bytes} {name : Bytes} {series : List Tags}

theorem length_tagSets :
    (tagSets dims name series).length = (series.map (makeTagsKey dims)).dedup.length := by
  rw [tagSets, List.length_map, (List.perm_insertionSort _ _).length_eq]

/-- **Each series is a group**, if they have different texts. -/
theorem tagSets_perm (hnodup : (series.map (makeTagsKey dims)).Nodup) :
    (tagSets dims name series).Perm (series.map fun tags => [makeKey name tags]) := by
  have hgroup : ∀ tags ∈ series,
      ((series.filter fun t => makeTagsKey dims t = makeTagsKey dims tags).map
        (makeKey name)).insertionSort (· ≤ ·) = [makeKey name tags] := by
    intro tags htags
    have hfilter : (series.filter fun t => makeTagsKey dims t = makeTagsKey dims tags) =
        [tags] := by
      have hsame : ∀ t ∈ series,
          decide (makeTagsKey dims t = makeTagsKey dims tags) = decide (t = tags) := by
        intro t ht
        rw [decide_eq_decide]
        exact ⟨List.inj_on_of_nodup_map hnodup ht htags, fun h => by rw [h]⟩
      rw [List.filter_congr hsame, List.filter_eq, List.count_eq_one_of_mem hnodup.of_map htags]
      rfl
    rw [hfilter]
    rfl
  unfold tagSets
  rw [hnodup.dedup]
  refine ((List.perm_insertionSort _ _).map _).trans ?_
  rw [List.map_map]
  exact List.Perm.of_eq (List.map_congr_left hgroup)

end Groups

end MetricStore.Influx
