import MetricStore.Common.Csv
import MetricStore.Common.GoMap

/-!
# The keys of the rollups

Model of `keyFromTags` and `labelsFromKey` (`internal/nozzle/rollup/rollup.go`, lines 22–72).
A rollup keeps what it has counted under a line of comma-separated values, made of the
source id and the values of the rollup tags; when it emits a point, it reads the labels off
that line.

The reader is not the inverse of the writer: it drops a carriage return before a newline,
also between quotation marks, and it skips the blank line that a lone empty source id is
written as.

Results:
* `labelsFromKey_keyFromTags`: what is read of the key of a recording.
* `keyFromTags_inj`: recordings share a key if and only if they agree on the source id and
  the rollup tags.
* `key_loses_nothing_iff`: the labels are the recorded ones if and only if no value has a
  carriage return before a newline and there is more than an empty source id.
-/

namespace MetricStore.Ingress

open MetricStore.Common

/-- `tags[tag]`, the empty string if it is not there. -/
def tagValue (tags : GoMap Bytes Bytes) (tag : Bytes) : Bytes := (tags.lookup tag).getD []

/-- `keyFromTags` (lines 22–34). -/
def keyFromTags (rollupTags : List Bytes) (sourceId : Bytes) (tags : GoMap Bytes Bytes) : Bytes :=
  Csv.write (sourceId :: rollupTags.map (tagValue tags))

/-- The assignments to `labels` (lines 60–69). -/
def labelsOf (nodeIndex : Bytes) (tagged : List (Bytes × Bytes)) (sourceId : Bytes) :
    GoMap Bytes Bytes :=
  ((GoMap.ofPairs (tagged.filter fun e => e.2 ≠ [])).insert (lit "source_id") sourceId).insert
    (lit "node_index") nodeIndex

/-- `labelsFromKey` (lines 36–72). With a wrong number of parts it returns no labels, but no
    error either: `err` is that of `Read`. -/
def labelsFromKey (key nodeIndex : Bytes) (rollupTags : List Bytes) :
    Except Csv.ReadError (GoMap Bytes Bytes) :=
  match Csv.read key with
  | .error err => .error err
  | .ok [] => .ok ∅
  | .ok (sourceId :: values) =>
    if values.length ≠ rollupTags.length then .ok ∅
    else .ok (labelsOf nodeIndex (rollupTags.zip values) sourceId)

/-! ## The key of a recording -/

section Key

variable (rollupTags : List Bytes) (sourceId : Bytes) (tags : GoMap Bytes Bytes)

/-- Recordings share a key if and only if they agree on the source id and the rollup tags. -/
theorem keyFromTags_inj (sourceId' : Bytes) (tags' : GoMap Bytes Bytes) :
    keyFromTags rollupTags sourceId tags = keyFromTags rollupTags sourceId' tags' ↔
      sourceId = sourceId' ∧ ∀ tag ∈ rollupTags, tagValue tags tag = tagValue tags' tag := by
  constructor
  · intro h
    have hparts := Csv.write_injective (List.cons_ne_nil _ _) (List.cons_ne_nil _ _) h
    obtain ⟨hsource, hvalues⟩ := List.cons.inj hparts
    exact ⟨hsource, List.map_inj_left.1 hvalues⟩
  · rintro ⟨rfl, h⟩
    rw [keyFromTags, keyFromTags, List.map_congr_left h]

/-- What is read of the key of a recording. -/
theorem labelsFromKey_keyFromTags (nodeIndex : Bytes) :
    labelsFromKey (keyFromTags rollupTags sourceId tags) nodeIndex rollupTags =
      if sourceId = [] ∧ rollupTags = [] then .error .eof
      else .ok (labelsOf nodeIndex
        (rollupTags.map fun tag => (tag, Csv.foldNewlines (tagValue tags tag)))
        (Csv.foldNewlines sourceId)) := by
  have hread : Csv.read (keyFromTags rollupTags sourceId tags) =
      if sourceId = [] ∧ rollupTags = [] then .error .eof
      else .ok (Csv.foldNewlines sourceId ::
        rollupTags.map fun tag => Csv.foldNewlines (tagValue tags tag)) := by
    rw [keyFromTags, Csv.read_write (List.cons_ne_nil _ _), List.map_cons, List.map_map]
    simp only [List.cons.injEq, List.map_eq_nil_iff]
    rfl
  have hzip : (rollupTags.zip (rollupTags.map fun tag => Csv.foldNewlines (tagValue tags tag))) =
      rollupTags.map fun tag => (tag, Csv.foldNewlines (tagValue tags tag)) := by
    conv_lhs => rw [← List.map_id rollupTags]
    rw [List.map_id, ← List.zip_map', List.map_id']
  unfold labelsFromKey
  rw [hread]
  split_ifs with hempty
  · rfl
  · simp only [List.length_map, ne_eq, not_true_eq_false, if_false]
    rw [hzip]

end Key

/-! ## The labels -/

/-- The labels that a recording is to be emitted with: the source id, the index of the node
    and the rollup tags that are not empty. -/
def recordedLabels (nodeIndex : Bytes) (rollupTags : List Bytes) (sourceId : Bytes)
    (value : Bytes → Bytes) (name : Bytes) : Option Bytes :=
  if name = lit "source_id" then some sourceId
  else if name = lit "node_index" then some nodeIndex
  else if name ∈ rollupTags ∧ value name ≠ [] then some (value name)
  else none

/-- The labels are those of the values that were read. -/
theorem lookup_labelsOf {rollupTags : List Bytes} (hnodup : rollupTags.Nodup)
    (nodeIndex sourceId : Bytes) (value : Bytes → Bytes) (name : Bytes) :
    (labelsOf nodeIndex (rollupTags.map fun tag => (tag, value tag)) sourceId).lookup name =
      recordedLabels nodeIndex rollupTags sourceId value name := by
  have hkeys : (((rollupTags.map fun tag => (tag, value tag)).filter
      fun e => e.2 ≠ []).map Prod.fst).Nodup := by
    apply List.Nodup.sublist (List.filter_sublist.map Prod.fst)
    rw [List.map_map]
    show (rollupTags.map id).Nodup
    rwa [List.map_id]
  unfold labelsOf recordedLabels
  by_cases hsource : name = lit "source_id"
  · subst hsource
    rw [if_pos rfl, AList.lookup_insert_ne (by decide), AList.lookup_insert]
  · rw [if_neg hsource]
    by_cases hindex : name = lit "node_index"
    · subst hindex
      rw [if_pos rfl, AList.lookup_insert]
    · rw [if_neg hindex, AList.lookup_insert_ne hindex, AList.lookup_insert_ne hsource]
      apply Option.ext
      intro v
      rw [GoMap.lookup_ofPairs hkeys, List.mem_filter, List.mem_map]
      constructor
      · rintro ⟨⟨tag, htag, heq⟩, hne⟩
        obtain ⟨rfl, rfl⟩ := Prod.mk.inj heq
        rw [if_pos ⟨htag, of_decide_eq_true hne⟩]
      · intro h
        split_ifs at h with hname
        obtain rfl := Option.some.inj h
        exact ⟨⟨name, hname.1, rfl⟩, decide_eq_true hname.2⟩

/-- The labels are recorded ones for the values that were recorded, too, if and only if these
    are the ones that were read. -/
theorem recordedLabels_eq_iff {rollupTags : List Bytes} (hsource : lit "source_id" ∉ rollupTags)
    (hindex : lit "node_index" ∉ rollupTags) (nodeIndex sourceId sourceId' : Bytes)
    (value value' : Bytes → Bytes) :
    (∀ name, recordedLabels nodeIndex rollupTags sourceId value name =
        recordedLabels nodeIndex rollupTags sourceId' value' name) ↔
      sourceId = sourceId' ∧ ∀ tag ∈ rollupTags, value tag = value' tag := by
  constructor
  · intro h
    have hid := h (lit "source_id")
    rw [recordedLabels, recordedLabels, if_pos rfl, if_pos rfl, Option.some.injEq] at hid
    refine ⟨hid, fun tag htag => ?_⟩
    have htagged := h tag
    have hne : tag ≠ lit "source_id" := fun heq => hsource (heq ▸ htag)
    have hne' : tag ≠ lit "node_index" := fun heq => hindex (heq ▸ htag)
    simp only [recordedLabels, hne, hne', htag, if_false, true_and] at htagged
    -- a value that is not there is empty
    by_cases hvalue : value tag = [] <;> by_cases hvalue' : value' tag = []
    · rw [hvalue, hvalue']
    · simp [hvalue, hvalue'] at htagged
    · simp [hvalue, hvalue'] at htagged
    · simpa [hvalue, hvalue'] using htagged
  · rintro ⟨rfl, h⟩ name
    unfold recordedLabels
    by_cases hname : name ∈ rollupTags
    · rw [h name hname]
    · simp only [hname, false_and, if_false]

/-! ## What a key loses -/

section Loss

variable (rollupTags : List Bytes) (sourceId : Bytes) (tags : GoMap Bytes Bytes)

/-- The key gives the labels of the recording back, and only recordings that agree with it
    have the same key. -/
def LosesNothing (nodeIndex : Bytes) : Prop :=
  (∃ labels,
    labelsFromKey (keyFromTags rollupTags sourceId tags) nodeIndex rollupTags = .ok labels ∧
    ∀ name, labels.lookup name =
      recordedLabels nodeIndex rollupTags sourceId (tagValue tags) name) ∧
  ∀ (sourceId' : Bytes) (tags' : GoMap Bytes Bytes),
    keyFromTags rollupTags sourceId tags = keyFromTags rollupTags sourceId' tags' ↔
      sourceId = sourceId' ∧ ∀ tag ∈ rollupTags, tagValue tags tag = tagValue tags' tag

/-- No carriage return of the source id or of a rollup tag stands before a newline, and there
    is more than an empty source id. -/
def ReadableKey : Prop :=
  ¬ [13, 10] <:+: sourceId ∧ (∀ tag ∈ rollupTags, ¬ [13, 10] <:+: tagValue tags tag) ∧
    (sourceId ≠ [] ∨ rollupTags ≠ [])

end Loss

/-- The labels of a recording come back from its key if and only if the key is readable; no
    two recordings that differ share a key. -/
theorem key_loses_nothing_iff (rollupTags : List Bytes) (hnodup : rollupTags.Nodup)
    (hsource : lit "source_id" ∉ rollupTags) (hindex : lit "node_index" ∉ rollupTags)
    (nodeIndex sourceId : Bytes) (tags : GoMap Bytes Bytes) :
    LosesNothing rollupTags sourceId tags nodeIndex ↔ ReadableKey rollupTags sourceId tags := by
  have hback := recordedLabels_eq_iff hsource hindex nodeIndex (Csv.foldNewlines sourceId) sourceId
    (fun tag => Csv.foldNewlines (tagValue tags tag)) (tagValue tags)
  simp only [Csv.foldNewlines_eq_self_iff] at hback
  unfold LosesNothing
  rw [and_iff_left (keyFromTags_inj rollupTags sourceId tags), labelsFromKey_keyFromTags]
  constructor
  · rintro ⟨labels, hread, hlabels⟩
    split_ifs at hread with hempty
    obtain rfl := Except.ok.inj hread
    have hvalues := hback.1 fun name => by rw [← hlabels name, lookup_labelsOf hnodup]
    refine ⟨hvalues.1, hvalues.2, ?_⟩
    by_contra hnone
    rw [not_or, not_not, not_not] at hnone
    exact hempty hnone
  · rintro ⟨hid, hvalues, hmore⟩
    have hempty : ¬ (sourceId = [] ∧ rollupTags = []) := fun h => hmore.elim (· h.1) (· h.2)
    rw [if_neg hempty]
    refine ⟨_, rfl, fun name => ?_⟩
    rw [lookup_labelsOf hnodup]
    exact hback.2 ⟨hid, hvalues⟩ name

/-- Commas, quotation marks, spaces and newlines come back. -/
theorem key_keeps_punctuation :
    LosesNothing [lit "uri", lit "app"] (lit " a,\"b\"\n") (GoMap.ofPairs [(lit "uri", lit "\r,")])
      (lit "0") :=
  (key_loses_nothing_iff [lit "uri", lit "app"] (by decide) (by decide) (by decide) _ _ _).2
    ⟨by decide, by decide, by decide⟩

/-- A carriage return before a newline is lost, so that a recording is emitted with the labels
    of another one that has its own key; and one without source id and rollup tags has no
    labels at all. -/
theorem key_loses_carriage_return :
    let uri : GoMap Bytes Bytes := GoMap.ofPairs [(lit "uri", lit "a\r\nb")]
    let uri' : GoMap Bytes Bytes := GoMap.ofPairs [(lit "uri", lit "a\nb")]
    labelsFromKey (keyFromTags [lit "uri"] (lit "id") uri) (lit "0") [lit "uri"] =
        labelsFromKey (keyFromTags [lit "uri"] (lit "id") uri') (lit "0") [lit "uri"] ∧
      keyFromTags [lit "uri"] (lit "id") uri ≠ keyFromTags [lit "uri"] (lit "id") uri' ∧
      labelsFromKey (keyFromTags [] [] ∅) (lit "0") [] = .error .eof ∧
      ¬ LosesNothing [lit "uri"] (lit "id") uri (lit "0") ∧
      ¬ LosesNothing [] [] ∅ (lit "0") := by
  refine ⟨rfl, by decide, rfl, ?_, ?_⟩
  · rintro ⟨⟨labels, hread, hlabels⟩, -⟩
    obtain rfl := Except.ok.inj hread
    exact absurd (hlabels (lit "uri")) (by decide)
  · rintro ⟨⟨labels, hread, -⟩, -⟩
    cases hread

end MetricStore.Ingress
