import MetricStore.Common.Utf8
import MetricStore.Persistence.Appender
import MetricStore.Persistence.Querier
import MetricStore.Persistence.SeriesSet
import MetricStore.Storage.RetryTicker

/-!
# Reading from another node

`RemoteQuerier.Select` (`internal/storage/remote_querier.go`, lines 75–86) asks another node
by the remote read protocol of Prometheus. Model of both ends: the codec of the request and of
the answer (`storage/remote/codec.go`), `Client.Read` (`storage/remote/client.go`), and
`remoteRead` with `remoteReadQuery` and `filterExtLabelsFromMatchers` of the API that serves it
(`web/api/v1/api.go`), as `RouterForStorage` (`internal/api/prom_api.go`, lines 35–84) sets it
up: without external labels and with a limit on the samples of an answer.

`Client.Read` asks for no particular type of answer and so gets samples, not chunks. Protobuf
and Snappy carry a message over as it is. Of the hints only the times are modelled: `Select`
reads no others. `regexp.Compile`, `sort.Sort` and `strings.TrimSpace` are parameters.

Main results:

* `remote_select_iff`: a remote `Select` gives exactly the series of `Select` on the other
  node, in the order of their labels, unless there are too many samples, or one label of one
  series is not valid.
* `truncated_series_read`: the appender cuts values at a number of bytes. A series with a value
  that was cut inside a character cannot be read from another node, nor can any series that is
  selected together with it.
-/

namespace MetricStore.Storage

open MetricStore.Common MetricStore.Persistence
open MetricStore.Common.Regexp (Expression)

/-! ## Requests -/

/-- `prompb.LabelMatcher`. -/
structure LabelMatcher where
  type : ℤ
  name : Bytes
  value : Bytes

/-- `prompb.Query`, with the times of its hints. -/
structure Query where
  matchers : List LabelMatcher
  hints : Option SelectParams

/-- The loop body of `toLabelMatchers` (codec.go:457–480). -/
def toLabelMatcher (m : Matcher) : Except Bytes LabelMatcher :=
  if m.type = matchEqual then .ok ⟨0, m.name, m.value⟩
  else if m.type = matchNotEqual then .ok ⟨1, m.name, m.value⟩
  else if m.type = matchRegexp then .ok ⟨2, m.name, m.value⟩
  else if m.type = matchNotRegexp then .ok ⟨3, m.name, m.value⟩
  else .error (lit "invalid matcher type")

/-- `ToQuery` (codec.go:82–107). -/
def toQuery (matchers : List Matcher) (p : Option SelectParams) : Except Bytes Query :=
  match matchers.mapM toLabelMatcher with
  | .error err => .error err
  | .ok ms => .ok ⟨ms, p⟩

section Requests

variable (compile : Bytes → Except Bytes Expression)

/-- `labels.NewMatcher`. -/
def newMatcher (type : MatchType) (name value : Bytes) : Except Bytes Matcher :=
  if type = matchRegexp ∨ type = matchNotRegexp then
    match compile value with
    | .error err => .error err
    | .ok _ => .ok ⟨type, name, value⟩
  else .ok ⟨type, name, value⟩

/-- The loop body of `FromLabelMatchers` (codec.go:484–508). -/
def fromLabelMatcher (m : LabelMatcher) : Except Bytes Matcher :=
  if m.type = 0 then newMatcher compile matchEqual m.name m.value
  else if m.type = 1 then newMatcher compile matchNotEqual m.name m.value
  else if m.type = 2 then newMatcher compile matchRegexp m.name m.value
  else if m.type = 3 then newMatcher compile matchNotRegexp m.name m.value
  else .error (lit "invalid matcher type")

/-- The loop body of `filterExtLabelsFromMatchers` (api.go:1169–1180). -/
def filterExtLabel (externalLabels : GoMap Bytes Bytes) (m : Matcher) : Except Bytes Matcher :=
  if m.type = matchEqual ∧ (externalLabels.lookup m.name).getD [] = m.value then
    newMatcher compile matchEqual m.name []
  else .ok m

/-- `filterExtLabelsFromMatchers` (api.go:1162–1183). -/
def filterExtLabelsFromMatchers (pbMatchers : List LabelMatcher)
    (externalLabels : GoMap Bytes Bytes) : Except Bytes (List Matcher) :=
  match pbMatchers.mapM (fromLabelMatcher compile) with
  | .error err => .error err
  | .ok matchers => matchers.mapM (filterExtLabel compile externalLabels)

end Requests

/-! ## Answers -/

/-- `storage.SeriesSet`: the series, or the error that `Err` reports. -/
inductive SeriesSet
  | series (list : List ConcreteSeries)
  | failed (err : Bytes)

/-- `Querier.Select`. -/
abbrev Select := Option SelectParams → List Matcher → Except Bytes SeriesSet

/-- `remote.HTTPError`, or another error with the status that it is given. -/
structure HTTPError where
  status : ℕ
  msg : Bytes

/-- `sort.Sort` of labels. -/
abbrev LabelSorting := Sorting fun a b : Bytes × Bytes => a.1 < b.1

/-- `labels.Compare(a, b) < 0` (labels.go:281–297). -/
def labelsLess : Labels → Labels → Bool
  | [], b => b ≠ []
  | _ :: _, [] => false
  | x :: a, y :: b =>
    if x.1 ≠ y.1 then x.1 < y.1 else if x.2 ≠ y.2 then x.2 < y.2 else labelsLess a b

theorem labelsLess_cons (x y : Bytes × Bytes) (a b : Labels) :
    labelsLess (x :: a) (y :: b) = true ↔
      x.1 < y.1 ∨ x.1 = y.1 ∧ (x.2 < y.2 ∨ x.2 = y.2 ∧ labelsLess a b = true) := by
  rw [labelsLess]
  split_ifs with hname hvalue
  · simp [hname]
  · simp [not_not.mp hname, hvalue, List.lt_irrefl]
  · simp [not_not.mp hname, not_not.mp hvalue, List.lt_irrefl]

theorem labelsLess_trans {a b d : Labels} (hab : labelsLess a b = true)
    (hbd : labelsLess b d = true) : labelsLess a d = true := by
  induction a generalizing b d with
  | nil =>
    cases b with
    | nil => simp [labelsLess] at hab
    | cons y b =>
      cases d with
      | nil => simp [labelsLess] at hbd
      | cons z d => simp [labelsLess]
  | cons x a ih =>
    cases b with
    | nil => simp [labelsLess] at hab
    | cons y b =>
      cases d with
      | nil => simp [labelsLess] at hbd
      | cons z d =>
        rw [labelsLess_cons] at hab hbd ⊢
        rcases hab with hxy | ⟨hxy, hab⟩
        · rcases hbd with hyz | ⟨hyz, -⟩
          · exact Or.inl (List.lt_trans hxy hyz)
          · exact Or.inl (hyz ▸ hxy)
        · rw [hxy]
          rcases hbd with hyz | ⟨hyz, hbd⟩
          · exact Or.inl hyz
          · refine Or.inr ⟨hyz, ?_⟩
            rcases hab with hab | ⟨hxy', hab⟩
            · rcases hbd with hbd | ⟨hyz', -⟩
              · exact Or.inl (List.lt_trans hab hbd)
              · exact Or.inl (hyz' ▸ hab)
            · rw [hxy']
              rcases hbd with hbd | ⟨hyz', hbd⟩
              · exact Or.inl hbd
              · exact Or.inr ⟨hyz', ih hab hbd⟩

theorem labelsLess_total (a b : Labels) :
    labelsLess a b = true ∨ a = b ∨ labelsLess b a = true := by
  induction a generalizing b with
  | nil => cases b <;> simp [labelsLess]
  | cons x a ih =>
    cases b with
    | nil => simp [labelsLess]
    | cons y b =>
      rw [labelsLess_cons, labelsLess_cons]
      have hname : x.1 < y.1 ∨ x.1 = y.1 ∨ y.1 < x.1 := Std.Trichotomous.rel_or_eq_or_rel_swap
      have hvalue : x.2 < y.2 ∨ x.2 = y.2 ∨ y.2 < x.2 := Std.Trichotomous.rel_or_eq_or_rel_swap
      rcases hname with h | h | h
      · exact Or.inl (Or.inl h)
      · rcases hvalue with h' | h' | h'
        · exact Or.inl (Or.inr ⟨h, Or.inl h'⟩)
        · rcases ih b with hab | rfl | hba
          · exact Or.inl (Or.inr ⟨h, Or.inr ⟨h', hab⟩⟩)
          · exact Or.inr (Or.inl (by rw [Prod.ext h h']))
          · exact Or.inr (Or.inr (Or.inr ⟨h.symm, Or.inr ⟨h'.symm, hba⟩⟩))
        · exact Or.inr (Or.inr (Or.inr ⟨h.symm, Or.inl h'⟩))
      · exact Or.inr (Or.inr (Or.inl h))

/-- `sort.Sort` of a slice `byLabel` (codec.go:343–347). -/
abbrev SeriesSorting := Sorting fun a b : ConcreteSeries => labelsLess a.labels b.labels = true

section Answers

variable (byName : LabelSorting)

/-- A series as `prompb.TimeSeries`; `Labels` sorts a copy of them. -/
def toTimeSeries (s : ConcreteSeries) : ConcreteSeries := ⟨byName.sort s.labels, s.samples⟩

/-- The loop over the samples of a series (codec.go:118–131): the number of samples, if it does
    not exceed the limit. -/
def countSamples (sampleLimit : ℕ) : ℕ → List SeriesSample → Option ℕ
  | numSamples, [] => some numSamples
  | numSamples, _ :: samples =>
    if 0 < sampleLimit ∧ sampleLimit < numSamples + 1 then none
    else countSamples sampleLimit (numSamples + 1) samples

/-- The loop over the series (codec.go:113–140). -/
def encodeSeries (sampleLimit : ℕ) :
    ℕ → List ConcreteSeries → Except HTTPError (List ConcreteSeries)
  | _, [] => .ok []
  | numSamples, s :: series =>
    match countSamples sampleLimit numSamples s.samples with
    | none =>
      .error ⟨400, lit "exceeded sample limit (" ++ decimal sampleLimit ++ lit ")"⟩
    | some numSamples =>
      match encodeSeries sampleLimit numSamples series with
      | .error err => .error err
      | .ok rest => .ok (toTimeSeries byName s :: rest)

/-- `ToQueryResult` (codec.go:110–145). -/
def toQueryResult (sampleLimit : ℕ) : SeriesSet → Except HTTPError (List ConcreteSeries)
  | .series series => encodeSeries byName sampleLimit 0 series
  | .failed err => .error ⟨500, err⟩

/-- `MergeLabels` (codec.go:318–341). -/
def mergeLabels : Labels → Labels → Labels
  | [], secondary => secondary
  | primary, [] => primary
  | x :: primary, y :: secondary =>
    if x.1 < y.1 then x :: mergeLabels primary (y :: secondary)
    else if y.1 < x.1 then y :: mergeLabels (x :: primary) secondary
    else x :: mergeLabels primary secondary

/-- `IsValidMetricName` and `LabelName.IsValid`: a rune beyond ASCII starts with a byte that is
    not kept. -/
def isValidName (colon : Bool) (name : Bytes) : Bool :=
  name ≠ [] && (name.mapIdx fun n b => keepsByte colon n b).all id

/-- The loop of `validateLabelsAndMetricName` (codec.go:439–455), with the name of the label
    before. -/
def validateLabels : Option Bytes → Labels → Option Bytes
  | _, [] => none
  | previous, l :: ls =>
    if l.1 = metricName ∧ isValidName true l.2 = false then
      some (lit "invalid metric name: " ++ l.2)
    else if isValidName false l.1 = false then some (lit "invalid label name: " ++ l.1)
    else if validString l.2 = false then some (lit "invalid label value: " ++ l.2)
    else if previous = some l.1 then some (lit "duplicate label with name: " ++ l.1)
    else validateLabels (some l.1) ls

/-- The loop of `FromQueryResult` (codec.go:150–160). -/
def decodeSeries : List ConcreteSeries → Except Bytes (List ConcreteSeries)
  | [] => .ok []
  | ts :: rest =>
    let labels := byName.sort ts.labels
    match validateLabels none labels with
    | some err => .error err
    | none =>
      match decodeSeries rest with
      | .error err => .error err
      | .ok series => .ok (⟨labels, ts.samples⟩ :: series)

variable (byLabel : SeriesSorting)

/-- `FromQueryResult` (codec.go:148–165). -/
def fromQueryResult (res : List ConcreteSeries) : SeriesSet :=
  match decodeSeries byName res with
  | .error err => .failed err
  | .ok series => .series (byLabel.sort series)

end Answers

/-! ## The two ends -/

/-- `REMOTE_READ_SAMPLE_LIMIT` (prom_api.go:18). -/
def remoteReadSampleLimit : ℕ := 20000000

/-- The third-party functions of a remote read. -/
structure Codec where
  compile : Bytes → Except Bytes Expression
  byName : LabelSorting
  byLabel : SeriesSorting
  trimSpace : Bytes → Bytes

namespace Codec

variable (c : Codec)

/-- `remoteReadQuery` and the part of `remoteRead` that follows it (api.go:1129–1150,
    1185–1217), for the `Queryable` whose `Select` is given. -/
def remoteReadQuery (select : Select) (query : Query) : Except HTTPError (List ConcreteSeries) :=
  match filterExtLabelsFromMatchers c.compile query.matchers ∅ with
  | .error err => .error ⟨500, err⟩
  | .ok matchers =>
    match select query.hints matchers with
    | .error err => .error ⟨500, err⟩
    | .ok set =>
      match toQueryResult c.byName remoteReadSampleLimit set with
      | .error err => .error err
      | .ok result => .ok (result.map fun ts => { ts with labels := mergeLabels ts.labels [] })

/-- The status line of an error of `remoteRead`. -/
def statusText (status : ℕ) : Bytes :=
  if status = 400 then lit "400 Bad Request" else lit "500 Internal Server Error"

/-- `Client.Read` (client.go:129–190), once the server has answered. -/
def clientRead (url : Bytes) : Except HTTPError (List ConcreteSeries) →
    Except Bytes (List ConcreteSeries)
  | .error err =>
    .error (lit "remote server " ++ url ++ lit " returned HTTP status " ++
      statusText err.status ++ lit ": " ++ c.trimSpace (err.msg ++ [10]))
  | .ok result => .ok result

/-- `RemoteQuerier.Select` (remote_querier.go:75–86), when the node can be reached. -/
def remoteSelect (url : Bytes) (select : Select) : Select := fun params matchers =>
  match toQuery matchers params with
  | .error err => .error err
  | .ok query =>
    match c.clientRead url (c.remoteReadQuery select query) with
    | .error err => .error err
    | .ok res => .ok (fromQueryResult c.byName c.byLabel res)

end Codec

/-! ## The request arrives -/

/-- A matcher as `NewMatcher` makes it, of one of the four types. -/
structure Made (compile : Bytes → Except Bytes Expression) (m : Matcher) : Prop where
  known : ¬ m.UnknownType
  compiles : ¬ m.InvalidRegexp compile

section Request

variable {compile : Bytes → Except Bytes Expression}

theorem newMatcher_of_made {m : Matcher} (h : Made compile m) :
    newMatcher compile m.type m.name m.value = .ok m := by
  unfold newMatcher
  split_ifs with hregexp
  · cases hcompile : compile m.value with
    | error err => exact absurd ⟨hregexp, err, hcompile⟩ h.compiles
    | ok r => rfl
  · rfl

theorem toLabelMatcher_of_made {m : Matcher} (h : Made compile m) :
    toLabelMatcher m = .ok ⟨m.type, m.name, m.value⟩ := by
  unfold toLabelMatcher
  rcases m.type_cases with htype | htype | htype | htype | hunknown
  · rw [htype]; rfl
  · rw [htype]; rfl
  · rw [htype]; rfl
  · rw [htype]; rfl
  · exact absurd hunknown h.known

theorem fromLabelMatcher_of_made {m : Matcher} (h : Made compile m) :
    fromLabelMatcher compile ⟨m.type, m.name, m.value⟩ = .ok m := by
  rw [← newMatcher_of_made h]
  unfold fromLabelMatcher
  rcases m.type_cases with htype | htype | htype | htype | hunknown
  · rw [htype]; rfl
  · rw [htype]; rfl
  · rw [htype]; rfl
  · rw [htype]; rfl
  · exact absurd hunknown h.known

/-- Without external labels the filter replaces a matcher for the empty value by itself. -/
theorem filterExtLabel_empty (m : Matcher) : filterExtLabel compile ∅ m = .ok m := by
  unfold filterExtLabel
  split_ifs with h
  · obtain ⟨htype, hvalue⟩ := h
    cases m with
    | mk type name value =>
      cases htype
      cases hvalue
      rfl
  · rfl

theorem mapM_eq_ok {α β : Type} {f : α → Except Bytes β} {g : α → β} {l : List α}
    (h : ∀ x ∈ l, f x = .ok (g x)) : l.mapM f = .ok (l.map g) := by
  induction l with
  | nil => rfl
  | cons x l ih =>
    rw [List.mapM_cons, h x List.mem_cons_self, ih fun y hy => h y (List.mem_cons_of_mem x hy)]
    rfl

/-- The other node selects what was asked for. -/
theorem request_arrives {matchers : List Matcher} (h : ∀ m ∈ matchers, Made compile m)
    (p : Option SelectParams) : ∃ ms, toQuery matchers p = .ok ⟨ms, p⟩ ∧
      filterExtLabelsFromMatchers compile ms ∅ = .ok matchers := by
  refine ⟨matchers.map fun m => ⟨m.type, m.name, m.value⟩, ?_, ?_⟩
  · unfold toQuery
    rw [mapM_eq_ok fun m hm => toLabelMatcher_of_made (h m hm)]
  · have hfrom : (matchers.map fun m => (⟨m.type, m.name, m.value⟩ : LabelMatcher)).mapM
        (fromLabelMatcher compile) = .ok matchers := by
      rw [List.mapM_map]
      refine (mapM_eq_ok (g := id) fun m hm => ?_).trans (by rw [List.map_id])
      exact fromLabelMatcher_of_made (h m hm)
    unfold filterExtLabelsFromMatchers
    rw [hfrom]
    dsimp only
    rw [mapM_eq_ok fun m _ => filterExtLabel_empty m, List.map_id']

end Request

/-! ## The answer -/

/-- The samples of all series. -/
def totalSamples (series : List ConcreteSeries) : ℕ := (series.map fun s => s.samples.length).sum

theorem countSamples_eq {sampleLimit : ℕ} (hpos : 0 < sampleLimit) (samples : List SeriesSample)
    {numSamples : ℕ} (hle : numSamples ≤ sampleLimit) :
    countSamples sampleLimit numSamples samples =
      if numSamples + samples.length ≤ sampleLimit then some (numSamples + samples.length)
      else none := by
  induction samples generalizing numSamples with
  | nil => simp [countSamples, hle]
  | cons x samples ih =>
    unfold countSamples
    rw [List.length_cons]
    by_cases hlt : sampleLimit < numSamples + 1
    · rw [if_pos ⟨hpos, hlt⟩, if_neg (by omega)]
    · rw [if_neg (by omega), ih (by omega), Nat.add_assoc, Nat.add_comm 1]

theorem encodeSeries_eq_ok_iff (byName : LabelSorting) {sampleLimit : ℕ} (hpos : 0 < sampleLimit)
    {series result : List ConcreteSeries} {numSamples : ℕ} (hle : numSamples ≤ sampleLimit) :
    encodeSeries byName sampleLimit numSamples series = .ok result ↔
      numSamples + totalSamples series ≤ sampleLimit ∧
        result = series.map (toTimeSeries byName) := by
  induction series generalizing numSamples result with
  | nil => simp [encodeSeries, totalSamples, hle, eq_comm]
  | cons s series ih =>
    unfold encodeSeries
    rw [countSamples_eq hpos _ hle]
    have htotal : totalSamples (s :: series) = s.samples.length + totalSamples series := rfl
    by_cases hfits : numSamples + s.samples.length ≤ sampleLimit
    · rw [if_pos hfits]
      dsimp only
      cases hrest : encodeSeries byName sampleLimit (numSamples + s.samples.length) series with
      | error err =>
        have hmany : ¬ numSamples + s.samples.length + totalSamples series ≤ sampleLimit := by
          intro htotal'
          rw [(ih hfits).mpr ⟨htotal', rfl⟩] at hrest
          cases hrest
        constructor
        · intro h
          cases h
        · rintro ⟨h, -⟩
          omega
      | ok rest =>
        obtain ⟨htotal', rfl⟩ := (ih hfits).mp hrest
        dsimp only
        rw [Except.ok.injEq, List.map_cons]
        constructor
        · intro h
          exact ⟨by omega, h.symm⟩
        · rintro ⟨-, h⟩
          exact h.symm
    · rw [if_neg hfits]
      constructor
      · intro h
        cases h
      · rintro ⟨h, -⟩
        omega

/-- What `validateLabelsAndMetricName` checks of one label. -/
structure LabelOk (l : Bytes × Bytes) : Prop where
  metric : l.1 = metricName → isValidName true l.2 = true
  name : isValidName false l.1 = true
  value : validString l.2 = true

theorem validateLabels_eq_none_iff (previous : Option Bytes) (ls : Labels) :
    validateLabels previous ls = none ↔
      (∀ l ∈ ls, LabelOk l) ∧ (∀ l ∈ ls.head?, previous ≠ some l.1) ∧
        ls.IsChain fun a b => a.1 ≠ b.1 := by
  induction ls generalizing previous with
  | nil => simp [validateLabels]
  | cons l ls ih =>
    have hok : LabelOk l ↔ ¬ (l.1 = metricName ∧ isValidName true l.2 = false) ∧
        ¬ isValidName false l.1 = false ∧ ¬ validString l.2 = false := by
      constructor
      · intro h
        exact ⟨fun hm => by simp [h.metric hm.1] at hm, by simp [h.name], by simp [h.value]⟩
      · rintro ⟨hm, hn, hv⟩
        exact ⟨fun heq => by simpa [heq] using hm, by simpa using hn, by simpa using hv⟩
    unfold validateLabels
    rw [List.forall_mem_cons, hok]
    split_ifs with hm hn hv hd
    · simp [hm]
    · simp [hn]
    · simp [hv]
    · simp [hd]
    · rw [ih]
      cases ls with
      | nil => simp [hm, hn, hv, hd]
      | cons l' ls =>
        rw [List.isChain_cons_cons]
        simp only [List.head?_cons, Option.mem_some_iff, forall_eq', ne_eq, Option.some.injEq]
        tauto

/-- The labels of a series that `FromQueryResult` accepts. -/
structure Readable (l : Labels) : Prop where
  ok : ∀ e ∈ l, LabelOk e
  distinct : l.Pairwise fun a b => a.1 ≠ b.1

theorem Readable.perm {l l' : Labels} (h : Readable l) (hperm : l'.Perm l) : Readable l' where
  ok e he := h.ok e (hperm.mem_iff.mp he)
  distinct := (hperm.pairwise_iff fun hab => hab.symm).mpr h.distinct

theorem lt_of_not_lt_of_ne {a b : Bytes} (hnot : ¬ b < a) (hne : a ≠ b) : a < b := by
  have htotal : a < b ∨ a = b ∨ b < a := Std.Trichotomous.rel_or_eq_or_rel_swap
  tauto

/-- Sorted labels with different neighbours are all different. -/
theorem validateLabels_sort_iff (byName : LabelSorting) (l : Labels) :
    validateLabels none (byName.sort l) = none ↔ Readable l := by
  rw [validateLabels_eq_none_iff]
  constructor
  · rintro ⟨hok, -, hchain⟩
    have hle : (byName.sort l).IsChain fun a b => ¬ b.1 < a.1 := (byName.sorted l).isChain
    have hlt : (byName.sort l).IsChain fun a b => a.1 < b.1 := by
      rw [List.isChain_iff_getElem] at hchain hle ⊢
      intro i hi
      exact lt_of_not_lt_of_ne (hle i hi) (hchain i hi)
    have hpair : (byName.sort l).Pairwise fun a b => a.1 < b.1 := by
      have : IsTrans (Bytes × Bytes) fun a b => a.1 < b.1 := ⟨fun _ _ _ => List.lt_trans⟩
      exact List.isChain_iff_pairwise.mp hlt
    have hsorted : Readable (byName.sort l) := by
      refine ⟨hok, hpair.imp fun hab heq => ?_⟩
      rw [heq] at hab
      exact List.lt_irrefl _ hab
    exact hsorted.perm (byName.perm l).symm
  · intro h
    have hsorted := h.perm (byName.perm l)
    exact ⟨hsorted.ok, by simp, hsorted.distinct.isChain⟩

/-- Labels that are sorted already are not moved. -/
theorem Readable.sort_sort (byName : LabelSorting) {l : Labels} (h : Readable l) :
    byName.sort (byName.sort l) = byName.sort l :=
  byName.sort_eq_sort byName (R := fun a b => a.1 < b.1) (fun hab => hab.symm) h.distinct
    (fun _ _ hne hnot => lt_of_not_lt_of_ne hnot hne) (fun _ _ hab => List.lt_asymm hab)
    (byName.perm l)

theorem mergeLabels_nil (primary : Labels) : mergeLabels primary [] = primary := by
  cases primary <;> simp [mergeLabels]

/-- Of series that were encoded, all arrive or none. -/
theorem decodeSeries_eq_ok_iff (byName : LabelSorting) {series result : List ConcreteSeries} :
    decodeSeries byName (series.map (toTimeSeries byName)) = .ok result ↔
      (∀ s ∈ series, Readable s.labels) ∧ result = series.map (toTimeSeries byName) := by
  induction series generalizing result with
  | nil => simp [decodeSeries, eq_comm]
  | cons s series ih =>
    have hvalid := validateLabels_sort_iff byName (byName.sort s.labels)
    have hlabel : (toTimeSeries byName s).labels = byName.sort s.labels := rfl
    rw [List.map_cons, List.forall_mem_cons]
    simp only [decodeSeries, hlabel]
    cases hlabels : validateLabels none (byName.sort (byName.sort s.labels)) with
    | some err =>
      have hnot : ¬ Readable s.labels := by
        intro h
        rw [hvalid.mpr (h.perm (byName.perm _))] at hlabels
        cases hlabels
      simp [hnot]
    | none =>
      have hreadable : Readable s.labels :=
        (hvalid.mp hlabels).perm (byName.perm _).symm
      rw [hreadable.sort_sort]
      dsimp only
      cases hrest : decodeSeries byName (series.map (toTimeSeries byName)) with
      | error err =>
        have hnot : ¬ ∀ s ∈ series, Readable s.labels := by
          intro h
          rw [ih.mpr ⟨h, rfl⟩] at hrest
          cases hrest
        simp [hnot]
      | ok rest =>
        obtain ⟨hall, rfl⟩ := ih.mp hrest
        dsimp only
        rw [Except.ok.injEq]
        constructor
        · intro h
          exact ⟨⟨hreadable, hall⟩, h.symm⟩
        · rintro ⟨-, h⟩
          exact h.symm

/-- What is left of the answer, once it has arrived. -/
theorem fromQueryResult_eq_series_iff (byName : LabelSorting) (byLabel : SeriesSorting)
    {series result : List ConcreteSeries} :
    fromQueryResult byName byLabel (series.map (toTimeSeries byName)) = .series result ↔
      (∀ s ∈ series, Readable s.labels) ∧
        result = byLabel.sort (series.map (toTimeSeries byName)) := by
  unfold fromQueryResult
  cases hdecode : decodeSeries byName (series.map (toTimeSeries byName)) with
  | error err =>
    have hnot : ¬ ∀ s ∈ series, Readable s.labels := by
      intro h
      rw [(decodeSeries_eq_ok_iff byName).mpr ⟨h, rfl⟩] at hdecode
      cases hdecode
    simp [hnot]
  | ok decoded =>
    obtain ⟨hall, rfl⟩ := (decodeSeries_eq_ok_iff byName).mp hdecode
    dsimp only
    rw [SeriesSet.series.injEq]
    exact ⟨fun h => ⟨hall, h.symm⟩, fun h => h.2.symm⟩

/-! ## Remote and local -/

/-- What the other node serves, for what `Select` returns there. -/
def Codec.served (c : Codec) : Except Bytes SeriesSet → Except HTTPError (List ConcreteSeries)
  | .error err => .error ⟨500, err⟩
  | .ok set => toQueryResult c.byName remoteReadSampleLimit set

/-- What `RemoteQuerier.Select` makes of an answer. -/
def Codec.received (c : Codec) (url : Bytes) (answer : Except HTTPError (List ConcreteSeries)) :
    Except Bytes SeriesSet :=
  match c.clientRead url answer with
  | .error err => .error err
  | .ok res => .ok (fromQueryResult c.byName c.byLabel res)

theorem served_eq_ok_iff (c : Codec) {answer : Except Bytes SeriesSet}
    {res : List ConcreteSeries} : c.served answer = .ok res ↔
      ∃ series, answer = .ok (.series series) ∧ totalSamples series ≤ remoteReadSampleLimit ∧
        res = series.map (toTimeSeries c.byName) := by
  constructor
  · intro hserved
    cases answer with
    | error err => cases hserved
    | ok set =>
      cases set with
      | failed err => cases hserved
      | series series =>
        obtain ⟨hfew, hres⟩ :=
          (encodeSeries_eq_ok_iff c.byName (by decide) (Nat.zero_le _)).mp hserved
        exact ⟨series, rfl, by omega, hres⟩
  · rintro ⟨series, rfl, hfew, rfl⟩
    exact (encodeSeries_eq_ok_iff c.byName (by decide) (Nat.zero_le _)).mpr ⟨by omega, rfl⟩

theorem received_eq_ok {c : Codec} {url : Bytes} {answer : Except HTTPError (List ConcreteSeries)}
    {set : SeriesSet} (h : c.received url answer = .ok set) :
    ∃ res, answer = .ok res ∧ set = fromQueryResult c.byName c.byLabel res := by
  cases answer with
  | error err => cases h
  | ok res =>
    cases h
    exact ⟨res, rfl, rfl⟩

section Select

variable (c : Codec) (url : Bytes) (select : Select) {matchers : List Matcher}
  (hmade : ∀ m ∈ matchers, Made c.compile m) (params : Option SelectParams)

include hmade

/-- The other node makes the same `Select`. -/
theorem remoteSelect_eq : c.remoteSelect url select params matchers =
    c.received url (c.served (select params matchers)) := by
  obtain ⟨ms, hquery, hfilter⟩ := request_arrives hmade params
  unfold Codec.remoteSelect Codec.remoteReadQuery
  rw [hquery]
  dsimp only
  rw [hfilter]
  dsimp only
  cases select params matchers with
  | error err => rfl
  | ok set =>
    dsimp only [Codec.served]
    cases toQueryResult c.byName remoteReadSampleLimit set with
    | error err => rfl
    | ok res => simp only [mergeLabels_nil, List.map_id', Codec.received]

theorem remoteSelect_of_few {series : List ConcreteSeries}
    (hselect : select params matchers = .ok (.series series))
    (hfew : totalSamples series ≤ remoteReadSampleLimit) :
    c.remoteSelect url select params matchers =
      .ok (fromQueryResult c.byName c.byLabel (series.map (toTimeSeries c.byName))) := by
  rw [remoteSelect_eq c url select hmade,
    (served_eq_ok_iff c).mpr ⟨series, hselect, hfew, rfl⟩]
  rfl

/-- **A remote `Select`** gives the series of the `Select` of the other node, with the labels
    that these have there, in the order of their labels. It does so exactly when the samples are
    within the limit, and the labels of every series are valid. -/
theorem remote_select_iff (result : List ConcreteSeries) :
    c.remoteSelect url select params matchers = .ok (.series result) ↔
      ∃ series, select params matchers = .ok (.series series) ∧
        totalSamples series ≤ remoteReadSampleLimit ∧ (∀ s ∈ series, Readable s.labels) ∧
        result = c.byLabel.sort (series.map (toTimeSeries c.byName)) := by
  constructor
  · intro hok
    rw [remoteSelect_eq c url select hmade] at hok
    obtain ⟨res, hserved, hset⟩ := received_eq_ok hok
    obtain ⟨series, hselect, hfew, rfl⟩ := (served_eq_ok_iff c).mp hserved
    exact ⟨series, hselect, hfew, (fromQueryResult_eq_series_iff c.byName c.byLabel).mp hset.symm⟩
  · rintro ⟨series, hselect, hfew, hall⟩
    rw [remoteSelect_of_few c url select hmade params hselect hfew]
    rw [(fromQueryResult_eq_series_iff c.byName c.byLabel).mpr hall]

end Select

/-! ## Truncated values -/

/-- The labels of the series that a label set is stored in: its name, and the others as
    `cleanLabels` leaves them. -/
def writtenLabels (length : ℕ) (l : Labels) : Labels :=
  (metricName, l.get metricName) :: (cleanLabels length l).pairs

/-- A value that is cut inside a character. -/
def SplitsCharacter (length : ℕ) (value : Bytes) : Prop :=
  ∃ h : length < value.length, IsContinuation value[length]

theorem validString_truncate_iff {value : Bytes} (h : validString value = true) (length : ℕ) :
    validString (truncate length value) = true ↔ ¬ SplitsCharacter length value := by
  unfold truncate SplitsCharacter
  split_ifs with hlong
  · rw [validString_take_iff h hlong]
    simp [hlong]
  · simp [h, hlong]

theorem mem_cleanLabels_iff {length : ℕ} {l : Labels} (h : Readable l) (k v : Bytes) :
    (k, v) ∈ (cleanLabels length l).pairs ↔
      k ≠ metricName ∧ ∃ w, (k, w) ∈ l ∧ truncate length w = v := by
  have hnodup : (l.map Prod.fst).Nodup := List.pairwise_map.mpr h.distinct
  rw [GoMap.mem_pairs, cleanLabels, lookup_storedLabels]
  split_ifs with hk
  · simp [hk]
  · rw [Option.map_eq_some_iff]
    simp only [Labels.toMap, GoMap.lookup_ofPairs hnodup, hk, ne_eq, not_false_eq_true, true_and]

theorem mem_get {l : Labels} {k : Bytes} (h : k ∈ l.map Prod.fst) : (k, l.get k) ∈ l := by
  obtain ⟨e, he, rfl⟩ := List.mem_map.mp h
  unfold Labels.get
  cases hfind : l.find? fun e' => e'.1 = e.1 with
  | none => exact absurd (List.find?_eq_none.mp hfind e he) (by simp)
  | some e' =>
    have hname : e'.1 = e.1 := by simpa using List.find?_some hfind
    rw [← hname]
    exact List.mem_of_find?_eq_some hfind

/-- A label set that was readable is stored as one exactly when no value was cut inside a
    character. -/
theorem readable_writtenLabels_iff {l : Labels} (h : Readable l)
    (hname : metricName ∈ l.map Prod.fst) (length : ℕ) :
    Readable (writtenLabels length l) ↔
      ∀ e ∈ l, e.1 ≠ metricName → ¬ SplitsCharacter length e.2 := by
  constructor
  · rintro hwritten ⟨k, w⟩ he hk
    rw [← validString_truncate_iff (h.ok _ he).value]
    have hmem : (k, truncate length w) ∈ (cleanLabels length l).pairs :=
      (mem_cleanLabels_iff h k _).mpr ⟨hk, w, he, rfl⟩
    exact (hwritten.ok _ (List.mem_cons_of_mem _ hmem)).value
  · intro hwhole
    constructor
    · rintro ⟨k, v⟩ he
      rcases List.mem_cons.mp he with heq | hmem
      · rw [heq]
        exact h.ok _ (mem_get hname)
      · obtain ⟨hk, w, hw, rfl⟩ := (mem_cleanLabels_iff h k v).mp hmem
        refine ⟨fun heq => absurd heq hk, (h.ok _ hw).name, ?_⟩
        exact (validString_truncate_iff (h.ok _ hw).value length).mpr (hwhole _ hw hk)
    · rw [writtenLabels, List.pairwise_cons]
      refine ⟨?_, List.pairwise_map.mp (cleanLabels length l).nodup_pairs⟩
      rintro ⟨k, v⟩ hmem heq
      exact ((mem_cleanLabels_iff h k v).mp hmem).1 heq.symm

/-- **Truncated series.** Series whose labels were valid before the appender cut their values
    are read from another node exactly when no value of any of them was cut inside a character.
    Otherwise the read does not fail, but its series set does: none of the series is read. -/
theorem truncated_series_read (c : Codec) (url : Bytes) (select : Select)
    {matchers : List Matcher} (hmade : ∀ m ∈ matchers, Made c.compile m)
    (params : Option SelectParams) (length : ℕ) {written : List ConcreteSeries}
    (hwritten : ∀ s ∈ written, Readable s.labels ∧ metricName ∈ s.labels.map Prod.fst)
    (hselect : select params matchers =
      .ok (.series (written.map fun s => ⟨writtenLabels length s.labels, s.samples⟩)))
    (hfew : totalSamples written ≤ remoteReadSampleLimit) :
    ((∀ s ∈ written, ∀ e ∈ s.labels, e.1 ≠ metricName → ¬ SplitsCharacter length e.2) →
        ∃ result, c.remoteSelect url select params matchers = .ok (.series result) ∧
          result.Perm (written.map fun s =>
            ⟨c.byName.sort (writtenLabels length s.labels), s.samples⟩)) ∧
      ((∃ s ∈ written, ∃ e ∈ s.labels, e.1 ≠ metricName ∧ SplitsCharacter length e.2) →
        ∃ err, c.remoteSelect url select params matchers = .ok (.failed err)) := by
  have htotal : totalSamples (written.map fun s => ⟨writtenLabels length s.labels, s.samples⟩) =
      totalSamples written := by
    unfold totalSamples
    rw [List.map_map]
    rfl
  rw [remoteSelect_of_few c url select hmade params hselect (htotal ▸ hfew)]
  constructor
  · intro hwhole
    have hreadable : ∀ s ∈ written.map fun s : ConcreteSeries =>
        (⟨writtenLabels length s.labels, s.samples⟩ : ConcreteSeries), Readable s.labels := by
      rw [List.forall_mem_map]
      intro s hs
      obtain ⟨hbefore, hname⟩ := hwritten s hs
      exact (readable_writtenLabels_iff hbefore hname length).mpr (hwhole s hs)
    rw [(fromQueryResult_eq_series_iff c.byName c.byLabel).mpr ⟨hreadable, rfl⟩]
    refine ⟨_, rfl, (c.byLabel.perm _).trans ?_⟩
    rw [List.map_map]
    exact List.Perm.refl _
  · rintro ⟨s, hs, e, he, hname, hsplit⟩
    cases hresult : fromQueryResult c.byName c.byLabel
        ((written.map fun s => ⟨writtenLabels length s.labels, s.samples⟩).map
          (toTimeSeries c.byName)) with
    | failed err => exact ⟨err, rfl⟩
    | series result =>
      have hreadable := ((fromQueryResult_eq_series_iff c.byName c.byLabel).mp hresult).1 _
        (List.mem_map_of_mem hs)
      have hwhole := (readable_writtenLabels_iff (hwritten s hs).1 (hwritten s hs).2 length).mp
        hreadable
      exact absurd hsplit (hwhole e he hname)

/-! ### A value of one character of two bytes -/

theorem bytes_not_lt_trans {a b d : Bytes} (hab : ¬ b < a) (hbd : ¬ d < b) : ¬ d < a := by
  rw [List.not_lt] at *
  exact List.le_trans hab hbd

/-- Sorting by names. -/
def sortByName : LabelSorting :=
  .insertion (fun _ _ hab => List.lt_asymm hab) fun _ _ _ => bytes_not_lt_trans

theorem labelsLess_asymm {a b : Labels} (hab : labelsLess a b = true) :
    ¬ labelsLess b a = true := by
  intro hba
  have hself : ∀ l : Labels, labelsLess l l = false := by
    intro l
    induction l with
    | nil => rfl
    | cons x l ih => simp [labelsLess, ih]
  have := labelsLess_trans hab hba
  rw [hself] at this
  cases this

/-- Sorting by labels. -/
def sortByLabel : SeriesSorting :=
  .insertion (fun _ _ => labelsLess_asymm) fun a b d hab hbd hda => by
    rcases labelsLess_total a.labels b.labels with h | h | h
    · exact hbd (labelsLess_trans hda h)
    · exact hbd (h ▸ hda)
    · exact hab h

/-- A codec whose expressions are plain texts. -/
def plainCodec : Codec := ⟨compileText, sortByName, sortByLabel, id⟩

/-- A series with the label `city` of the value `Ü`, two bytes. -/
def citySeries : ConcreteSeries := ⟨[(metricName, lit "cpu"), (lit "city", [0xC3, 0x9C])], [⟨7, 1⟩]⟩

/-- A node that stores the series, with values cut to the given length. -/
def cityNode (length : ℕ) : Select :=
  fun _ _ => .ok (.series [⟨writtenLabels length citySeries.labels, citySeries.samples⟩])

/-- The matcher for the metric. -/
def cpuMatcher : Matcher := ⟨matchEqual, metricName, lit "cpu"⟩

theorem made_cpuMatcher : ∀ m ∈ [cpuMatcher], Made plainCodec.compile m := by
  intro m hm
  rw [List.mem_singleton.mp hm]
  exact ⟨fun h => h.1 rfl, fun h => absurd h.1 (by decide)⟩

theorem readable_citySeries : Readable citySeries.labels := by
  refine ⟨?_, by decide +kernel⟩
  intro e he
  rcases List.mem_cons.mp he with rfl | he
  · exact ⟨fun _ => by decide +kernel, by decide +kernel, by decide +kernel⟩
  · rw [List.mem_singleton.mp he]
    exact ⟨fun h => absurd h (by decide +kernel), by decide +kernel, by decide +kernel⟩

theorem remote_select_iff_city :
    plainCodec.remoteSelect (lit "node") (fun _ _ => .ok (.series [citySeries])) none [cpuMatcher] =
      .ok (.series (sortByLabel.sort [toTimeSeries sortByName citySeries])) := by
  refine (remote_select_iff plainCodec _ _ made_cpuMatcher none _).mpr
    ⟨[citySeries], rfl, by decide +kernel, ?_, rfl⟩
  intro s hs
  rw [List.mem_singleton.mp hs]
  exact readable_citySeries

theorem truncated_series_read_city : ∃ err,
    plainCodec.remoteSelect (lit "node") (cityNode 1) none [cpuMatcher] = .ok (.failed err) := by
  have hwritten : ∀ s ∈ [citySeries], Readable s.labels ∧ metricName ∈ s.labels.map Prod.fst := by
    intro s hs
    rw [List.mem_singleton.mp hs]
    exact ⟨readable_citySeries, List.mem_cons_self⟩
  have hsplit : SplitsCharacter 1 [0xC3, 0x9C] := ⟨by decide, by decide⟩
  have hread := truncated_series_read plainCodec (lit "node") (cityNode 1) made_cpuMatcher none 1
    hwritten rfl (by decide +kernel)
  refine hread.2 ⟨citySeries, List.mem_singleton_self _, (lit "city", [0xC3, 0x9C]), ?_, ?_, hsplit⟩
  · exact List.mem_cons_of_mem _ (List.mem_singleton_self _)
  · decide +kernel

end MetricStore.Storage
