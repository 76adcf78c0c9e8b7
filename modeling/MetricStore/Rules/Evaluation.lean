import MetricStore.Persistence.Querier
import MetricStore.Storage.Replicas

/-!
# The samples of rule evaluations

A `PromRuleManager` (`internal/rules/prom_manager.go`, lines 34–75) gives the rule manager
of the vendored `prometheus` a query function and an appendable. Prometheus counts in
milliseconds and the store in nanoseconds. The query function is wrapped so that the samples
it returns are in nanoseconds (`wrappedEngineQueryFunc`, `internal/rules/prom_managers.go`,
lines 175–199), and the appendable is the replicated storage itself, which takes the times as
they are. A recording rule appends what the query function returned. An alerting rule only
takes the labels and values from there, and appends its samples at the evaluation time in
milliseconds, as are the markers of series that have gone.

Of the rule manager (`rules/manager.go`, `Group.Eval`) the model has the samples that one
evaluation appends, in their order. The engine gives the series of an instant query; it
puts them at the evaluation time.

Results:
* `rule_samples_stored_iff`: which samples of an evaluation at `ts` are stored at `ts * 10^6`
  nanoseconds, and which queries have a window around that time.
* `alert_stored_in_1970`: an alert of 2020 that is stored in 1970, and a recorded sample
  that the query at the evaluation time leaves out.
-/

namespace MetricStore.Rules

open MetricStore.Common MetricStore.Influx MetricStore.Persistence MetricStore.Storage

/-! ## Samples -/

/-- `promql.Sample`. -/
structure Sample where
  metric : Labels
  t : Int64
  v : Float64
  deriving DecidableEq

/-- The series of an instant query at a time, or an error. -/
abbrev Engine := Bytes → Int64 → Except Bytes (List (Labels × Float64))

/-- `rules.EngineQueryFunc`: the samples are at the evaluation time. -/
def engineQueryFunc (engine : Engine) (qs : Bytes) (t : Int64) : Except Bytes (List Sample) :=
  match engine qs t with
  | .error err => .error err
  | .ok vector => .ok (vector.map fun e => ⟨e.1, t, e.2⟩)

/-- `wrappedEngineQueryFunc` (lines 175–199). -/
def wrappedEngineQueryFunc (engine : Engine) (qs : Bytes) (t : Int64) :
    Except Bytes (List Sample) :=
  match engineQueryFunc engine qs t with
  | .error err => .error err
  | .ok vector =>
    .ok (vector.map fun sample => ⟨sample.metric, millisecondsToNanoseconds sample.t, sample.v⟩)

/-! ## Rules -/

/-- A rule: a recording rule with the labels it gives to a series, or an alerting rule with
    the series `ALERTS` and `ALERTS_FOR_STATE` of the alerts that are active after a query
    result. -/
inductive EvalRule
  | recording (expr : Bytes) (label : Labels → Labels)
  | alerting (expr : Bytes) (series : List Sample → Except Bytes (List (Labels × Float64)))

/-- What made the rule manager append a sample. -/
inductive Origin
  | recording
  | alerting
  | stale
  deriving DecidableEq, Repr

def EvalRule.origin : EvalRule → Origin
  | .recording _ _ => .recording
  | .alerting _ _ => .alerting

/-- `RecordingRule.Eval` from the result of the query on. -/
def record (label : Labels → Labels) (vector : List Sample) : Except Bytes (List Sample) :=
  let vector := vector.map fun sample => ⟨label sample.metric, sample.t, sample.v⟩
  if (vector.map Sample.metric).Nodup then .ok vector
  else .error (lit "vector contains metrics with the same labelset after applying rule labels")

/-- `Rule.Eval` at the time `ts`, in milliseconds. -/
def EvalRule.eval (queryFunc : Bytes → Int64 → Except Bytes (List Sample)) (ts : Int64) :
    EvalRule → Except Bytes (List Sample)
  | .recording expr label =>
    match queryFunc expr ts with
    | .error err => .error err
    | .ok vector => record label vector
  | .alerting expr series =>
    match queryFunc expr ts with
    | .error err => .error err
    | .ok vector =>
      match series vector with
      | .error err => .error err
      | .ok alerts => .ok (alerts.map fun e => ⟨e.1, ts, e.2⟩)

/-- `value.StaleNaN`. -/
def staleNaN : Float64 := 0x7ff0000000000002

/-- A sample that the rule manager appends, with its origin. -/
structure Appended where
  origin : Origin
  sample : Sample
  deriving DecidableEq

/-- The marker of a series that is no longer produced. -/
def staleMarker (ts : Int64) (lset : Labels) : Appended := ⟨.stale, ⟨lset, ts, staleNaN⟩⟩

/-- A rule group: the rules, each with the series of its previous evaluation, and the series
    of rules that are no longer configured. -/
structure EvalGroup where
  rules : List (EvalRule × List Labels)
  staleSeries : List Labels

/-- The samples that `Group.Eval` appends for one rule; a rule that fails is skipped. -/
def ruleAppends (engine : Engine) (ts : Int64) (rule : EvalRule) (previous : List Labels) :
    List Appended :=
  match rule.eval (wrappedEngineQueryFunc engine) ts with
  | .error _ => []
  | .ok vector =>
    (vector.map fun sample => ⟨rule.origin, sample⟩) ++
      (previous.filter fun lset => lset ∉ vector.map Sample.metric).map (staleMarker ts)

/-- The samples that `Group.Eval` appends at the time `ts`. -/
def EvalGroup.appends (engine : Engine) (g : EvalGroup) (ts : Int64) : List Appended :=
  (g.rules.flatMap fun r => ruleAppends engine ts r.1 r.2) ++ g.staleSeries.map (staleMarker ts)

/-! ## Times -/

/-- The query function returns nanoseconds. -/
theorem time_of_wrappedEngineQueryFunc {engine : Engine} {qs : Bytes} {ts : Int64}
    {vector : List Sample} (h : wrappedEngineQueryFunc engine qs ts = .ok vector) {s : Sample}
    (hs : s ∈ vector) : s.t = millisecondsToNanoseconds ts := by
  unfold wrappedEngineQueryFunc engineQueryFunc at h
  cases hengine : engine qs ts with
  | error err => simp [hengine] at h
  | ok series =>
    simp only [hengine, List.map_map, Except.ok.injEq] at h
    subst h
    obtain ⟨e, -, rfl⟩ := List.mem_map.1 hs
    rfl

/-- The times of the samples of a rule: of a recording rule those of the query function, of
    an alerting rule the evaluation time. -/
theorem time_of_eval {engine : Engine} {rule : EvalRule} {ts : Int64} {vector : List Sample}
    (h : rule.eval (wrappedEngineQueryFunc engine) ts = .ok vector) {s : Sample}
    (hs : s ∈ vector) :
    (rule.origin = .recording → s.t = millisecondsToNanoseconds ts) ∧
      (rule.origin ≠ .recording → s.t = ts) := by
  cases rule with
  | recording expr label =>
    refine ⟨fun _ => ?_, fun hne => absurd rfl hne⟩
    simp only [EvalRule.eval] at h
    split at h
    · cases h
    · rename_i returned hquery
      unfold record at h
      dsimp only at h
      split at h
      · cases h
        obtain ⟨r, hr, rfl⟩ := List.mem_map.1 hs
        show r.t = _
        exact time_of_wrappedEngineQueryFunc hquery hr
      · cases h
  | alerting expr series =>
    refine ⟨nofun, fun _ => ?_⟩
    simp only [EvalRule.eval] at h
    split at h
    · cases h
    · split at h
      · cases h
      · cases h
        obtain ⟨e, -, rfl⟩ := List.mem_map.1 hs
        rfl

/-- **The time of an appended sample**, by its origin. -/
theorem time_of_mem_appends {engine : Engine} {g : EvalGroup} {ts : Int64} {e : Appended}
    (he : e ∈ g.appends engine ts) :
    (e.origin = .recording → e.sample.t = millisecondsToNanoseconds ts) ∧
      (e.origin ≠ .recording → e.sample.t = ts) := by
  have hstale : ∀ lset, e = staleMarker ts lset →
      (e.origin = .recording → e.sample.t = millisecondsToNanoseconds ts) ∧
        (e.origin ≠ .recording → e.sample.t = ts) := by
    rintro lset rfl
    exact ⟨nofun, fun _ => rfl⟩
  rcases List.mem_append.1 he with he | he
  · obtain ⟨⟨rule, previous⟩, -, he⟩ := List.mem_flatMap.1 he
    unfold ruleAppends at he
    split at he
    · cases he
    · rename_i vector heval
      rcases List.mem_append.1 he with he | he
      · obtain ⟨s, hs, rfl⟩ := List.mem_map.1 he
        exact time_of_eval heval hs
      · obtain ⟨lset, -, rfl⟩ := List.mem_map.1 he
        exact hstale lset rfl
  · obtain ⟨lset, -, rfl⟩ := List.mem_map.1 he
    exact hstale lset rfl

/-! ## What is stored -/

variable {n : ℕ}

/-- `Appender().Add` of the replicated storage for each sample. -/
def appendAll (routing : Routing n) (samples : List Appended) (a : ReplicatedAppender n) :
    ReplicatedAppender n :=
  samples.foldl (fun a e => a.add routing e.sample.metric e.sample.t e.sample.v) a

/-- The node `j` stores the point `p` for the sample: its own local appender collects it, or
    the one of another node does once the point was carried over. -/
def StoredFor (routing : Routing n) (length : ℕ) (j : Fin n) (s : Sample) (p : Rpc.Point) :
    Prop :=
  j ∈ routing.lookup (s.metric.get metricName) ∧ isValidFloat s.v = true ∧
    if j = routing.localIndex then p = collectedPoint length s.metric s.t s.v
    else ∃ q, SamePoint (remotePoint s.metric s.t s.v) q ∧
      p = collectedPoint length (convertLabels q) q.timestamp q.value

/-- Samples are stored at the times at which they are appended. -/
theorem StoredFor.timestamp_eq {routing : Routing n} {length : ℕ} {j : Fin n} {s : Sample}
    {p : Rpc.Point} (h : StoredFor routing length j s p) : p.timestamp = s.t := by
  obtain ⟨-, -, h⟩ := h
  split at h
  · rw [h]
    rfl
  · obtain ⟨q, hq, rfl⟩ := h
    exact hq.2.1.symm

theorem storedFor_local {routing : Routing n} (length : ℕ) {s : Sample}
    (hj : routing.localIndex ∈ routing.lookup (s.metric.get metricName))
    (hv : isValidFloat s.v = true) :
    StoredFor routing length routing.localIndex s (collectedPoint length s.metric s.t s.v) := by
  refine ⟨hj, hv, ?_⟩
  rw [if_pos rfl]

theorem exists_storedFor_iff (routing : Routing n) (length : ℕ) (j : Fin n) (s : Sample) :
    (∃ p, StoredFor routing length j s p) ↔
      j ∈ routing.lookup (s.metric.get metricName) ∧ isValidFloat s.v = true := by
  constructor
  · rintro ⟨p, hj, hv, -⟩
    exact ⟨hj, hv⟩
  · rintro ⟨hj, hv⟩
    unfold StoredFor
    split
    · exact ⟨_, hj, hv, rfl⟩
    · exact ⟨_, hj, hv, _, ⟨rfl, rfl, rfl, fun _ => rfl⟩, rfl⟩

/-- The node `j` gets to store `p` from what the appenders of this node have: in its own
    local appender, or in the local appender of `j` once it was carried over. -/
def NodeStores (routing : Routing n) (length : ℕ) (a : ReplicatedAppender n) (j : Fin n)
    (p : Rpc.Point) : Prop :=
  if j = routing.localIndex then p ∈ a.localAppender.points
  else ∃ sent ∈ (a.remote j).points, ∃ q, SamePoint sent q ∧ isValidFloat q.value = true ∧
    p = collectedPoint length (convertLabels q) q.timestamp q.value

theorem mem_remote_appendAll (routing : Routing n) (samples : List Appended)
    (a : ReplicatedAppender n) {j : Fin n} (hj : j ≠ routing.localIndex) (sent : Rpc.Point) :
    sent ∈ ((appendAll routing samples a).remote j).points ↔ sent ∈ (a.remote j).points ∨
      ∃ e ∈ samples, j ∈ routing.lookup (e.sample.metric.get metricName) ∧
        sent = remotePoint e.sample.metric e.sample.t e.sample.v := by
  have hstep : ∀ (a : ReplicatedAppender n) (e : Appended), True → True ∧ ∀ sent,
      sent ∈ ((a.add routing e.sample.metric e.sample.t e.sample.v).remote j).points ↔
        sent ∈ (a.remote j).points ∨ j ∈ routing.lookup (e.sample.metric.get metricName) ∧
          sent = remotePoint e.sample.metric e.sample.t e.sample.v := by
    intro a e _
    refine ⟨trivial, fun sent => ?_⟩
    rw [ReplicatedAppender.add, foldl_addTo_remote _ _ _ _ hj, List.mem_append,
      List.mem_replicate, ← Nat.pos_iff_ne_zero, List.count_pos_iff]
  exact (foldl_collects (fun a : ReplicatedAppender n => (a.remote j).points) (fun _ => True)
    hstep samples trivial).2 sent

theorem mem_local_appendAll (routing : Routing n) (length : ℕ) (samples : List Appended)
    {a : ReplicatedAppender n} (ha : a.localAppender.labelTruncationLength = length)
    (p : Rpc.Point) :
    p ∈ (appendAll routing samples a).localAppender.points ↔ p ∈ a.localAppender.points ∨
      ∃ e ∈ samples, routing.localIndex ∈ routing.lookup (e.sample.metric.get metricName) ∧
        isValidFloat e.sample.v = true ∧
        p = collectedPoint length e.sample.metric e.sample.t e.sample.v := by
  have hstep := fun (a : ReplicatedAppender n) (e : Appended)
      (ha : a.localAppender.labelTruncationLength = length) =>
    a.add_collects routing e.sample.metric e.sample.t e.sample.v ha
  exact (foldl_collects (fun a : ReplicatedAppender n => a.localAppender.points)
    (fun a => a.localAppender.labelTruncationLength = length) hstep samples ha).2 p

/-- The appenders of a node before an evaluation. -/
def noSamples (length : ℕ) : ReplicatedAppender n := ⟨.newAppender length, fun _ => ⟨[], []⟩⟩

/-- **What the nodes store** for the samples. -/
theorem nodeStores_appendAll (routing : Routing n) (length : ℕ) (samples : List Appended)
    (j : Fin n) (p : Rpc.Point) :
    NodeStores routing length (appendAll routing samples (noSamples length)) j p ↔
      ∃ e ∈ samples, StoredFor routing length j e.sample p := by
  unfold NodeStores StoredFor
  by_cases hj : j = routing.localIndex
  · simp only [if_pos hj]
    rw [mem_local_appendAll routing length samples rfl, hj]
    simp [noSamples, Appender.newAppender]
  · simp only [if_neg hj, mem_remote_appendAll routing samples (noSamples length) hj]
    constructor
    · rintro ⟨sent, hsent | ⟨e, he, hlookup, rfl⟩, q, hq, hv, rfl⟩
      · cases hsent
      · have hvalue : e.sample.v = q.value := hq.2.2.1
        exact ⟨e, he, hlookup, by rw [hvalue]; exact hv, q, hq, rfl⟩
    · rintro ⟨e, he, hlookup, hv, q, hq, rfl⟩
      have hvalue : e.sample.v = q.value := hq.2.2.1
      exact ⟨_, Or.inr ⟨e, he, hlookup, rfl⟩, q, hq, by rw [← hvalue]; exact hv, rfl⟩

/-! ## Stored at the evaluation time -/

/-- **Stored at the evaluation time.** The nodes store the finite samples of an evaluation
    at `ts` milliseconds on their replicas. Those of recording rules are stored at
    `ts * 10^6` nanoseconds if that is an `int64`, those of alerting rules only if `ts` is 0.
    The window of a query has the time `ts * 10^6` exactly when the query starts at `ts` or
    before and ends after it. -/
theorem rule_samples_stored_iff (routing : Routing n) (length : ℕ) (engine : Engine)
    (g : EvalGroup) (ts : Int64) :
    (∀ j p, NodeStores routing length
        (appendAll routing (g.appends engine ts) (noSamples length)) j p ↔
      ∃ e ∈ g.appends engine ts, StoredFor routing length j e.sample p) ∧
    (∀ e ∈ g.appends engine ts, ∀ j, j ∈ routing.lookup (e.sample.metric.get metricName) →
      ((∃ p, StoredFor routing length j e.sample p ∧ p.timestamp.toInt = ts.toInt * 10 ^ 6) ↔
        isValidFloat e.sample.v = true ∧
          (e.origin = .recording ∧ FitsInt64 (ts.toInt * 10 ^ 6) ∨
            e.origin ≠ .recording ∧ ts = 0))) ∧
    ∀ (now : Int64) (params : SelectParams) (labelMatchers : List Matcher) (q : PointsQuery),
      params.stop ≠ 0 → FitsInt64 (params.start.toInt * 10 ^ 6) →
      FitsInt64 (params.stop.toInt * 10 ^ 6) → select now (some params) labelMatchers = .ok q →
      (q.Covers (ts.toInt * 10 ^ 6) ↔ params.start ≤ ts ∧ ts < params.stop) := by
  refine ⟨nodeStores_appendAll routing length _, ?_, ?_⟩
  · intro e he j hj
    obtain ⟨hrecording, hother⟩ := time_of_mem_appends he
    have htime : e.sample.t.toInt = ts.toInt * 10 ^ 6 ↔
        e.origin = .recording ∧ FitsInt64 (ts.toInt * 10 ^ 6) ∨ e.origin ≠ .recording ∧ ts = 0 := by
      by_cases ho : e.origin = .recording
      · rw [hrecording ho, toInt_millisecondsToNanoseconds_iff]
        simp [ho]
      · rw [hother ho]
        simp only [ho, false_and, false_or, ne_eq, not_false_eq_true, true_and]
        constructor
        · intro heq
          refine Int64.toInt_inj.1 ?_
          rw [Int64.toInt_zero]
          omega
        · rintro rfl
          rfl
    rw [← htime]
    constructor
    · rintro ⟨p, hp, htimestamp⟩
      rw [hp.timestamp_eq] at htimestamp
      exact ⟨hp.2.1, htimestamp⟩
    · rintro ⟨hv, ht⟩
      obtain ⟨p, hp⟩ := (exists_storedFor_iff routing length j e.sample).2 ⟨hj, hv⟩
      exact ⟨p, hp, by rw [hp.timestamp_eq]; exact ht⟩
  · intro now params labelMatchers q hstop hs he hselect
    obtain ⟨hqstart, hqstop⟩ := select_window hstop hs he hselect
    unfold PointsQuery.Covers
    rw [hqstart, hqstop, Int64.le_iff_toInt_le, Int64.lt_iff_toInt_lt]
    omega

/-! ## An alert -/

/-- One series with the value 1. -/
def oneSeries : Engine := fun _ _ => .ok [([(metricName, lit "up")], 0x3FF0000000000000)]

/-- A recording rule and an alerting rule. -/
def alertGroup : EvalGroup where
  rules := [(.recording (lit "up") fun _ => [(metricName, lit "job:up")], []),
    (.alerting (lit "up") fun _ =>
      .ok [([(metricName, lit "ALERTS"), (lit "alertname", lit "Up")], 0x3FF0000000000000)], [])]
  staleSeries := []

/-- **An alert of 2020 is stored in 1970.** In an evaluation at the start of 2020 the sample
    of the alerting rule is stored 1577836800000 nanoseconds after 1970. The sample of the
    recording rule is stored at the right time, which is just after the window of the instant
    query of that time. -/
theorem alert_stored_in_1970 :
    (∃ e ∈ alertGroup.appends oneSeries 1577836800000, e.origin = .alerting ∧
      ∃ p, StoredFor oneNode 256 0 e.sample p ∧ p.timestamp = 1577836800000 ∧
        p.timestamp.toInt ≠ (1577836800000 : Int64).toInt * 10 ^ 6) ∧
    ∃ e ∈ alertGroup.appends oneSeries 1577836800000, e.origin = .recording ∧
      ∃ p, StoredFor oneNode 256 0 e.sample p ∧ p.timestamp = 1577836800000000000 ∧
        ∃ q, select 0 (some ⟨1577836500000, 1577836800000⟩) [] = .ok q ∧
          ¬ q.Covers p.timestamp.toInt := by
  constructor
  · refine ⟨⟨.alerting, ⟨[(metricName, lit "ALERTS"), (lit "alertname", lit "Up")],
      1577836800000, 0x3FF0000000000000⟩⟩, by decide, rfl, _,
      storedFor_local 256 (by decide) (by decide), rfl, by decide⟩
  · refine ⟨⟨.recording, ⟨[(metricName, lit "job:up")], 1577836800000000000,
      0x3FF0000000000000⟩⟩, by decide, rfl, _, storedFor_local 256 (by decide) (by decide), rfl,
      _, rfl, by decide⟩

end MetricStore.Rules
