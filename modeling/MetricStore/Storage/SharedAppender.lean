import MetricStore.Storage.Listeners

/-!
# One appender for all connections

The internode listener of a node (`setupSanitizedListener`,
`internal/metricstore/metric_store.go`, lines 495–530) has one `persistence.Appender` for all
its connections. Each connection has a goroutine (`readLoop`,
`pkg/leanstreams/tcplistener.go`, lines 245–289) that calls `writePoints` for one message
after the other. The callback adds the points of the message and commits. `Add` and `Commit`
lock the appender, each for itself, so the atomic steps of a callback are its calls of `Add`
and its `Commit`.

The database behind `WritePoints` is a parameter, so that a call may fail at any time. A call
that panics ends the process.

The state has a history: which callback has added which point, the calls of `WritePoints`
with their points and errors, and what the callbacks have returned.

Results:
* `run_alone`: a callback that runs alone does what `Node.writePoints` says.
* `shared_appender_safe`: every point accepted by `Add` is passed on exactly once. Where a
  `Commit` that fails has only points of its own callback, a callback that returns nil has
  had its points passed to calls that returned nil.
* `commit_loses_points`: a failed `Commit` with the points of another callback.
-/

namespace MetricStore.Storage

open MetricStore.Common MetricStore.Persistence

/-- A callback in progress: its number, and the points that it has still to add. -/
structure Callback where
  number : ℕ
  left : List Rpc.Point

/-- A point that `Add` has accepted, with the number of the callback. -/
abbrev Accepted := ℕ × Rpc.Point

/-- A call of `WritePoints` that has returned: the accepted points that were in the appender,
    its argument and its error. -/
structure WriteCall where
  points : List Accepted
  argument : List Rpc.Point
  err : Option Bytes

/-- The appender, the database and the callbacks of the connections, with the history. -/
structure Shared (ι σ : Type) where
  appender : Appender
  adapter : InfluxAdapter σ
  running : ι → Option Callback
  /-- How many callbacks have begun. -/
  begun : ℕ
  accepted : List Accepted
  /-- The accepted points that are in the appender. -/
  pending : List Accepted
  calls : List WriteCall
  returned : List (ℕ × Option Bytes)

/-- A connection calls back with the points of a message, adds the next point, or commits. -/
inductive Act (ι : Type)
  | call (c : ι) (batch : List Rpc.Point)
  | add (c : ι)
  | commit (c : ι) (order : MapOrder ℤ)

namespace Shared

variable {ι σ : Type}

/-- No connection has called back yet. -/
def start (labelTruncationLength : ℕ) (adapter : InfluxAdapter σ) : Shared ι σ where
  appender := .newAppender labelTruncationLength
  adapter := adapter
  running := fun _ => none
  begun := 0
  accepted := []
  pending := []
  calls := []
  returned := []

variable [DecidableEq ι] (db : InfluxStore σ)

/-- The point that `Add` collects for a point of a message (lines 511–516). -/
def collected (s : Shared ι σ) (point : Rpc.Point) : Rpc.Point :=
  collectedPoint s.appender.labelTruncationLength (convertLabels point) point.timestamp point.value

/-- An atomic step; `none` if the connection is not at it, or `WritePoints` panics. -/
def step (s : Shared ι σ) : Act ι → Option (Shared ι σ)
  | .call c batch =>
    match s.running c with
    | some _ => none
    | none => some { s with
        running := Function.update s.running c (some ⟨s.begun, batch⟩)
        begun := s.begun + 1 }
  | .add c =>
    match s.running c with
    | some ⟨number, point :: left⟩ =>
      let s := { s with running := Function.update s.running c (some ⟨number, left⟩) }
      match s.appender.add (convertLabels point) point.timestamp point.value with
      | (appender, some _) => some { s with appender := appender }
      | (appender, none) => some { s with
          appender := appender
          accepted := s.accepted ++ [(number, s.collected point)]
          pending := s.pending ++ [(number, s.collected point)] }
    | _ => none
  | .commit c order =>
    match s.running c with
    | some ⟨number, []⟩ =>
      match s.appender.commit db order s.adapter with
      | .error _ => none
      | .ok (appender, adapter, err) => some { s with
          appender := appender
          adapter := adapter
          running := Function.update s.running c none
          pending := []
          calls := s.calls ++ [⟨s.pending, s.appender.points, err⟩]
          returned := s.returned ++ [(number, err)] }
    | _ => none

/-- Everything a step can do. -/
theorem step_cases {s s' : Shared ι σ} {a : Act ι} (h : s.step db a = some s') :
    (∃ c batch, a = .call c batch ∧ s.running c = none ∧
      s' = { s with
        running := Function.update s.running c (some ⟨s.begun, batch⟩), begun := s.begun + 1 }) ∨
    (∃ c number point left, a = .add c ∧ s.running c = some ⟨number, point :: left⟩ ∧
      (isValidFloat point.value = false ∧
          s' = { s with running := Function.update s.running c (some ⟨number, left⟩) } ∨
        isValidFloat point.value = true ∧ s' = { s with
          appender := ⟨s.appender.points ++ [s.collected point], s.appender.labelTruncationLength⟩
          running := Function.update s.running c (some ⟨number, left⟩)
          accepted := s.accepted ++ [(number, s.collected point)]
          pending := s.pending ++ [(number, s.collected point)] })) ∨
    ∃ c order number adapter err, a = .commit c order ∧ s.running c = some ⟨number, []⟩ ∧
      s.adapter.writePoints db order s.appender.points = .ok (adapter, err) ∧
      s' = { s with
        appender := { s.appender with points := [] }
        adapter := adapter
        running := Function.update s.running c none
        pending := []
        calls := s.calls ++ [⟨s.pending, s.appender.points, err⟩]
        returned := s.returned ++ [(number, err)] } := by
  cases a with
  | call c batch =>
    simp only [step] at h
    split at h
    · cases h
    · next hnone =>
      cases h
      exact .inl ⟨c, batch, rfl, hnone, rfl⟩
  | add c =>
    simp only [step, Appender.add] at h
    split at h
    · next number point left hrunning =>
      refine .inr (.inl ⟨c, number, point, left, rfl, hrunning, ?_⟩)
      by_cases hvalid : isValidFloat point.value = true
      · simp only [hvalid, if_true] at h
        cases h
        exact .inr ⟨hvalid, rfl⟩
      · simp only [hvalid] at h
        cases h
        exact .inl ⟨by simpa using hvalid, rfl⟩
    · cases h
  | commit c order =>
    simp only [step, Appender.commit] at h
    split at h
    · next number hrunning =>
      generalize hwrite : s.adapter.writePoints db order s.appender.points = r at h
      cases r with
      | error p => cases h
      | ok r =>
        obtain ⟨adapter, err⟩ := r
        cases h
        exact .inr (.inr ⟨c, order, number, adapter, err, rfl, hrunning, hwrite, rfl⟩)
    · cases h

/-! ## A callback alone -/

/-- The calls of `Add` of one callback, one after the other. -/
theorem run_adds {s : Shared ι σ} {c : ι} {number : ℕ} {batch : List Rpc.Point}
    (h : s.running c = some ⟨number, batch⟩) :
    ∃ s' : Shared ι σ, (∀ acts, run (step db) s (List.replicate batch.length (.add c) ++ acts) =
        run (step db) s' acts) ∧
      s'.appender = batch.foldl writePoint s.appender ∧ s'.adapter = s.adapter ∧
      s'.running c = some ⟨number, []⟩ ∧ s'.returned = s.returned := by
  induction batch generalizing s with
  | nil => exact ⟨s, fun _ => rfl, rfl, rfl, h, rfl⟩
  | cons point batch ih =>
    obtain ⟨s₁, hstep, happender, hadapter, hrunning, hreturned⟩ : ∃ s₁,
        s.step db (.add c) = some s₁ ∧ s₁.appender = writePoint s.appender point ∧
          s₁.adapter = s.adapter ∧ s₁.running c = some ⟨number, batch⟩ ∧
          s₁.returned = s.returned := by
      simp only [step, h]
      unfold writePoint
      generalize s.appender.add (convertLabels point) point.timestamp point.value = r
      obtain ⟨appender, err⟩ := r
      cases err with
      | none => exact ⟨_, rfl, rfl, rfl, Function.update_self _ _ _, rfl⟩
      | some err => exact ⟨_, rfl, rfl, rfl, Function.update_self _ _ _, rfl⟩
    obtain ⟨s', hrun, happender', hadapter', hrunning', hreturned'⟩ := ih hrunning
    refine ⟨s', fun acts => ?_, ?_, hadapter'.trans hadapter, hrunning', hreturned'.trans hreturned⟩
    · rw [List.length_cons, List.replicate_succ, List.cons_append, run, hstep]
      exact hrun acts
    · rw [happender', happender, List.foldl_cons]

variable {db} in
/-- **A callback alone** leaves the appender and the database as `Node.writePoints` does. -/
theorem run_alone {s : Shared ι σ} {c : ι} (hnone : s.running c = none) (order : MapOrder ℤ)
    (batch : List Rpc.Point) {n : ℕ} {node node' : Node σ n}
    (happender : node.sanitized = s.appender) (hadapter : node.adapter = s.adapter)
    (h : node.writePoints db order batch = .ok node') :
    ∃ s', run (step db) s (.call c batch ::
        (List.replicate batch.length (.add c) ++ [.commit c order])) = some s' ∧
      s'.appender = node'.sanitized ∧ s'.adapter = node'.adapter ∧ s'.running c = none := by
  unfold Node.writePoints at h
  split at h
  · cases h
  · next appender adapter err hcommit =>
    cases h
    rw [happender, hadapter] at hcommit
    have hbegun : Shared.running { s with
        running := Function.update s.running c (some ⟨s.begun, batch⟩), begun := s.begun + 1 } c =
          some ⟨s.begun, batch⟩ := Function.update_self c _ s.running
    obtain ⟨s', hrun, happender', hadapter', hrunning, -⟩ := run_adds db hbegun
    have hlast : ∃ s'', s'.step db (.commit c order) = some s'' ∧ s''.appender = appender ∧
        s''.adapter = adapter ∧ s''.running c = none := by
      simp only [step, hrunning, happender', hadapter', hcommit]
      exact ⟨_, rfl, rfl, rfl, Function.update_self _ _ _⟩
    obtain ⟨s'', hstep, hresult⟩ := hlast
    refine ⟨s'', ?_, hresult⟩
    have hbegin : s.step db (.call c batch) = some { s with
        running := Function.update s.running c (some ⟨s.begun, batch⟩), begun := s.begun + 1 } := by
      simp only [step, hnone]
    rw [run, hbegin, Option.bind_some, hrun, run, hstep]
    rfl

/-! ## The numbers of the callbacks -/

omit [DecidableEq ι] in
/-- The numbers of the callbacks in progress. -/
def numbers (s : Shared ι σ) : ι → Option ℕ := Option.map Callback.number ∘ s.running

end Shared

/-- Callbacks in progress have different numbers, below `begun`, and have not returned. No
    callback returns twice. -/
structure Numbered {ι : Type} (numbers : ι → Option ℕ) (begun : ℕ) (returned : List ℕ) : Prop where
  fresh : ∀ c k, numbers c = some k → k < begun ∧ k ∉ returned
  distinct : ∀ c c' k, numbers c = some k → numbers c' = some k → c = c'
  old : ∀ k ∈ returned, k < begun
  nodup : returned.Nodup

namespace Numbered

variable {ι : Type} {numbers : ι → Option ℕ} {begun : ℕ} {returned : List ℕ} {c : ι}

theorem init : Numbered (fun _ : ι => none) 0 [] := by
  refine ⟨?_, ?_, ?_, List.nodup_nil⟩
  · intro c k hk
    cases hk
  · intro c c' k hk
    cases hk
  · intro k hk
    cases hk

variable [DecidableEq ι]

theorem update_eq_some {x : Option ℕ} {c' : ι} {k : ℕ}
    (h : Function.update numbers c x c' = some k) :
    c' = c ∧ x = some k ∨ c' ≠ c ∧ numbers c' = some k := by
  by_cases hc : c' = c
  · subst hc
    rw [Function.update_self] at h
    exact .inl ⟨rfl, h⟩
  · rw [Function.update_of_ne hc] at h
    exact .inr ⟨hc, h⟩

/-- A callback begins. -/
theorem begin (h : Numbered numbers begun returned) (c : ι) :
    Numbered (Function.update numbers c (some begun)) (begun + 1) returned := by
  refine ⟨fun c' k hk => ?_, fun c₁ c₂ k h₁ h₂ => ?_,
    fun k hk => (h.old k hk).trans (Nat.lt_succ_self _), h.nodup⟩
  · rcases update_eq_some hk with ⟨-, hnew⟩ | ⟨-, hold⟩
    · cases hnew
      exact ⟨Nat.lt_succ_self _, fun hmem => (h.old _ hmem).false⟩
    · exact ⟨(h.fresh c' k hold).1.trans (Nat.lt_succ_self _), (h.fresh c' k hold).2⟩
  · rcases update_eq_some h₁ with ⟨rfl, hnew₁⟩ | ⟨-, hold₁⟩
    · cases hnew₁
      rcases update_eq_some h₂ with ⟨rfl, -⟩ | ⟨-, hold₂⟩
      · rfl
      · exact absurd (h.fresh c₂ _ hold₂).1 (lt_irrefl _)
    · rcases update_eq_some h₂ with ⟨rfl, hnew₂⟩ | ⟨-, hold₂⟩
      · cases hnew₂
        exact absurd (h.fresh c₁ _ hold₁).1 (lt_irrefl _)
      · exact h.distinct c₁ c₂ k hold₁ hold₂

/-- A callback returns. -/
theorem finish (h : Numbered numbers begun returned) {k : ℕ} (hk : numbers c = some k) :
    Numbered (Function.update numbers c none) begun (returned ++ [k]) := by
  refine ⟨fun c' k' hk' => ?_, fun c₁ c₂ k' h₁ h₂ => ?_, fun k' hk' => ?_, ?_⟩
  · rcases update_eq_some hk' with ⟨-, hnone⟩ | ⟨hne, hold⟩
    · cases hnone
    · refine ⟨(h.fresh c' k' hold).1, fun hmem => ?_⟩
      rcases List.mem_append.mp hmem with hmem | hmem
      · exact (h.fresh c' k' hold).2 hmem
      · rw [List.mem_singleton.mp hmem] at hold
        exact hne (h.distinct c' c k hold hk)
  · rcases update_eq_some h₁ with ⟨-, hnone⟩ | ⟨-, hold₁⟩
    · cases hnone
    · rcases update_eq_some h₂ with ⟨-, hnone⟩ | ⟨-, hold₂⟩
      · cases hnone
      · exact h.distinct c₁ c₂ k' hold₁ hold₂
  · rcases List.mem_append.mp hk' with hk' | hk'
    · exact h.old k' hk'
    · rw [List.mem_singleton.mp hk']
      exact (h.fresh c k hk).1
  · exact List.nodup_append.mpr ⟨h.nodup, List.nodup_singleton k, fun a ha b hb => by
      cases List.mem_singleton.mp hb
      rintro rfl
      exact (h.fresh c a hk).2 ha⟩

end Numbered

namespace Shared

variable {ι σ : Type} [DecidableEq ι] {db : InfluxStore σ} {s s' : Shared ι σ} {c : ι}

theorem numbers_update (s : Shared ι σ) (c : ι) (x : Option Callback) :
    Option.map Callback.number ∘ Function.update s.running c x =
      Function.update s.numbers c (x.map Callback.number) :=
  Function.comp_update _ _ _ _

omit [DecidableEq ι] in
theorem numbers_of_running {cb : Callback} (h : s.running c = some cb) :
    s.numbers c = some cb.number := by
  rw [numbers, Function.comp_apply, h]
  rfl

/-- `Add` does not change the number of a callback. -/
theorem numbers_left {number : ℕ} {left : List Rpc.Point} (h : s.running c = some ⟨number, left⟩)
    (left' : List Rpc.Point) :
    Option.map Callback.number ∘ Function.update s.running c (some ⟨number, left'⟩) =
      s.numbers := by
  rw [numbers_update, Option.map_some, ← numbers_of_running h, Function.update_eq_self]

/-! ## Invariants -/

/-- The appender holds the pending points, and so it did at every call. All accepted points have
    been passed on or are pending, in their order, and the pending ones belong to callbacks in
    progress. -/
structure Inv (s : Shared ι σ) : Prop where
  buffer : s.appender.points = s.pending.map Prod.snd
  passed : ∀ call ∈ s.calls, call.argument = call.points.map Prod.snd
  once : s.accepted = s.calls.flatMap WriteCall.points ++ s.pending
  owner : ∀ e ∈ s.pending, ∃ c, s.numbers c = some e.1
  numbered : Numbered s.numbers s.begun (s.returned.map Prod.fst)

omit [DecidableEq ι] in
theorem inv_start (length : ℕ) (adapter : InfluxAdapter σ) :
    (start length adapter : Shared ι σ).Inv := by
  refine ⟨rfl, ?_, rfl, ?_, Numbered.init⟩
  · intro call hcall
    cases hcall
  · intro e he
    cases he

theorem step_inv (h : s.Inv) {a : Act ι} (hstep : s.step db a = some s') : s'.Inv := by
  obtain ⟨c, batch, -, hnone, rfl⟩ | ⟨c, number, point, left, -, hrunning, hadd⟩ |
    ⟨c, order, number, adapter, err, -, hrunning, -, rfl⟩ := step_cases db hstep
  · refine ⟨h.buffer, h.passed, h.once, fun e he => ?_, ?_⟩
    · obtain ⟨c', hc'⟩ := h.owner e he
      have hne : c' ≠ c := by
        rintro rfl
        rw [numbers, Function.comp_apply, hnone] at hc'
        cases hc'
      refine ⟨c', ?_⟩
      rw [numbers, numbers_update, Function.update_of_ne hne]
      exact hc'
    · rw [numbers, numbers_update]
      exact h.numbered.begin c
  · have hnumbers := numbers_left hrunning left
    rcases hadd with ⟨-, rfl⟩ | ⟨-, rfl⟩
    · refine ⟨h.buffer, h.passed, h.once, ?_, ?_⟩
      · rw [numbers, hnumbers]
        exact h.owner
      · rw [numbers, hnumbers]
        exact h.numbered
    · refine ⟨?_, h.passed, ?_, ?_, ?_⟩
      · simp [h.buffer]
      · rw [h.once, List.append_assoc]
      · rw [numbers, hnumbers]
        intro e he
        rcases List.mem_append.mp he with he | he
        · exact h.owner e he
        · cases List.mem_singleton.mp he
          exact ⟨c, numbers_of_running hrunning⟩
      · rw [numbers, hnumbers]
        exact h.numbered
  · refine ⟨rfl, ?_, ?_, fun e he => absurd he List.not_mem_nil, ?_⟩
    · intro call hcall
      rcases List.mem_append.mp hcall with hold | hnew
      · exact h.passed call hold
      · cases List.mem_singleton.mp hnew
        exact h.buffer
    · rw [h.once, List.flatMap_append]
      simp
    · rw [numbers, numbers_update, List.map_append]
      exact h.numbered.finish (numbers_of_running hrunning)

/-! ## Points that are lost -/

/-- A `Commit` whose call of `WritePoints` fails has no points of other callbacks. -/
def FailsAlone (db : InfluxStore σ) (s : Shared ι σ) : Act ι → Prop
  | .commit c order => ∀ adapter err,
      s.adapter.writePoints db order s.appender.points = .ok (adapter, some err) →
      ∀ e ∈ s.pending, s.numbers c = some e.1
  | _ => True

instance (s : Shared ι σ) : DecidablePred (FailsAlone db s)
  | .commit c order =>
    match hwrite : s.adapter.writePoints db order s.appender.points with
    | .ok (_, some _) =>
      decidable_of_iff (∀ e ∈ s.pending, s.numbers c = some e.1)
        ⟨fun h _ _ _ => h, fun h => h _ _ hwrite⟩
    | .ok (_, none) => isTrue fun _ _ h => by cases hwrite.symm.trans h
    | .error _ => isTrue fun _ _ h => by cases hwrite.symm.trans h
  | .call _ _ => isTrue trivial
  | .add _ => isTrue trivial

/-- Every callback with a point in a call that failed has returned an error. -/
def Reported (s : Shared ι σ) : Prop :=
  ∀ call ∈ s.calls, call.err ≠ none → ∀ e ∈ call.points, ∃ err, (e.1, some err) ∈ s.returned

theorem step_reported (h : s.Reported) {a : Act ι} (halone : s.FailsAlone db a)
    (hstep : s.step db a = some s') : s'.Reported := by
  obtain ⟨c, batch, -, -, rfl⟩ | ⟨c, number, point, left, -, -, hadd⟩ |
    ⟨c, order, number, adapter, err, rfl, hrunning, hwrite, rfl⟩ := step_cases db hstep
  · exact h
  · rcases hadd with ⟨-, rfl⟩ | ⟨-, rfl⟩
    · exact h
    · exact h
  · intro call hcall herr e he
    rcases List.mem_append.mp hcall with hold | hnew
    · obtain ⟨err', hmem⟩ := h call hold herr e he
      exact ⟨err', List.mem_append_left _ hmem⟩
    · cases List.mem_singleton.mp hnew
      obtain ⟨err', rfl⟩ := Option.ne_none_iff_exists'.mp herr
      have howner := halone adapter err' hwrite e he
      rw [numbers_of_running hrunning, Option.some.injEq] at howner
      exact ⟨err', List.mem_append_right _ (by rw [← howner]; exact List.mem_singleton_self _)⟩

/-- **One appender for all connections.** In every run each point that `Add` has accepted has
    been passed to exactly one call of `WritePoints` or waits in the appender for the `Commit` of
    its callback, so that all have been passed on when no callback is in progress. If no failing
    `Commit` has points of another callback, a callback that has returned nil has had all its
    points passed to calls that returned nil. -/
theorem shared_appender_safe {length : ℕ} {adapter : InfluxAdapter σ} {acts : List (Act ι)}
    (hrun : run (step db) (start length adapter) acts = some s) :
    s.accepted = s.calls.flatMap WriteCall.points ++ s.pending ∧
    (∀ call ∈ s.calls, call.argument = call.points.map Prod.snd) ∧
    s.appender.points = s.pending.map Prod.snd ∧
    (∀ e ∈ s.pending, ∃ c left, s.running c = some ⟨e.1, left⟩) ∧
    ((∀ c, s.running c = none) → s.accepted = s.calls.flatMap WriteCall.points) ∧
    (Meets (step db) (FailsAlone db) (start length adapter) acts →
      ∀ number, (number, none) ∈ s.returned →
        (∀ e ∈ s.accepted, e.1 = number → ∃ call ∈ s.calls, e ∈ call.points) ∧
        ∀ call ∈ s.calls, (∃ e ∈ call.points, e.1 = number) → call.err = none) := by
  have hinv : s.Inv := run_preserves (step db) (fun _ _ _ h => step_inv h)
    (inv_start length adapter) hrun
  have howner : ∀ e ∈ s.pending, ∃ c left, s.running c = some ⟨e.1, left⟩ := by
    intro e he
    obtain ⟨c, hc⟩ := hinv.owner e he
    obtain ⟨⟨number, left⟩, hcb, heq⟩ := Option.map_eq_some_iff.mp hc
    cases heq
    exact ⟨c, left, hcb⟩
  refine ⟨hinv.once, hinv.passed, hinv.buffer, howner, fun hquiet => ?_,
    fun hmeets number hnil => ?_⟩
  · have hpending : s.pending = [] := by
      refine List.eq_nil_iff_forall_not_mem.mpr fun e he => ?_
      obtain ⟨c, left, hc⟩ := howner e he
      rw [hquiet] at hc
      cases hc
    rw [hinv.once, hpending, List.append_nil]
  · refine ⟨fun e he hnumber => ?_, ?_⟩
    · rw [hinv.once, List.mem_append] at he
      rcases he with he | he
      · exact List.mem_flatMap.mp he
      · -- its callback is still in progress, and has not returned
        obtain ⟨c, hc⟩ := hinv.owner e he
        have hreturned : number ∈ s.returned.map Prod.fst := List.mem_map.mpr ⟨_, hnil, rfl⟩
        rw [← hnumber] at hreturned
        exact absurd hreturned (hinv.numbered.fresh c e.1 hc).2
    · rintro call hcall ⟨e, he, rfl⟩
      by_contra herr
      have hreported : s.Reported := run_invariant (step db)
        (fun _ _ _ h halone => step_reported h halone) (fun _ h => absurd h List.not_mem_nil)
        hmeets hrun
      obtain ⟨err, hmem⟩ := hreported call hcall herr e he
      have hsame := List.inj_on_of_nodup_map hinv.numbered.nodup hmem hnil rfl
      cases hsame

/-! ## Two connections -/

/-- A database whose writes return `err`. -/
def writesReturn (err : Option Bytes) : InfluxStore Unit where
  createShard _ s := (s, none)
  writeToShard _ _ s := (s, err)

/-- Two connections call back with a point each. The first one adds its point before the
    second one commits, and commits after it. -/
def overlapping : List (Act Bool) :=
  [.call false [⟨lit "up", 1, 0, ∅⟩], .add false, .call true [⟨lit "up", 2, 0, ∅⟩], .add true,
    .commit true (.first 0), .commit false (.first 0)]

/-- A database whose first write fails. -/
def firstWriteFails : InfluxStore Bool where
  createShard _ failed := (failed, none)
  writeToShard _ _ failed := (true, if failed then none else some (lit "no space left on device"))

/-- A callback whose `Commit` fails, and then the two of `overlapping`. -/
def failingFirst : List (Act Bool) :=
  [.call true [⟨lit "up", 0, 0, ∅⟩], .add true, .commit true (.first 0)] ++ overlapping

/-- The first callback returns an error, and the points of the others are passed on. -/
theorem shared_appender_safe_failingFirst :
    ∃ s, run (step firstWriteFails) (start 256 ⟨[], false⟩) failingFirst = some s ∧
      Meets (step firstWriteFails) (FailsAlone firstWriteFails) (start 256 ⟨[], false⟩)
        failingFirst ∧
      (0, some (lit "no space left on device")) ∈ s.returned ∧ (1, none) ∈ s.returned ∧
      s.accepted = s.calls.flatMap WriteCall.points ++ s.pending ∧
      ∀ call ∈ s.calls, (∃ e ∈ call.points, e.1 = 1) → call.err = none := by
  have hmeets : Meets (step firstWriteFails) (FailsAlone firstWriteFails) (start 256 ⟨[], false⟩)
      failingFirst := by decide
  have hall : ∃ s ∈ run (step firstWriteFails) (start 256 ⟨[], false⟩) failingFirst,
      (0, some (lit "no space left on device")) ∈ s.returned ∧ (1, none) ∈ s.returned :=
    ⟨_, rfl, by decide, by decide⟩
  obtain ⟨s, hrun, hfailed, hnil⟩ := hall
  obtain ⟨hsplit, -, -, -, -, hstored⟩ := shared_appender_safe hrun
  exact ⟨s, hrun, hmeets, hfailed, hnil, hsplit, (hstored hmeets 1 hnil).2⟩

/-- The writes fail. The first callback returns nil, and its point was in the call that
    failed. -/
theorem commit_loses_points :
    ∃ s, run (step (writesReturn (some (lit "no space left on device")))) (start 256 ⟨[], ()⟩)
        overlapping = some s ∧
      (0, none) ∈ s.returned ∧
      ∃ call ∈ s.calls, call.err = some (lit "no space left on device") ∧
        ∃ e ∈ call.points, e.1 = 0 := by
  refine ⟨_, rfl, ?_, ?_⟩
  · decide
  · decide

end Shared

end MetricStore.Storage
