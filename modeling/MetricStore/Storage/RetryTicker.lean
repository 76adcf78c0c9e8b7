import MetricStore.Common.Bytes
import MetricStore.Common.Run

/-!
# Retries of a query

Model of `queryWithRetries`, `retryQueryWithBackoff` and `queryWithNodeFailover` of
`ReplicatedQuerier` (`internal/storage/replicated_querier.go`, lines 137–192) and of the
ticker that paces the retries (`internal/storage/exponential_ticker.go`).

The retry loop and the ticker are two goroutines. The ticker looks at its context,
sleeps, and sends on an unbuffered channel; the loop receives, and queries. The loop
cancels the ticker's context when it returns, and the caller may cancel it at any time.
But the ticker does not look at the context while it sleeps or sends, and the loop does
not look at it at all.

Results:
* `never_stranded_iff`: in a run neither goroutine is left waiting for the other, whatever
  the ticker does next, exactly if the context is cancelled and the loop returns or goes
  on only at the right points of the ticker.
* `stranded_both_ways`: a query that succeeds leaves the ticker behind, and a query that is
  cancelled never returns.
* `delay_bounds`: the ticker sleeps between 100 milliseconds and 30 seconds.
-/

namespace MetricStore.Storage.Retry

open MetricStore.Common

/-! ## Queries -/

/-- What `Select` of a node returns, as far as `isConnectionError` tells errors apart. -/
inductive QueryResult (ρ : Type)
  | ok (result : ρ)
  | connectionError (err : Bytes)
  | otherError (err : Bytes)
  deriving DecidableEq

def QueryResult.isConnectionError {ρ : Type} : QueryResult ρ → Bool
  | .connectionError _ => true
  | _ => false

section Queries

variable {ρ : Type} (nodes : Bytes)

/-- The loop of `queryWithNodeFailover` (lines 175–191), with the error so far. A node
    without a querier is skipped; `nodes` is the text of their list. -/
def failoverFrom : Option Bytes → List (Option (QueryResult ρ)) → QueryResult ρ
  | none, [] => .otherError (lit "metric does not exist on available nodes (" ++ nodes ++ lit ")")
  | some err, [] => .connectionError err
  | err, none :: rest => failoverFrom err rest
  | _, some (.connectionError err) :: rest => failoverFrom (some err) rest
  | _, some (.ok result) :: _ => .ok result
  | _, some (.otherError err) :: _ => .otherError err

/-- `queryWithNodeFailover` (lines 168–192) on what the queriers return, in the order after
    the shuffle. -/
def queryWithNodeFailover (results : List (Option (QueryResult ρ))) : QueryResult ρ :=
  failoverFrom nodes none results

end Queries

/-! ## The ticker -/

/-- `TickerConfig` (lines 9–14), for whole multipliers. Delays are in nanoseconds. -/
structure TickerConfig where
  baseDelay : ℤ
  multiplier : ℤ
  maxDelay : ℤ
  deriving DecidableEq

/-- `validateConfig` (lines 27–50); the error is a panic. -/
def validateConfig (cfg : TickerConfig) : Except Bytes TickerConfig :=
  if cfg.baseDelay < 0 then .error (lit "BaseDelay must be non-negative")
  else if cfg.multiplier < 0 then .error (lit "Multiplier must be non-negative")
  else if cfg.maxDelay < 0 then .error (lit "MaxDelay must be non-negative")
  else
    .ok ⟨if cfg.baseDelay = 0 then 100000000 else cfg.baseDelay,
      if cfg.multiplier = 0 then 2 else cfg.multiplier, cfg.maxDelay⟩

/-- The next delay (lines 62–66). -/
def TickerConfig.nextDelay (cfg : TickerConfig) (delay : ℤ) : ℤ :=
  if cfg.maxDelay ≠ 0 then min (delay * cfg.multiplier) cfg.maxDelay else delay * cfg.multiplier

/-- The configuration of `retryQueryWithBackoff` (line 151), after its validation. -/
def retryConfig : TickerConfig := ⟨100000000, 2, 30000000000⟩

example : validateConfig ⟨0, 0, 30000000000⟩ = .ok retryConfig := by decide

/-- Where `tick` (lines 52–68) is, with its delay. -/
inductive Tick
  /-- at the `select` -/
  | checking (delay : ℤ)
  | sleeping (delay : ℤ)
  /-- blocked until the loop receives -/
  | sending (delay : ℤ)
  /-- past the send -/
  | ticked (delay : ℤ)
  | returned
  deriving DecidableEq

/-- Where `retryQueryWithBackoff` (lines 147–166) is. -/
inductive Loop (ρ : Type)
  /-- blocked until the ticker sends -/
  | waiting
  | querying
  /-- about to run the deferred `stop` -/
  | stopping (result : QueryResult ρ)
  | returned (result : QueryResult ρ)
  deriving DecidableEq

/-- The two goroutines, and whether the ticker's context is done. -/
structure System (ρ : Type) where
  loop : Loop ρ
  tick : Tick
  cancelled : Bool
  deriving DecidableEq

/-- The steps: those of the ticker alone, the tick, those of the loop with what the queriers
    return, and the cancellation of the query's context. -/
inductive Action (ρ : Type)
  | check
  | wake
  | advance
  | deliver
  | answer (results : List (Option (QueryResult ρ)))
  | stop
  | cancel

section Model

variable {ρ : Type} (nodes : Bytes)

/-- The loop after a query (lines 157–164). -/
def afterQuery (result : QueryResult ρ) : Loop ρ :=
  if result.isConnectionError then .waiting else .stopping result

def step (s : System ρ) : Action ρ → Option (System ρ)
  | .check =>
    match s.tick with
    | .checking delay =>
      some { s with tick := if s.cancelled then .returned else .sleeping delay }
    | _ => none
  | .wake =>
    match s.tick with
    | .sleeping delay => some { s with tick := .sending delay }
    | _ => none
  | .advance =>
    match s.tick with
    | .ticked delay => some { s with tick := .checking (retryConfig.nextDelay delay) }
    | _ => none
  | .deliver =>
    match s.tick, s.loop with
    | .sending delay, .waiting => some { s with tick := .ticked delay, loop := .querying }
    | _, _ => none
  | .answer results =>
    match s.loop with
    | .querying => some { s with loop := afterQuery (queryWithNodeFailover nodes results) }
    | _ => none
  | .stop =>
    match s.loop with
    | .stopping result => some { s with loop := .returned result, cancelled := true }
    | _ => none
  | .cancel => some { s with cancelled := true }

/-- `retryQueryWithBackoff` once `NewExponentialTicker` has returned. -/
def start : System ρ := ⟨.waiting, .checking retryConfig.baseDelay, false⟩

/-- `queryWithRetries` (lines 137–145): the first query, and the retries if it fails to
    connect. -/
def queryWithRetries (results : List (Option (QueryResult ρ))) : QueryResult ρ ⊕ System ρ :=
  let result := queryWithNodeFailover nodes results
  if result.isConnectionError then .inr start else .inl result

end Model

/-! ## Specification -/

section Specification

variable {ρ : Type} (nodes : Bytes)

/-- One goroutine is blocked on the channel and the other has returned. -/
def Stranded (s : System ρ) : Prop :=
  (∃ delay result, s.tick = .sending delay ∧ s.loop = .returned result) ∨
    (s.loop = .waiting ∧ s.tick = .returned)

/-- A step that the ticker makes by itself. -/
def Action.OfTicker : Action ρ → Prop
  | .check => True
  | .wake => True
  | .advance => True
  | _ => False

/-- The ticker alone can get to where one goroutine is stranded. -/
def Doomed (s : System ρ) : Prop :=
  ∃ actions s', (∀ a ∈ actions, a.OfTicker) ∧ run (step nodes) s actions = some s' ∧ Stranded s'

/-- The ticker will send before it looks at its context. -/
def Tick.InFlight : Tick → Prop
  | .sleeping _ => True
  | .sending _ => True
  | _ => False

/-- The right points of the ticker: it is in flight when the context of a waiting loop is
    cancelled, and when the loop goes on to wait for a tick although its context is
    cancelled; and it is not when the loop returns. -/
def Timely (s : System ρ) : Action ρ → Prop
  | .cancel => s.loop = .waiting → s.tick.InFlight
  | .answer results => s.loop = .querying →
      (queryWithNodeFailover nodes results).isConnectionError = true → s.cancelled = true →
      s.tick.InFlight
  | .stop => (∃ result, s.loop = .stopping result) → ¬ s.tick.InFlight
  | _ => True

end Specification

/-! ## Steps -/

section Steps

variable {ρ : Type} {nodes : Bytes} {s s' : System ρ}

/-- The transitions, one for each way a step can end. -/
inductive Moves (nodes : Bytes) (s : System ρ) : Action ρ → System ρ → Prop
  | finish {delay} (h : s.tick = .checking delay) (hdone : s.cancelled = true) :
      Moves nodes s .check { s with tick := .returned }
  | sleep {delay} (h : s.tick = .checking delay) (hdone : s.cancelled = false) :
      Moves nodes s .check { s with tick := .sleeping delay }
  | wake {delay} (h : s.tick = .sleeping delay) :
      Moves nodes s .wake { s with tick := .sending delay }
  | advance {delay} (h : s.tick = .ticked delay) :
      Moves nodes s .advance { s with tick := .checking (retryConfig.nextDelay delay) }
  | deliver {delay} (h : s.tick = .sending delay) (hloop : s.loop = .waiting) :
      Moves nodes s .deliver { s with tick := .ticked delay, loop := .querying }
  | retry {results} (h : s.loop = .querying)
      (hconn : (queryWithNodeFailover nodes results).isConnectionError = true) :
      Moves nodes s (.answer results) { s with loop := .waiting }
  | answer {results} (h : s.loop = .querying)
      (hconn : (queryWithNodeFailover nodes results).isConnectionError = false) :
      Moves nodes s (.answer results)
        { s with loop := .stopping (queryWithNodeFailover nodes results) }
  | stop {result} (h : s.loop = .stopping result) :
      Moves nodes s .stop { s with loop := .returned result, cancelled := true }
  | cancel : Moves nodes s .cancel { s with cancelled := true }

theorem moves_of_step {a : Action ρ} (h : step nodes s a = some s') : Moves nodes s a s' := by
  cases a with
  | check =>
    rw [step] at h
    split at h
    · rename_i delay htick
      cases h
      split_ifs with hdone
      · exact .finish htick hdone
      · exact .sleep htick (Bool.eq_false_iff.2 hdone)
    · cases h
  | wake =>
    rw [step] at h
    split at h
    · rename_i delay htick
      cases h
      exact .wake htick
    · cases h
  | advance =>
    rw [step] at h
    split at h
    · rename_i delay htick
      cases h
      exact .advance htick
    · cases h
  | deliver =>
    rw [step] at h
    split at h
    · rename_i delay htick hloop
      cases h
      exact .deliver htick hloop
    · cases h
  | answer results =>
    rw [step] at h
    split at h
    · rename_i hloop
      cases h
      rw [afterQuery]
      split_ifs with hconn
      · exact .retry hloop hconn
      · exact .answer hloop (Bool.eq_false_iff.2 hconn)
    · cases h
  | stop =>
    rw [step] at h
    split at h
    · rename_i result hloop
      cases h
      exact .stop hloop
    · cases h
  | cancel =>
    cases h
    exact .cancel

/-! ## Steps at the right points -/

/-- The invariant: a loop that waits although its context is cancelled still gets a tick, a
    loop that has returned leaves no tick behind, and the ticker returns only when its
    context is cancelled. -/
structure Inv (s : System ρ) : Prop where
  waiting : s.loop = .waiting → s.cancelled = true → s.tick.InFlight
  returned : ∀ result, s.loop = .returned result → s.cancelled = true ∧ ¬ s.tick.InFlight
  tick : s.tick = .returned → s.cancelled = true

theorem inv_start : Inv (start : System ρ) where
  waiting _ h := by cases h
  returned _ h := by cases h
  tick h := by cases h

theorem Inv.not_stranded (h : Inv s) : ¬ Stranded s := by
  rintro (⟨delay, result, htick, hloop⟩ | ⟨hloop, htick⟩)
  · apply (h.returned result hloop).2
    rw [htick]
    trivial
  · have hflight := h.waiting hloop (h.tick htick)
    rw [htick] at hflight
    exact hflight

/-- A step of the ticker alone. Once its context is cancelled, such a step does not change
    whether the ticker is in flight. -/
theorem Inv.setTick (h : Inv s) {t : Tick}
    (hflight : s.cancelled = true → (t.InFlight ↔ s.tick.InFlight))
    (hret : t = .returned → s.cancelled = true) : Inv { s with tick := t } where
  waiting hloop hdone := (hflight hdone).2 (h.waiting hloop hdone)
  returned result hloop := by
    obtain ⟨hdone, hnot⟩ := h.returned result hloop
    exact ⟨hdone, fun ht => hnot ((hflight hdone).1 ht)⟩
  tick := hret

/-- A step of the ticker that does not change whether it is in flight. -/
theorem Inv.moveTick (h : Inv s) {t t' : Tick} (htick : s.tick = t')
    (hflight : t.InFlight ↔ t'.InFlight) (hret : t ≠ .returned) : Inv { s with tick := t } := by
  apply h.setTick
  · intro _
    rw [htick]
    exact hflight
  · intro hreturned
    exact absurd hreturned hret

/-- A step of the loop alone that does not return. -/
theorem Inv.setLoop (h : Inv s) {l : Loop ρ}
    (hwait : l = .waiting → s.cancelled = true → s.tick.InFlight)
    (hret : ∀ result, l ≠ .returned result) : Inv { s with loop := l } where
  waiting := hwait
  returned result hloop := absurd hloop (hret result)
  tick := h.tick

theorem Inv.step {a : Action ρ} (h : Inv s) (hok : Timely nodes s a)
    (hstep : step nodes s a = some s') : Inv s' := by
  cases moves_of_step hstep with
  | finish htick hdone =>
    apply h.setTick
    · intro _
      rw [htick]
      exact Iff.rfl
    · intro _
      exact hdone
  | sleep htick hdone =>
    apply h.setTick
    · intro hcancelled
      rw [hdone] at hcancelled
      cases hcancelled
    · intro hret
      cases hret
  | wake htick => exact h.moveTick htick Iff.rfl Tick.noConfusion
  | advance htick => exact h.moveTick htick Iff.rfl Tick.noConfusion
  | deliver htick hloop =>
    constructor
    · intro hwait
      cases hwait
    · intro result hret
      cases hret
    · intro hret
      cases hret
  | retry hloop hconn =>
    apply h.setLoop
    · intro _ hdone
      exact hok hloop hconn hdone
    · intro result hret
      cases hret
  | answer hloop hconn =>
    apply h.setLoop
    · intro hwait
      cases hwait
    · intro result hret
      cases hret
  | stop hloop =>
    constructor
    · intro hwait
      cases hwait
    · intro result _
      exact ⟨rfl, hok ⟨_, hloop⟩⟩
    · intro _
      rfl
  | cancel =>
    constructor
    · intro hloop _
      exact hok hloop
    · intro result hloop
      exact ⟨rfl, (h.returned result hloop).2⟩
    · intro _
      rfl

/-- The ticker alone does not leave the invariant. -/
theorem Inv.not_doomed (h : Inv s) : ¬ Doomed nodes s := by
  rintro ⟨actions, s', hticker, hrun, hstranded⟩
  have htimely : ∀ (t : System ρ), ∀ a ∈ actions, Timely nodes t a := by
    intro t a ha
    cases a with
    | answer _ => exact (hticker _ ha).elim
    | stop => exact (hticker _ ha).elim
    | cancel => exact (hticker _ ha).elim
    | _ => trivial
  have hend : Inv s' := run_invariant (Retry.step nodes)
    (fun _ _ _ hI hok hstep => hI.step hok hstep) h
    (meets_of_forall_mem (Retry.step nodes) htimely s) hrun
  exact hend.not_stranded hstranded

/-! ## Steps at the wrong points -/

/-- A loop that waits with a cancelled context for a ticker that is not in flight. -/
theorem doomed_of_waiting (hloop : s.loop = .waiting) (hdone : s.cancelled = true)
    (htick : ¬ s.tick.InFlight) : Doomed nodes s := by
  obtain ⟨loop, tick, cancelled⟩ := s
  subst hloop hdone
  cases tick with
  | checking delay => exact ⟨[.check], _, by simp [Action.OfTicker], rfl, Or.inr ⟨rfl, rfl⟩⟩
  | sleeping delay => exact absurd trivial htick
  | sending delay => exact absurd trivial htick
  | ticked delay =>
    exact ⟨[.advance, .check], _, by simp [Action.OfTicker], rfl, Or.inr ⟨rfl, rfl⟩⟩
  | returned => exact ⟨[], _, by simp, rfl, Or.inr ⟨rfl, rfl⟩⟩

/-- A loop that has returned from a ticker in flight. -/
theorem doomed_of_returned {result : QueryResult ρ} (hloop : s.loop = .returned result)
    (htick : s.tick.InFlight) : Doomed nodes s := by
  obtain ⟨loop, tick, cancelled⟩ := s
  subst hloop
  cases tick with
  | sleeping delay =>
    exact ⟨[.wake], _, by simp [Action.OfTicker], rfl, Or.inl ⟨delay, result, rfl, rfl⟩⟩
  | sending delay => exact ⟨[], _, by simp, rfl, Or.inl ⟨delay, result, rfl, rfl⟩⟩
  | checking delay => exact htick.elim
  | ticked delay => exact htick.elim
  | returned => exact htick.elim

theorem doomed_of_not_timely {a : Action ρ} (h : ¬ Timely nodes s a) :
    ∃ s', step nodes s a = some s' ∧ Doomed nodes s' := by
  cases a with
  | cancel =>
    simp only [Timely, Classical.not_imp] at h
    exact ⟨_, rfl, doomed_of_waiting h.1 rfl h.2⟩
  | answer results =>
    simp only [Timely, Classical.not_imp] at h
    obtain ⟨hloop, hconn, hdone, htick⟩ := h
    refine ⟨{ s with loop := .waiting }, ?_, doomed_of_waiting rfl hdone htick⟩
    simp only [step, hloop, afterQuery, hconn, if_true]
  | stop =>
    simp only [Timely, Classical.not_imp, not_not] at h
    obtain ⟨⟨result, hloop⟩, htick⟩ := h
    refine ⟨{ s with loop := .returned result, cancelled := true }, ?_,
      doomed_of_returned rfl htick⟩
    simp only [step, hloop]
  | check => exact absurd trivial h
  | wake => exact absurd trivial h
  | advance => exact absurd trivial h
  | deliver => exact absurd trivial h

end Steps

/-- In every run of the loop and the ticker, with any results of the queries and any
    cancellation: after no step is one of them stranded, nor can the ticker alone get
    there, exactly if every step comes at the right point of the ticker. -/
theorem never_stranded_iff {ρ : Type} (nodes : Bytes) (actions : List (Action ρ)) :
    Meets (step nodes) (fun s a => ∀ s' ∈ step nodes s a, ¬ Doomed nodes s') start actions ↔
      Meets (step nodes) (Timely nodes) start actions := by
  have hiff : ∀ (s : System ρ) (a : Action ρ), Inv s →
      ((∀ s' ∈ step nodes s a, ¬ Doomed nodes s') ↔ Timely nodes s a) := by
    intro s a hI
    constructor
    · intro h
      by_contra hnot
      obtain ⟨s', hs', hdoomed⟩ := doomed_of_not_timely hnot
      exact h s' hs' hdoomed
    · intro h s' hs'
      exact (hI.step h hs').not_doomed
  exact meets_congr (step nodes) hiff
    (fun s a s' hI hok hs' => hI.step ((hiff s a hI).1 hok) hs') actions inv_start

/-- A query that succeeds while the ticker sleeps, and one that is cancelled while it
    waits. -/
theorem stranded_both_ways :
    (∃ s, run (step (lit "[0 1]")) (start : System ℕ)
        [.check, .wake, .deliver, .advance, .check, .answer [some (.ok 7)], .stop, .wake] =
          some s ∧ s.loop = .returned (.ok 7) ∧ s.tick = .sending 200000000 ∧ Stranded s) ∧
      ∃ s, run (step (lit "[0 1]")) (start : System ℕ) [.cancel, .check] = some s ∧
        s.loop = .waiting ∧ s.tick = .returned ∧ Stranded s := by
  refine ⟨⟨_, rfl, rfl, rfl, Or.inl ⟨_, _, rfl, rfl⟩⟩, ⟨_, rfl, rfl, rfl, Or.inr ⟨rfl, rfl⟩⟩⟩

/-! ## Delays -/

/-- The delay of a ticker that has not returned. -/
def Tick.delay? : Tick → Option ℤ
  | .checking delay => some delay
  | .sleeping delay => some delay
  | .sending delay => some delay
  | .ticked delay => some delay
  | .returned => none

/-- In every run the delay is between the base delay and the largest one. -/
theorem delay_bounds {ρ : Type} {nodes : Bytes} {actions : List (Action ρ)} {s : System ρ}
    (hrun : run (step nodes) start actions = some s) :
    ∀ delay ∈ s.tick.delay?, 100000000 ≤ delay ∧ delay ≤ 30000000000 := by
  refine run_preserves (step nodes)
    (I := fun s : System ρ => ∀ delay ∈ s.tick.delay?, 100000000 ≤ delay ∧ delay ≤ 30000000000)
    ?_ ?_ hrun
  · intro s a s' hI hstep
    cases moves_of_step hstep with
    | finish _ _ =>
      intro delay hdelay
      cases hdelay
    | sleep htick _ =>
      rw [htick] at hI
      exact hI
    | wake htick =>
      rw [htick] at hI
      exact hI
    | @advance delay htick =>
      rw [htick] at hI
      have hbounds := hI delay rfl
      intro next hnext
      cases hnext
      simp only [TickerConfig.nextDelay, retryConfig]
      omega
    | deliver htick _ =>
      rw [htick] at hI
      exact hI
    | retry _ _ => exact hI
    | answer _ _ => exact hI
    | stop _ => exact hI
    | cancel => exact hI
  · intro delay hdelay
    cases hdelay
    decide

end MetricStore.Storage.Retry
