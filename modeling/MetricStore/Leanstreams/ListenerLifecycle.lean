import MetricStore.Common.Run

/-!
# Listening and shutting down

The life of a `TCPListener` (`pkg/leanstreams/tcplistener.go`): the accept loop (`blockListen`,
lines 102–141), the read loops of its connections (lines 245–289, as far as they count), `Close`
(lines 205–217), and `reopenSocket` (lines 172–201), which `RestartListeningAsync` calls. Each of
them is a goroutine of its own. They share the wait group `shutdownGroup`, with `groupMu` around
`Add` and around `Wait`, the number `connectionCount`, with `countMu`, and `blockMu`, which the
accept loop and `reopenSocket` hold from beginning to end.

A step is a statement that others can see: a call of `Accept`, `Add`, `Done`, or `Wait`, a change
of `connectionCount`, the closing of the channel or of the socket, and the taking of `groupMu`
before `Wait`. Goroutines in the same position are counted, so that any number of calls of `Close`
is possible. A call of `Close` on a closed channel panics; the step does not exist.

Results:
* `open_connections_exact_iff`: `connectionCount` is never more than the number of read loops. It
  is that number all the time exactly in the runs in which no `Close` sets it to zero while there
  is a counted read loop; the reset of `reopenSocket` never does that. When the `Wait` of a `Close`
  has returned, there is no read loop; and the counter of the wait group never goes below zero.
* `close_finishes`: the `Wait` of a `Close` cannot be held up by the accept loop.
* `late_connection_miscounts`: a connection that is counted between the `Wait` and the reset of a
  `Close` leaves a count of minus one.
-/

namespace MetricStore.Leanstreams

open MetricStore.Common

/-! ## Model -/

/-- Where the accept loop is: not running, in `Accept`, before `Add`, or before the change of
    `connectionCount`. -/
inductive Accepting
  | stopped
  | accepting
  | accepted
  | added
  deriving DecidableEq, Repr

/-- Where `reopenSocket` is: not running, before taking `groupMu`, in `Wait`, before its reset of
    `connectionCount`, or before opening the socket. -/
inductive Reopening
  | absent
  | locked
  | waiting
  | waited
  | reset
  deriving DecidableEq, Repr

/-- A `TCPListener` and its goroutines. -/
structure Lifecycle where
  accept : Accepting
  reopen : Reopening
  /-- Calls of `Close` before `socket.Close`, before taking `groupMu`, and before the reset. -/
  closing : ℕ
  unlocked : ℕ
  resetting : ℕ
  /-- A call of `Close` is in `Wait`. -/
  waiting : Bool
  /-- `shutdownChannel` is closed. -/
  shutdown : Bool
  listening : Bool
  shutdownGroup : ℕ
  connectionCount : ℤ
  /-- The read loops that have been counted and have not seen an error, and those before
      `Done`. -/
  reading : ℕ
  leaving : ℕ
  deriving DecidableEq, Repr

/-- The steps of the accept loop, of the read loops, of `Close` and of `reopenSocket`. -/
inductive LifecycleAct
  | listen
  | accept
  | acceptError
  | add
  | count
  | readError
  | done
  | close
  | closeSocket
  | lockGroup
  | wait
  | reset
  | reopen
  | reopenLockGroup
  | reopenWait
  | reopenReset
  | reopenSocket (ok : Bool)
  deriving DecidableEq, Repr

namespace Lifecycle

/-- `ListenTCP` (lines 69–98). -/
def opened : Lifecycle where
  accept := .stopped
  reopen := .absent
  closing := 0
  unlocked := 0
  resetting := 0
  waiting := false
  shutdown := false
  listening := true
  shutdownGroup := 0
  connectionCount := 0
  reading := 0
  leaving := 0

/-- `blockMu` and `groupMu` are free. -/
def blockMuFree (s : Lifecycle) : Prop := s.accept = .stopped ∧ s.reopen = .absent

def groupMuFree (s : Lifecycle) : Prop := s.waiting = false ∧ s.reopen ≠ .waiting

instance (s : Lifecycle) : Decidable s.blockMuFree :=
  inferInstanceAs (Decidable (_ ∧ _))

instance (s : Lifecycle) : Decidable s.groupMuFree :=
  inferInstanceAs (Decidable (_ ∧ _))

/-- The goroutine of the step is at it, and is not blocked. -/
def Enabled (s : Lifecycle) : LifecycleAct → Prop
  | .listen => s.blockMuFree
  | .accept => s.accept = .accepting ∧ s.listening = true
  | .acceptError => s.accept = .accepting
  | .add => s.accept = .accepted ∧ s.groupMuFree
  | .count => s.accept = .added
  | .readError => 0 < s.reading
  | .done => 0 < s.leaving ∧ 0 < s.shutdownGroup
  | .close => s.shutdown = false
  | .closeSocket => 0 < s.closing
  | .lockGroup => 0 < s.unlocked ∧ s.groupMuFree
  | .wait => s.waiting = true ∧ s.shutdownGroup = 0
  | .reset => 0 < s.resetting
  | .reopen => s.blockMuFree
  | .reopenLockGroup => s.reopen = .locked ∧ s.groupMuFree
  | .reopenWait => s.reopen = .waiting ∧ s.shutdownGroup = 0
  | .reopenReset => s.reopen = .waited
  | .reopenSocket _ => s.reopen = .reset

instance (s : Lifecycle) : DecidablePred s.Enabled
  | .listen | .reopen => inferInstanceAs (Decidable s.blockMuFree)
  | .accept => inferInstanceAs (Decidable (s.accept = .accepting ∧ s.listening = true))
  | .acceptError => inferInstanceAs (Decidable (s.accept = .accepting))
  | .add => inferInstanceAs (Decidable (s.accept = .accepted ∧ s.groupMuFree))
  | .count => inferInstanceAs (Decidable (s.accept = .added))
  | .readError => inferInstanceAs (Decidable (0 < s.reading))
  | .done => inferInstanceAs (Decidable (0 < s.leaving ∧ 0 < s.shutdownGroup))
  | .close => inferInstanceAs (Decidable (s.shutdown = false))
  | .closeSocket => inferInstanceAs (Decidable (0 < s.closing))
  | .lockGroup => inferInstanceAs (Decidable (0 < s.unlocked ∧ s.groupMuFree))
  | .wait => inferInstanceAs (Decidable (s.waiting = true ∧ s.shutdownGroup = 0))
  | .reset => inferInstanceAs (Decidable (0 < s.resetting))
  | .reopenLockGroup => inferInstanceAs (Decidable (s.reopen = .locked ∧ s.groupMuFree))
  | .reopenWait => inferInstanceAs (Decidable (s.reopen = .waiting ∧ s.shutdownGroup = 0))
  | .reopenReset => inferInstanceAs (Decidable (s.reopen = .waited))
  | .reopenSocket _ => inferInstanceAs (Decidable (s.reopen = .reset))

/-- What the step does. -/
def perform (s : Lifecycle) : LifecycleAct → Lifecycle
  | .listen => { s with accept := .accepting }
  | .accept => { s with accept := .accepted }
  | .acceptError => { s with accept := if s.shutdown then .stopped else .accepting }
  | .add => { s with accept := .added, shutdownGroup := s.shutdownGroup + 1 }
  | .count => { s with
      accept := .accepting
      connectionCount := s.connectionCount + 1
      reading := s.reading + 1 }
  | .readError => { s with
      connectionCount := s.connectionCount - 1
      reading := s.reading - 1
      leaving := s.leaving + 1 }
  | .done => { s with leaving := s.leaving - 1, shutdownGroup := s.shutdownGroup - 1 }
  | .close => { s with shutdown := true, closing := s.closing + 1 }
  | .closeSocket => { s with
      listening := false
      closing := s.closing - 1
      unlocked := s.unlocked + 1 }
  | .lockGroup => { s with unlocked := s.unlocked - 1, waiting := true }
  | .wait => { s with waiting := false, resetting := s.resetting + 1 }
  | .reset => { s with connectionCount := 0, resetting := s.resetting - 1 }
  | .reopen => { s with reopen := .locked }
  | .reopenLockGroup => { s with reopen := .waiting }
  | .reopenWait => { s with reopen := .waited }
  | .reopenReset => { s with reopen := .reset, connectionCount := 0 }
  | .reopenSocket ok =>
    if ok then { s with reopen := .absent, listening := true, shutdown := false }
    else { s with reopen := .absent }

def step (s : Lifecycle) (a : LifecycleAct) : Option Lifecycle :=
  if s.Enabled a then some (s.perform a) else none

theorem step_eq_some {s s' : Lifecycle} {a : LifecycleAct} :
    s.step a = some s' ↔ s.Enabled a ∧ s' = s.perform a := by
  unfold step
  split_ifs with h
  · simp [h, eq_comm]
  · simp [h]

/-! ## The invariant -/

/-- The read loops that the wait group knows of and that have not been counted. -/
def uncounted (s : Lifecycle) : ℕ := if s.accept = .added then 1 else 0

/-- The wait group counts the read loops and the one that is about to start. While `reopenSocket`
    runs there is no accept loop, and once it has waited there is nothing to wait for. -/
structure Inv (s : Lifecycle) : Prop where
  group : s.shutdownGroup = s.reading + s.leaving + s.uncounted
  reopening : s.reopen ≠ .absent → s.accept = .stopped
  reopened : s.reopen = .waited ∨ s.reopen = .reset → s.shutdownGroup = 0
  restarted : s.reopen = .reset → s.connectionCount = 0
  count_le : s.connectionCount ≤ s.reading

theorem opened_inv : opened.Inv := ⟨rfl, fun h => absurd rfl h, nofun, nofun, le_rfl⟩

/-- A step of the accept loop, which is running. -/
theorem Inv.absent {s : Lifecycle} (h : s.Inv) (hrunning : s.accept ≠ .stopped) :
    s.reopen = .absent := by
  by_contra hne
  exact hrunning (h.reopening hne)

theorem uncounted_of_ne {s : Lifecycle} (h : s.accept ≠ .added) : s.uncounted = 0 := if_neg h

theorem uncounted_of_eq {s : Lifecycle} (h : s.accept = .added) : s.uncounted = 1 := if_pos h

/-- A step that leaves the read loops and `reopenSocket`, and the accept loop on its side of
    `Add`. -/
theorem Inv.frame {s s' : Lifecycle} (h : s.Inv) (hreopen : s'.reopen = s.reopen)
    (haccept : s'.accept = s.accept ∨ s.reopen = .absent ∧ s.accept ≠ .added ∧ s'.accept ≠ .added)
    (hgroup : s'.shutdownGroup = s.shutdownGroup) (hreading : s'.reading = s.reading)
    (hleaving : s'.leaving = s.leaving)
    (hcount : s'.connectionCount = s.connectionCount ∨ s'.connectionCount = 0) : s'.Inv := by
  refine ⟨?_, fun hne => ?_, fun hwaited => ?_, fun hreset => ?_, ?_⟩
  · have huncounted : s'.uncounted = s.uncounted := by
      rcases haccept with heq | ⟨-, hne, hne'⟩
      · unfold uncounted
        rw [heq]
      · rw [uncounted_of_ne hne, uncounted_of_ne hne']
    rw [hgroup, hreading, hleaving, huncounted]
    exact h.group
  · rw [hreopen] at hne
    rcases haccept with heq | ⟨habsent, -, -⟩
    · rw [heq]
      exact h.reopening hne
    · exact absurd habsent hne
  · rw [hreopen] at hwaited
    rw [hgroup]
    exact h.reopened hwaited
  · rw [hreopen] at hreset
    rcases hcount with hsame | hzero
    · rw [hsame]
      exact h.restarted hreset
    · exact hzero
  · have hle := h.count_le
    omega

/-- A step of `reopenSocket`. -/
theorem Inv.reopens {s : Lifecycle} (h : s.Inv) {reopen : Reopening} {listening shutdown : Bool}
    {count : ℤ} (hstopped : s.accept = .stopped) (hcount : count ≤ s.reading)
    (hwaited : reopen = .waited ∨ reopen = .reset → s.shutdownGroup = 0)
    (hreset : reopen = .reset → count = 0) :
    Inv { s with
      reopen := reopen
      listening := listening
      shutdown := shutdown
      connectionCount := count } :=
  ⟨h.group, fun _ => hstopped, hwaited, hreset, hcount⟩

theorem step_inv {s s' : Lifecycle} {a : LifecycleAct} (h : s.Inv) (hstep : s.step a = some s') :
    s'.Inv := by
  obtain ⟨henabled, rfl⟩ := step_eq_some.mp hstep
  have hgroup := h.group
  have hcount := h.count_le
  cases a with
  | listen =>
    obtain ⟨hstopped, habsent⟩ := henabled
    exact h.frame rfl (.inr ⟨habsent, by simp [hstopped], nofun⟩) rfl rfl rfl (.inl rfl)
  | accept =>
    have hne : s.accept ≠ .stopped := by simp [henabled.1]
    exact h.frame rfl (.inr ⟨h.absent hne, by simp [henabled.1], nofun⟩) rfl rfl rfl (.inl rfl)
  | acceptError =>
    have haccepting : s.accept = .accepting := henabled
    have hne : s.accept ≠ .stopped := by simp [haccepting]
    refine h.frame rfl (.inr ⟨h.absent hne, by simp [haccepting], ?_⟩) rfl rfl rfl (.inl rfl)
    show (if s.shutdown then Accepting.stopped else .accepting) ≠ .added
    split_ifs <;> simp
  | add =>
    have hne : s.accept ≠ .stopped := by simp [henabled.1]
    have huncounted : s.uncounted = 0 := uncounted_of_ne (by simp [henabled.1])
    have habsent := h.absent hne
    refine ⟨?_, fun hreopen => absurd habsent hreopen, fun hwaited => ?_, h.restarted, hcount⟩
    · show s.shutdownGroup + 1 = s.reading + s.leaving + 1
      omega
    · have hwaited : s.reopen = .waited ∨ s.reopen = .reset := hwaited
      simp [habsent] at hwaited
  | count =>
    have hadded : s.accept = .added := henabled
    have huncounted := uncounted_of_eq hadded
    have habsent := h.absent (by simp [hadded])
    refine ⟨?_, fun hreopen => absurd habsent hreopen, h.reopened, fun hreset => ?_, ?_⟩
    · show s.shutdownGroup = s.reading + 1 + s.leaving + 0
      omega
    · exact absurd (habsent.symm.trans hreset) nofun
    · show s.connectionCount + 1 ≤ ((s.reading + 1 : ℕ) : ℤ)
      omega
  | readError =>
    have hreading : 0 < s.reading := henabled
    refine ⟨?_, h.reopening, h.reopened, fun hreset => ?_, ?_⟩
    · show s.shutdownGroup = s.reading - 1 + (s.leaving + 1) + s.uncounted
      omega
    · have hzero := h.reopened (.inr hreset)
      omega
    · show s.connectionCount - 1 ≤ ((s.reading - 1 : ℕ) : ℤ)
      omega
  | done =>
    obtain ⟨hleaving, hpositive⟩ := henabled
    refine ⟨?_, h.reopening, fun hwaited => ?_, h.restarted, hcount⟩
    · show s.shutdownGroup - 1 = s.reading + (s.leaving - 1) + s.uncounted
      omega
    · show s.shutdownGroup - 1 = 0
      rw [h.reopened hwaited]
  | close => exact h.frame rfl (.inl rfl) rfl rfl rfl (.inl rfl)
  | closeSocket => exact h.frame rfl (.inl rfl) rfl rfl rfl (.inl rfl)
  | lockGroup => exact h.frame rfl (.inl rfl) rfl rfl rfl (.inl rfl)
  | wait => exact h.frame rfl (.inl rfl) rfl rfl rfl (.inl rfl)
  | reset => exact h.frame rfl (.inl rfl) rfl rfl rfl (.inr rfl)
  | reopen => exact h.reopens henabled.1 hcount nofun nofun
  | reopenLockGroup => exact h.reopens (h.reopening (by simp [henabled.1])) hcount nofun nofun
  | reopenWait =>
    exact h.reopens (h.reopening (by simp [henabled.1])) hcount (fun _ => henabled.2) nofun
  | reopenReset =>
    have hwaited : s.reopen = .waited := henabled
    exact h.reopens (h.reopening (by simp [hwaited])) (Int.natCast_nonneg _)
      (fun _ => h.reopened (.inl hwaited)) fun _ => rfl
  | reopenSocket ok =>
    have hreset : s.reopen = .reset := henabled
    have hstopped := h.reopening (by simp [hreset])
    cases ok with
    | false => exact h.reopens hstopped hcount nofun nofun
    | true => exact h.reopens hstopped hcount nofun nofun

theorem run_inv {s : Lifecycle} {acts : List LifecycleAct} (hrun : run step opened acts = some s) :
    s.Inv :=
  run_preserves step (fun _ _ _ => step_inv) opened_inv hrun

/-! ## The number of connections -/

/-- The count is the number of read loops. -/
def Exact (s : Lifecycle) : Prop := s.connectionCount = s.reading

/-- No read loop is forgotten by the step. -/
def Remembers (s : Lifecycle) (a : LifecycleAct) : Prop := a = .reset → s.reading = 0

instance (s : Lifecycle) (a : LifecycleAct) : Decidable (s.Remembers a) :=
  inferInstanceAs (Decidable (a = .reset → s.reading = 0))

/-- The count stays exact unless a `Close` resets it too late. -/
theorem step_exact {s s' : Lifecycle} {a : LifecycleAct} (h : s.Inv) (hexact : s.Exact)
    (hstep : s.step a = some s') : s'.Exact ↔ s.Remembers a := by
  obtain ⟨henabled, rfl⟩ := step_eq_some.mp hstep
  unfold Exact at hexact
  unfold Exact Remembers
  cases a with
  | reset =>
    show (0 : ℤ) = s.reading ↔ _
    simp only [forall_const]
    omega
  | count =>
    show s.connectionCount + 1 = ((s.reading + 1 : ℕ) : ℤ) ↔ _
    simp only [reduceCtorEq, false_implies, iff_true]
    omega
  | readError =>
    have hreading : 0 < s.reading := henabled
    show s.connectionCount - 1 = ((s.reading - 1 : ℕ) : ℤ) ↔ _
    simp only [reduceCtorEq, false_implies, iff_true]
    omega
  | reopenReset =>
    -- no read loop is left after the wait
    have hgroup := h.group
    have hzero := h.reopened (.inl henabled)
    show (0 : ℤ) = s.reading ↔ _
    simp only [reduceCtorEq, false_implies, iff_true]
    omega
  | reopenSocket ok =>
    simp only [reduceCtorEq, false_implies, iff_true]
    cases ok <;> exact hexact
  | listen | accept | acceptError | add | done | close | closeSocket | lockGroup | wait | reopen
  | reopenLockGroup | reopenWait =>
    simp only [reduceCtorEq, false_implies, iff_true]
    exact hexact

end Lifecycle

open Lifecycle in
/-- **The number of open connections.** In every run: `connectionCount` is at most the number of
    read loops, and it is that number after the reset of `reopenSocket`. When a call of `Close`
    has waited, no read loop is left. `Done` never makes the counter of the wait group
    negative. And `connectionCount` is the number of read loops all the time exactly if no `Close`
    sets it to zero while there is a counted read loop, one that was accepted before the socket was
    closed and that was added to the group after the wait. -/
theorem open_connections_exact_iff {acts : List LifecycleAct} {s : Lifecycle}
    (hrun : run step opened acts = some s) :
    s.connectionCount ≤ s.reading ∧
    (s.reopen = .reset → s.connectionCount = s.reading) ∧
    (s.Enabled .wait → s.reading = 0 ∧ s.leaving = 0) ∧
    (0 < s.leaving → s.Enabled .done) ∧
    ((∀ k t, run step opened (acts.take k) = some t → t.connectionCount = t.reading) ↔
      Meets step Remembers opened acts) := by
  have h := run_inv hrun
  have hgroup := h.group
  refine ⟨h.count_le, ?_, ?_, ?_, ?_⟩
  · intro hreset
    have hzero := h.reopened (.inr hreset)
    rw [h.restarted hreset]
    omega
  · rintro ⟨-, hzero⟩
    omega
  · intro hleaving
    exact ⟨hleaving, by omega⟩
  · exact forall_take_iff_meets step (I := Inv) (P := Exact)
      (fun s a s' hi hexact hstep => ⟨step_inv hi hstep, step_exact hi hexact hstep⟩)
      opened_inv rfl hrun

/-- A connection is served and ends, and the listener is closed. -/
def servedRun : List LifecycleAct :=
  [.listen, .accept, .add, .count, .readError, .done, .close, .closeSocket, .acceptError,
    .lockGroup, .wait, .reset]

theorem open_connections_exact_iff_servedRun :
    ∃ s, run Lifecycle.step .opened servedRun = some s ∧ s.resetting = 0 ∧
      s.connectionCount ≤ s.reading ∧
      ∀ k t, run Lifecycle.step .opened (servedRun.take k) = some t →
        t.connectionCount = t.reading := by
  obtain ⟨s, hs⟩ : ∃ s, run Lifecycle.step .opened servedRun = some s := ⟨_, rfl⟩
  obtain ⟨hle, -, -, -, hiff⟩ := open_connections_exact_iff hs
  refine ⟨s, hs, ?_, hle, hiff.mpr ?_⟩
  · cases hs
    rfl
  · decide

/-- **A connection that is counted too late.** `Close` has waited when the accept loop adds a
    connection and counts it. The reset forgets it, and when its read loop has ended, the count
    is minus one. -/
theorem late_connection_miscounts :
    ∃ s, run Lifecycle.step .opened [.listen, .accept, .close, .closeSocket, .lockGroup, .wait,
        .add, .count, .reset, .readError, .done, .acceptError] = some s ∧
      s.accept = .stopped ∧ s.reading = 0 ∧ s.shutdownGroup = 0 ∧ s.connectionCount = -1 :=
  ⟨_, rfl, rfl, rfl, rfl, rfl⟩

/-! ## The wait ends -/

namespace Lifecycle

/-- What the goroutines in the wait group have still to do. -/
def work (s : Lifecycle) : ℕ := 3 * s.uncounted + 2 * s.reading + s.leaving

/-- While a `Close` waits, one of the goroutines in the group can take a step. -/
theorem exists_step_of_waiting {s : Lifecycle} (h : s.Inv) (hwaiting : s.waiting = true)
    (hgroup : s.shutdownGroup ≠ 0) :
    ∃ a s', (a = .count ∨ a = .readError ∨ a = .done) ∧ s.step a = some s' ∧
      s'.work < s.work ∧ s'.waiting = true := by
  have hsum := h.group
  by_cases hadded : s.accept = .added
  · have huncounted := uncounted_of_eq hadded
    refine ⟨.count, _, .inl rfl, step_eq_some.mpr ⟨hadded, rfl⟩, ?_, hwaiting⟩
    show 3 * 0 + 2 * (s.reading + 1) + s.leaving < s.work
    unfold work
    omega
  have huncounted := uncounted_of_ne hadded
  by_cases hreading : 0 < s.reading
  · refine ⟨.readError, _, .inr (.inl rfl), step_eq_some.mpr ⟨hreading, rfl⟩, ?_, hwaiting⟩
    show 3 * s.uncounted + 2 * (s.reading - 1) + (s.leaving + 1) < s.work
    unfold work
    omega
  · have hdone : s.Enabled .done := ⟨by omega, by omega⟩
    refine ⟨.done, _, .inr (.inr rfl), step_eq_some.mpr ⟨hdone, rfl⟩, ?_, hwaiting⟩
    show 3 * s.uncounted + 2 * s.reading + (s.leaving - 1) < s.work
    unfold work
    omega

theorem exists_run_of_waiting {s : Lifecycle} (h : s.Inv) (hwaiting : s.waiting = true) :
    ∃ acts s', (∀ a ∈ acts, a = .count ∨ a = .readError ∨ a = .done) ∧
      run step s (acts ++ [.wait]) = some s' := by
  induction hwork : s.work using Nat.strong_induction_on generalizing s with
  | h work ih =>
    by_cases hgroup : s.shutdownGroup = 0
    · refine ⟨[], s.perform .wait, by simp, ?_⟩
      exact (run_cons_eq_some step).mpr ⟨_, step_eq_some.mpr ⟨⟨hwaiting, hgroup⟩, rfl⟩, rfl⟩
    · obtain ⟨a, s₁, ha, hstep, hless, hwaiting₁⟩ := exists_step_of_waiting h hwaiting hgroup
      obtain ⟨acts, s', hacts, hrun⟩ :=
        ih _ (hwork ▸ hless) (step_inv h hstep) hwaiting₁ rfl
      exact ⟨a :: acts, s', List.forall_mem_cons.mpr ⟨ha, hacts⟩,
        (run_cons_eq_some step).mpr ⟨s₁, hstep, hrun⟩⟩

end Lifecycle

end MetricStore.Leanstreams
