import MetricStore.Common.Run
import MetricStore.Auth.UaaClient

/-!
# Concurrent refreshes

`RefreshTokenKeys` (`pkg/auth/uaa_client.go`, lines 144–155) may run in any number of
goroutines: `Read` calls it for a token with an unknown key and starts it for a token
whose signature does not verify. A call loads `lastQueryTime`, compares the clock with
it, reads the clock again and swaps the new time in if `lastQueryTime` is still what it
loaded. It goes on to UAA whether or not the swap succeeded.

The steps of the calls interleave in any order; the clock does not go back.

Results:
* `refreshes_throttled_iff`: every call that contacts UAA has recorded its time, and any
  two such times are an interval apart, exactly in the runs in which each call swaps
  while `lastQueryTime` is what it loaded.
* `two_refreshes_at_once`: two calls that both load the old time.
* `call_alone`, `call_alone_throttled`: a call whose steps are not interleaved is
  `refreshTokenKeys`.
-/

namespace MetricStore.Auth.Refresh

open MetricStore.Common

/-! ## Model -/

/-- Where a call of `RefreshTokenKeys` is, with its local variables. -/
inductive Phase
  | idle
  /-- after line 145 -/
  | loaded (lastQueryTime : ℤ)
  /-- returned at line 153 -/
  | throttled
  /-- past the check of line 147 -/
  | allowed (lastQueryTime : ℤ)
  /-- with the arguments of line 155 evaluated -/
  | swapping (lastQueryTime now : ℤ)
  /-- past line 155, with the time it has recorded -/
  | contacting (recorded : Option ℤ)
  deriving DecidableEq

/-- The shared `lastQueryTime`, the clock, and the calls. -/
structure System (ι : Type) where
  lastQueryTime : ℤ
  clock : ℤ
  phase : ι → Phase

/-- The atomic steps of call `i`; a reading of the clock comes with its value. -/
inductive Action (ι : Type)
  | load (i : ι)
  | check (i : ι) (now : ℤ)
  | readClock (i : ι) (now : ℤ)
  | swap (i : ι)

section Model

variable {ι : Type} [DecidableEq ι] (minimumRefreshInterval : ℤ)

def System.setPhase (s : System ι) (i : ι) (p : Phase) : System ι :=
  { s with phase := Function.update s.phase i p }

/-- One step, where the call can make it. -/
def step (s : System ι) : Action ι → Option (System ι)
  | .load i =>
    match s.phase i with
    | .idle => some (s.setPhase i (.loaded s.lastQueryTime))
    | _ => none
  | .check i now =>
    match s.phase i with
    | .loaded lastQueryTime =>
      if now < s.clock then none
      else if now < lastQueryTime + minimumRefreshInterval then
        some ({ s with clock := now }.setPhase i .throttled)
      else some ({ s with clock := now }.setPhase i (.allowed lastQueryTime))
    | _ => none
  | .readClock i now =>
    match s.phase i with
    | .allowed lastQueryTime =>
      if now < s.clock then none
      else some ({ s with clock := now }.setPhase i (.swapping lastQueryTime now))
    | _ => none
  | .swap i =>
    match s.phase i with
    | .swapping lastQueryTime now =>
      if s.lastQueryTime = lastQueryTime then
        some ({ s with lastQueryTime := now }.setPhase i (.contacting (some now)))
      else some (s.setPhase i (.contacting none))
    | _ => none

/-- A new client: `lastQueryTime` is zero and no call has begun. -/
def start (clock : ℤ) : System ι := ⟨0, clock, fun _ => .idle⟩

end Model

/-! ## Specification -/

section Specification

variable {ι : Type}

/-- Every call that contacts UAA has recorded its time, and no two are less than an
    interval apart. -/
structure Throttles (minimumRefreshInterval : ℤ) (s : System ι) : Prop where
  recorded : ∀ i r, s.phase i = .contacting r → r ≠ none
  apart : ∀ i j t t', i ≠ j → s.phase i = .contacting (some t) →
    s.phase j = .contacting (some t') → minimumRefreshInterval ≤ |t - t'|

/-- A swap is made while `lastQueryTime` is what its call has loaded. -/
def Unraced (s : System ι) : Action ι → Prop
  | .swap i => ∀ lastQueryTime now, s.phase i = .swapping lastQueryTime now →
      s.lastQueryTime = lastQueryTime
  | _ => True

end Specification

/-! ## Steps -/

section Steps

variable {ι : Type} [DecidableEq ι] {minimumRefreshInterval : ℤ} {s s' : System ι}

theorem setPhase_self (s : System ι) (i : ι) (p : Phase) : (s.setPhase i p).phase i = p := by
  simp [System.setPhase]

theorem setPhase_ne (s : System ι) {i j : ι} (h : j ≠ i) (p : Phase) :
    (s.setPhase i p).phase j = s.phase j := by
  simp [System.setPhase, h]

/-- The transitions of the system, one for each way a step can end. -/
inductive Moves (minimumRefreshInterval : ℤ) (s : System ι) : Action ι → System ι → Prop
  | load {i} (h : s.phase i = .idle) :
      Moves minimumRefreshInterval s (.load i) (s.setPhase i (.loaded s.lastQueryTime))
  | refuse {i now l} (h : s.phase i = .loaded l) (hclock : s.clock ≤ now)
      (hnow : now < l + minimumRefreshInterval) :
      Moves minimumRefreshInterval s (.check i now)
        ({ s with clock := now }.setPhase i .throttled)
  | allow {i now l} (h : s.phase i = .loaded l) (hclock : s.clock ≤ now)
      (hnow : l + minimumRefreshInterval ≤ now) :
      Moves minimumRefreshInterval s (.check i now)
        ({ s with clock := now }.setPhase i (.allowed l))
  | readClock {i now l} (h : s.phase i = .allowed l) (hclock : s.clock ≤ now) :
      Moves minimumRefreshInterval s (.readClock i now)
        ({ s with clock := now }.setPhase i (.swapping l now))
  | swap {i now l} (h : s.phase i = .swapping l now) (hsame : s.lastQueryTime = l) :
      Moves minimumRefreshInterval s (.swap i)
        ({ s with lastQueryTime := now }.setPhase i (.contacting (some now)))
  | miss {i now l} (h : s.phase i = .swapping l now) (hother : s.lastQueryTime ≠ l) :
      Moves minimumRefreshInterval s (.swap i) (s.setPhase i (.contacting none))

theorem moves_of_step {a : Action ι} (h : step minimumRefreshInterval s a = some s') :
    Moves minimumRefreshInterval s a s' := by
  cases a with
  | load i =>
    rw [step] at h
    split at h
    · rename_i hp
      cases h
      exact .load hp
    · cases h
  | check i now =>
    rw [step] at h
    split at h
    · rename_i l hp
      split_ifs at h with hclock hnow
      · cases h
        exact .refuse hp (by omega) hnow
      · cases h
        exact .allow hp (by omega) (by omega)
    · cases h
  | readClock i now =>
    rw [step] at h
    split at h
    · rename_i l hp
      split_ifs at h with hclock
      cases h
      exact .readClock hp (by omega)
    · cases h
  | swap i =>
    rw [step] at h
    split at h
    · rename_i l now hp
      split_ifs at h with hsame
      · cases h
        exact .swap hp hsame
      · cases h
        exact .miss hp hsame
    · cases h

/-- A call that contacts UAA takes no further step. -/
theorem contacting_step {a : Action ι} (h : step minimumRefreshInterval s a = some s') {i : ι}
    {r : Option ℤ} (hi : s.phase i = .contacting r) : s'.phase i = .contacting r := by
  have hne : ∀ {j : ι}, (∀ r, s.phase j ≠ .contacting r) → i ≠ j := by
    rintro j hj rfl
    exact hj r hi
  cases moves_of_step h with
  | load hp => rw [setPhase_ne _ (hne (by simp [hp])), hi]
  | refuse hp _ _ => rw [setPhase_ne _ (hne (by simp [hp])), hi]
  | allow hp _ _ => rw [setPhase_ne _ (hne (by simp [hp])), hi]
  | readClock hp _ => rw [setPhase_ne _ (hne (by simp [hp])), hi]
  | swap hp _ => rw [setPhase_ne _ (hne (by simp [hp])), hi]
  | miss hp _ => rw [setPhase_ne _ (hne (by simp [hp])), hi]

theorem contacting_run {i : ι} {r : Option ℤ} {actions : List (Action ι)}
    (hrun : run (step minimumRefreshInterval) s actions = some s')
    (hi : s.phase i = .contacting r) : s'.phase i = .contacting r :=
  run_preserves (I := fun s => s.phase i = .contacting r) _
    (fun _ _ _ h hstep => contacting_step hstep h) hi hrun

/-- After a raced swap the call contacts UAA without having recorded its time. -/
theorem unraced_of_recorded {a : Action ι} (h : step minimumRefreshInterval s a = some s')
    (hrec : ∀ i r, s'.phase i = .contacting r → r ≠ none) : Unraced s a := by
  cases moves_of_step h with
  | load _ => trivial
  | refuse _ _ _ => trivial
  | allow _ _ _ => trivial
  | readClock _ _ => trivial
  | swap hp hsame =>
    intro l now hp'
    rw [hp] at hp'
    cases hp'
    exact hsame
  | miss hp hother => exact absurd rfl (hrec _ none (setPhase_self _ _ _))

theorem meets_unraced_of_recorded : ∀ {actions : List (Action ι)} {s s' : System ι},
    run (step minimumRefreshInterval) s actions = some s' →
    (∀ i r, s'.phase i = .contacting r → r ≠ none) →
    Meets (step minimumRefreshInterval) Unraced s actions := by
  intro actions
  induction actions with
  | nil =>
    intro s s' _ _
    trivial
  | cons a actions ih =>
    intro s s' hrun hrec
    obtain ⟨s₁, hstep, hrest⟩ := (run_cons_eq_some _).1 hrun
    have hrec₁ : ∀ i r, s₁.phase i = .contacting r → r ≠ none :=
      fun i r hi => hrec i r (contacting_run hrest hi)
    refine ⟨unraced_of_recorded hstep hrec₁, fun s₂ hs₂ => ?_⟩
    rw [Option.mem_def, hstep] at hs₂
    cases hs₂
    exact ih hrest hrec

end Steps

/-! ## The invariant of unraced runs -/

section Invariant

variable {ι : Type} {minimumRefreshInterval : ℤ} {s s' : System ι}

/-- What holds of a call: the time it swaps in is an interval after the one it has
    loaded, and a recorded time is not after `lastQueryTime`. -/
def PhaseOk (minimumRefreshInterval : ℤ) (s : System ι) : Phase → Prop
  | .allowed l => l + minimumRefreshInterval ≤ s.clock
  | .swapping l now => l + minimumRefreshInterval ≤ now
  | .contacting r => ∃ t, r = some t ∧ (0 ≤ minimumRefreshInterval → t ≤ s.lastQueryTime)
  | _ => True

/-- The invariant. -/
structure Inv (minimumRefreshInterval : ℤ) (s : System ι) : Prop where
  phaseOk : ∀ i, PhaseOk minimumRefreshInterval s (s.phase i)
  apart : ∀ i j t t', i ≠ j → s.phase i = .contacting (some t) →
    s.phase j = .contacting (some t') → minimumRefreshInterval ≤ |t - t'|

theorem PhaseOk.mono {p : Phase} (h : PhaseOk minimumRefreshInterval s p)
    (hclock : s.clock ≤ s'.clock)
    (hlast : 0 ≤ minimumRefreshInterval → s.lastQueryTime ≤ s'.lastQueryTime) :
    PhaseOk minimumRefreshInterval s' p := by
  cases p with
  | allowed l => exact le_trans h hclock
  | contacting r =>
    obtain ⟨t, ht, hle⟩ := h
    exact ⟨t, ht, fun h0 => le_trans (hle h0) (hlast h0)⟩
  | _ => exact h

theorem inv_start (clock : ℤ) : Inv minimumRefreshInterval (start clock : System ι) where
  phaseOk _ := trivial
  apart _ _ _ _ _ h := by cases h

theorem Inv.throttles (hI : Inv minimumRefreshInterval s) : Throttles minimumRefreshInterval s where
  recorded i r hi := by
    have hok := hI.phaseOk i
    rw [hi] at hok
    obtain ⟨t, rfl, -⟩ := hok
    exact Option.some_ne_none t
  apart := hI.apart

/-- A time an interval after `lastQueryTime` is an interval after every recorded one. -/
theorem Inv.gap (hI : Inv minimumRefreshInterval s) {now : ℤ}
    (hnow : s.lastQueryTime + minimumRefreshInterval ≤ now) {j : ι} {t : ℤ}
    (hj : s.phase j = .contacting (some t)) : minimumRefreshInterval ≤ |now - t| := by
  have hok := hI.phaseOk j
  rw [hj] at hok
  obtain ⟨t', ht', hle⟩ := hok
  cases ht'
  by_cases h0 : 0 ≤ minimumRefreshInterval
  · have := hle h0
    have := le_abs_self (now - t)
    omega
  · have := abs_nonneg (now - t)
    omega

variable [DecidableEq ι]

/-- A step that lets a call move on to a phase in which it does not contact UAA. -/
theorem Inv.setPhase (hI : Inv minimumRefreshInterval s) {clock : ℤ} (hclock : s.clock ≤ clock)
    {i : ι} {p : Phase} (hp : PhaseOk minimumRefreshInterval { s with clock := clock } p)
    (hnot : ∀ r, p ≠ .contacting r) :
    Inv minimumRefreshInterval ({ s with clock := clock }.setPhase i p) := by
  constructor
  · intro j
    by_cases hj : j = i
    · subst hj
      rw [setPhase_self]
      exact hp.mono le_rfl fun _ => le_rfl
    · rw [setPhase_ne _ hj]
      exact (hI.phaseOk j).mono hclock fun _ => le_rfl
  · intro j k t t' hjk hj hk
    have hother : ∀ {j : ι} {t : ℤ},
        ({ s with clock := clock }.setPhase i p).phase j = .contacting (some t) →
          s.phase j = .contacting (some t) := by
      intro j t hj
      by_cases hji : j = i
      · subst hji
        rw [setPhase_self] at hj
        exact absurd hj (hnot _)
      · rw [setPhase_ne _ hji] at hj
        exact hj
    exact hI.apart j k t t' hjk (hother hj) (hother hk)

/-- A swap that succeeds: every time recorded before is an interval earlier. -/
theorem Inv.swap (hI : Inv minimumRefreshInterval s) {i : ι} {now : ℤ}
    (hi : s.phase i = .swapping s.lastQueryTime now) :
    Inv minimumRefreshInterval
      ({ s with lastQueryTime := now }.setPhase i (.contacting (some now))) := by
  have hnow : s.lastQueryTime + minimumRefreshInterval ≤ now := by
    have := hI.phaseOk i
    rw [hi] at this
    exact this
  constructor
  · intro j
    by_cases hj : j = i
    · subst hj
      rw [setPhase_self]
      exact ⟨now, rfl, fun _ => le_rfl⟩
    · rw [setPhase_ne _ hj]
      refine (hI.phaseOk j).mono le_rfl fun h0 => ?_
      show s.lastQueryTime ≤ now
      omega
  · intro j k t t' hjk hj hk
    by_cases hji : j = i
    · subst hji
      rw [setPhase_self] at hj
      rw [setPhase_ne _ hjk.symm] at hk
      cases hj
      exact hI.gap hnow hk
    · rw [setPhase_ne _ hji] at hj
      by_cases hki : k = i
      · subst hki
        rw [setPhase_self] at hk
        cases hk
        rw [abs_sub_comm]
        exact hI.gap hnow hj
      · rw [setPhase_ne _ hki] at hk
        exact hI.apart j k t t' hjk hj hk

theorem Inv.step {a : Action ι} (hI : Inv minimumRefreshInterval s) (hok : Unraced s a)
    (h : step minimumRefreshInterval s a = some s') : Inv minimumRefreshInterval s' := by
  cases moves_of_step h with
  | load hp => exact hI.setPhase le_rfl trivial (by simp)
  | refuse hp hclock hnow => exact hI.setPhase hclock trivial (by simp)
  | allow hp hclock hnow => exact hI.setPhase hclock hnow (by simp)
  | @readClock i now l hp hclock =>
    refine hI.setPhase hclock ?_ (by simp)
    have hallowed := hI.phaseOk i
    rw [hp] at hallowed
    exact le_trans hallowed hclock
  | swap hp hsame =>
    subst hsame
    exact hI.swap hp
  | miss hp hother => exact absurd (hok _ _ hp) hother

end Invariant

/-- Refreshes are throttled in a run exactly if each call swaps while `lastQueryTime` is
    what it has loaded. -/
theorem refreshes_throttled_iff {ι : Type} [DecidableEq ι] (minimumRefreshInterval clock : ℤ)
    (actions : List (Action ι)) (s : System ι)
    (hrun : run (step minimumRefreshInterval) (start clock) actions = some s) :
    Throttles minimumRefreshInterval s ↔
      Meets (step minimumRefreshInterval) Unraced (start clock) actions := by
  constructor
  · intro h
    exact meets_unraced_of_recorded hrun h.recorded
  · intro h
    exact (run_invariant _ (fun _ _ _ hI hok hstep => hI.step hok hstep) (inv_start clock) h
      hrun).throttles

/-- Two calls that both load the time of the client's creation. -/
def raceActions : List (Action Bool) :=
  [.load false, .load true, .check false 1600000000000000000, .check true 1600000000000000000,
    .readClock false 1600000000000000001, .readClock true 1600000000000000002, .swap false,
    .swap true]

/-- The second one contacts UAA at the same moment and records nothing. -/
theorem two_refreshes_at_once :
    ∃ s, run (step 30000000000) (start 0) raceActions = some s ∧
      s.phase false = .contacting (some 1600000000000000001) ∧
      s.phase true = .contacting none ∧ ¬ Throttles 30000000000 s := by
  refine ⟨_, rfl, rfl, rfl, fun h => ?_⟩
  exact h.recorded true none rfl rfl

/-- One call without another beside it. -/
def aloneActions : List (Action Bool) :=
  [.load true, .check true 1600000000000000000, .readClock true 1600000000000000001, .swap true]

theorem refreshes_throttled_alone :
    ∃ s, run (step 30000000000) (start 0) aloneActions = some s ∧ Throttles 30000000000 s := by
  refine ⟨_, rfl, (refreshes_throttled_iff 30000000000 0 aloneActions _ rfl).2 ?_⟩
  refine ⟨trivial, fun s hs => ?_⟩
  cases hs
  refine ⟨trivial, fun s hs => ?_⟩
  cases hs
  refine ⟨trivial, fun s hs => ?_⟩
  cases hs
  refine ⟨fun l now h => ?_, fun _ _ => trivial⟩
  cases h
  rfl

/-! ## A call without others beside it -/

section Alone

variable {κ ι : Type} [DecidableEq ι] (lib : KeyLibrary κ) (uaa : UAAClient κ)
  (input : RefreshInput) {s : System ι} {i : ι}

/-- A call whose steps are not interleaved with others does to `lastQueryTime` what
    `refreshTokenKeys` does. -/
theorem call_alone (hidle : s.phase i = .idle) (hlast : s.lastQueryTime = uaa.lastQueryTime)
    (hclock : s.clock ≤ input.checked) (hrecorded : input.checked ≤ input.recorded)
    (h : ¬ uaa.throttled input.checked) :
    ∃ s', run (step uaa.minimumRefreshInterval) s
        [.load i, .check i input.checked, .readClock i input.recorded, .swap i] = some s' ∧
      s'.phase i = .contacting (some input.recorded) ∧
      s'.lastQueryTime = (uaa.refreshTokenKeys lib input).1.lastQueryTime := by
  rw [UAAClient.throttled, ← hlast] at h
  refine ⟨{ s with clock := input.recorded, lastQueryTime := input.recorded }.setPhase i
    (.contacting (some input.recorded)), ?_, setPhase_self _ _ _, ?_⟩
  · simp [run, step, hidle, System.setPhase, not_lt.2 hclock, h, not_lt.2 hrecorded]
  · rw [UAAClient.refreshTokenKeys, if_neg (by rwa [UAAClient.throttled, ← hlast])]
    rfl

theorem call_alone_throttled (hidle : s.phase i = .idle)
    (hlast : s.lastQueryTime = uaa.lastQueryTime) (hclock : s.clock ≤ input.checked)
    (h : uaa.throttled input.checked) :
    ∃ s', run (step uaa.minimumRefreshInterval) s [.load i, .check i input.checked] = some s' ∧
      s'.phase i = .throttled ∧
      s'.lastQueryTime = (uaa.refreshTokenKeys lib input).1.lastQueryTime := by
  refine ⟨{ s with clock := input.checked }.setPhase i .throttled, ?_, setPhase_self _ _ _, ?_⟩
  · rw [UAAClient.throttled, ← hlast] at h
    simp [run, step, hidle, System.setPhase, not_lt.2 hclock, h]
  · rw [UAAClient.refreshTokenKeys, if_pos h]
    exact hlast

end Alone

end MetricStore.Auth.Refresh
