import MetricStore.Common.Slice
import MetricStore.Persistence.Querier

/-!
# What `Select` writes

`Select` (`pkg/persistence/querier.go`, lines 30–68) is `select` of `Querier` as far as its
result goes. This file models its writes: the end of the query is assigned to the caller's
parameters, and the matcher of the metric name is removed with
`append(labelMatchers[:index], labelMatchers[index+1:]...)`, which moves the matchers after
it within the caller's array.

Results:
* `selectOn_fst`: on shared arrays `Select` returns what `select` says.
* `select_undisturbed_iff`: exactly when the caller's slice and parameters are left as they were, so
  that the same call gives the same result once more.
* `select_disturbs_caller`: a call that takes the name of the metric from its caller.
-/

namespace MetricStore.Persistence

open MetricStore.Common

/-- What a caller of `Select` shares with it: arrays of pointers to matchers, and the
    parameters, none for a nil pointer. -/
structure Caller where
  arrays : Arrays ℕ
  params : Option SelectParams

section Select

variable (grow : ℕ → ℕ) (deref : ℕ → Matcher)

/-- The loop over the matchers (lines 47–57) up to the first one for the metric name: its
    index and the matcher. -/
def findName : List ℕ → ℕ → Option (ℕ × Matcher)
  | [], _ => none
  | ptr :: rest, index =>
    if (deref ptr).name = metricName then some (index, deref ptr) else findName rest (index + 1)

/-- `Select` at the time `now`, up to the call of `GetPoints` (lines 30–62), and what it
    leaves to its caller. -/
def selectOn (now : Int64) (c : Caller) (labelMatchers : Window) :
    Except Bytes PointsQuery × Caller :=
  let params := c.params.getD ⟨0, now / 1000000⟩
  if params.stop ≠ 0 ∧ params.stop < params.start then
    (.error (lit "Start (" ++ formatInt params.start.toInt ++ lit ") must be before End (" ++
      formatInt params.stop.toInt ++ lit ")"), c)
  else
    let stop := if params.stop = 0 then now / 1000000 else params.stop
    -- the assignment (line 43) is one to the struct that the caller has, if it has one
    let c := { c with params := c.params.map fun p => ⟨p.start, stop⟩ }
    match findName deref (c.arrays.view labelMatchers) 0 with
    | none =>
      (.ok ⟨[], millisecondsToNanoseconds params.start, millisecondsToNanoseconds stop - 1,
        (c.arrays.view labelMatchers).map deref⟩, c)
    | some (index, m) =>
      if m.type ≠ matchEqual then
        (.error (lit "only strict equality is supported for metric names"), c)
      else
        let (rest, arrays) := c.arrays.appendAll grow (labelMatchers.takeTo index)
          (labelMatchers.dropTo (index + 1))
        (.ok ⟨m.value, millisecondsToNanoseconds params.start, millisecondsToNanoseconds stop - 1,
          (arrays.view rest).map deref⟩, ⟨arrays, c.params⟩)

end Select

variable {grow : ℕ → ℕ} {deref : ℕ → Matcher}

/-! ## The matcher of the metric name -/

/-- `ptr` is the first pointer of the list to a matcher of the metric name. -/
structure FirstName (deref : ℕ → Matcher) (ptrs front : List ℕ) (ptr : ℕ) (back : List ℕ) :
    Prop where
  split : ptrs = front ++ ptr :: back
  name : (deref ptr).name = metricName
  first : ∀ p ∈ front, (deref p).name ≠ metricName

theorem findName_eq_none_iff {ptrs : List ℕ} {k : ℕ} :
    findName deref ptrs k = none ↔ ∀ p ∈ ptrs, (deref p).name ≠ metricName := by
  induction ptrs generalizing k with
  | nil => simp [findName]
  | cons p ptrs ih =>
    unfold findName
    split_ifs with hname
    · simp [hname]
    · simp [hname, ih]

theorem findName_of_firstName {ptrs front back : List ℕ} {ptr k : ℕ}
    (h : FirstName deref ptrs front ptr back) :
    findName deref ptrs k = some (k + front.length, deref ptr) := by
  obtain ⟨rfl, hname, hfirst⟩ := h
  induction front generalizing k with
  | nil => simp [findName, hname]
  | cons p front ih =>
    obtain ⟨hp, hfront⟩ := List.forall_mem_cons.mp hfirst
    rw [List.cons_append, findName, if_neg hp, ih hfront, List.length_cons]
    congr 2
    omega

theorem exists_firstName (deref : ℕ → Matcher) (ptrs : List ℕ) :
    (∀ p ∈ ptrs, (deref p).name ≠ metricName) ∨
      ∃ front ptr back, FirstName deref ptrs front ptr back := by
  induction ptrs with
  | nil => exact .inl fun p hp => absurd hp List.not_mem_nil
  | cons p ptrs ih =>
    by_cases hname : (deref p).name = metricName
    · exact .inr ⟨[], p, ptrs, rfl, hname, fun q hq => absurd hq List.not_mem_nil⟩
    · rcases ih with hnone | ⟨front, ptr, back, hsplit, hptr, hfirst⟩
      · exact .inl (List.forall_mem_cons.mpr ⟨hname, hnone⟩)
      · exact .inr ⟨p :: front, ptr, back, by rw [hsplit]; rfl, hptr,
          List.forall_mem_cons.mpr ⟨hname, hfirst⟩⟩

theorem takeName_of_none {ptrs : List ℕ} (h : ∀ p ∈ ptrs, (deref p).name ≠ metricName) :
    takeName (ptrs.map deref) = .ok ([], ptrs.map deref) := by
  induction ptrs with
  | nil => rfl
  | cons p ptrs ih =>
    obtain ⟨hp, hptrs⟩ := List.forall_mem_cons.mp h
    rw [List.map_cons, takeName, if_neg hp, ih hptrs]

theorem takeName_of_firstName {ptrs front back : List ℕ} {ptr : ℕ}
    (h : FirstName deref ptrs front ptr back) :
    takeName (ptrs.map deref) =
      if (deref ptr).type ≠ matchEqual then
        .error (lit "only strict equality is supported for metric names")
      else .ok ((deref ptr).value, (front ++ back).map deref) := by
  obtain ⟨rfl, hname, hfirst⟩ := h
  induction front with
  | nil => simp only [List.nil_append, List.map_cons, takeName, hname, if_true]
  | cons p front ih =>
    obtain ⟨hp, hfront⟩ := List.forall_mem_cons.mp hfirst
    rw [List.cons_append, List.map_cons, takeName, if_neg hp, ih hfront]
    split_ifs
    · rfl
    · rfl

/-! ## Results and writes -/

variable {c : Caller} {w : Window} {now : Int64}

/-- **On shared arrays** `Select` returns what it returns on lists. -/
theorem selectOn_fst (h : c.arrays.Holds w) :
    (selectOn grow deref now c w).1 = select now c.params ((c.arrays.view w).map deref) := by
  unfold selectOn select
  dsimp only
  set params := c.params.getD ⟨0, now / 1000000⟩
  by_cases horder : params.stop ≠ 0 ∧ params.stop < params.start
  · rw [if_pos horder, if_pos horder]
  · rw [if_neg horder, if_neg horder]
    rcases exists_firstName deref (c.arrays.view w) with hnone | ⟨front, ptr, back, hname⟩
    · rw [findName_eq_none_iff.mpr hnone, takeName_of_none hnone]
    · rw [findName_of_firstName hname, takeName_of_firstName hname, Nat.zero_add]
      dsimp only
      by_cases htype : (deref ptr).type ≠ matchEqual
      · rw [if_pos htype, if_pos htype]
      · rw [if_neg htype, if_neg htype, Arrays.view_remove grow h hname.split]

/-! ## Undisturbed callers -/

/-- The elements of the caller's slice and the caller's parameters are the same after every
    call, and the call gives the same result once more, at any time; without parameters it
    does so at the same time, since the query then ends at the time of the call. -/
structure LeavesCaller (grow : ℕ → ℕ) (deref : ℕ → Matcher) (c : Caller) (w : Window) : Prop where
  matchers : ∀ now, (selectOn grow deref now c w).2.arrays.view w = c.arrays.view w
  params : ∀ now, (selectOn grow deref now c w).2.params = c.params
  again : ∀ now now', (c.params = none → now' = now) →
    (selectOn grow deref now' (selectOn grow deref now c w).2 w).1 = (selectOn grow deref now c w).1

/-- The query has an end. It is rejected for its times or for the kind of matcher of the metric
    name, or there is no such matcher, or all pointers from that matcher on are the same. -/
structure HarmlessQuery (deref : ℕ → Matcher) (c : Caller) (w : Window) : Prop where
  stop : ∀ p, c.params = some p → p.stop ≠ 0
  matchers : (∃ p, c.params = some p ∧ p.stop < p.start) ∨
    ∀ front ptr back, FirstName deref (c.arrays.view w) front ptr back →
      (deref ptr).type ≠ matchEqual ∨ (ptr :: back).Pairwise (· = ·)

/-- Moving the elements one cell to the front changes nothing if they are all the same. -/
theorem append_getLast_eq_iff {α : Type*} (x : α) (l : List α) :
    l ++ [(x :: l).getLast (List.cons_ne_nil x l)] = x :: l ↔ (x :: l).Pairwise (· = ·) := by
  induction l generalizing x with
  | nil => simp
  | cons y l ih =>
    rw [List.getLast_cons (List.cons_ne_nil y l), List.cons_append, List.cons.injEq, ih,
      List.pairwise_cons (a := x)]
    constructor
    · rintro ⟨rfl, hall⟩
      refine ⟨fun z hz => ?_, hall⟩
      rcases List.mem_cons.mp hz with rfl | hz
      · rfl
      · exact (List.pairwise_cons.mp hall).1 z hz
    · rintro ⟨hx, hall⟩
      exact ⟨(hx y List.mem_cons_self).symm, hall⟩

/-- The times of a query are in the wrong order. -/
def Rejected (c : Caller) (now : Int64) : Prop :=
  let params := c.params.getD ⟨0, now / 1000000⟩
  params.stop ≠ 0 ∧ params.stop < params.start

theorem selectOn_of_rejected (h : Rejected c now) : (selectOn grow deref now c w).2 = c := by
  unfold selectOn
  exact congrArg Prod.snd (if_pos h)

theorem not_rejected (h : ¬ ∃ p, c.params = some p ∧ p.stop < p.start) : ¬ Rejected c 0 := by
  rintro ⟨hne, hlt⟩
  cases hparams : c.params with
  | none => rw [hparams] at hne; exact hne rfl
  | some p => rw [hparams] at hlt; exact h ⟨p, hparams, hlt⟩

/-- **The writes of a query** that is not rejected for its times. -/
theorem selectOn_writes (grow : ℕ → ℕ) (deref : ℕ → Matcher) (w : Window) (h : ¬ Rejected c now) :
    (selectOn grow deref now c w).2.params =
      (c.params.map fun p => ⟨p.start, if p.stop = 0 then now / 1000000 else p.stop⟩) ∧
    ((∀ p ∈ c.arrays.view w, (deref p).name ≠ metricName) →
      (selectOn grow deref now c w).2.arrays = c.arrays) ∧
    ∀ front ptr back, FirstName deref (c.arrays.view w) front ptr back →
      (selectOn grow deref now c w).2.arrays =
        if (deref ptr).type ≠ matchEqual then c.arrays
        else (c.arrays.appendAll grow (w.takeTo front.length) (w.dropTo (front.length + 1))).2 := by
  have hstop : (c.params.map fun p => (⟨p.start,
        if (c.params.getD ⟨0, now / 1000000⟩).stop = 0 then now / 1000000
        else (c.params.getD ⟨0, now / 1000000⟩).stop⟩ : SelectParams)) =
      c.params.map fun p => ⟨p.start, if p.stop = 0 then now / 1000000 else p.stop⟩ := by
    cases c.params with
    | none => rfl
    | some p => rfl
  have horder : ¬ ((c.params.getD ⟨0, now / 1000000⟩).stop ≠ 0 ∧
      (c.params.getD ⟨0, now / 1000000⟩).stop < (c.params.getD ⟨0, now / 1000000⟩).start) := h
  unfold selectOn
  dsimp only
  rw [if_neg horder, hstop]
  refine ⟨?_, fun hnone => ?_, fun front ptr back hname => ?_⟩
  · split
    · rfl
    · next index m hfound =>
      by_cases htype : m.type ≠ matchEqual
      · rw [if_pos htype]
      · rw [if_neg htype]
  · rw [findName_eq_none_iff.mpr hnone]
  · rw [findName_of_firstName hname, Nat.zero_add]
    dsimp only
    by_cases htype : (deref ptr).type ≠ matchEqual
    · rw [if_pos htype, if_pos htype]
    · rw [if_neg htype, if_neg htype]

/-- A query with an end does not depend on the time of the call. -/
theorem select_of_stop {p : SelectParams} (hstop : p.stop ≠ 0) (now now' : Int64)
    (matchers : List Matcher) : select now (some p) matchers = select now' (some p) matchers := by
  unfold select
  simp only [Option.getD_some, if_neg hstop]

theorem HarmlessQuery.selectOn_snd (h : HarmlessQuery deref c w) (hw : c.arrays.Holds w)
    (grow : ℕ → ℕ) (now : Int64) :
    (selectOn grow deref now c w).2 = c := by
  by_cases hrej : Rejected c now
  · exact selectOn_of_rejected hrej
  obtain ⟨hparams, hnone, hfirst⟩ := selectOn_writes grow deref w hrej
  have hsame : (selectOn grow deref now c w).2.params = c.params := by
    rw [hparams]
    cases hp : c.params with
    | none => rfl
    | some p => rw [Option.map_some, if_neg (h.stop p hp)]
  have harrays : (selectOn grow deref now c w).2.arrays = c.arrays := by
    rcases h.matchers with ⟨p, hp, hlt⟩ | hmatchers
    · refine absurd ?_ hrej
      unfold Rejected
      rw [hp]
      exact ⟨h.stop p hp, hlt⟩
    · rcases exists_firstName deref (c.arrays.view w) with hno | ⟨front, ptr, back, hname⟩
      · exact hnone hno
      · rw [hfirst front ptr back hname]
        split_ifs with htype
        · rfl
        · have hall := (hmatchers front ptr back hname).resolve_left htype
          -- the cells that are written hold these pointers already
          rw [Arrays.appendAll_remove grow hw hname.split, List.append_assoc front,
            (append_getLast_eq_iff ptr back).mpr hall, ← hname.split, ← Arrays.cells_eq,
            Function.update_eq_self]
  calc (selectOn grow deref now c w).2
      = ⟨(selectOn grow deref now c w).2.arrays, (selectOn grow deref now c w).2.params⟩ := rfl
    _ = c := by rw [harrays, hsame]

/-- **What `Select` leaves to its caller.** -/
theorem select_undisturbed_iff (hw : c.arrays.Holds w) :
    LeavesCaller grow deref c w ↔ HarmlessQuery deref c w := by
  constructor
  · intro h
    constructor
    · intro p hp hzero
      have hrej : ¬ Rejected c 1000000 := by
        unfold Rejected
        rw [hp]
        exact fun hne => hne.1 hzero
      have hparams := h.params 1000000
      rw [(selectOn_writes grow deref w hrej).1, hp, Option.map_some, if_pos hzero,
        Option.some.injEq] at hparams
      -- the end of the query is now that of the first call
      have hone : (1000000 : Int64) / 1000000 = p.stop := congrArg SelectParams.stop hparams
      rw [hzero] at hone
      exact absurd hone (by decide)
    · by_cases hwrong : ∃ p, c.params = some p ∧ p.stop < p.start
      · exact .inl hwrong
      · refine .inr fun front ptr back hname => ?_
        by_cases htype : (deref ptr).type ≠ matchEqual
        · exact .inl htype
        · have hwrites := (selectOn_writes grow deref w (not_rejected hwrong)).2.2 front ptr back hname
          have hview := h.matchers 0
          rw [hwrites, if_neg htype, Arrays.view_remove_self grow hw hname.split, hname.split,
            List.append_assoc, List.append_cancel_left_eq] at hview
          exact .inr ((append_getLast_eq_iff ptr back).mp hview)
  · intro h
    have hsame := h.selectOn_snd hw grow
    refine ⟨fun now => by rw [hsame], fun now => by rw [hsame], fun now now' hnow => ?_⟩
    rw [hsame, selectOn_fst hw, selectOn_fst hw]
    cases hp : c.params with
    | none => rw [hnow hp]
    | some p => exact select_of_stop (h.stop p hp) now' now _

/-! ## Two calls -/

/-- Two matchers: one for the metric name, and one for another label. -/
def twoMatchers (ptr : ℕ) : Matcher :=
  if ptr = 0 then ⟨matchEqual, metricName, lit "up"⟩ else ⟨matchEqual, lit "job", lit "a"⟩

/-- A caller whose slice is a whole array of the pointers. -/
def callerOf (ptrs : List ℕ) (params : SelectParams) : Caller := ⟨⟨fun _ => ptrs, 1⟩, some params⟩

/-- The name of the metric comes last. -/
theorem select_undisturbed_iff_nameLast :
    (callerOf [1, 0] ⟨0, 1000⟩).arrays.Holds ⟨0, 0, 2, 2⟩ ∧
      LeavesCaller (fun n => n) twoMatchers (callerOf [1, 0] ⟨0, 1000⟩) ⟨0, 0, 2, 2⟩ := by
  have hw : (callerOf [1, 0] ⟨0, 1000⟩).arrays.Holds ⟨0, 0, 2, 2⟩ := ⟨by decide, by decide⟩
  refine ⟨hw, (select_undisturbed_iff hw).mpr ⟨fun p hp => ?_, .inr fun front ptr back hname => ?_⟩⟩
  · cases hp
    decide
  · obtain ⟨hsplit, hptr, -⟩ := hname
    have hview : (callerOf [1, 0] ⟨0, 1000⟩).arrays.view ⟨0, 0, 2, 2⟩ = [1, 0] := rfl
    rw [hview] at hsplit
    cases front with
    | nil =>
      cases hsplit
      exact absurd hptr (by decide)
    | cons p front =>
      cases front with
      | nil =>
        cases hsplit
        exact .inr (List.pairwise_singleton _ _)
      | cons p' front => simp at hsplit

/-- The name of the metric comes first: the second call does not have it any more. A query
    without an end has one after the call. -/
theorem select_disturbs_caller :
    let first := selectOn (fun n => n) twoMatchers 0 (callerOf [0, 1] ⟨0, 1000⟩) ⟨0, 0, 2, 2⟩
    let second := selectOn (fun n => n) twoMatchers 0 first.2 ⟨0, 0, 2, 2⟩
    let endless := selectOn (fun n => n) twoMatchers 5000000 (callerOf [1] ⟨0, 0⟩) ⟨0, 0, 1, 1⟩
    first.2.arrays.view ⟨0, 0, 2, 2⟩ = [1, 1] ∧
      first.1 = .ok ⟨lit "up", 0, 999999999, [twoMatchers 1]⟩ ∧
      second.1 = .ok ⟨[], 0, 999999999, [twoMatchers 1, twoMatchers 1]⟩ ∧
      endless.2.params.map SelectParams.stop = some 5 :=
  ⟨rfl, rfl, rfl, rfl⟩

end MetricStore.Persistence
