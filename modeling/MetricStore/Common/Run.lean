import Mathlib

/-!
# Runs of a transition function

A component is a partial function `step : σ → α → Option σ` on states and
calls; `none` means that the call does not return. A run is a list of calls.

* `run`: the state after a list of calls; `run_append_eq_some`: of two lists.
* `Meets`: a condition on the call and the state before it holds at every step
  of a run.
* `run_invariant`: what every admissible step preserves holds after every
  admissible run. Every prefix of a run is a run, so this is a statement about
  every state on the way.
* `run_preserves`: the same for steps without a condition.
* `run_total`: if moreover every call returns, every run does.
* `meets_congr`: conditions that agree under an invariant are met by the same runs.
* `forall_prefix_iff_meets`: a property that admissible calls keep and any other call breaks
  holds all along exactly the admissible runs.
* `forall_take_iff_meets`: the same for a run that is known to return.
* `foldl_collects`: what a loop over a list collects.
-/

namespace MetricStore.Common

section Runs

variable {σ α : Type*} (step : σ → α → Option σ)

/-- The state after the calls `l`, made one after the other from `s`. -/
def run : σ → List α → Option σ
  | s, [] => some s
  | s, a :: l => (step s a).bind fun s' => run s' l

/-- Every call of the run `l` from `s` meets `ok` in the state it is made in. -/
def Meets (ok : σ → α → Prop) : σ → List α → Prop
  | _, [] => True
  | s, a :: l => ok s a ∧ ∀ s' ∈ step s a, Meets ok s' l

instance decidableMeets {ok : σ → α → Prop} [∀ s a, Decidable (ok s a)] :
    ∀ (s : σ) (l : List α), Decidable (Meets step ok s l)
  | _, [] => inferInstanceAs (Decidable True)
  | s, a :: l =>
    have : ∀ s', Decidable (Meets step ok s' l) := fun s' => decidableMeets s' l
    inferInstanceAs (Decidable (ok s a ∧ ∀ s' ∈ step s a, Meets step ok s' l))

theorem run_cons_eq_some {s t : σ} {a : α} {l : List α} :
    run step s (a :: l) = some t ↔ ∃ s', step s a = some s' ∧ run step s' l = some t := by
  simp [run, Option.bind_eq_some_iff]

/-- A run of two parts. -/
theorem run_append_eq_some {s t : σ} {l l' : List α} :
    run step s (l ++ l') = some t ↔ ∃ m, run step s l = some m ∧ run step m l' = some t := by
  induction l generalizing s with
  | nil => simp [run]
  | cons a l ih =>
    rw [List.cons_append, run_cons_eq_some]
    constructor
    · rintro ⟨s', hs', hrun⟩
      obtain ⟨m, hm, hrest⟩ := ih.mp hrun
      exact ⟨m, (run_cons_eq_some step).mpr ⟨s', hs', hm⟩, hrest⟩
    · rintro ⟨m, hm, hrest⟩
      obtain ⟨s', hs', hrun⟩ := (run_cons_eq_some step).mp hm
      exact ⟨s', hs', ih.mpr ⟨m, hrun, hrest⟩⟩

/-- The induction over a run, once for all systems. -/
theorem run_invariant {I : σ → Prop} {ok : σ → α → Prop}
    (hstep : ∀ s a s', I s → ok s a → step s a = some s' → I s') :
    ∀ {l : List α} {s t : σ}, I s → Meets step ok s l → run step s l = some t → I t := by
  intro l
  induction l with
  | nil =>
    intro s t hI _ hrun
    cases hrun
    exact hI
  | cons a l ih =>
    intro s t hI hok hrun
    obtain ⟨s', hs', hrun⟩ := (run_cons_eq_some step).mp hrun
    exact ih (hstep s a s' hI hok.1 hs') (hok.2 s' hs') hrun

/-- Two conditions that agree in every state of the invariant, and the first of which keeps
    the invariant, are met by the same runs. -/
theorem meets_congr {I : σ → Prop} {ok ok' : σ → α → Prop}
    (hiff : ∀ s a, I s → (ok s a ↔ ok' s a))
    (hstep : ∀ s a s', I s → ok s a → step s a = some s' → I s') :
    ∀ (l : List α) {s : σ}, I s → (Meets step ok s l ↔ Meets step ok' s l) := by
  intro l
  induction l with
  | nil =>
    intro s _
    exact Iff.rfl
  | cons a l ih =>
    intro s hI
    have ha := hiff s a hI
    constructor
    · rintro ⟨hok, hrest⟩
      exact ⟨ha.1 hok, fun s' hs' => (ih (hstep s a s' hI hok hs')).1 (hrest s' hs')⟩
    · rintro ⟨hok', hrest⟩
      have hok := ha.2 hok'
      exact ⟨hok, fun s' hs' => (ih (hstep s a s' hI hok hs')).2 (hrest s' hs')⟩

/-- The runs all of whose calls return and in which `P` holds in every state are those whose
    calls all meet `ok`, if these calls return and keep an invariant that has `P`, and any
    other call leads to a state without `P`. -/
theorem forall_prefix_iff_meets {I P : σ → Prop} {ok : σ → α → Prop} (hP : ∀ s, I s → P s)
    (hstep : ∀ s a, I s → ok s a → ∃ s', step s a = some s' ∧ I s')
    (hbreak : ∀ s a s', I s → ¬ ok s a → step s a = some s' → ¬ P s') :
    ∀ (l : List α) {s : σ}, I s →
      ((∀ k, ∃ t, run step s (l.take k) = some t ∧ P t) ↔ Meets step ok s l) := by
  intro l
  induction l with
  | nil =>
    intro s hI
    refine ⟨fun _ => trivial, fun _ k => ⟨s, ?_, hP s hI⟩⟩
    rw [List.take_nil]
    rfl
  | cons a l ih =>
    intro s hI
    constructor
    · intro hall
      obtain ⟨s₁, hrun₁, hP₁⟩ := hall 1
      obtain ⟨s₂, hs₂, hend⟩ := (run_cons_eq_some step).1 hrun₁
      cases hend
      have hok : ok s a := by
        by_contra hno
        exact hbreak s a s₁ hI hno hs₂ hP₁
      obtain ⟨s', hs', hI'⟩ := hstep s a hI hok
      refine ⟨hok, fun t ht => ?_⟩
      cases hs'.symm.trans ht
      refine (ih hI').1 fun k => ?_
      obtain ⟨t, hrun, hPt⟩ := hall (k + 1)
      obtain ⟨s₃, hs₃, hrun⟩ := (run_cons_eq_some step).1 hrun
      cases hs'.symm.trans hs₃
      exact ⟨t, hrun, hPt⟩
    · rintro ⟨hok, hrest⟩ k
      obtain ⟨s', hs', hI'⟩ := hstep s a hI hok
      cases k with
      | zero => exact ⟨s, rfl, hP s hI⟩
      | succ k =>
        obtain ⟨t, hrun, hPt⟩ := (ih hI').2 (hrest s' hs') k
        exact ⟨t, (run_cons_eq_some step).2 ⟨s', hs', hrun⟩, hPt⟩

/-- In a run that returns, `P` holds in every state exactly when every call meets `ok`, if under
    an invariant a call from a state with `P` leads to a state with `P` exactly when it
    meets `ok`. -/
theorem forall_take_iff_meets {I P : σ → Prop} {ok : σ → α → Prop}
    (hstep : ∀ s a s', I s → P s → step s a = some s' → I s' ∧ (P s' ↔ ok s a)) :
    ∀ {l : List α} {s t : σ}, I s → P s → run step s l = some t →
      ((∀ k u, run step s (l.take k) = some u → P u) ↔ Meets step ok s l) := by
  intro l
  induction l with
  | nil =>
    intro s t _ hP _
    refine ⟨fun _ => trivial, fun _ k u hu => ?_⟩
    rw [List.take_nil] at hu
    cases hu
    exact hP
  | cons a l ih =>
    intro s t hI hP hrun
    obtain ⟨s', hs', hrun⟩ := (run_cons_eq_some step).mp hrun
    obtain ⟨hI', hiff⟩ := hstep s a s' hI hP hs'
    constructor
    · intro hall
      have hP' : P s' := hall 1 s' ((run_cons_eq_some step).mpr ⟨s', hs', rfl⟩)
      refine ⟨hiff.mp hP', fun u hu => ?_⟩
      cases hs'.symm.trans hu
      refine (ih hI' hP' hrun).mp fun k u hu => hall (k + 1) u ?_
      exact (run_cons_eq_some step).mpr ⟨s', hs', hu⟩
    · rintro ⟨hok, hrest⟩ k u hu
      have hP' : P s' := hiff.mpr hok
      cases k with
      | zero =>
        cases hu
        exact hP
      | succ k =>
        obtain ⟨s₁, hs₁, hu⟩ := (run_cons_eq_some step).mp hu
        cases hs'.symm.trans hs₁
        exact (ih hI' hP' hrun).mpr (hrest s' hs') k u hu

/-- A system whose calls return in every state that satisfies the invariant. -/
theorem run_total {I : σ → Prop} (hstep : ∀ s a, I s → ∃ s', step s a = some s' ∧ I s')
    (l : List α) {s : σ} (hI : I s) : ∃ t, run step s l = some t ∧ I t := by
  induction l generalizing s with
  | nil => exact ⟨s, rfl, hI⟩
  | cons a l ih =>
    obtain ⟨s', hs', hI'⟩ := hstep s a hI
    obtain ⟨t, ht, hIt⟩ := ih hI'
    exact ⟨t, (run_cons_eq_some step).mpr ⟨s', hs', ht⟩, hIt⟩

/-- A condition that every call of the list meets in every state. -/
theorem meets_of_forall_mem {ok : σ → α → Prop} {l : List α} (h : ∀ s, ∀ a ∈ l, ok s a) (s : σ) :
    Meets step ok s l := by
  induction l generalizing s with
  | nil => trivial
  | cons a l ih =>
    exact ⟨h s a List.mem_cons_self,
      fun s' _ => ih (fun s b hb => h s b (List.mem_cons_of_mem a hb)) s'⟩

/-- A condition that holds in every state and for every call is met by every
    run. -/
theorem meets_of_forall {ok : σ → α → Prop} (h : ∀ s a, ok s a) (s : σ) (l : List α) :
    Meets step ok s l :=
  meets_of_forall_mem step (fun s a _ => h s a) s

/-- What every step preserves holds after every run. -/
theorem run_preserves {I : σ → Prop} (hstep : ∀ s a s', I s → step s a = some s' → I s')
    {l : List α} {s t : σ} (hI : I s) (hrun : run step s l = some t) : I t :=
  run_invariant step (fun s a s' h _ => hstep s a s' h) hI
    (meets_of_forall step (fun _ _ => trivial) s l) hrun

end Runs

/-- A loop that collects: if each iteration keeps `I` and adds to `out` what `P` says of
    its element, the loop adds what `P` says of any element. -/
theorem foldl_collects {α β γ : Type*} {f : α → β → α} (out : α → List γ) (I : α → Prop)
    {P : β → γ → Prop}
    (hstep : ∀ a b, I a → I (f a b) ∧ ∀ c, c ∈ out (f a b) ↔ c ∈ out a ∨ P b c)
    (l : List β) {a : α} (hI : I a) :
    I (l.foldl f a) ∧ ∀ c, c ∈ out (l.foldl f a) ↔ c ∈ out a ∨ ∃ b ∈ l, P b c := by
  induction l generalizing a with
  | nil => simp [hI]
  | cons b l ih =>
    obtain ⟨hI', hout⟩ := hstep a b hI
    obtain ⟨hfold, hmem⟩ := ih hI'
    refine ⟨hfold, fun c => ?_⟩
    rw [List.foldl_cons, hmem, hout]
    simp only [List.mem_cons, exists_eq_or_imp, or_assoc]

end MetricStore.Common
