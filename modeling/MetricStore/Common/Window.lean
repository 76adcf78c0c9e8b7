import Mathlib.Data.Set.Card
import Mathlib.Order.WellFoundedSet

/-!
# Retention windows

A set of things with keys in a linear order, from which the lowest keys are removed: all up to
a cutoff (`expire`), or all with the lowest key (`prune`).

Results:
* `mem_run_iff`: what is left of something after writes and expiries.
* `mem_prune_iterate_iff`: what is left after a number of prunes.
-/

namespace MetricStore.Common.Window

variable {α κ : Type*} [LinearOrder κ] (key : α → κ)

inductive Act (α κ : Type*)
  | write (new : Set α)
  | expire (cutoff : κ)
  | prune

def expire (cutoff : κ) (w : Set α) : Set α := {x ∈ w | cutoff < key x}

/-- What has the lowest key is removed. -/
def prune (w : Set α) : Set α := {x ∈ w | ∃ y ∈ w, key y < key x}

def apply (w : Set α) : Act α κ → Set α
  | .write new => w ∪ new
  | .expire cutoff => expire key cutoff w
  | .prune => prune key w

def runActs (acts : List (Act α κ)) (w : Set α) : Set α := acts.foldl (apply key) w

theorem runActs_append (acts acts' : List (Act α κ)) (w : Set α) :
    runActs key (acts ++ acts') w = runActs key acts' (runActs key acts w) :=
  List.foldl_append

/-! ## Expiry -/

/-- **What is left after expiries.** Without prunes, and if it is not written again, something
    stays as long as its key is above every cutoff. -/
theorem mem_run_iff {x : α} {acts : List (Act α κ)} (hprune : .prune ∉ acts)
    (hwrite : ∀ new, .write new ∈ acts → x ∉ new) {w : Set α} (hx : x ∈ w) :
    x ∈ runActs key acts w ↔ ∀ cutoff, .expire cutoff ∈ acts → cutoff < key x := by
  -- once it is gone, it stays away
  have hgone : ∀ (acts : List (Act α κ)) (w : Set α), .prune ∉ acts →
      (∀ new, .write new ∈ acts → x ∉ new) → x ∉ w → x ∉ runActs key acts w := by
    intro acts
    induction acts with
    | nil => exact fun w _ _ hw => hw
    | cons a acts ih =>
      intro w hprune hwrite hw
      apply ih
      · exact fun hmem => hprune (List.mem_cons_of_mem _ hmem)
      · exact fun new hmem => hwrite new (List.mem_cons_of_mem _ hmem)
      · cases a with
        | write new =>
          rintro (hmem | hmem)
          · exact hw hmem
          · exact hwrite new List.mem_cons_self hmem
        | expire cutoff => exact fun hmem => hw hmem.1
        | prune => exact fun hmem => hw hmem.1
  induction acts generalizing w with
  | nil => exact ⟨fun _ _ hmem => (List.not_mem_nil hmem).elim, fun _ => hx⟩
  | cons a acts ih =>
    have hprune' : .prune ∉ acts := fun hmem => hprune (List.mem_cons_of_mem _ hmem)
    have hwrite' : ∀ new, .write new ∈ acts → x ∉ new :=
      fun new hmem => hwrite new (List.mem_cons_of_mem _ hmem)
    show x ∈ runActs key acts (apply key w a) ↔ _
    cases a with
    | write new =>
      have hstays : x ∈ apply key w (.write new) := Or.inl hx
      refine (ih hprune' hwrite' hstays).trans ?_
      simp
    | expire cutoff =>
      by_cases hcutoff : cutoff < key x
      · have hstays : x ∈ apply key w (.expire cutoff) := ⟨hx, hcutoff⟩
        refine (ih hprune' hwrite' hstays).trans ?_
        constructor
        · intro hall cutoff' hmem
          rcases List.mem_cons.mp hmem with heq | hmem
          · cases heq
            exact hcutoff
          · exact hall cutoff' hmem
        · exact fun hall cutoff' hmem => hall cutoff' (List.mem_cons_of_mem _ hmem)
      · constructor
        · intro hmem
          have hnot : x ∉ apply key w (.expire cutoff) := fun h => hcutoff h.2
          exact absurd hmem (hgone acts _ hprune' hwrite' hnot)
        · exact fun hall => absurd (hall cutoff List.mem_cons_self) hcutoff
    | prune => exact absurd List.mem_cons_self hprune

/-! ## Prunes -/

/-- The keys below that of `x`. -/
def below (w : Set α) (x : α) : Set κ := key '' w ∩ Set.Iio (key x)

theorem mem_prune_iff {w : Set α} {x : α} : x ∈ prune key w ↔ x ∈ w ∧ (below key w x).Nonempty := by
  constructor
  · rintro ⟨hx, y, hy, hlt⟩
    exact ⟨hx, key y, ⟨y, hy, rfl⟩, hlt⟩
  · rintro ⟨hx, -, ⟨y, hy, rfl⟩, hlt⟩
    exact ⟨hx, y, hy, hlt⟩

/-- A prune takes away one key, which is below all that are left. -/
theorem below_prune {w : Set α} (hfinite : (key '' w).Finite) {x : α} (hx : x ∈ prune key w) :
    (below key w x).ncard = (below key (prune key w) x).ncard + 1 := by
  obtain ⟨-, y, hy, hlt⟩ := hx
  obtain ⟨lowest, ⟨z, hz, rfl⟩, hlowest⟩ := hfinite.exists_minimal ⟨key y, y, hy, rfl⟩
  have hle : ∀ v ∈ w, key z ≤ key v := by
    intro v hv
    rcases le_total (key z) (key v) with hzv | hvz
    · exact hzv
    · exact hlowest ⟨v, hv, rfl⟩ hvz
  have hinsert : below key w x = insert (key z) (below key (prune key w) x) := by
    ext k
    constructor
    · rintro ⟨⟨v, hv, rfl⟩, hvx⟩
      rcases (hle v hv).eq_or_lt with heq | hzv
      · exact Or.inl heq.symm
      · exact Or.inr ⟨⟨v, ⟨hv, z, hz, hzv⟩, rfl⟩, hvx⟩
    · rintro (rfl | ⟨⟨v, hv, rfl⟩, hvx⟩)
      · exact ⟨⟨z, hz, rfl⟩, (hle y hy).trans_lt hlt⟩
      · exact ⟨⟨v, hv.1, rfl⟩, hvx⟩
  have hnot : key z ∉ below key (prune key w) x := by
    rintro ⟨⟨v, ⟨-, u, hu, huv⟩, hv⟩, -⟩
    rw [hv] at huv
    exact absurd (hle u hu) huv.not_ge
  have hsub : below key (prune key w) x ⊆ key '' w := by
    rintro k ⟨⟨v, hv, rfl⟩, -⟩
    exact ⟨v, hv.1, rfl⟩
  rw [hinsert, Set.ncard_insert_of_notMem hnot (hfinite.subset hsub)]

/-- **What is left after `n` prunes**: what has at least `n` keys below it. -/
theorem mem_prune_iterate_iff {w : Set α} (hfinite : (key '' w).Finite) (n : ℕ) (x : α) :
    x ∈ (prune key)^[n] w ↔ x ∈ w ∧ n ≤ (below key w x).ncard := by
  induction n generalizing w with
  | zero => simp
  | succ n ih =>
    have hsub : key '' prune key w ⊆ key '' w := by
      rintro k ⟨v, hv, rfl⟩
      exact ⟨v, hv.1, rfl⟩
    rw [Function.iterate_succ_apply, ih (hfinite.subset hsub)]
    by_cases hx : x ∈ prune key w
    · rw [below_prune key hfinite hx]
      simp [hx, hx.1]
    · have hempty : x ∈ w → (below key w x).ncard = 0 := by
        intro hw
        rw [mem_prune_iff] at hx
        have hnot : ¬ (below key w x).Nonempty := fun hne => hx ⟨hw, hne⟩
        rw [Set.not_nonempty_iff_eq_empty.mp hnot, Set.ncard_empty]
      constructor
      · exact fun h => absurd h.1 hx
      · rintro ⟨hw, hle⟩
        have hzero := hempty hw
        omega

end MetricStore.Common.Window
