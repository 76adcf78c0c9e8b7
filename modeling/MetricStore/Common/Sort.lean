import Mathlib

/-!
# Sorting and searching

The two functions of Go's package `sort` that work on any slice.

`sort.Sort` permutes a slice so that no element is less than one before it. It is not stable:
where neither of two elements is less than the other their order is not determined. A
`Sorting` is any function with this behaviour. `sort.Search` is a binary search.

* `Sorting.sort_eq_sort`: slices with the same elements are sorted to the same slice, if of
  two elements one has to come first.
* `search_eq_findIdx`: `sort.Search` finds the first element with a property that no later
  element loses.
-/

namespace MetricStore.Common

/-! ## `sort.Sort` -/

/-- `sort.Sort` for the given `Less`. -/
structure Sorting {α : Type*} (less : α → α → Prop) where
  sort : List α → List α
  perm : ∀ l, (sort l).Perm l
  sorted : ∀ l, (sort l).Pairwise fun a b => ¬ less b a

namespace Sorting

variable {α : Type*} {less : α → α → Prop}

/-- A sorting by the integers that `key` gives. -/
def byKey (key : α → ℤ) : Sorting fun a b => key a < key b where
  sort l := l.insertionSort fun a b => key a ≤ key b
  perm l := List.perm_insertionSort _ l
  sorted l := by
    have : Std.Total fun a b : α => key a ≤ key b := ⟨fun a b => Int.le_total (key a) (key b)⟩
    have : IsTrans α fun a b => key a ≤ key b := ⟨fun _ _ _ => Int.le_trans⟩
    exact (List.pairwise_insertionSort (fun a b : α => key a ≤ key b) l).imp Int.not_lt.mpr

/-- An insertion sort, for a `Less` that orders the elements up to those that are neither less
    nor greater. -/
def insertion [DecidableRel less] (hasymm : ∀ a b, less a b → ¬ less b a)
    (htrans : ∀ a b c, ¬ less b a → ¬ less c b → ¬ less c a) : Sorting less where
  sort l := l.insertionSort fun a b => ¬ less b a
  perm l := List.perm_insertionSort _ l
  sorted l := by
    have : Std.Total fun a b : α => ¬ less b a :=
      ⟨fun a b => (Classical.em (less b a)).elim (fun h => Or.inr (hasymm b a h)) Or.inl⟩
    have : IsTrans α fun a b => ¬ less b a := ⟨htrans⟩
    exact List.pairwise_insertionSort (fun a b : α => ¬ less b a) l

/-- A relation that `Less` decides for the elements of the slice, whatever their order. -/
theorem pairwise_sort (s : Sorting less) {R S : α → α → Prop} {l : List α}
    (hsymm : ∀ {a b}, S a b → S b a) (hpair : l.Pairwise S)
    (hless : ∀ a b, S a b → ¬ less b a → R a b) : (s.sort l).Pairwise R := by
  have hpair' := ((s.perm l).pairwise_iff hsymm).mpr hpair
  exact (hpair'.and (s.sorted l)).imp fun h => hless _ _ h.1 h.2

/-- The result does not depend on the order of the elements, nor on the sorting. -/
theorem sort_eq_sort (s s' : Sorting less) {R S : α → α → Prop} {l l' : List α}
    (hsymm : ∀ {a b}, S a b → S b a) (hpair : l.Pairwise S)
    (hless : ∀ a b, S a b → ¬ less b a → R a b) (hasymm : ∀ a b, R a b → ¬ R b a)
    (hperm : l'.Perm l) : s'.sort l' = s.sort l := by
  have hpair' := (hperm.pairwise_iff hsymm).mpr hpair
  refine List.Perm.eq_of_pairwise (fun a b _ _ hab hba => absurd hba (hasymm a b hab))
    (s'.pairwise_sort hsymm hpair' hless) (s.pairwise_sort hsymm hpair hless) ?_
  exact (s'.perm l').trans (hperm.trans (s.perm l).symm)

end Sorting

/-! ## `sort.Search` -/

/-- The loop of `sort.Search` between `i` and `j`, with enough fuel for `j - i` rounds. -/
def searchLoop (f : ℕ → Bool) : ℕ → ℕ → ℕ → ℕ
  | 0, i, _ => i
  | fuel + 1, i, j =>
    if i < j then
      let h := (i + j) / 2
      if f h then searchLoop f fuel i h else searchLoop f fuel (h + 1) j
    else i

/-- `sort.Search`. -/
def search (n : ℕ) (f : ℕ → Bool) : ℕ := searchLoop f n 0 n

/-- `f` is false before `i` and true from `j` to `n`. -/
structure Between (f : ℕ → Bool) (n i j : ℕ) : Prop where
  le : i ≤ j
  bound : j ≤ n
  before : ∀ k, k < i → f k = false
  after : ∀ k, j ≤ k → k < n → f k = true

variable {f : ℕ → Bool} {n : ℕ}

theorem searchLoop_between (hmono : ∀ i j, i ≤ j → j < n → f i = true → f j = true) {fuel i j : ℕ}
    (hfuel : j - i ≤ fuel) (h : Between f n i j) :
    Between f n (searchLoop f fuel i j) (searchLoop f fuel i j) := by
  induction fuel generalizing i j with
  | zero =>
    have heq : j = i := by
      have := h.le
      omega
    subst heq
    exact h
  | succ fuel ih =>
    have hle := h.le
    have hbound := h.bound
    unfold searchLoop
    dsimp only
    split_ifs with hlt hf
    · refine ih (by omega) ⟨by omega, by omega, h.before, fun k hk hkn => ?_⟩
      exact hmono _ k hk hkn hf
    · refine ih (by omega) ⟨by omega, hbound, fun k hk => ?_, h.after⟩
      -- if `f k` were true then so would be `f` in the middle
      by_contra hk'
      exact hf (hmono k _ (by omega) (by omega) (by simpa using hk'))
    · have heq : j = i := by omega
      subst heq
      exact h

/-- The smallest index with a true value, or `n`. -/
theorem search_between (hmono : ∀ i j, i ≤ j → j < n → f i = true → f j = true) :
    Between f n (search n f) (search n f) :=
  searchLoop_between hmono (by omega)
    ⟨Nat.zero_le n, le_rfl, fun _ hk => absurd hk (Nat.not_lt_zero _), fun k hk hkn => by omega⟩

/-- **`sort.Search` over a slice** whose elements do not lose the property. -/
theorem search_eq_findIdx {α : Type*} {p : α → Bool} {l : List α}
    (hmono : l.Pairwise fun a b => p a = true → p b = true) :
    search l.length (fun i => l[i]?.any p) = l.findIdx p := by
  have hstays : ∀ i j, i ≤ j → j < l.length → l[i]?.any p = true → l[j]?.any p = true := by
    intro i j hij hj hi
    rcases hij.eq_or_lt with rfl | hlt
    · exact hi
    · have hi' : p (l[i]) = true := by simpa [hlt.trans hj] using hi
      have hpj := List.pairwise_iff_getElem.mp hmono i j (hlt.trans hj) hj hlt hi'
      simpa [hj] using hpj
  obtain ⟨-, hbound, hbefore, hafter⟩ := search_between hstays
  set r := search l.length fun i => l[i]?.any p
  rcases hbound.eq_or_lt with heq | hlt
  · rw [heq, eq_comm, List.findIdx_eq_length]
    intro x hx
    obtain ⟨i, hi, rfl⟩ := List.getElem_of_mem hx
    simpa [hi] using hbefore i (heq ▸ hi)
  · rw [eq_comm, List.findIdx_eq hlt]
    refine ⟨by simpa [hlt] using hafter r le_rfl hlt, fun i hi => ?_⟩
    simpa [hi.trans hlt] using hbefore i hi

end MetricStore.Common
