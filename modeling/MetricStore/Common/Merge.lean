import Mathlib

/-!
# Merging increasing lists

A three-way merge of two lists: of two equal elements one is kept. On strictly increasing lists
it is the union of their elements, again as a strictly increasing list; such a list is
determined by its elements, so that the order in which several lists are merged does not matter.

* `mem_merge`, `pairwise_merge`: the elements of a merge, and their order.
* `IsUnion.merge`: merging the unions of two lists of lists gives the union of all of them.
* `IsUnion.eq_of_mem_iff`: there is only one union.
-/

namespace MetricStore.Common

variable {α : Type*} [LT α] [DecidableLT α] [DecidableEq α]

/-- The merge of two lists. -/
def merge : List α → List α → List α
  | [], b => b
  | a, [] => a
  | x :: a, y :: b =>
    if x = y then x :: merge a b
    else if x < y then x :: merge a (y :: b)
    else y :: merge (x :: a) b
termination_by a b => a.length + b.length

theorem mem_merge {a b : List α} {v : α} : v ∈ merge a b ↔ v ∈ a ∨ v ∈ b := by
  fun_induction merge a b with
  | case1 b => simp
  | case2 a => simp
  | case3 a x b ih =>
    rw [List.mem_cons, List.mem_cons, List.mem_cons, ih]
    tauto
  | case4 x a y b _ _ ih =>
    rw [List.mem_cons, ih, List.mem_cons (a := v) (b := x), or_assoc]
  | case5 x a y b _ _ ih =>
    rw [List.mem_cons, ih, List.mem_cons (a := v) (b := y)]
    tauto

/-- A strictly increasing list of exactly the elements of the lists. -/
structure IsUnion (ls : List (List α)) (l : List α) : Prop where
  sorted : l.Pairwise (· < ·)
  mem : ∀ v, v ∈ l ↔ ∃ m ∈ ls, v ∈ m

variable [IsTrans α (· < ·)]

section Trichotomous

omit [DecidableLT α] [DecidableEq α] in
/-- An element that is less than the head of an increasing list is less than all of it. -/
theorem forall_lt_of_lt_head {x y : α} {b : List α} (hxy : x < y) (hb : (y :: b).Pairwise (· < ·)) :
    ∀ v ∈ y :: b, x < v := by
  intro v hv
  rcases List.mem_cons.1 hv with rfl | hv
  · exact hxy
  · exact trans_of (· < ·) hxy ((List.pairwise_cons.1 hb).1 v hv)

variable [Std.Trichotomous (α := α) (· < ·)]

theorem pairwise_merge {a b : List α} (ha : a.Pairwise (· < ·)) (hb : b.Pairwise (· < ·)) :
    (merge a b).Pairwise (· < ·) := by
  fun_induction merge a b with
  | case1 b => exact hb
  | case2 a => exact ha
  | case3 a x b ih =>
    obtain ⟨hxa, ha⟩ := List.pairwise_cons.1 ha
    obtain ⟨hxb, hb⟩ := List.pairwise_cons.1 hb
    refine List.pairwise_cons.2 ⟨fun v hv => ?_, ih ha hb⟩
    rcases mem_merge.1 hv with hva | hvb
    · exact hxa v hva
    · exact hxb v hvb
  | case4 x a y b _ hlt ih =>
    obtain ⟨hxa, ha⟩ := List.pairwise_cons.1 ha
    refine List.pairwise_cons.2 ⟨fun v hv => ?_, ih ha hb⟩
    rcases mem_merge.1 hv with hva | hvb
    · exact hxa v hva
    · exact forall_lt_of_lt_head hlt hb v hvb
  | case5 x a y b hne hnlt ih =>
    obtain ⟨hyb, hb⟩ := List.pairwise_cons.1 hb
    have hlt : y < x := (trichotomous_of (· < ·) x y).resolve_left hnlt |>.resolve_left hne
    refine List.pairwise_cons.2 ⟨fun v hv => ?_, ih ha hb⟩
    rcases mem_merge.1 hv with hva | hvb
    · exact forall_lt_of_lt_head hlt ha v hva
    · exact hyb v hvb

/-- **Merging unions** gives the union of everything. -/
theorem IsUnion.merge {ls ls' : List (List α)} {l l' : List α} (h : IsUnion ls l)
    (h' : IsUnion ls' l') : IsUnion (ls ++ ls') (merge l l') := by
  refine ⟨pairwise_merge h.sorted h'.sorted, fun v => ?_⟩
  rw [mem_merge, h.mem, h'.mem]
  simp only [List.mem_append, or_and_right, exists_or]

end Trichotomous

variable [Std.Irrefl (α := α) (· < ·)]

omit [DecidableLT α] [DecidableEq α] [IsTrans α (· < ·)] in
theorem nodup_of_pairwise_lt {l : List α} (h : l.Pairwise (· < ·)) : l.Nodup := by
  refine h.imp ?_
  rintro a _ haa rfl
  exact irrefl_of (· < ·) a haa

omit [DecidableLT α] [DecidableEq α] in
/-- **There is only one union**: lists with the same elements have the same. -/
theorem IsUnion.eq_of_mem_iff {ls ls' : List (List α)} {l l' : List α} (h : IsUnion ls l)
    (h' : IsUnion ls' l') (hiff : ∀ m, m ∈ ls ↔ m ∈ ls') : l = l' := by
  refine List.Perm.eq_of_pairwise (fun a b _ _ hab hba => ?_) h.sorted h'.sorted ?_
  · exact absurd (trans_of (· < ·) hab hba) (irrefl_of (· < ·) a)
  rw [List.perm_ext_iff_of_nodup (nodup_of_pairwise_lt h.sorted) (nodup_of_pairwise_lt h'.sorted)]
  intro v
  rw [h.mem, h'.mem]
  simp only [hiff]

end MetricStore.Common
