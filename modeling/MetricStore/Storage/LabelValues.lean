import MetricStore.Common.Merge
import MetricStore.Common.Sort
import MetricStore.Persistence.PointTranslator

/-!
# The values of a label across the cluster

Model of `ReplicatedQuerier.LabelValues` with `mergeStringSlices` and `mergeTwoStringSlices`
(`internal/storage/replicated_querier.go`, lines 227–275), of `Querier.LabelValues`
(`pkg/persistence/querier.go`, lines 90–110) and of what that asks of the database
(`Shards.MeasurementsByRegex` of the vendored `tsdb/shard.go`, lines 1208–1235, and the values
of `Store.TagValues`).

The lists of the nodes are merged two by two after halving the list of lists. A merge relies on
lists that are strictly increasing: the `Querier` of a node collects its values in a map and
sorts the keys, in whatever order the map gives them. A node that cannot be asked contributes
nothing; the error is dropped.

Results:
* `mergeTwoStringSlices_eq`: the merge with indices is the three-way merge of lists.
* `isUnion_mergeStringSlices`: the halving gives the union of all the lists.
* `labelValues_sorted_union`: the values of the cluster are the strictly increasing list of
  those of its nodes, in whatever order the nodes are asked.
* `cluster_labelValues`: this holds for nodes that answer with `Querier.LabelValues` or fail.
-/

namespace MetricStore.Persistence

open MetricStore.Common

/-! ## One node -/

/-- What `Querier.LabelValues` reads from the database: the names of the measurements of each
    shard, `none` if the shard reports an error; and the values of a tag in each measurement. -/
structure LabelStore where
  measurementNames : List (Option (List Bytes))
  tagValues : Bytes → List (List Bytes)

/-- `sort.Strings` of any kind. -/
abbrev StringSorting := Sorting fun a b : Bytes => a < b

section Node

variable (order : MapOrder Bytes) (sorting : StringSorting)

/-- The keys of a map with the given ones, sorted. -/
def distinctSorted (values : List Bytes) : List Bytes :=
  sorting.sort (order.iterate (GoMap.ofPairs (values.map fun v => (v, ()))).keys)

/-- `MeasurementsByRegex` with a pattern that matches every name: shards with an error are
    skipped. -/
def measurementsByRegex (shards : List (Option (List Bytes))) : List Bytes :=
  distinctSorted order sorting (shards.flatMap fun names => names.getD [])

/-- `Querier.LabelValues` (lines 90–110). -/
def Querier.labelValues (db : LabelStore) (name : Bytes) : List Bytes :=
  if name = metricName then measurementsByRegex order sorting db.measurementNames
  else distinctSorted order sorting (db.tagValues name).flatten

/-- The values of a label in the database. -/
def LabelStore.Has (db : LabelStore) (name v : Bytes) : Prop :=
  if name = metricName then ∃ names, some names ∈ db.measurementNames ∧ v ∈ names
  else ∃ values ∈ db.tagValues name, v ∈ values

theorem mem_distinctSorted {values : List Bytes} {v : Bytes} :
    v ∈ distinctSorted order sorting values ↔ v ∈ values := by
  unfold distinctSorted
  rw [(sorting.perm _).mem_iff, (order.perm _).mem_iff, ← AList.mem_keys, GoMap.mem_ofPairs,
    List.map_map]
  simp

/-- The sorted keys of a map are strictly increasing. -/
theorem pairwise_distinctSorted (values : List Bytes) :
    (distinctSorted order sorting values).Pairwise (· < ·) := by
  have hnodup := (order.perm (GoMap.ofPairs (values.map fun v => (v, ()))).keys).nodup_iff.2
    (AList.keys_nodup _)
  refine sorting.pairwise_sort (S := (· ≠ ·)) Ne.symm hnodup fun a b hne hle => ?_
  have htotal : a < b ∨ a = b ∨ b < a := Std.Trichotomous.rel_or_eq_or_rel_swap
  exact htotal.resolve_right fun h => h.elim hne hle

/-- **The values of one node** are the strictly increasing list of those in its database. -/
theorem Querier.labelValues_spec (db : LabelStore) (name : Bytes) :
    (Querier.labelValues order sorting db name).Pairwise (· < ·) ∧
      ∀ v, v ∈ Querier.labelValues order sorting db name ↔ db.Has name v := by
  unfold Querier.labelValues LabelStore.Has measurementsByRegex
  split_ifs
  · refine ⟨pairwise_distinctSorted order sorting _, fun v => ?_⟩
    rw [mem_distinctSorted, List.mem_flatMap]
    constructor
    · rintro ⟨_ | names, hnames, hv⟩
      · cases hv
      · exact ⟨names, hnames, hv⟩
    · rintro ⟨names, hnames, hv⟩
      exact ⟨some names, hnames, hv⟩
  · refine ⟨pairwise_distinctSorted order sorting _, fun v => ?_⟩
    rw [mem_distinctSorted, List.mem_flatten]

end Node

end MetricStore.Persistence

namespace MetricStore.Storage

open MetricStore.Common MetricStore.Persistence

/-! ## Merging -/

/-- `strings.Compare`. -/
def compareStrings (a b : Bytes) : Ordering := if a = b then .eq else if a < b then .lt else .gt

/-- The loop of `mergeTwoStringSlices` (lines 257–274) on `result`, `a[i:]` and `b[j:]`, with
    the two appends behind it. -/
def mergeLoop : List Bytes → List Bytes → List Bytes → List Bytes
  | result, x :: a, y :: b =>
    match compareStrings x y with
    | .eq => mergeLoop (result ++ [x]) a b
    | .lt => mergeLoop (result ++ [x]) a (y :: b)
    | .gt => mergeLoop (result ++ [y]) (x :: a) b
  | result, a, b => result ++ a ++ b
termination_by _ a b => a.length + b.length

/-- `mergeTwoStringSlices` (lines 254–275). -/
def mergeTwoStringSlices (a b : List Bytes) : List Bytes := mergeLoop [] a b

/-- `mergeStringSlices` (lines 238–252). -/
def mergeStringSlices : List (List Bytes) → List Bytes
  | [] => []
  | [s] => s
  | [a, b] => mergeTwoStringSlices a b
  | s :: t :: u :: ss =>
    let halfway := (s :: t :: u :: ss).length / 2
    mergeTwoStringSlices (mergeStringSlices ((s :: t :: u :: ss).take halfway))
      (mergeStringSlices ((s :: t :: u :: ss).drop halfway))
termination_by ss => ss.length
decreasing_by all_goals (simp; omega)

/-- `LabelValues` of `prom_storage.Querier`: the values and the error. -/
abbrev LabelQuerier := Bytes → List Bytes × Option Bytes

/-- `ReplicatedQuerier.LabelValues` (lines 227–236) for the queriers that `Build` returns. -/
def labelValues (queriers : List LabelQuerier) (name : Bytes) : List Bytes :=
  mergeStringSlices (queriers.map fun querier => (querier name).1)

theorem mergeLoop_eq (result a b : List Bytes) : mergeLoop result a b = result ++ merge a b := by
  fun_induction mergeLoop result a b with
  | case1 result x a y b heq ih =>
    unfold compareStrings at heq
    split_ifs at heq with hxy
    rw [ih, merge, if_pos hxy, List.append_assoc, List.singleton_append]
  | case2 result x a y b heq ih =>
    unfold compareStrings at heq
    split_ifs at heq with hxy hlt
    rw [ih, merge, if_neg hxy, if_pos hlt, List.append_assoc, List.singleton_append]
  | case3 result x a y b heq ih =>
    unfold compareStrings at heq
    split_ifs at heq with hxy hlt
    rw [ih, merge, if_neg hxy, if_neg hlt, List.append_assoc, List.singleton_append]
  | case4 result a b hend =>
    -- one of the two is used up
    cases a with
    | nil => rw [merge, List.append_nil]
    | cons x a =>
      cases b with
      | nil => rw [merge, List.append_nil]; exact List.cons_ne_nil x a
      | cons y b => exact absurd rfl (hend x a y b rfl)

theorem mergeTwoStringSlices_eq (a b : List Bytes) : mergeTwoStringSlices a b = merge a b :=
  mergeLoop_eq [] a b

theorem isUnion_singleton {s : List Bytes} (h : s.Pairwise (· < ·)) : IsUnion [s] s :=
  ⟨h, by simp⟩

/-- **The halving gives the union** of lists that are strictly increasing. -/
theorem isUnion_mergeStringSlices {ss : List (List Bytes)}
    (h : ∀ s ∈ ss, s.Pairwise (· < ·)) : IsUnion ss (mergeStringSlices ss) := by
  fun_induction mergeStringSlices ss with
  | case1 => exact ⟨List.Pairwise.nil, by simp⟩
  | case2 s => exact isUnion_singleton (h s List.mem_cons_self)
  | case3 a b =>
    rw [mergeTwoStringSlices_eq]
    exact (isUnion_singleton (h a (by simp))).merge (isUnion_singleton (h b (by simp)))
  | case4 s t u ss halfway ih₁ ih₂ =>
    have hmerge := (ih₁ fun m hm => h m (List.mem_of_mem_take hm)).merge
      (ih₂ fun m hm => h m (List.mem_of_mem_drop hm))
    rw [List.take_append_drop] at hmerge
    rw [mergeTwoStringSlices_eq]
    exact hmerge

/-! ## The cluster -/

theorem isUnion_labelValues {queriers : List LabelQuerier} {name : Bytes}
    (h : ∀ querier ∈ queriers, (querier name).1.Pairwise (· < ·)) :
    IsUnion (queriers.map fun querier => (querier name).1) (labelValues queriers name) := by
  refine isUnion_mergeStringSlices fun s hs => ?_
  obtain ⟨querier, hquerier, rfl⟩ := List.mem_map.1 hs
  exact h querier hquerier

/-- **Label values are a sorted union.** If the values of each node are strictly increasing,
    those of the cluster are the strictly increasing list of the values that occur on some
    node, and the order of the nodes does not matter. -/
theorem labelValues_sorted_union (queriers : List LabelQuerier) (name : Bytes)
    (h : ∀ querier ∈ queriers, (querier name).1.Pairwise (· < ·)) :
    (labelValues queriers name).Pairwise (· < ·) ∧
    (∀ v, v ∈ labelValues queriers name ↔ ∃ querier ∈ queriers, v ∈ (querier name).1) ∧
    ∀ queriers' : List LabelQuerier, queriers'.Perm queriers →
      labelValues queriers' name = labelValues queriers name := by
  have hunion := isUnion_labelValues h
  refine ⟨hunion.sorted, fun v => ?_, fun queriers' hperm => ?_⟩
  · rw [hunion.mem]
    simp
  · have hunion' : IsUnion _ (labelValues queriers' name) :=
      isUnion_labelValues fun querier hquerier => h querier (hperm.mem_iff.1 hquerier)
    exact hunion'.eq_of_mem_iff hunion fun m => (hperm.map _).mem_iff

/-- Three nodes: one with the values a and c, one that reports an error, and one with b and c. -/
def threeNodes : List LabelQuerier :=
  [fun _ => ([[97], [99]], none), fun _ => ([], some (lit "timeout")),
    fun _ => ([[98], [99]], none)]

/-- A value that two of three nodes have is listed once, also if they are asked the other way
    around. -/
theorem labelValues_three_nodes :
    (∀ querier ∈ threeNodes, (querier (lit "job")).1.Pairwise (· < ·)) ∧
    labelValues threeNodes (lit "job") = [[97], [98], [99]] ∧
    labelValues threeNodes.reverse (lit "job") = [[97], [98], [99]] := by
  have hnodes : ∀ querier ∈ threeNodes, (querier (lit "job")).1.Pairwise (· < ·) := by
    simp only [threeNodes, List.forall_mem_cons]
    decide
  obtain ⟨-, -, hperm⟩ := labelValues_sorted_union threeNodes (lit "job") hnodes
  have hvalues : labelValues threeNodes (lit "job") = [[97], [98], [99]] := by
    have hcompare : compareStrings [97] [98] = .lt ∧ compareStrings [99] [98] = .gt ∧
        compareStrings [99] [99] = .eq := by decide
    simp [labelValues, threeNodes, mergeStringSlices, mergeTwoStringSlices, mergeLoop, hcompare]
  exact ⟨hnodes, hvalues, (hperm _ (List.reverse_perm threeNodes)).trans hvalues⟩

/-- A node of the cluster: one that answers from its database, with any order of its maps and
    any kind of sorting, or one that cannot be asked. -/
inductive LabelNode
  | answers (order : MapOrder Bytes) (sorting : StringSorting) (db : LabelStore)
  | fails (err : Bytes)

/-- What a node returns to `LabelValues`. -/
def LabelNode.querier : LabelNode → LabelQuerier
  | .answers order sorting db => fun name => (Querier.labelValues order sorting db name, none)
  | .fails err => fun _ => ([], some err)

/-- **The values of a cluster** are those of the databases of the nodes that answer. -/
theorem cluster_labelValues (nodes : List LabelNode) (name : Bytes) :
    (labelValues (nodes.map LabelNode.querier) name).Pairwise (· < ·) ∧
    ∀ v, v ∈ labelValues (nodes.map LabelNode.querier) name ↔
      ∃ order sorting db, .answers order sorting db ∈ nodes ∧ db.Has name v := by
  have hnodes : ∀ querier ∈ nodes.map LabelNode.querier, (querier name).1.Pairwise (· < ·) := by
    intro querier hquerier
    obtain ⟨⟨order, sorting, db⟩ | err, -, rfl⟩ := List.mem_map.1 hquerier
    · exact (Querier.labelValues_spec order sorting db name).1
    · exact List.Pairwise.nil
  have hunion := isUnion_labelValues hnodes
  refine ⟨hunion.sorted, fun v => ?_⟩
  rw [hunion.mem, List.map_map]
  constructor
  · rintro ⟨_, hm, hv⟩
    obtain ⟨⟨order, sorting, db⟩ | err, hnode, rfl⟩ := List.mem_map.1 hm
    · exact ⟨order, sorting, db, hnode, ((Querier.labelValues_spec order sorting db name).2 v).1 hv⟩
    · cases hv
  · rintro ⟨order, sorting, db, hnode, hv⟩
    exact ⟨_, List.mem_map.2 ⟨_, hnode, rfl⟩,
      ((Querier.labelValues_spec order sorting db name).2 v).2 hv⟩

end MetricStore.Storage
