import Mathlib

/-!
# Go maps

A Go map is an association list with distinct keys; the order of the list is the
order in which a `range` over the map visits it. A function of the source that ranges
over a map given to it is therefore proved for every list, that is for every order.
Where the source ranges over a map it has built itself, a `MapOrder` picks the order.

* `lookup_ofPairs`: what a map holds after a sequence of assignments with distinct
  keys.
* `lookup_insertAll`, `lookup_ofPairs_eq`: the same for any keys, where the last
  assignment counts.
* `length_keys_ofPairs`: how many keys it has after any sequence of assignments.
* `pairs_perm`: two maps with the same contents list the same pairs.
* `exists_of_perm`: every order of the pairs is that of a map with the same contents.
* `lookup_eraseAll`: what a map holds after a sequence of deletions.
* `exists_findSome?_iterate_iff`: what a range that stops at the first result may return.
-/

namespace MetricStore.Common

/-- A Go `map[κ]ν`. -/
abbrev GoMap (κ ν : Type) := AList (fun _ : κ => ν)

/-- The order of a range over a Go map: any permutation of its keys. -/
structure MapOrder (κ : Type) where
  iterate : List κ → List κ
  perm : ∀ keys, (iterate keys).Perm keys

namespace MapOrder

variable {κ : Type} {β : Type*} {f : κ → Option β} {keys : List κ}

/-- A range that stops at the first result has none if no key has one. -/
theorem findSome?_iterate_eq_none_iff (order : MapOrder κ) :
    (order.iterate keys).findSome? f = none ↔ ∀ k ∈ keys, f k = none := by
  rw [List.findSome?_eq_none_iff]
  exact forall_congr' fun k => by rw [(order.perm keys).mem_iff]

variable [DecidableEq κ]

/-- The order that visits `k` first, if it is there. -/
def first (k : κ) : MapOrder κ where
  iterate keys := if k ∈ keys then k :: keys.erase k else keys
  perm keys := by
    split_ifs with hk
    · exact (List.perm_cons_erase hk).symm
    · exact .refl keys

theorem findSome?_first {k : κ} (hk : k ∈ keys) {b : β} (hb : f k = some b) :
    ((first k).iterate keys).findSome? f = some b := by
  have hfirst : (first k).iterate keys = k :: keys.erase k := if_pos hk
  rw [hfirst, List.findSome?_cons, hb]

/-- A range that stops at the first result may return that of any key. -/
theorem exists_findSome?_iterate_iff {b : β} :
    (∃ order : MapOrder κ, (order.iterate keys).findSome? f = some b) ↔
      ∃ k ∈ keys, f k = some b := by
  constructor
  · rintro ⟨order, h⟩
    obtain ⟨k, hk, hb⟩ := List.exists_of_findSome?_eq_some h
    exact ⟨k, (order.perm keys).mem_iff.1 hk, hb⟩
  · rintro ⟨k, hk, hb⟩
    exact ⟨first k, findSome?_first hk hb⟩

end MapOrder

namespace GoMap

variable {κ ν : Type}

/-- The pairs of a map, in the order of iteration. -/
def pairs (m : GoMap κ ν) : List (κ × ν) := m.entries.map fun e => (e.1, e.2)

/-- Every value replaced: `for k, v := range m { m[k] = f(v) }`. -/
def mapValues (f : ν → ν) (m : GoMap κ ν) : GoMap κ ν where
  entries := m.entries.map fun e => ⟨e.1, f e.2⟩
  nodupKeys := by
    have hkeys : (m.entries.map fun e => (⟨e.1, f e.2⟩ : Sigma fun _ : κ => ν)).keys
        = m.entries.keys := by
      simp [List.keys]
    show List.Nodup _
    rw [hkeys]
    exact m.nodupKeys

theorem map_fst_pairs (m : GoMap κ ν) : m.pairs.map Prod.fst = m.keys := by
  simp [pairs, AList.keys, List.keys]

theorem nodup_pairs (m : GoMap κ ν) : (m.pairs.map Prod.fst).Nodup := by
  rw [map_fst_pairs]; exact m.keys_nodup

variable [DecidableEq κ]

/-- The map after the assignments `m[k] = v`, in order. -/
def ofPairs (l : List (κ × ν)) : GoMap κ ν := l.foldl (fun m e => m.insert e.1 e.2) ∅

theorem ofPairs_concat (l : List (κ × ν)) (e : κ × ν) :
    ofPairs (l ++ [e]) = (ofPairs l).insert e.1 e.2 := by
  simp [ofPairs]

theorem mem_pairs {m : GoMap κ ν} {k : κ} {v : ν} : (k, v) ∈ m.pairs ↔ m.lookup k = some v := by
  rw [← Option.mem_def, AList.mem_lookup_iff]
  simp [pairs]

theorem mem_keys_of_lookup {m : GoMap κ ν} {k : κ} {v : ν} (h : m.lookup k = some v) :
    k ∈ m.keys := by
  rw [← map_fst_pairs]
  exact List.mem_map.2 ⟨(k, v), mem_pairs.2 h, rfl⟩

theorem lookup_mapValues (f : ν → ν) (m : GoMap κ ν) (k : κ) :
    (m.mapValues f).lookup k = (m.lookup k).map f := by
  refine Option.ext fun w => ?_
  rw [← mem_pairs, Option.map_eq_some_iff]
  simp only [← mem_pairs, pairs, mapValues, List.map_map, List.mem_map, Function.comp,
    Prod.mk.injEq]
  constructor
  · rintro ⟨e, he, rfl, rfl⟩
    exact ⟨e.2, ⟨e, he, rfl, rfl⟩, rfl⟩
  · rintro ⟨_, ⟨e, he, rfl, rfl⟩, rfl⟩
    exact ⟨e, he, rfl, rfl⟩

/-- Assignments with distinct keys: the map holds exactly the pairs assigned. -/
theorem lookup_ofPairs {l : List (κ × ν)} (h : (l.map Prod.fst).Nodup) (k : κ) (v : ν) :
    (ofPairs l).lookup k = some v ↔ (k, v) ∈ l := by
  induction l using List.reverseRecOn with
  | nil => simp [ofPairs]
  | append_singleton l e ih =>
    rw [List.map_append, List.map_singleton, List.nodup_append] at h
    obtain ⟨hl, -, hdisj⟩ := h
    rw [ofPairs_concat, List.mem_append, List.mem_singleton]
    by_cases hk : k = e.1
    · subst hk
      rw [AList.lookup_insert, Option.some.injEq]
      -- the key is new, so no earlier pair has it
      have hnew : (e.1, v) ∉ l := fun hmem =>
        hdisj e.1 (List.mem_map.2 ⟨_, hmem, rfl⟩) e.1 (List.mem_singleton.2 rfl) rfl
      constructor
      · rintro rfl; exact Or.inr rfl
      · rintro (hmem | heq)
        · exact absurd hmem hnew
        · rw [← heq]
    · rw [AList.lookup_insert_ne hk, ih hl]
      refine ⟨Or.inl, fun hmem => hmem.resolve_right fun heq => hk ?_⟩
      rw [← heq]

/-- The map `m` after the assignments `m[k] = v`, in order. -/
def insertAll (m : GoMap κ ν) (l : List (κ × ν)) : GoMap κ ν :=
  l.foldl (fun m e => m.insert e.1 e.2) m

theorem insertAll_concat (m : GoMap κ ν) (l : List (κ × ν)) (e : κ × ν) :
    m.insertAll (l ++ [e]) = (m.insertAll l).insert e.1 e.2 := by
  simp [insertAll]

/-- Assignments with any keys: the last one to a key counts. -/
theorem lookup_insertAll (m : GoMap κ ν) (l : List (κ × ν)) (k : κ) :
    (m.insertAll l).lookup k =
      ((l.filter fun e => e.1 = k).getLast?.map Prod.snd).or (m.lookup k) := by
  induction l using List.reverseRecOn with
  | nil => simp [insertAll]
  | append_singleton l e ih =>
    rw [insertAll_concat, List.filter_append]
    by_cases hk : e.1 = k
    · subst hk
      simp
    · rw [AList.lookup_insert_ne (Ne.symm hk), ih]
      simp [hk]

theorem lookup_ofPairs_eq (l : List (κ × ν)) (k : κ) :
    (ofPairs l).lookup k = (l.filter fun e => e.1 = k).getLast?.map Prod.snd := by
  show (insertAll ∅ l).lookup k = _
  rw [lookup_insertAll, AList.lookup_empty, Option.or_none]

theorem mem_ofPairs (l : List (κ × ν)) (k : κ) : k ∈ ofPairs l ↔ k ∈ l.map Prod.fst := by
  induction l using List.reverseRecOn with
  | nil => simp [ofPairs]
  | append_singleton l e ih =>
    rw [ofPairs_concat, AList.mem_insert, ih, List.map_append, List.mem_append]
    simp [or_comm]

/-- A map has as many keys as different ones were assigned. -/
theorem length_keys_ofPairs (l : List (κ × ν)) :
    (ofPairs l).keys.length = (l.map Prod.fst).dedup.length := by
  refine List.Perm.length_eq ?_
  rw [List.perm_ext_iff_of_nodup (AList.keys_nodup _) (List.nodup_dedup _)]
  intro k
  rw [← AList.mem_keys, mem_ofPairs, List.mem_dedup]

/-- Searching the pairs of a map, in any order, finds what the map holds. -/
theorem find?_of_perm {l : List (κ × ν)} {m : GoMap κ ν} (h : l.Perm m.pairs) (k : κ) :
    (l.find? fun e => e.1 = k) = (m.lookup k).map fun v => (k, v) := by
  cases hl : m.lookup k with
  | none =>
    rw [Option.map_none, List.find?_eq_none]
    rintro ⟨k', v⟩ hmem hk
    rw [decide_eq_true_eq] at hk
    rw [h.mem_iff, mem_pairs, show k' = k from hk, hl] at hmem
    cases hmem
  | some v =>
    cases hf : l.find? fun e => decide (e.1 = k) with
    | none =>
      rw [List.find?_eq_none] at hf
      exact absurd (decide_eq_true rfl) (hf (k, v) (h.mem_iff.2 (mem_pairs.2 hl)))
    | some e =>
      have hk : e.1 = k := by simpa using List.find?_some hf
      have hmem := h.mem_iff.1 (List.mem_of_find?_eq_some hf)
      rw [← Prod.mk.eta (p := e), mem_pairs, hk, hl, Option.some.injEq] at hmem
      rw [hmem, ← hk]
      rfl

/-- Two maps with the same contents list the same pairs, each in its own order. -/
theorem pairs_perm {m m' : GoMap κ ν} (h : ∀ k, m.lookup k = m'.lookup k) :
    m.pairs.Perm m'.pairs := by
  refine List.Perm.map _ (List.lookup_ext m.nodupKeys m'.nodupKeys fun k v => ?_)
  have := h k
  unfold AList.lookup at this
  rw [this]

/-- A map may be visited in every order. -/
theorem exists_of_perm {l : List (κ × ν)} {m : GoMap κ ν} (h : l.Perm m.pairs) :
    ∃ m' : GoMap κ ν, m'.pairs = l ∧ ∀ k, m'.lookup k = m.lookup k := by
  have hnodup : (l.map fun e => (⟨e.1, e.2⟩ : Sigma fun _ : κ => ν)).NodupKeys := by
    have hkeys : (l.map fun e => (⟨e.1, e.2⟩ : Sigma fun _ : κ => ν)).keys = l.map Prod.fst := by
      simp [List.keys]
    show List.Nodup _
    rw [hkeys, (h.map Prod.fst).nodup_iff]
    exact m.nodup_pairs
  have hpairs : pairs ⟨_, hnodup⟩ = l := by
    rw [pairs, List.map_map]
    exact List.map_id l
  refine ⟨⟨_, hnodup⟩, hpairs, fun k => Option.ext fun v => ?_⟩
  rw [← mem_pairs, ← mem_pairs, ← h.mem_iff, hpairs]

/-- The map after the deletions `delete(m, k)`, in order. -/
def eraseAll (m : GoMap κ ν) (keys : List κ) : GoMap κ ν := keys.foldl (fun m k => m.erase k) m

theorem lookup_eraseAll (m : GoMap κ ν) (keys : List κ) (k : κ) :
    (m.eraseAll keys).lookup k = if k ∈ keys then none else m.lookup k := by
  induction keys generalizing m with
  | nil => simp [eraseAll]
  | cons k' keys ih =>
    rw [eraseAll, List.foldl_cons, ← eraseAll, ih]
    by_cases hk : k = k'
    · subst hk
      simp
    · rw [AList.lookup_erase_ne hk]
      simp [hk]

end GoMap

end MetricStore.Common
