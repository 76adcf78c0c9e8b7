import MetricStore.Persistence.Shards

/-!
# Concurrent writes and deletions of shards

Interleavings of `WritePoints`, `Delete`, `DeleteOldest` and `DeleteOlderThan` of one
`InfluxAdapter` (`pkg/persistence/influx_adapter.go`). The adapter's map of shards and the
database are two stores that no lock covers together. The atomic steps are the calls of
`LoadOrStore`, `CreateShard`, `WriteToShard`, `shards.Delete` and `DeleteShard`; they
succeed, but for a `WriteToShard` to a shard that the database does not have, at which
`WritePoints` returns.

What a `Range` over the map sees is an argument of the call, since it may run while others
change the map.

Results:
* `exclusive_writes_held`: if nobody enters a shard while another goroutine creates or
  deletes it, and nobody deletes it while another goroutine is writing to it, then every
  write is to a shard that the database has, and in every quiet state the adapter and the
  database have the same shards.
* `write_to_missing_shard`: two writers of one new shard, the second of which writes before
  the first has created it; and a deletion between the two steps of a writer, after which
  the database has a shard that the adapter does not know.
-/

namespace MetricStore.Persistence.ShardRaces

open MetricStore.Common MetricStore.Persistence

/-! ## Calls and their steps -/

/-- The atomic steps. -/
inductive Instr
  | loadOrStore (id : ℕ)
  | createShard (id : ℕ)
  | writeToShard (id : ℕ)
  | shardsDelete (id : ℕ)
  | deleteShard (id : ℕ)
  deriving DecidableEq, Repr

/-- The calls, with what `Range` sees. -/
inductive Call
  | writePoints (order : MapOrder ℤ) (influxPoints : List Influx.Point)
  | delete (shardID : ℕ)
  | deleteOldest (seen : List ℕ)
  | deleteOlderThan (cutoff : Int64) (seen : List ℕ)

/-- The shards of the groups of `WritePoints`, in the order in which it writes them. -/
def bucketIds (order : MapOrder ℤ) (influxPoints : List Influx.Point) : List ℕ :=
  (order.iterate (influxPoints.foldl InfluxAdapter.addToBucket ∅).keys).map fun bucketIndex =>
    uint64 (getShardStartForTimestamp bucketIndex)

/-- The shards that `DeleteOlderThan` deletes. -/
def olderIds (cutoff : Int64) (seen : List ℕ) : List ℕ :=
  (seen.insertionSort (· ≤ ·)).takeWhile fun shardID =>
    int64 shardID ≤ InfluxAdapter.adjustedCutoff cutoff

/-- The steps of a call. `LoadOrStore` puts a `CreateShard` before the write if the shard is
    new. -/
def program : Call → List Instr
  | .writePoints order influxPoints =>
    (bucketIds order influxPoints).flatMap fun id => [.loadOrStore id, .writeToShard id]
  | .delete shardID => [.shardsDelete shardID, .deleteShard shardID]
  | .deleteOldest seen =>
    match (⟨seen, ()⟩ : InfluxAdapter Unit).oldestShardID with
    | .error _ => []
    | .ok shardID => [.shardsDelete shardID, .deleteShard shardID, .deleteShard shardID]
  | .deleteOlderThan cutoff seen =>
    (olderIds cutoff seen).flatMap fun shardID => [.shardsDelete shardID, .deleteShard shardID]

/-- The shards in the map of the adapter, those in the database, the steps that each
    goroutine has left, and the writes so far, with whether the database had the shard. -/
structure System (ι : Type*) where
  known : Finset ℕ
  held : Finset ℕ
  pc : ι → List Instr
  log : List (ℕ × Bool)

/-- A goroutine begins a call, or takes its next step. -/
inductive Act (ι : Type*)
  | call (i : ι) (c : Call)
  | next (i : ι)

variable {ι : Type*} [DecidableEq ι]

/-- No shards and no calls. -/
def init (ι : Type*) : System ι := ⟨∅, ∅, fun _ => [], []⟩

/-- One step of goroutine `i`, whose remaining steps are `instr :: rest`. -/
def exec (s : System ι) (i : ι) (rest : List Instr) : Instr → System ι
  | .loadOrStore id =>
    if id ∈ s.known then ⟨s.known, s.held, Function.update s.pc i rest, s.log⟩
    else ⟨insert id s.known, s.held, Function.update s.pc i (.createShard id :: rest), s.log⟩
  | .createShard id => ⟨s.known, insert id s.held, Function.update s.pc i rest, s.log⟩
  | .writeToShard id =>
    ⟨s.known, s.held, Function.update s.pc i (if id ∈ s.held then rest else []),
      s.log ++ [(id, decide (id ∈ s.held))]⟩
  | .shardsDelete id => ⟨s.known.erase id, s.held, Function.update s.pc i rest, s.log⟩
  | .deleteShard id => ⟨s.known, s.held.erase id, Function.update s.pc i rest, s.log⟩

/-- An atomic step; `none` if the goroutine is not ready for it. -/
def step (s : System ι) : Act ι → Option (System ι)
  | .call i c =>
    match s.pc i with
    | [] => some ⟨s.known, s.held, Function.update s.pc i (program c), s.log⟩
    | _ :: _ => none
  | .next i =>
    match s.pc i with
    | [] => none
    | instr :: rest => some (exec s i rest instr)

/-- No call is in progress. -/
def System.Quiet (s : System ι) : Prop := ∀ i, s.pc i = []

instance [Fintype ι] (s : System ι) : Decidable s.Quiet :=
  inferInstanceAs (Decidable (∀ i, s.pc i = []))

/-! ## Sections -/

/-- What a goroutine is doing to a shard. -/
inductive Phase
  | outside
  | creating (id : ℕ)
  | writing (id : ℕ)
  | deleting (id : ℕ)
  deriving DecidableEq, Repr

/-- The phase of a goroutine with these steps left. -/
def phase : List Instr → Phase
  | .createShard id :: _ => .creating id
  | .writeToShard id :: _ => .writing id
  | .deleteShard id :: _ => .deleting id
  | _ => .outside

/-- Nobody else is creating or deleting the shard. -/
def Steady (ph : ι → Phase) (i : ι) (id : ℕ) : Prop :=
  ∀ j, j ≠ i → ph j ≠ .creating id ∧ ph j ≠ .deleting id

/-- Nobody else is doing anything to the shard. -/
def Alone (ph : ι → Phase) (i : ι) (id : ℕ) : Prop :=
  ∀ j, j ≠ i → ph j ≠ .creating id ∧ ph j ≠ .writing id ∧ ph j ≠ .deleting id

/-- The phases of the goroutines. -/
def System.phases (s : System ι) : ι → Phase := fun i => phase (s.pc i)

/-- The condition on the steps that enter a shard: with `LoadOrStore` nobody else is
    creating or deleting it, with `shards.Delete` nobody else is doing anything to it. -/
def MayEnter (ph : ι → Phase) (i : ι) : List Instr → Prop
  | .loadOrStore id :: _ => Steady ph i id
  | .shardsDelete id :: _ => Alone ph i id
  | _ => True

/-- Every step that enters a shard meets the condition. -/
def Exclusive (s : System ι) : Act ι → Prop
  | .call _ _ => True
  | .next i => MayEnter s.phases i (s.pc i)

instance [Fintype ι] (ph : ι → Phase) (i : ι) (id : ℕ) : Decidable (Steady ph i id) :=
  inferInstanceAs (Decidable (∀ j, j ≠ i → ph j ≠ .creating id ∧ ph j ≠ .deleting id))

instance [Fintype ι] (ph : ι → Phase) (i : ι) (id : ℕ) : Decidable (Alone ph i id) :=
  inferInstanceAs (Decidable (∀ j, j ≠ i → ph j ≠ .creating id ∧ ph j ≠ .writing id ∧
    ph j ≠ .deleting id))

instance [Fintype ι] (ph : ι → Phase) (i : ι) : DecidablePred (MayEnter ph i)
  | .loadOrStore id :: _ => inferInstanceAs (Decidable (Steady ph i id))
  | .shardsDelete id :: _ => inferInstanceAs (Decidable (Alone ph i id))
  | [] => isTrue trivial
  | .createShard _ :: _ => isTrue trivial
  | .writeToShard _ :: _ => isTrue trivial
  | .deleteShard _ :: _ => isTrue trivial

instance [Fintype ι] (s : System ι) : DecidablePred (Exclusive s)
  | .call _ _ => isTrue trivial
  | .next i => inferInstanceAs (Decidable (MayEnter s.phases i (s.pc i)))

/-! ## Two stores of shards -/

/-- A shard being written to is in both stores; one being created is in the map and one
    being deleted is not, and nobody else is at it; of the others the two stores agree. -/
structure Safe (known held : Finset ℕ) (ph : ι → Phase) : Prop where
  writing : ∀ i id, ph i = .writing id → id ∈ known ∧ id ∈ held
  creating : ∀ i id, ph i = .creating id → id ∈ known ∧ Alone ph i id
  deleting : ∀ i id, ph i = .deleting id → id ∉ known ∧ Alone ph i id
  same : ∀ id, (∀ i, ph i ≠ .creating id ∧ ph i ≠ .deleting id) → (id ∈ known ↔ id ∈ held)

section Safe

variable {known held : Finset ℕ} {ph : ι → Phase} {i : ι} {id : ℕ}

section Fits

omit [DecidableEq ι]

/-- The goroutine is at the shard. -/
def Phase.At (p : Phase) (id : ℕ) : Prop := p = .creating id ∨ p = .writing id ∨ p = .deleting id

theorem Alone.not_at (h : Alone ph i id) {j : ι} (hj : j ≠ i) : ¬ (ph j).At id := by
  rintro (hph | hph | hph)
  · exact (h j hj).1 hph
  · exact (h j hj).2.1 hph
  · exact (h j hj).2.2 hph

theorem Alone.steady (h : Alone ph i id) : Steady ph i id := by
  intro j hj
  exact ⟨(h j hj).1, (h j hj).2.2⟩

/-- What a goroutine in the phase `p` needs of the stores and of the others. -/
structure Phase.Fits (p : Phase) (known held : Finset ℕ) (ph : ι → Phase) (i : ι) : Prop where
  writing : ∀ id, p = .writing id → (id ∈ known ∧ id ∈ held) ∧ Steady ph i id
  creating : ∀ id, p = .creating id → id ∈ known ∧ Alone ph i id
  deleting : ∀ id, p = .deleting id → id ∉ known ∧ Alone ph i id

/-- Another goroutine that creates or deletes the shard keeps this one away from it. -/
theorem Phase.Fits.not_at {p : Phase} (hp : p.Fits known held ph i) {j : ι} (hj : j ≠ i)
    (hph : ph j = .creating id ∨ ph j = .deleting id) : ¬ p.At id := by
  have hat : (ph j).At id := hph.imp_right Or.inr
  rintro (h | h | h)
  · exact (hp.creating id h).2.not_at hj hat
  · have hsteady := (hp.writing id h).2 j hj
    exact hph.elim hsteady.1 hsteady.2
  · exact (hp.deleting id h).2.not_at hj hat

theorem fits_outside : Phase.Fits .outside known held ph i where
  writing _ h := by cases h
  creating _ h := by cases h
  deleting _ h := by cases h

theorem fits_writing (hknown : id ∈ known) (hheld : id ∈ held) (hsteady : Steady ph i id) :
    Phase.Fits (.writing id) known held ph i where
  writing _ h := by
    cases h
    exact ⟨⟨hknown, hheld⟩, hsteady⟩
  creating _ h := by cases h
  deleting _ h := by cases h

theorem fits_creating (hknown : id ∈ known) (halone : Alone ph i id) :
    Phase.Fits (.creating id) known held ph i where
  writing _ h := by cases h
  creating _ h := by
    cases h
    exact ⟨hknown, halone⟩
  deleting _ h := by cases h

theorem fits_deleting (hknown : id ∉ known) (halone : Alone ph i id) :
    Phase.Fits (.deleting id) known held ph i where
  writing _ h := by cases h
  creating _ h := by cases h
  deleting _ h := by
    cases h
    exact ⟨hknown, halone⟩

end Fits

/-- Nobody at all is creating or deleting the shard. -/
theorem forall_phase_iff {p : Phase} :
    (∀ j, Function.update ph i p j ≠ .creating id ∧ Function.update ph i p j ≠ .deleting id) ↔
      (p ≠ .creating id ∧ p ≠ .deleting id) ∧ Steady ph i id := by
  constructor
  · intro h
    refine ⟨by simpa using h i, fun j hj => ?_⟩
    simpa [Function.update_of_ne hj] using h j
  · rintro ⟨hp, hsteady⟩ j
    by_cases hj : j = i
    · rw [hj, Function.update_self]
      exact hp
    · rw [Function.update_of_ne hj]
      exact hsteady j hj

theorem Safe.known_iff_held (h : Safe known held ph)
    (hi : ph i ≠ .creating id ∧ ph i ≠ .deleting id) (hsteady : Steady ph i id) :
    id ∈ known ↔ id ∈ held := by
  refine h.same id fun j => ?_
  by_cases hj : j = i
  · rw [hj]
    exact hi
  · exact hsteady j hj

theorem Alone.update_self (h : Alone ph i id) (p : Phase) :
    Alone (Function.update ph i p) i id := by
  intro j hj
  rw [Function.update_of_ne hj]
  exact h j hj

theorem Alone.update {j : ι} (h : Alone ph j id) {p : Phase} (hp : ¬ p.At id) :
    Alone (Function.update ph i p) j id := by
  intro k hk
  by_cases hki : k = i
  · rw [hki, Function.update_self]
    exact ⟨fun h => hp (Or.inl h), fun h => hp (Or.inr (Or.inl h)),
      fun h => hp (Or.inr (Or.inr h))⟩
  · rw [Function.update_of_ne hki]
    exact h k hk

/-- A goroutine enters a phase, and the stores change at shards that no other one is at. -/
theorem Safe.update (h : Safe known held ph) {known' held' : Finset ℕ} {p : Phase}
    (hknown : ∀ j, j ≠ i → ∀ id, (ph j).At id → (id ∈ known' ↔ id ∈ known))
    (hheld : ∀ j, j ≠ i → ∀ id, ph j = .writing id → id ∈ held → id ∈ held')
    (hp : p.Fits known' held' ph i)
    (hsame : ∀ id, p ≠ .creating id ∧ p ≠ .deleting id → Steady ph i id →
      (id ∈ known' ↔ id ∈ held')) :
    Safe known' held' (Function.update ph i p) := by
  constructor
  · intro j id hj
    by_cases hji : j = i
    · rw [hji, Function.update_self] at hj
      exact (hp.writing id hj).1
    · rw [Function.update_of_ne hji] at hj
      obtain ⟨hmem, hmem'⟩ := h.writing j id hj
      exact ⟨(hknown j hji id (Or.inr (Or.inl hj))).2 hmem, hheld j hji id hj hmem'⟩
  · intro j id hj
    by_cases hji : j = i
    · rw [hji, Function.update_self] at hj
      rw [hji]
      exact ⟨(hp.creating id hj).1, (hp.creating id hj).2.update_self p⟩
    · rw [Function.update_of_ne hji] at hj
      obtain ⟨hmem, halone⟩ := h.creating j id hj
      exact ⟨(hknown j hji id (Or.inl hj)).2 hmem, halone.update (hp.not_at hji (Or.inl hj))⟩
  · intro j id hj
    by_cases hji : j = i
    · rw [hji, Function.update_self] at hj
      rw [hji]
      exact ⟨(hp.deleting id hj).1, (hp.deleting id hj).2.update_self p⟩
    · rw [Function.update_of_ne hji] at hj
      obtain ⟨hmem, halone⟩ := h.deleting j id hj
      exact ⟨fun hmem' => hmem ((hknown j hji id (Or.inr (Or.inr hj))).1 hmem'),
        halone.update (hp.not_at hji (Or.inr hj))⟩
  · intro id hall
    obtain ⟨hphase, hsteady⟩ := forall_phase_iff.1 hall
    exact hsame id hphase hsteady

theorem Safe.enter_write (h : Safe known held ph) (hph : ph i = .outside) (hsteady : Steady ph i id)
    (hknown : id ∈ known) : Safe known held (Function.update ph i (.writing id)) := by
  -- nobody creates or deletes the shard, so the database has it
  have hheld : id ∈ held := (h.known_iff_held (by simp [hph]) hsteady).1 hknown
  apply h.update
  · intro _ _ _ _
    exact Iff.rfl
  · intro _ _ _ _ hmem
    exact hmem
  · exact fits_writing hknown hheld hsteady
  · intro id' _ hsteady'
    exact h.known_iff_held (by simp [hph]) hsteady'

theorem Safe.enter_create (h : Safe known held ph) (hph : ph i = .outside) (hsteady : Steady ph i id)
    (hknown : id ∉ known) :
    Safe (insert id known) held (Function.update ph i (.creating id)) := by
  -- nobody writes to the shard, since it is not in the map
  have halone : Alone ph i id := by
    intro j hj
    exact ⟨(hsteady j hj).1, fun hwriting => hknown (h.writing j id hwriting).1, (hsteady j hj).2⟩
  apply h.update
  · intro j hj id' hat
    have hne : id' ≠ id := by
      rintro rfl
      exact halone.not_at hj hat
    rw [Finset.mem_insert, or_iff_right hne]
  · intro _ _ _ _ hmem
    exact hmem
  · exact fits_creating (Finset.mem_insert_self id known) halone
  · intro id' hphase hsteady'
    have hne : id' ≠ id := by
      rintro rfl
      exact hphase.1 rfl
    rw [Finset.mem_insert, or_iff_right hne]
    exact h.known_iff_held (by simp [hph]) hsteady'

theorem Safe.created (h : Safe known held ph) (hph : ph i = .creating id) :
    Safe known (insert id held) (Function.update ph i (.writing id)) := by
  obtain ⟨hknown, halone⟩ := h.creating i id hph
  apply h.update
  · intro _ _ _ _
    exact Iff.rfl
  · intro _ _ _ _ hmem
    exact Finset.mem_insert_of_mem hmem
  · exact fits_writing hknown (Finset.mem_insert_self id held) halone.steady
  · intro id' _ hsteady
    by_cases hid : id' = id
    · simp [hid, hknown]
    · rw [Finset.mem_insert, or_iff_right hid]
      exact h.known_iff_held (by simp [hph, Ne.symm hid]) hsteady

theorem Safe.leave_write (h : Safe known held ph) (hph : ph i = .writing id) :
    Safe known held (Function.update ph i .outside) := by
  apply h.update
  · intro _ _ _ _
    exact Iff.rfl
  · intro _ _ _ _ hmem
    exact hmem
  · exact fits_outside
  · intro id' _ hsteady
    exact h.known_iff_held (by simp [hph]) hsteady

theorem Safe.enter_delete (h : Safe known held ph) (hph : ph i = .outside) (halone : Alone ph i id) :
    Safe (known.erase id) held (Function.update ph i (.deleting id)) := by
  apply h.update
  · intro j hj id' hat
    have hne : id' ≠ id := by
      rintro rfl
      exact halone.not_at hj hat
    rw [Finset.mem_erase, and_iff_right hne]
  · intro _ _ _ _ hmem
    exact hmem
  · exact fits_deleting (Finset.notMem_erase id known) halone
  · intro id' hphase hsteady
    have hne : id' ≠ id := by
      rintro rfl
      exact hphase.2 rfl
    rw [Finset.mem_erase, and_iff_right hne]
    exact h.known_iff_held (by simp [hph]) hsteady

/-- The shard is deleted, and the goroutine stays at it or leaves. -/
theorem Safe.deleted (h : Safe known held ph) (hph : ph i = .deleting id) {p : Phase}
    (hp : p = .deleting id ∨ p = .outside) :
    Safe known (held.erase id) (Function.update ph i p) := by
  obtain ⟨hknown, halone⟩ := h.deleting i id hph
  apply h.update
  · intro _ _ _ _
    exact Iff.rfl
  · intro j hj id' hwriting hmem
    have hne : id' ≠ id := by
      rintro rfl
      exact (halone j hj).2.1 hwriting
    exact Finset.mem_erase.2 ⟨hne, hmem⟩
  · rcases hp with rfl | rfl
    · exact fits_deleting hknown halone
    · exact fits_outside
  · intro id' _ hsteady
    by_cases hid : id' = id
    · simp [hid, hknown]
    · rw [Finset.mem_erase, and_iff_right hid]
      exact h.known_iff_held (by simp [hph, Ne.symm hid]) hsteady

end Safe

/-! ## The shape of what is left of a call -/

/-- The steps left of a goroutine that is outside of every shard. -/
inductive Between : List Instr → Prop
  | nil : Between []
  | write (id : ℕ) {rest : List Instr} (h : Between rest) :
      Between (.loadOrStore id :: .writeToShard id :: rest)
  | delete (id n : ℕ) {rest : List Instr} (h : Between rest) :
      Between (.shardsDelete id :: (List.replicate (n + 1) (.deleteShard id) ++ rest))

/-- The steps left of a call. -/
inductive Left : List Instr → Prop
  | between {rest : List Instr} (h : Between rest) : Left rest
  | creating (id : ℕ) {rest : List Instr} (h : Between rest) :
      Left (.createShard id :: .writeToShard id :: rest)
  | writing (id : ℕ) {rest : List Instr} (h : Between rest) : Left (.writeToShard id :: rest)
  | deleting (id n : ℕ) {rest : List Instr} (h : Between rest) :
      Left (List.replicate (n + 1) (.deleteShard id) ++ rest)

theorem Between.phase_eq {l : List Instr} (h : Between l) : phase l = .outside := by
  cases h <;> rfl

theorem between_program (c : Call) : Between (program c) := by
  have hwrite : ∀ ids : List ℕ, Between (ids.flatMap fun id => [.loadOrStore id, .writeToShard id]) := by
    intro ids
    induction ids with
    | nil => exact .nil
    | cons id ids ih => exact .write id ih
  have hdelete : ∀ ids : List ℕ, Between (ids.flatMap fun id => [.shardsDelete id, .deleteShard id]) := by
    intro ids
    induction ids with
    | nil => exact .nil
    | cons id ids ih => exact .delete id 0 ih
  cases c with
  | writePoints order influxPoints => exact hwrite _
  | delete shardID => exact .delete shardID 0 .nil
  | deleteOldest seen =>
    simp only [program]
    split
    · exact .nil
    · rename_i shardID _
      exact .delete shardID 1 .nil
  | deleteOlderThan cutoff seen => exact hdelete _

theorem left_of_replicate (id n : ℕ) {rest : List Instr} (h : Between rest) :
    Left (List.replicate n (.deleteShard id) ++ rest) ∧
      (phase (List.replicate n (.deleteShard id) ++ rest) = .deleting id ∨
        phase (List.replicate n (.deleteShard id) ++ rest) = .outside) := by
  cases n with
  | zero => exact ⟨.between h, Or.inr h.phase_eq⟩
  | succ n => exact ⟨.deleting id n h, Or.inl rfl⟩

/-! ## The invariant -/

/-- Every write so far was to a shard of the database, and the two stores are `Safe`. -/
structure Inv (s : System ι) : Prop where
  left : ∀ i, Left (s.pc i)
  log : ∀ e ∈ s.log, e.2 = true
  safe : Safe s.known s.held s.phases

theorem left_update {s : System ι} (h : ∀ i, Left (s.pc i)) (i : ι) {l : List Instr}
    (hl : Left l) (j : ι) : Left (Function.update s.pc i l j) := by
  by_cases hj : j = i
  · rw [hj, Function.update_self]
    exact hl
  · rw [Function.update_of_ne hj]
    exact h j

/-- The phases after goroutine `i` has the steps `l` left. -/
theorem phases_update (known held : Finset ℕ) (s : System ι) (i : ι) (l : List Instr)
    (log : List (ℕ × Bool)) :
    (⟨known, held, Function.update s.pc i l, log⟩ : System ι).phases
      = Function.update s.phases i (phase l) := by
  funext j
  show phase (Function.update s.pc i l j) = _
  by_cases hj : j = i
  · rw [hj, Function.update_self, Function.update_self]
  · rw [Function.update_of_ne hj, Function.update_of_ne hj]
    rfl

/-- A goroutine that has the steps `l` left keeps the invariant, if the stores and its new
    phase are `Safe`. -/
theorem Inv.moved {s : System ι} (h : Inv s) (i : ι) {l : List Instr} (hl : Left l)
    {known held : Finset ℕ} {log : List (ℕ × Bool)} (hlog : ∀ e ∈ log, e.2 = true)
    (hsafe : Safe known held (Function.update s.phases i (phase l))) :
    Inv ⟨known, held, Function.update s.pc i l, log⟩ := by
  refine ⟨left_update h.left i hl, hlog, ?_⟩
  rw [phases_update]
  exact hsafe

/-- One step of a goroutine. -/
theorem exec_inv {s : System ι} (hi : Inv s) {i : ι} {instr : Instr} {rest : List Instr}
    (hpc : s.pc i = instr :: rest) (hok : Exclusive s (.next i)) : Inv (exec s i rest instr) := by
  have hl := hi.left i
  have hphase : s.phases i = phase (instr :: rest) := congrArg phase hpc
  have hmay : MayEnter s.phases i (s.pc i) := hok
  rw [hpc] at hl hmay
  cases hl with
  | between h =>
    cases h with
    | write id h =>
      simp only [exec]
      split
      · rename_i hknown
        exact hi.moved i (.writing id h) hi.log (hi.safe.enter_write hphase hmay hknown)
      · rename_i hknown
        exact hi.moved i (.creating id h) hi.log (hi.safe.enter_create hphase hmay hknown)
    | delete id n h =>
      exact hi.moved i (.deleting id n h) hi.log (hi.safe.enter_delete hphase hmay)
  | creating id h => exact hi.moved i (.writing id h) hi.log (hi.safe.created hphase)
  | writing id h =>
    -- the database has the shard
    have hheld := (hi.safe.writing i id hphase).2
    simp only [exec, if_pos hheld]
    refine hi.moved i (.between h) ?_ ?_
    · intro e he
      rw [List.mem_append, List.mem_singleton] at he
      rcases he with he | rfl
      · exact hi.log e he
      · exact decide_eq_true hheld
    · rw [h.phase_eq]
      exact hi.safe.leave_write hphase
  | deleting id n h =>
    obtain ⟨hl, hp⟩ := left_of_replicate id n h
    exact hi.moved i hl hi.log (hi.safe.deleted hphase hp)

theorem step_inv {s s' : System ι} {a : Act ι} (hi : Inv s) (hok : Exclusive s a)
    (hstep : step s a = some s') : Inv s' := by
  cases a with
  | call i c =>
    simp only [step] at hstep
    split at hstep
    · rename_i hpc
      cases hstep
      refine hi.moved i (.between (between_program c)) hi.log ?_
      -- it was outside of every shard, and is
      have hphase : s.phases i = .outside := congrArg phase hpc
      rw [(between_program c).phase_eq, ← hphase, Function.update_eq_self]
      exact hi.safe
    · cases hstep
  | next i =>
    simp only [step] at hstep
    split at hstep
    · cases hstep
    · rename_i instr rest hpc
      cases hstep
      exact exec_inv hi hpc hok

/-- **Writes with exclusive entry.** If nobody enters a shard while another goroutine creates
    or deletes it, or deletes it while another is at it, then every write is to a shard that
    the database has, and the adapter and the database have the same shards whenever no
    call is in progress. -/
theorem exclusive_writes_held {acts : List (Act ι)} {s : System ι}
    (hok : Meets step Exclusive (init ι) acts) (hrun : run step (init ι) acts = some s) :
    (∀ e ∈ s.log, e.2 = true) ∧ (s.Quiet → s.known = s.held) := by
  have hinit : Inv (init ι) := by
    refine ⟨fun i => .between .nil, by simp [init], ?_⟩
    constructor <;> simp [init, System.phases, phase]
  have hinv := run_invariant step (fun _ _ _ => step_inv) hinit hok hrun
  refine ⟨hinv.log, fun hquiet => Finset.ext fun id => hinv.safe.same id fun i => ?_⟩
  have hphase : s.phases i = .outside := by
    unfold System.phases
    rw [hquiet i]
    rfl
  rw [hphase]
  exact ⟨nofun, nofun⟩

/-- A call of `WritePoints` with one point of the first day of 1970. -/
def writeEpoch : Call := .writePoints ⟨fun keys => keys, fun _ => .refl _⟩ [⟨[], 0, ∅⟩]

/-- Two writers of one shard, the second after the first has created it, and a deletion
    after both. -/
def politeRun : List (Act Bool) :=
  [.call false writeEpoch, .call true writeEpoch, .next false, .next false, .next true,
    .next false, .next true, .call false (.deleteOldest [0]), .call true writeEpoch, .next false,
    .next false, .next false, .next true, .next true, .next true]

theorem exclusive_writes_held_politeRun :
    ∃ s, run step (init Bool) politeRun = some s ∧ s.log.length = 3 ∧
      (∀ e ∈ s.log, e.2 = true) ∧ s.known = s.held := by
  have hall : Meets step Exclusive (init Bool) politeRun ∧
      ∃ s ∈ run step (init Bool) politeRun, s.log.length = 3 ∧ s.Quiet := by decide
  obtain ⟨hok, s, hrun, hlength, hquiet⟩ := hall
  obtain ⟨hlog, hsame⟩ := exclusive_writes_held hok hrun
  exact ⟨s, hrun, hlength, hlog, hsame hquiet⟩

/-- **A write to a shard that is not there.** Of two writers of a new shard the second finds
    it in the map and writes to it before the first has created it. And if the shard is
    deleted between the two steps of its creation, then at the end the database has a shard
    that the adapter does not know. -/
theorem write_to_missing_shard :
    (∃ s, run step (init Bool) [.call false writeEpoch, .call true writeEpoch, .next false,
        .next true, .next true] = some s ∧ s.log = [(0, false)]) ∧
    ∃ s, run step (init Bool) [.call false writeEpoch, .call true (.delete 0), .next false,
        .next true, .next true, .next false, .next false] = some s ∧
      s.Quiet ∧ s.known = ∅ ∧ s.held = {0} := by
  have hall : (∃ s ∈ run step (init Bool) [.call false writeEpoch, .call true writeEpoch,
        .next false, .next true, .next true], s.log = [(0, false)]) ∧
      ∃ s ∈ run step (init Bool) [.call false writeEpoch, .call true (.delete 0), .next false,
        .next true, .next true, .next false, .next false],
      s.Quiet ∧ s.known = ∅ ∧ s.held = {0} := by decide
  exact hall

end MetricStore.Persistence.ShardRaces
