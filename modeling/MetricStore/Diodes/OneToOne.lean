import MetricStore.Common.Run

/-!
# The diode

Model of `OneToOne` (`vendor/code.cloudfoundry.org/go-diodes/one_to_one.go`), a ring buffer
for one writer and one reader. The writer never waits. If it laps the reader, the reader
notices it by the sequence number in the slot, reports how many values it has missed, and
goes on from there. `RemoteAppender`, `Batcher` and `Nozzle` hand their points and envelopes
over in diodes.

Each operation accesses the slots once: `Set` with `atomic.StorePointer` (line 66) and
`TryNext` with `atomic.SwapPointer` (line 74). `writeIndex` belongs to the writer and
`readIndex` to the reader. So the atomic steps are the part of `Set` before the store, the
store, the swap, and the part of `TryNext` after it (`Act`).

The purpose of a diode is a `LossyQueue`: a read with a backlog of `b > 0` values skips
`size * ((b - 1) / size)` of them, which is no value if `b ≤ size`.

Results:
* `Machine.step_rep`: every interleaving is one of a `LossyQueue`, where a `Set` counts from
  its store on and a `TryNext` from its swap on.
* `diode_conserves`: what `TryNext` returns are values that were set, in order and each
  once, and every value before the last returned one was returned or reported as missed.
-/

namespace MetricStore.Diodes

open MetricStore.Common

/-! ## Specification -/

/-- What a call of `TryNext` gives: the value, unless it returns `false`, and the number passed
    to `Alert`, if it is called. -/
structure Reply (α : Type*) where
  data : Option α
  alert : Option ℤ
  deriving DecidableEq, Repr

/-- A queue whose reader skips values if it is too far behind: the values written, how many
    of them are behind the reader, and what its reads have given. -/
structure LossyQueue (α : Type*) where
  written : List α
  read : ℕ
  replies : List (Reply α)

namespace LossyQueue

variable {α : Type*}

def start : LossyQueue α := ⟨[], 0, []⟩

def write (q : LossyQueue α) (data : α) : LossyQueue α :=
  { q with written := q.written ++ [data] }

/-- The values that the next read skips: all laps before the one with the last value. -/
def missed (size : ℕ) (q : LossyQueue α) : ℕ :=
  size * ((q.written.length - q.read - 1) / size)

/-- What the next read gives. -/
def nextReply (size : ℕ) (q : LossyQueue α) : Reply α where
  data := q.written[q.read + q.missed size]?
  alert := if q.missed size = 0 then none else some (q.missed size)

def tryNext (size : ℕ) (q : LossyQueue α) : LossyQueue α where
  written := q.written
  read := if q.read < q.written.length then q.read + q.missed size + 1 else q.read
  replies := q.replies ++ [q.nextReply size]

/-- The values that reads have returned, and how many have been reported as missed. -/
def returned (replies : List (Reply α)) : List α := replies.filterMap Reply.data

def reported (replies : List (Reply α)) : ℤ := (replies.filterMap Reply.alert).sum

/-- Every value behind the reader was returned or reported. -/
structure Accounted (q : LossyQueue α) : Prop where
  read_le : q.read ≤ q.written.length
  returned : (returned q.replies).Sublist (q.written.take q.read)
  count : (LossyQueue.returned q.replies).length + reported q.replies = q.read
  nonneg : ∀ r ∈ q.replies, 0 ≤ r.alert.getD 0

theorem returned_concat (replies : List (Reply α)) (r : Reply α) :
    returned (replies ++ [r]) = returned replies ++ r.data.toList := by
  unfold returned
  rw [List.filterMap_append]
  cases h : r.data <;> simp [h]

theorem reported_concat (replies : List (Reply α)) (r : Reply α) :
    reported (replies ++ [r]) = reported replies + r.alert.getD 0 := by
  unfold reported
  rw [List.filterMap_append, List.sum_append]
  cases h : r.alert <;> simp [h]

theorem nextReply_alert (size : ℕ) (q : LossyQueue α) :
    (q.nextReply size).alert.getD 0 = q.missed size := by
  unfold nextReply
  split_ifs with h
  · simp [h]
  · rfl

/-- The value that a read returns was written. -/
theorem read_add_missed_lt (size : ℕ) {q : LossyQueue α} (h : q.read < q.written.length) :
    q.read + q.missed size < q.written.length := by
  have hle : q.missed size ≤ q.written.length - q.read - 1 := Nat.mul_div_le _ _
  omega

/-- The value that a read returns is one of the last `size` values. -/
theorem length_le_read_add_missed {size : ℕ} (hsize : 0 < size) (q : LossyQueue α) :
    q.written.length ≤ q.read + q.missed size + size := by
  have hdiv := Nat.div_add_mod (q.written.length - q.read - 1) size
  have hmod := Nat.mod_lt (q.written.length - q.read - 1) hsize
  unfold missed
  omega

theorem missed_eq_zero {size : ℕ} {q : LossyQueue α} (h : q.written.length ≤ q.read + size) :
    q.missed size = 0 := by
  rcases Nat.eq_zero_or_pos size with rfl | hsize
  · exact Nat.zero_mul _
  · have hdiv : (q.written.length - q.read - 1) / size = 0 := Nat.div_eq_of_lt (by omega)
    rw [missed, hdiv, Nat.mul_zero]

theorem nextReply_of_read_eq {size : ℕ} {q : LossyQueue α} (h : q.read = q.written.length) :
    q.nextReply size = ⟨none, none⟩ := by
  have hmissed : q.missed size = 0 := missed_eq_zero (by omega)
  simp [nextReply, hmissed, h]

theorem read_tryNext_of_lt (size : ℕ) {q : LossyQueue α} (h : q.read < q.written.length) :
    (q.tryNext size).read = q.read + q.missed size + 1 :=
  if_pos h

theorem read_tryNext_of_eq (size : ℕ) {q : LossyQueue α} (h : q.read = q.written.length) :
    (q.tryNext size).read = q.read :=
  if_neg (by omega)

theorem start_accounted : (start : LossyQueue α).Accounted :=
  ⟨Nat.le_refl 0, List.Sublist.refl [], rfl, nofun⟩

theorem Accounted.write {q : LossyQueue α} (h : q.Accounted) (data : α) :
    (q.write data).Accounted := by
  refine ⟨?_, ?_, h.count, h.nonneg⟩
  · have hle := h.read_le
    show q.read ≤ (q.written ++ [data]).length
    rw [List.length_append]
    omega
  · show (LossyQueue.returned q.replies).Sublist ((q.written ++ [data]).take q.read)
    rw [List.take_append_of_le_length h.read_le]
    exact h.returned

theorem Accounted.tryNext {q : LossyQueue α} (h : q.Accounted) (size : ℕ) :
    (q.tryNext size).Accounted := by
  have hreturned : LossyQueue.returned (q.tryNext size).replies =
      LossyQueue.returned q.replies ++ (q.nextReply size).data.toList := returned_concat _ _
  have hreported : reported (q.tryNext size).replies = reported q.replies + q.missed size := by
    rw [← nextReply_alert]
    exact reported_concat _ _
  have hcount := h.count
  have hnonneg : ∀ r ∈ (q.tryNext size).replies, 0 ≤ r.alert.getD 0 := by
    intro r hr
    rcases List.mem_append.mp hr with hr | hr
    · exact h.nonneg r hr
    · obtain rfl := List.mem_singleton.mp hr
      rw [nextReply_alert]
      exact Int.natCast_nonneg _
  rcases Nat.lt_or_ge q.read q.written.length with hlt | hge
  · have hpos := read_add_missed_lt size hlt
    have hread := read_tryNext_of_lt size hlt
    have hdata : q.written[q.read + q.missed size]? = some q.written[q.read + q.missed size] :=
      List.getElem?_eq_getElem hpos
    rw [nextReply, hdata] at hreturned
    refine ⟨?_, ?_, ?_, hnonneg⟩
    · rw [hread]
      exact hpos
    · show (LossyQueue.returned _).Sublist (q.written.take _)
      rw [hreturned, hread, List.take_add_one, hdata]
      apply List.Sublist.append _ (List.Sublist.refl _)
      exact h.returned.trans (List.take_sublist_take_left (Nat.le_add_right _ _))
    · rw [hreturned, hreported, hread, List.length_append, Option.toList_some,
        List.length_singleton]
      push_cast
      omega
  · have heq : q.read = q.written.length := by have := h.read_le; omega
    have hread := read_tryNext_of_eq size heq
    have hmissed : q.missed size = 0 := missed_eq_zero (by omega)
    rw [nextReply_of_read_eq heq, Option.toList_none, List.append_nil] at hreturned
    refine ⟨?_, ?_, ?_, hnonneg⟩
    · rw [hread]
      exact h.read_le
    · rw [hreturned, hread]
      exact h.returned
    · rw [hreturned, hreported, hread, hmissed]
      simpa using hcount

end LossyQueue

/-! ## Model -/

/-- `bucket` (lines 26–29). -/
structure Bucket (α : Type*) where
  data : α
  seq : UInt64

/-- `OneToOne` (lines 33–38). The length of `buffer` is `size`; a slot may be nil. -/
structure OneToOne (α : Type*) (size : ℕ) where
  buffer : Fin size → Option (Bucket α)
  writeIndex : UInt64
  readIndex : UInt64

namespace OneToOne

variable {α : Type*} {size : ℕ} [NeZero size]

/-- `NewOneToOne` (lines 44–53). -/
def newOneToOne : OneToOne α size := ⟨fun _ => none, 0, 0⟩

/-- The slot of a position of the stream of values. -/
def slot (size : ℕ) [NeZero size] (position : ℕ) : Fin size := Fin.ofNat size position

/-- `Set` up to the store (lines 57–63): the slot, the new bucket, and the next `writeIndex`. -/
def newBucket (d : OneToOne α size) (data : α) : (Fin size × Bucket α) × OneToOne α size :=
  ((slot size d.writeIndex.toNat, ⟨data, d.writeIndex⟩),
    { d with writeIndex := d.writeIndex + 1 })

/-- `atomic.StorePointer` (line 65). -/
def storePointer (d : OneToOne α size) (idx : Fin size) (bucket : Bucket α) : OneToOne α size :=
  { d with buffer := Function.update d.buffer idx (some bucket) }

/-- `Set` (lines 56–66). -/
def set (d : OneToOne α size) (data : α) : OneToOne α size :=
  let r := d.newBucket data
  r.2.storePointer r.1.1 r.1.2

/-- `atomic.SwapPointer` (lines 72–73). -/
def swapPointer (d : OneToOne α size) : Option (Bucket α) × OneToOne α size :=
  let idx := slot size d.readIndex.toNat
  (d.buffer idx, { d with buffer := Function.update d.buffer idx none })

/-- `TryNext` after the swap (lines 75–128): what it gives, and the new `readIndex`.
    `int(dropped)` is a conversion of `uint64` to `int`. -/
def evaluate (readIndex : UInt64) : Option (Bucket α) → Reply α × UInt64
  | none => (⟨none, none⟩, readIndex)
  | some result =>
    if result.seq < readIndex then (⟨none, none⟩, readIndex)
    else if result.seq > readIndex then
      let dropped := result.seq - readIndex
      (⟨some result.data, some dropped.toInt64.toInt⟩, result.seq + 1)
    else (⟨some result.data, none⟩, readIndex + 1)

/-- `TryNext` (lines 70–129). -/
def tryNext (d : OneToOne α size) : Reply α × OneToOne α size :=
  let r := d.swapPointer
  let e := evaluate d.readIndex r.1
  (e.1, { r.2 with readIndex := e.2 })

end OneToOne

/-- A diode with its writer and its reader: what the writer is about to store, and what the
    reader has swapped out. Then what has happened: the values passed to `Set`, and what the
    calls of `TryNext` that have returned have given. -/
structure Machine (α : Type*) (size : ℕ) where
  diode : OneToOne α size
  storing : Option (Fin size × Bucket α)
  swapped : Option (Option (Bucket α))
  calls : List α
  replies : List (Reply α)

/-- The steps of the writer (`set`, `store`) and of the reader (`swap`, `finish`). -/
inductive Act (α : Type*)
  | set (data : α)
  | store
  | swap
  | finish
  deriving DecidableEq, Repr

namespace Machine

variable {α : Type*} {size : ℕ} [NeZero size]

def start : Machine α size := ⟨.newOneToOne, none, none, [], []⟩

/-- A step; `none` if the writer or the reader is not at it. -/
def step (m : Machine α size) : Act α → Option (Machine α size)
  | .set data =>
    match m.storing with
    | some _ => none
    | none =>
      let r := m.diode.newBucket data
      some { m with diode := r.2, storing := some r.1, calls := m.calls ++ [data] }
  | .store =>
    match m.storing with
    | none => none
    | some (idx, bucket) =>
      some { m with diode := m.diode.storePointer idx bucket, storing := none }
  | .swap =>
    match m.swapped with
    | some _ => none
    | none =>
      let r := m.diode.swapPointer
      some { m with diode := r.2, swapped := some r.1 }
  | .finish =>
    match m.swapped with
    | none => none
    | some result =>
      let r := OneToOne.evaluate m.diode.readIndex result
      some { m with
        diode := { m.diode with readIndex := r.2 }
        swapped := none
        replies := m.replies ++ [r.1] }

end Machine

/-! ## The slots -/

section Cells

variable {α : Type*} {size : ℕ} [NeZero size]

open OneToOne (slot)

theorem slot_add_mul (s k : ℕ) : slot size (s + size * k) = slot size s := by
  apply Fin.ext
  show (s + size * k) % size = s % size
  exact Nat.add_mul_mod_self_left s size k

/-- Positions less than a lap apart have different slots. -/
theorem slot_ne {s t : ℕ} (hlt : s < t) (hnear : t < s + size) : slot size s ≠ slot size t := by
  intro heq
  have hmod : t % size = s % size := (Fin.ext_iff.mp heq).symm
  have hdvd : size ∣ t - s := Nat.dvd_of_mod_eq_zero (Nat.sub_mod_eq_zero_of_mod_eq hmod)
  have hle := Nat.le_of_dvd (by omega) hdvd
  omega

/-- The slots after the values `written`, of which `read` are behind the reader: the last lap is
    there as far as it is not, and there is nothing else than values of the last lap. -/
structure Cells (buffer : Fin size → Option (Bucket α)) (written : List α) (read : ℕ) :
    Prop where
  unread : ∀ s a, written[s]? = some a → read ≤ s → written.length ≤ s + size →
    buffer (slot size s) = some ⟨a, UInt64.ofNat s⟩
  latest : ∀ i b, buffer i = some b → ∃ s, written[s]? = some b.data ∧ b.seq = UInt64.ofNat s ∧
    slot size s = i ∧ written.length ≤ s + size

variable {buffer : Fin size → Option (Bucket α)} {written : List α} {read : ℕ}

theorem Cells.store (h : Cells buffer written read) (a : α) :
    Cells (Function.update buffer (slot size written.length)
      (some ⟨a, UInt64.ofNat written.length⟩)) (written ++ [a]) read := by
  have hlength : (written ++ [a]).length = written.length + 1 := by simp
  constructor
  · intro s b hs hread hlap
    rw [hlength] at hlap
    rcases Nat.lt_or_ge s written.length with hlt | hge
    · rw [List.getElem?_append_left hlt] at hs
      rw [Function.update_of_ne (slot_ne hlt (by omega))]
      exact h.unread s b hs hread (by omega)
    · -- the value just stored
      have hs' : s = written.length := by
        have := (List.getElem?_eq_some_iff.mp hs).1
        omega
      subst hs'
      rw [List.getElem?_concat_length] at hs
      cases hs
      exact Function.update_self _ _ _
  · intro i b hb
    by_cases hi : i = slot size written.length
    · subst hi
      rw [Function.update_self] at hb
      cases hb
      have hsize := Nat.pos_of_neZero size
      exact ⟨written.length, List.getElem?_concat_length, rfl, rfl, by omega⟩
    · rw [Function.update_of_ne hi] at hb
      obtain ⟨s, hs, hseq, hslot, hlap⟩ := h.latest i b hb
      have hlt := (List.getElem?_eq_some_iff.mp hs).1
      refine ⟨s, ?_, hseq, hslot, ?_⟩
      · rw [List.getElem?_append_left hlt]
        exact hs
      · -- the value that was a lap before was in the slot of the new one
        have hne : written.length ≠ s + size := by
          intro heq
          apply hi
          rw [← hslot, heq]
          have hlap : slot size (s + size * 1) = slot size s := slot_add_mul s 1
          rw [Nat.mul_one] at hlap
          exact hlap.symm
        omega

/-- What is read from the slot at `read` does not have to be there any more. -/
theorem Cells.swap (h : Cells buffer written read) {read' : ℕ} (hle : read ≤ read')
    (hskip : ∀ s, read' ≤ s → s < written.length → written.length ≤ s + size →
      slot size s ≠ slot size read) :
    Cells (Function.update buffer (slot size read) none) written read' := by
  constructor
  · intro s a hs hread hlap
    have hlt := (List.getElem?_eq_some_iff.mp hs).1
    rw [Function.update_of_ne (hskip s hread hlt hlap)]
    exact h.unread s a hs (by omega) hlap
  · intro i b hb
    have hi : i ≠ slot size read := by
      rintro rfl
      rw [Function.update_self] at hb
      cases hb
    rw [Function.update_of_ne hi] at hb
    exact h.latest i b hb

end Cells

/-! ## A read -/

/-- Below this number no index and no conversion of an index wraps around. -/
def indexLimit : ℕ := 2 ^ 63

theorem toNat_ofNat {n : ℕ} (h : n < indexLimit) : (UInt64.ofNat n).toNat = n := by
  apply UInt64.toNat_ofNat_of_lt'
  unfold indexLimit at h
  show n < 2 ^ 64
  omega

theorem ofNat_lt_ofNat {m n : ℕ} (hm : m < indexLimit) (hn : n < indexLimit) :
    UInt64.ofNat m < UInt64.ofNat n ↔ m < n := by
  rw [UInt64.lt_iff_toNat_lt, toNat_ofNat hm, toNat_ofNat hn]

theorem toInt_sub_ofNat {m n : ℕ} (hle : m ≤ n) (hn : n < indexLimit) :
    (UInt64.ofNat n - UInt64.ofNat m).toInt64.toInt = (n : ℤ) - m := by
  have hsub : UInt64.ofNat n - UInt64.ofNat m = UInt64.ofNat (n - m) := by
    apply UInt64.toNat_inj.mp
    have hm : (UInt64.ofNat m).toNat ≤ (UInt64.ofNat n).toNat := by
      rw [toNat_ofNat (by omega), toNat_ofNat hn]
      exact hle
    rw [UInt64.toNat_sub_of_le _ _ (UInt64.le_iff_toNat_le.mpr hm), toNat_ofNat hn,
      toNat_ofNat (by omega), toNat_ofNat (by omega)]
  have hlt : n - m < 2 ^ 63 := by
    unfold indexLimit at hn
    omega
  have hconv : (UInt64.ofNat (n - m)).toInt64 = Int64.ofNat (n - m) := rfl
  rw [hsub, hconv, Int64.toInt_ofNat_of_lt hlt, Nat.cast_sub hle]

section Read

variable {α : Type*} {size : ℕ} [NeZero size] {buffer : Fin size → Option (Bucket α)}
  {q : LossyQueue α}

open OneToOne (slot evaluate)

/-- There is nothing to read: the slot is empty, or has a value that was missed. -/
theorem Cells.evaluate_nothing (h : Cells buffer q.written q.read)
    (heq : q.read = q.written.length) (hlimit : q.written.length < indexLimit) :
    evaluate (UInt64.ofNat q.read) (buffer (slot size q.read)) =
      (⟨none, none⟩, UInt64.ofNat q.read) := by
  cases hb : buffer (slot size q.read) with
  | none => rfl
  | some b =>
    obtain ⟨s, hs, hseq, -, -⟩ := h.latest _ b hb
    have hlt := (List.getElem?_eq_some_iff.mp hs).1
    have hstale : b.seq < UInt64.ofNat q.read := by
      rw [hseq, ofNat_lt_ofNat (by omega) (by omega)]
      omega
    rw [evaluate, if_pos hstale]

/-- The slot has the first value of the last lap. -/
theorem Cells.evaluate_next (h : Cells buffer q.written q.read)
    (hlt : q.read < q.written.length) (hlimit : q.written.length < indexLimit) :
    evaluate (UInt64.ofNat q.read) (buffer (slot size q.read)) =
      (q.nextReply size, UInt64.ofNat (q.read + q.missed size + 1)) := by
  have hpos := LossyQueue.read_add_missed_lt size hlt
  have hdata : q.written[q.read + q.missed size]? = some q.written[q.read + q.missed size] :=
    List.getElem?_eq_getElem hpos
  have hcell := h.unread _ _ hdata (Nat.le_add_right _ _)
    (LossyQueue.length_le_read_add_missed (Nat.pos_of_neZero size) q)
  have hslot : slot size (q.read + q.missed size) = slot size q.read := slot_add_mul _ _
  rw [hslot] at hcell
  have hnot : ¬ UInt64.ofNat (q.read + q.missed size) < UInt64.ofNat q.read := by
    rw [ofNat_lt_ofNat (by omega) (by omega)]
    omega
  have hreply : q.nextReply size = ⟨some q.written[q.read + q.missed size],
      if q.missed size = 0 then none else some (q.missed size : ℤ)⟩ := by
    rw [LossyQueue.nextReply, hdata]
  have hnext : UInt64.ofNat (q.read + q.missed size + 1) =
      UInt64.ofNat (q.read + q.missed size) + 1 := UInt64.ofNat_add _ 1
  rw [hcell, evaluate, if_neg hnot, hreply, hnext]
  by_cases hzero : q.missed size = 0
  · have hsame : UInt64.ofNat (q.read + q.missed size) = UInt64.ofNat q.read := by rw [hzero]; rfl
    rw [hsame, if_neg (UInt64.lt_irrefl _), if_pos hzero]
  · have hgt : UInt64.ofNat (q.read + q.missed size) > UInt64.ofNat q.read := by
      rw [gt_iff_lt, ofNat_lt_ofNat (by omega) (by omega)]
      omega
    have hdropped := toInt_sub_ofNat (m := q.read) (Nat.le_add_right _ (q.missed size))
      (by omega : q.read + q.missed size < indexLimit)
    rw [if_pos hgt, if_neg hzero]
    dsimp only
    rw [hdropped]
    push_cast
    rw [add_sub_cancel_left]

/-- The swap is a read of the queue. -/
theorem Cells.tryNext (h : Cells buffer q.written q.read) (hle : q.read ≤ q.written.length)
    (hlimit : q.written.length < indexLimit) :
    evaluate (UInt64.ofNat q.read) (buffer (slot size q.read)) =
        (q.nextReply size, UInt64.ofNat (q.tryNext size).read) ∧
      Cells (Function.update buffer (slot size q.read) none) q.written (q.tryNext size).read := by
  rcases Nat.lt_or_ge q.read q.written.length with hlt | hge
  · rw [LossyQueue.read_tryNext_of_lt size hlt]
    refine ⟨h.evaluate_next hlt hlimit, h.swap (by omega) fun s hs hs' hlap => ?_⟩
    -- the values that are left are less than a lap after the one that was read
    have hslot : slot size (q.read + q.missed size) = slot size q.read := slot_add_mul _ _
    have hlast := LossyQueue.length_le_read_add_missed (Nat.pos_of_neZero size) q
    rw [← hslot]
    exact (slot_ne (by omega) (by omega)).symm
  · have heq : q.read = q.written.length := by omega
    rw [LossyQueue.read_tryNext_of_eq size heq, LossyQueue.nextReply_of_read_eq heq]
    refine ⟨h.evaluate_nothing heq hlimit, h.swap (Nat.le_refl _) fun s hs hs' _ => ?_⟩
    omega

end Read

/-! ## Interleavings -/

/-- The operations of a queue. -/
inductive Op (α : Type*)
  | write (data : α)
  | tryNext

def LossyQueue.apply {α : Type*} (size : ℕ) (q : LossyQueue α) : Op α → LossyQueue α
  | .write data => q.write data
  | .tryNext => q.tryNext size

/-- The operations of the queue in an interleaving of the steps of a diode: a value is written
    when it is stored, and read when it is swapped out. `pending` is the value that is about to
    be stored. -/
def linearize {α : Type*} : Option α → List (Act α) → List (Op α)
  | _, [] => []
  | _, .set data :: acts => linearize (some data) acts
  | pending, .store :: acts => (pending.map Op.write).toList ++ linearize none acts
  | pending, .swap :: acts => .tryNext :: linearize pending acts
  | pending, .finish :: acts => linearize pending acts

namespace Machine

variable {α : Type*} {size : ℕ} [NeZero size] {m m' : Machine α size} {q : LossyQueue α}
  {a : Act α}

open OneToOne (slot evaluate)

/-- Everything a step can do. -/
theorem step_cases (h : m.step a = some m') :
    (∃ data, a = .set data ∧ m.storing = none ∧ m' = { m with
      diode := { m.diode with writeIndex := m.diode.writeIndex + 1 }
      storing := some (slot size m.diode.writeIndex.toNat, ⟨data, m.diode.writeIndex⟩)
      calls := m.calls ++ [data] }) ∨
    (∃ idx bucket, a = .store ∧ m.storing = some (idx, bucket) ∧ m' = { m with
      diode := m.diode.storePointer idx bucket
      storing := none }) ∨
    (a = .swap ∧ m.swapped = none ∧ m' = { m with
      diode := { m.diode with
        buffer := Function.update m.diode.buffer (slot size m.diode.readIndex.toNat) none }
      swapped := some (m.diode.buffer (slot size m.diode.readIndex.toNat)) }) ∨
    ∃ result, a = .finish ∧ m.swapped = some result ∧ m' = { m with
      diode := { m.diode with readIndex := (evaluate m.diode.readIndex result).2 }
      swapped := none
      replies := m.replies ++ [(evaluate m.diode.readIndex result).1] } := by
  cases a with
  | set data =>
    simp only [step] at h
    split at h
    · cases h
    · next hnone => exact .inl ⟨data, rfl, hnone, (Option.some.inj h).symm⟩
  | store =>
    simp only [step] at h
    split at h
    · cases h
    · next idx bucket hsome => exact .inr (.inl ⟨idx, bucket, rfl, hsome, (Option.some.inj h).symm⟩)
  | swap =>
    simp only [step] at h
    split at h
    · cases h
    · next hnone => exact .inr (.inr (.inl ⟨rfl, hnone, (Option.some.inj h).symm⟩))
  | finish =>
    simp only [step] at h
    split at h
    · cases h
    · next result hsome =>
      exact .inr (.inr (.inr ⟨result, rfl, hsome, (Option.some.inj h).symm⟩))

/-- The value that is about to be stored. -/
def pending (m : Machine α size) : Option α := m.storing.map fun s => s.2.data

/-- The writer is between two calls, or is about to store the next value. -/
def Writes (m : Machine α size) (q : LossyQueue α) : Prop :=
  match m.storing with
  | none => m.calls = q.written
  | some (idx, bucket) => m.calls = q.written ++ [bucket.data] ∧
      idx = slot size q.written.length ∧ bucket.seq = UInt64.ofNat q.written.length

/-- The reader is between two calls, or has still to return what it has read. -/
def Reads (m : Machine α size) (q : LossyQueue α) : Prop :=
  match m.swapped with
  | none => m.diode.readIndex = UInt64.ofNat q.read ∧ m.replies = q.replies
  | some result => ∃ reply, evaluate m.diode.readIndex result = (reply, UInt64.ofNat q.read) ∧
      q.replies = m.replies ++ [reply]

/-- The diode stands for the queue. -/
structure Rep (m : Machine α size) (q : LossyQueue α) : Prop where
  cells : Cells m.diode.buffer q.written q.read
  accounted : q.Accounted
  writeIndex : m.diode.writeIndex = UInt64.ofNat m.calls.length
  writes : m.Writes q
  reads : m.Reads q

theorem start_rep : (start : Machine α size).Rep .start where
  cells := ⟨fun _ _ hs => absurd hs (by simp [LossyQueue.start]), fun _ _ hb => by cases hb⟩
  accounted := LossyQueue.start_accounted
  writeIndex := rfl
  writes := rfl
  reads := ⟨rfl, rfl⟩

theorem Rep.written_append (h : m.Rep q) : q.written ++ m.pending.toList = m.calls := by
  have hwrites := h.writes
  unfold Writes at hwrites
  unfold pending
  cases hs : m.storing with
  | none =>
    rw [hs] at hwrites
    rw [hwrites]
    simp
  | some s =>
    rw [hs] at hwrites
    exact hwrites.1.symm

theorem Rep.written_le (h : m.Rep q) : q.written.length ≤ m.calls.length := by
  rw [← h.written_append, List.length_append]
  omega

/-- The queue has at most one read more than the calls of `TryNext` that have returned. -/
theorem Rep.replies (h : m.Rep q) :
    ∃ last : Option (Reply α), q.replies = m.replies ++ last.toList ∧
      (m.swapped = none → last = none) := by
  have hreads := h.reads
  unfold Reads at hreads
  cases hs : m.swapped with
  | none =>
    rw [hs] at hreads
    exact ⟨none, by simp [hreads.2], fun _ => rfl⟩
  | some result =>
    rw [hs] at hreads
    obtain ⟨reply, -, hreplies⟩ := hreads
    exact ⟨some reply, hreplies, nofun⟩

theorem Rep.returned_sublist (h : m.Rep q) :
    (LossyQueue.returned m.replies).Sublist m.calls := by
  obtain ⟨last, hreplies, -⟩ := h.replies
  have hinitial : (LossyQueue.returned m.replies).Sublist (LossyQueue.returned q.replies) := by
    rw [hreplies]
    exact (List.sublist_append_left _ _).filterMap _
  rw [← h.written_append]
  exact (hinitial.trans (h.accounted.returned.trans (List.take_sublist _ _))).trans
    (List.sublist_append_left _ _)

/-- Between two calls of `TryNext`, the reader's index is the number of values behind it. -/
theorem Rep.readIndex (h : m.Rep q) (hswapped : m.swapped = none)
    (hlimit : m.calls.length < indexLimit) : m.diode.readIndex.toNat = q.read := by
  have hreads := h.reads
  have hread := h.accounted.read_le
  have hwritten := h.written_le
  unfold Reads at hreads
  rw [hswapped] at hreads
  rw [hreads.1]
  exact toNat_ofNat (by omega)

theorem Rep.count (h : m.Rep q) (hswapped : m.swapped = none) :
    ((LossyQueue.returned m.replies).length : ℤ) + LossyQueue.reported m.replies = q.read := by
  obtain ⟨last, hreplies, hlast⟩ := h.replies
  rw [hlast hswapped, Option.toList_none, List.append_nil] at hreplies
  rw [← hreplies]
  exact h.accounted.count

/-- If nothing was missed, the values returned are the first ones. -/
theorem Rep.returned_isPrefix (h : m.Rep q) (hswapped : m.swapped = none)
    (hnone : LossyQueue.reported m.replies = 0) : LossyQueue.returned m.replies <+: m.calls := by
  have hcount := h.count hswapped
  obtain ⟨last, hreplies, hlast⟩ := h.replies
  rw [hlast hswapped, Option.toList_none, List.append_nil] at hreplies
  have hreturned := h.accounted.returned
  rw [hreplies] at hreturned
  have heq : LossyQueue.returned m.replies = q.written.take q.read := by
    apply hreturned.eq_of_length
    rw [List.length_take_of_le h.accounted.read_le]
    omega
  rw [heq, ← h.written_append]
  have htake : q.written.take q.read <+: q.written := List.take_prefix _ _
  exact htake.trans (List.prefix_append _ _)

/-- **A step of the writer or the reader.** Only a store and a swap change the queue. -/
theorem step_rep (h : m.Rep q) (hlimit : m.calls.length < indexLimit)
    (hstep : m.step a = some m') :
    m'.Rep ((linearize m.pending [a]).foldl (LossyQueue.apply size) q) := by
  have hwrites := h.writes
  have hreads := h.reads
  have hle := h.written_le
  unfold Writes at hwrites
  unfold Reads at hreads
  obtain ⟨data, rfl, hnone, rfl⟩ | ⟨idx, bucket, rfl, hsome, rfl⟩ | ⟨rfl, hnone, rfl⟩ |
    ⟨result, rfl, hsome, rfl⟩ := step_cases hstep
  · rw [hnone] at hwrites
    refine ⟨h.cells, h.accounted, ?_, ?_, hreads⟩
    · show m.diode.writeIndex + 1 = _
      rw [h.writeIndex, List.length_append, List.length_singleton, UInt64.ofNat_add]
      rfl
    · show m.calls ++ [data] = q.written ++ [data] ∧ slot size m.diode.writeIndex.toNat = _ ∧
        m.diode.writeIndex = _
      rw [h.writeIndex, toNat_ofNat hlimit, hwrites]
      exact ⟨rfl, rfl, rfl⟩
  · rw [hsome] at hwrites
    obtain ⟨hcalls, hidx, hseq⟩ := hwrites
    have hpending : m.pending = some bucket.data := by rw [pending, hsome]; rfl
    rw [hpending]
    refine ⟨?_, h.accounted.write bucket.data, h.writeIndex, hcalls, hreads⟩
    show Cells (Function.update m.diode.buffer idx (some bucket)) (q.written ++ [bucket.data])
      q.read
    rw [hidx, show bucket = ⟨bucket.data, UInt64.ofNat q.written.length⟩ by rw [← hseq]]
    exact h.cells.store bucket.data
  · rw [hnone] at hreads
    obtain ⟨hindex, hreplies⟩ := hreads
    have hread : m.diode.readIndex.toNat = q.read := by
      rw [hindex]
      have := h.accounted.read_le
      exact toNat_ofNat (by omega)
    obtain ⟨hevaluate, hcells⟩ := h.cells.tryNext h.accounted.read_le (by omega)
    refine ⟨?_, h.accounted.tryNext size, h.writeIndex, hwrites, ?_⟩
    · rw [hread]
      exact hcells
    · refine ⟨q.nextReply size, ?_, ?_⟩
      · rw [hread, hindex]
        exact hevaluate
      · rw [hreplies]
        rfl
  · rw [hsome] at hreads
    obtain ⟨reply, hevaluate, hreplies⟩ := hreads
    refine ⟨h.cells, h.accounted, h.writeIndex, hwrites, ?_⟩
    show (evaluate m.diode.readIndex result).2 = _ ∧ m.replies ++ [_] = q.replies
    rw [hevaluate, hreplies]
    exact ⟨rfl, rfl⟩

theorem step_set {data : α} (h : m.step (.set data) = some m') :
    m'.calls = m.calls ++ [data] ∧ m'.replies = m.replies := by
  obtain ⟨data', ha, -, rfl⟩ | ⟨_, _, ha, -⟩ | ⟨ha, -⟩ | ⟨_, ha, -⟩ := step_cases h
  · cases ha
    exact ⟨rfl, rfl⟩
  all_goals cases ha

theorem step_finish (h : m.step .finish = some m') :
    m'.calls = m.calls ∧ ∃ reply, m'.replies = m.replies ++ [reply] := by
  obtain ⟨_, ha, -⟩ | ⟨_, _, ha, -⟩ | ⟨ha, -⟩ | ⟨result, -, -, rfl⟩ := step_cases h
  · cases ha
  · cases ha
  · cases ha
  · exact ⟨rfl, _, rfl⟩

/-- Apart from the beginning of `Set` and the end of `TryNext`, steps leave the history. -/
theorem step_history (h : m.step a = some m') (hstore : a = .store ∨ a = .swap) :
    m'.calls = m.calls ∧ m'.replies = m.replies := by
  obtain ⟨_, rfl, -⟩ | ⟨_, _, -, -, rfl⟩ | ⟨-, -, rfl⟩ | ⟨_, rfl, -⟩ := step_cases h
  · simp at hstore
  · exact ⟨rfl, rfl⟩
  · exact ⟨rfl, rfl⟩
  · simp at hstore

theorem calls_isPrefix (h : m.step a = some m') : m.calls <+: m'.calls := by
  obtain ⟨data, -, -, rfl⟩ | ⟨idx, bucket, -, -, rfl⟩ | ⟨-, -, rfl⟩ | ⟨result, -, -, rfl⟩ :=
    step_cases h
  · exact List.prefix_append _ _
  all_goals exact List.prefix_refl _

theorem run_calls_isPrefix {acts : List (Act α)} (h : run step m acts = some m') :
    m.calls <+: m'.calls :=
  run_preserves (I := fun t => m.calls <+: t.calls) step
    (fun _ _ _ hinitial hstep => hinitial.trans (calls_isPrefix hstep)) (List.prefix_refl _) h

theorem linearize_cons (h : m.step a = some m') (acts : List (Act α)) :
    linearize m.pending (a :: acts) = linearize m.pending [a] ++ linearize m'.pending acts := by
  obtain ⟨data, rfl, -, rfl⟩ | ⟨idx, bucket, rfl, -, rfl⟩ | ⟨rfl, -, rfl⟩ | ⟨result, rfl, -, rfl⟩ :=
    step_cases h
  · rfl
  · simp [linearize, pending]
  · rfl
  · rfl

/-- **Interleavings.** The steps of the writer and the reader in any order are the operations
    of a queue one after the other. -/
theorem run_rep (acts : List (Act α)) (h : m.Rep q) (hrun : run step m acts = some m')
    (hlimit : m'.calls.length < indexLimit) :
    m'.Rep ((linearize m.pending acts).foldl (LossyQueue.apply size) q) := by
  induction acts generalizing m q with
  | nil =>
    cases hrun
    exact h
  | cons a acts ih =>
    obtain ⟨m₁, hstep, hrun⟩ := (run_cons_eq_some step).mp hrun
    have hlength : m.calls.length < indexLimit := by
      have hle := ((calls_isPrefix hstep).trans (run_calls_isPrefix hrun)).length_le
      omega
    rw [linearize_cons hstep, List.foldl_append]
    exact ih (step_rep h hlength hstep) hrun

end Machine

/-- **A diode conserves what it does not report.** In every interleaving of the steps of one
    writer and one reader, as long as fewer than `2 ^ 63` values are set: the calls of `TryNext`
    give what the reads of a lossy queue of this size give, in the order of the stores and
    swaps; a call that has not returned may be one more read. What they return are values that
    were set, in order and each at most once. Of the values stored, every one up to the last
    returned one was returned or reported as missed; no read has gone beyond the stored
    values. -/
theorem diode_conserves {α : Type*} {size : ℕ} [NeZero size] {acts : List (Act α)}
    {m : Machine α size} (hrun : run Machine.step .start acts = some m)
    (hlimit : m.calls.length < 2 ^ 63) :
    let q := (linearize none acts).foldl (LossyQueue.apply size) .start
    q.written ++ m.pending.toList = m.calls ∧
    (∃ last : Option (Reply α), q.replies = m.replies ++ last.toList ∧
      (m.swapped = none → last = none)) ∧
    (LossyQueue.returned m.replies).Sublist m.calls ∧
    (LossyQueue.returned q.replies).length + LossyQueue.reported q.replies = q.read ∧
    q.read ≤ q.written.length := by
  intro q
  have hrep : m.Rep q := Machine.run_rep acts Machine.start_rep hrun hlimit
  exact ⟨hrep.written_append, hrep.replies, hrep.returned_sublist, hrep.accounted.count,
    hrep.accounted.read_le⟩

/-- Three values in two slots: the reader finds the third one, and reports the others. -/
def lappedRun : List (Act ℕ) :=
  [.set 10, .store, .set 11, .store, .set 12, .store, .swap, .finish]

theorem diode_conserves_lappedRun :
    ∃ m : Machine ℕ 2, run Machine.step .start lappedRun = some m ∧
      m.replies = [⟨some 12, some 2⟩] ∧ (LossyQueue.returned m.replies).Sublist m.calls := by
  obtain ⟨m, hm⟩ : ∃ m : Machine ℕ 2, run Machine.step .start lappedRun = some m := ⟨_, rfl⟩
  have hconserves := diode_conserves hm (by cases hm; decide)
  refine ⟨m, hm, ?_, hconserves.2.2.1⟩
  cases hm
  decide

end MetricStore.Diodes
