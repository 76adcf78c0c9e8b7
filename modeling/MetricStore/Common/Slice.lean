import Mathlib

/-!
# Go slices

A slice is a part of a backing array: an append to a slice with room writes into the array,
and every other slice of that array sees it. `Arrays` are the backing arrays that have been
allocated, by number. An append to a slice without room allocates a new array; how large is
a parameter.

* `read_append`, `read_make`, `read_truncate`: what the slice itself holds.
* `read_append_of_ne`: a slice of another array holds what it held.

A `Window` is a slice of any part of its array.

* `overwrite_overwrite`: elements that are written behind others.
* `view_remove`, `view_remove_self`: what the result of `append(s[:i], s[i+1:]...)` holds, and
  what it leaves in `s`.
-/

namespace MetricStore.Common

/-- A slice from the beginning of its backing array. -/
structure Slice where
  array : ℕ
  len : ℕ
  cap : ℕ
  deriving DecidableEq, Repr

/-- A slice of the cells of an array from `offset` on. -/
structure Window where
  array : ℕ
  offset : ℕ
  len : ℕ
  cap : ℕ
  deriving DecidableEq, Repr

/-- `s[:i]`. -/
def Window.takeTo (w : Window) (i : ℕ) : Window := { w with len := i }

/-- `s[i:]`. -/
def Window.dropTo (w : Window) (i : ℕ) : Window :=
  ⟨w.array, w.offset + i, w.len - i, w.cap - i⟩

/-- The backing arrays; `fresh` is the number of the next one. Of an array only the cells
    that have been written are known. -/
structure Arrays (α : Type*) where
  cells : ℕ → List α
  fresh : ℕ

namespace Arrays

variable {α : Type*}

/-- No array has been allocated. -/
def empty : Arrays α := ⟨fun _ => [], 0⟩

/-- The elements of a slice. -/
def read (m : Arrays α) (s : Slice) : List α := (m.cells s.array).take s.len

/-- `make([]T, 0)`. -/
def make (m : Arrays α) : Slice × Arrays α := (⟨m.fresh, 0, 0⟩, { m with fresh := m.fresh + 1 })

/-- `s[:0]`. -/
def truncate (s : Slice) : Slice := { s with len := 0 }

/-- An array with the element `x` at the index `i`. -/
def setCell (cells : List α) (i : ℕ) (x : α) : List α := cells.take i ++ x :: cells.drop (i + 1)

/-- `append(s, x)`; a new array has the capacity `grow s.cap`. -/
def append (grow : ℕ → ℕ) (m : Arrays α) (s : Slice) (x : α) : Slice × Arrays α :=
  if s.len < s.cap then
    (⟨s.array, s.len + 1, s.cap⟩,
      ⟨Function.update m.cells s.array (setCell (m.cells s.array) s.len x), m.fresh⟩)
  else
    (⟨m.fresh, s.len + 1, grow s.cap⟩,
      ⟨Function.update m.cells m.fresh (m.read s ++ [x]), m.fresh + 1⟩)

/-- The slice is one of an array that has been allocated, and its elements have been
    written. -/
structure Valid (m : Arrays α) (s : Slice) : Prop where
  allocated : s.array < m.fresh
  written : s.len ≤ (m.cells s.array).length

variable {m : Arrays α} {s s' : Slice} {grow : ℕ → ℕ} {x : α}

theorem Valid.length_read (h : m.Valid s) : (m.read s).length = s.len := by
  rw [read, List.length_take, min_eq_left h.written]

theorem read_make (m : Arrays α) : m.make.2.read m.make.1 = [] := List.take_zero

theorem valid_make (m : Arrays α) : m.make.2.Valid m.make.1 := ⟨Nat.lt_succ_self _, Nat.zero_le _⟩

theorem Valid.make (h : m.Valid s) : m.make.2.Valid s :=
  ⟨h.allocated.trans (Nat.lt_succ_self _), h.written⟩

theorem Valid.truncate (h : m.Valid s) : m.Valid (truncate s) := ⟨h.allocated, Nat.zero_le _⟩

theorem read_truncate (m : Arrays α) (s : Slice) : m.read (truncate s) = [] := List.take_zero

/-- The array of the result is the one of the slice, or a new one. -/
theorem append_array (grow : ℕ → ℕ) (m : Arrays α) (s : Slice) (x : α) :
    (m.append grow s x).1.array = s.array ∨ (m.append grow s x).1.array = m.fresh := by
  unfold append
  split_ifs
  · exact .inl rfl
  · exact .inr rfl

theorem read_append (h : m.Valid s) : (m.append grow s x).2.read (m.append grow s x).1 =
    m.read s ++ [x] := by
  have htake : ((m.cells s.array).take s.len).length = s.len := h.length_read
  unfold append
  split_ifs
  · unfold read setCell
    dsimp only
    rw [Function.update_self, List.take_append, htake, List.take_of_length_le (by omega)]
    simp
  · have hfull : (m.read s ++ [x]).length ≤ s.len + 1 := by
      rw [List.length_append, h.length_read, List.length_singleton]
    rw [read]
    dsimp only
    rw [Function.update_self, List.take_of_length_le hfull]

theorem valid_append (h : m.Valid s) : (m.append grow s x).2.Valid (m.append grow s x).1 := by
  have hread := h.length_read
  have hwritten := h.written
  unfold append
  split_ifs
  · refine ⟨h.allocated, ?_⟩
    dsimp only
    rw [Function.update_self, setCell, List.length_append, List.length_cons, List.length_take]
    omega
  · refine ⟨Nat.lt_succ_self _, ?_⟩
    dsimp only
    rw [Function.update_self, List.length_append, hread, List.length_singleton]

/-- An append does not touch the slices of other arrays. -/
theorem append_cells_of_ne (h : m.Valid s') (hne : s'.array ≠ s.array) :
    (m.append grow s x).2.cells s'.array = m.cells s'.array := by
  unfold append
  split_ifs
  · exact Function.update_of_ne hne _ _
  · exact Function.update_of_ne h.allocated.ne _ _

theorem read_append_of_ne (h : m.Valid s') (hne : s'.array ≠ s.array) :
    (m.append grow s x).2.read s' = m.read s' := by
  rw [read, append_cells_of_ne h hne, read]

theorem fresh_le_append (grow : ℕ → ℕ) (m : Arrays α) (s : Slice) (x : α) :
    m.fresh ≤ (m.append grow s x).2.fresh := by
  unfold append
  split_ifs
  · exact le_rfl
  · exact Nat.le_succ _

theorem Valid.append_of_ne (h : m.Valid s') (hne : s'.array ≠ s.array) :
    (m.append grow s x).2.Valid s' :=
  ⟨h.allocated.trans_le (fresh_le_append grow m s x),
    by rw [append_cells_of_ne h hne]; exact h.written⟩

/-! ## Windows -/

/-- The elements of a window. -/
def view (m : Arrays α) (w : Window) : List α := ((m.cells w.array).drop w.offset).take w.len

/-- An array with the elements `xs` from the index `i` on. -/
def overwrite (cells : List α) (i : ℕ) (xs : List α) : List α :=
  cells.take i ++ xs ++ cells.drop (i + xs.length)

theorem length_overwrite {cells xs : List α} {i : ℕ} (h : i + xs.length ≤ cells.length) :
    (overwrite cells i xs).length = cells.length := by
  unfold overwrite
  rw [List.length_append, List.length_append, List.length_take, List.length_drop]
  omega

/-- Elements that are written behind others. -/
theorem overwrite_overwrite {cells xs ys : List α} {i : ℕ} (h : i + xs.length ≤ cells.length) :
    overwrite (overwrite cells i xs) (i + xs.length) ys = overwrite cells i (xs ++ ys) := by
  have hfront : (cells.take i ++ xs).length = i + xs.length := by
    rw [List.length_append, List.length_take]
    omega
  unfold overwrite
  rw [List.take_left' hfront, ← List.drop_drop, List.drop_left' hfront, List.drop_drop,
    List.length_append, Nat.add_assoc]
  simp only [List.append_assoc]

/-- `append(s, t...)`. The elements of `t` are read before any is written. -/
def appendAll (grow : ℕ → ℕ) (m : Arrays α) (s t : Window) : Window × Arrays α :=
  let xs := m.view t
  if s.len + xs.length ≤ s.cap then
    (⟨s.array, s.offset, s.len + xs.length, s.cap⟩,
      ⟨Function.update m.cells s.array (overwrite (m.cells s.array) (s.offset + s.len) xs), m.fresh⟩)
  else
    (⟨m.fresh, 0, s.len + xs.length, grow (s.len + xs.length)⟩,
      ⟨Function.update m.cells m.fresh (m.view s ++ xs), m.fresh + 1⟩)

/-- The elements of the window have been written, and it has room for them. -/
structure Holds (m : Arrays α) (w : Window) : Prop where
  written : w.offset + w.len ≤ (m.cells w.array).length
  room : w.len ≤ w.cap

variable {w : Window} {before xs after : List α}

theorem view_eq (hcells : m.cells w.array = before ++ xs ++ after)
    (hoffset : before.length = w.offset) (hlen : xs.length = w.len) : m.view w = xs := by
  unfold view
  rw [hcells, List.append_assoc, ← hoffset, List.drop_left, ← hlen, List.take_left]

/-- The array around a window. -/
theorem cells_eq (m : Arrays α) (w : Window) : m.cells w.array =
    (m.cells w.array).take w.offset ++ m.view w ++ (m.cells w.array).drop (w.offset + w.len) := by
  unfold view
  rw [List.append_assoc, ← List.drop_drop, List.take_append_drop, List.take_append_drop]

theorem Holds.length_view (h : m.Holds w) : (m.view w).length = w.len := by
  have hwritten := h.written
  unfold view
  rw [List.length_take, List.length_drop]
  omega

theorem Holds.length_before (h : m.Holds w) :
    ((m.cells w.array).take w.offset).length = w.offset := by
  have hwritten := h.written
  rw [List.length_take]
  omega

/-- **Removal in place.** The elements after `x` move one cell to the front, and the last one
    stays where it was, too. -/
theorem appendAll_remove (grow : ℕ → ℕ) (h : m.Holds w) {front back : List α}
    (hview : m.view w = front ++ x :: back) :
    m.appendAll grow (w.takeTo front.length) (w.dropTo (front.length + 1)) =
      (⟨w.array, w.offset, w.len - 1, w.cap⟩,
        ⟨Function.update m.cells w.array ((m.cells w.array).take w.offset ++
          (front ++ back ++ [(x :: back).getLast (List.cons_ne_nil x back)]) ++
            (m.cells w.array).drop (w.offset + w.len)), m.fresh⟩) := by
  have hlen := h.length_view
  have hroom := h.room
  have hcells := m.cells_eq w
  have hoffset := h.length_before
  rw [hview] at hlen hcells
  rw [List.length_append, List.length_cons] at hlen
  set before := (m.cells w.array).take w.offset
  set after := (m.cells w.array).drop (w.offset + w.len)
  have hback : m.view (w.dropTo (front.length + 1)) = back := by
    have hsplit : m.cells (w.dropTo (front.length + 1)).array =
        before ++ front ++ [x] ++ back ++ after := by
      rw [Window.dropTo, hcells]
      simp
    refine view_eq hsplit ?_ ?_
    · simp only [Window.dropTo, List.length_append, List.length_singleton, hoffset]
      omega
    · simp only [Window.dropTo]
      omega
  have hlast : (x :: back).drop back.length = [(x :: back).getLast (List.cons_ne_nil x back)] :=
    List.drop_length_sub_one (List.cons_ne_nil x back)
  have htake : (m.cells w.array).take (w.offset + front.length) = before ++ front := by
    rw [hcells, ← List.append_assoc, List.append_assoc _ (x :: back), List.take_left']
    rw [List.length_append, hoffset]
  have hdrop : (m.cells w.array).drop (w.offset + front.length + back.length) =
      [(x :: back).getLast (List.cons_ne_nil x back)] ++ after := by
    rw [hcells, ← List.append_assoc, List.append_assoc _ (x :: back), ← List.drop_drop,
      List.drop_left' (by rw [List.length_append, hoffset]),
      List.drop_append_of_le_length (by simp), hlast]
  have hfits : (w.takeTo front.length).len + back.length ≤ (w.takeTo front.length).cap := by
    simp only [Window.takeTo]
    omega
  have hshorter : front.length + back.length = w.len - 1 := by omega
  unfold appendAll
  rw [hback]
  dsimp only
  rw [if_pos hfits]
  simp only [Window.takeTo, overwrite, htake, hdrop, hshorter, List.append_assoc]

section Remove

variable {front back : List α}

/-- The result of a removal in place. -/
theorem view_remove (grow : ℕ → ℕ) (h : m.Holds w) (hview : m.view w = front ++ x :: back) :
    (m.appendAll grow (w.takeTo front.length) (w.dropTo (front.length + 1))).2.view
      (m.appendAll grow (w.takeTo front.length) (w.dropTo (front.length + 1))).1 =
        front ++ back := by
  have hlen := h.length_view
  rw [hview, List.length_append, List.length_cons] at hlen
  rw [appendAll_remove grow h hview]
  have hcells : Function.update m.cells w.array ((m.cells w.array).take w.offset ++
      (front ++ back ++ [(x :: back).getLast (List.cons_ne_nil x back)]) ++
        (m.cells w.array).drop (w.offset + w.len)) w.array =
      (m.cells w.array).take w.offset ++ (front ++ back) ++
        ([(x :: back).getLast (List.cons_ne_nil x back)] ++
          (m.cells w.array).drop (w.offset + w.len)) := by
    rw [Function.update_self]
    simp
  refine view_eq hcells h.length_before ?_
  rw [List.length_append]
  show front.length + back.length = w.len - 1
  omega

/-- The slice itself after a removal in place. -/
theorem view_remove_self (grow : ℕ → ℕ) (h : m.Holds w) (hview : m.view w = front ++ x :: back) :
    (m.appendAll grow (w.takeTo front.length) (w.dropTo (front.length + 1))).2.view w =
      front ++ back ++ [(x :: back).getLast (List.cons_ne_nil x back)] := by
  have hlen := h.length_view
  rw [hview, List.length_append, List.length_cons] at hlen
  rw [appendAll_remove grow h hview]
  refine view_eq (Function.update_self _ _ _) h.length_before ?_
  rw [List.length_append, List.length_append, List.length_singleton]
  omega

end Remove

end Arrays

end MetricStore.Common
