import Mathlib.Data.List.Basic

/-!
# Texts with guarded delimiters

A delimiter in a text can be hidden by an escape symbol right before it. Nothing hides the escape
symbol itself, so that a field that ends in it hides the delimiter after the field.

`scan` finds the first delimiter that is not hidden, and `bare` counts them. Both look at one
symbol before the text. `guarded` hides all symbols of a list.

* `scan_append`: a scan runs through a text without bare delimiters.
* `bare_eq_scan`: a scan stops at the first bare delimiter.
* `bare_guarded`, `last_guarded`: a text with its delimiters hidden has none that is bare, and
  ends as before.
-/

namespace MetricStore.Common.Scan

variable {α : Type*}

/-! ## The end of a text -/

/-- The symbol before what follows the text. -/
def last : Option α → List α → Option α
  | prev, [] => prev
  | _, b :: s => last (some b) s

variable {prev : Option α} {s t : List α}

@[simp]
theorem last_nil : last prev [] = prev := rfl

@[simp]
theorem last_cons (b : α) : last prev (b :: s) = last (some b) s := rfl

theorem last_eq : last prev s = s.getLast?.or prev := by
  induction s generalizing prev with
  | nil => rfl
  | cons b s ih =>
    rw [last_cons, ih, List.getLast?_cons]
    cases s.getLast? <;> rfl

/-- What is before a text matters only if the text is empty. -/
theorem last_eq_some_iff {b c : α} (h : b ≠ c) :
    last (some b) s = some c ↔ s.getLast? = some c := by
  rw [last_eq]
  cases s.getLast? with
  | none => simp [h]
  | some d => simp

/-! ## Scanning -/

variable [DecidableEq α]

/-- What is before the first delimiter without an escape symbol before it, and the text from
    there. The symbol before the text is `prev`. -/
def scan (esc stop : α) : Option α → List α → List α × List α
  | _, [] => ([], [])
  | prev, b :: s =>
    if b = stop ∧ prev ≠ some esc then ([], b :: s)
    else (b :: (scan esc stop (some b) s).1, (scan esc stop (some b) s).2)

/-- The number of delimiters without an escape symbol before them. -/
def bare (esc stop : α) : Option α → List α → ℕ
  | _, [] => 0
  | prev, b :: s => (if b = stop ∧ prev ≠ some esc then 1 else 0) + bare esc stop (some b) s

variable {esc stop : α}

theorem scan_fst_append_snd (esc stop : α) (prev : Option α) (s : List α) :
    (scan esc stop prev s).1 ++ (scan esc stop prev s).2 = s := by
  induction s generalizing prev with
  | nil => rfl
  | cons b s ih =>
    unfold scan
    split_ifs
    · rfl
    · show b :: (_ ++ _) = _
      rw [ih]

theorem length_scan_snd_le : (scan esc stop prev s).2.length ≤ s.length := by
  have h : ((scan esc stop prev s).1 ++ (scan esc stop prev s).2).length = s.length := by
    rw [scan_fst_append_snd]
  rw [List.length_append] at h
  omega

/-! ## Bare delimiters -/

theorem bare_append :
    bare esc stop prev (s ++ t) = bare esc stop prev s + bare esc stop (last prev s) t := by
  induction s generalizing prev with
  | nil => simp [bare]
  | cons b s ih =>
    rw [List.cons_append, bare, bare, ih, last_cons]
    omega

theorem bare_cons_of_ne {b : α} (h : b ≠ stop) :
    bare esc stop prev (b :: s) = bare esc stop (some b) s := by
  rw [bare, if_neg fun hb => h hb.1, Nat.zero_add]

/-- **A scan runs through a text without bare delimiters.** -/
theorem scan_append (h : bare esc stop prev s = 0) :
    scan esc stop prev (s ++ t) =
      (s ++ (scan esc stop (last prev s) t).1, (scan esc stop (last prev s) t).2) := by
  induction s generalizing prev with
  | nil => rfl
  | cons b s ih =>
    rw [bare, Nat.add_eq_zero_iff] at h
    have hb : ¬ (b = stop ∧ prev ≠ some esc) := by
      intro hb
      rw [if_pos hb] at h
      cases h.1
    rw [List.cons_append, scan, if_neg hb, ih h.2, last_cons]
    rfl

/-- A scan stops at a delimiter that is not hidden. -/
theorem scan_stop (h : prev ≠ some esc) : scan esc stop prev (stop :: s) = ([], stop :: s) := by
  rw [scan, if_pos ⟨rfl, h⟩]

theorem bare_scan_fst : bare esc stop prev (scan esc stop prev s).1 = 0 := by
  induction s generalizing prev with
  | nil => rfl
  | cons b s ih =>
    unfold scan
    split_ifs with hb
    · rfl
    · show bare esc stop prev (b :: _) = 0
      rw [bare, if_neg hb, ih]

/-- **A scan stops at the end or at the first bare delimiter.** -/
theorem scan_snd_cases (esc stop : α) (prev : Option α) (s : List α) :
    (scan esc stop prev s).2 = [] ∨
      ∃ t, (scan esc stop prev s).2 = stop :: t ∧
        last prev (scan esc stop prev s).1 ≠ some esc := by
  induction s generalizing prev with
  | nil => exact .inl rfl
  | cons b s ih =>
    unfold scan
    split_ifs with hb
    · obtain ⟨rfl, hprev⟩ := hb
      exact .inr ⟨s, rfl, hprev⟩
    · exact ih (some b)

/-- One more bare delimiter than there are behind the scan. -/
theorem bare_eq_scan (h : (scan esc stop prev s).2 ≠ []) :
    bare esc stop prev s = 1 + bare esc stop (some stop) (scan esc stop prev s).2.tail := by
  obtain hnil | ⟨t, ht, hlast⟩ := scan_snd_cases esc stop prev s
  · exact absurd hnil h
  · conv_lhs => rw [← scan_fst_append_snd esc stop prev s]
    rw [bare_append, bare_scan_fst, ht, bare, if_pos ⟨rfl, hlast⟩, Nat.zero_add]
    rfl

/-- The delimiters of another kind are before the scan stops or behind. -/
theorem bare_eq_add_scan {other : α} (h : stop ≠ other) :
    bare esc other prev s = bare esc other prev (scan esc stop prev s).1 +
      bare esc other (some stop) (scan esc stop prev s).2.tail := by
  conv_lhs => rw [← scan_fst_append_snd esc stop prev s]
  rw [bare_append]
  obtain hnil | ⟨t, ht, -⟩ := scan_snd_cases esc stop prev s
  · rw [hnil]
    rfl
  · rw [ht, bare_cons_of_ne h]
    rfl

/-! ## Hiding delimiters -/

/-- The text with an escape symbol before each of the symbols of a list. -/
def guarded (esc : α) (codes s : List α) : List α :=
  s.flatMap fun b => if b ∈ codes then [esc, b] else [b]

variable {codes : List α}

theorem guarded_cons_of_mem {b : α} (h : b ∈ codes) :
    guarded esc codes (b :: s) = esc :: b :: guarded esc codes s := by
  unfold guarded
  rw [List.flatMap_cons, if_pos h]
  rfl

theorem guarded_cons_of_not_mem {b : α} (h : b ∉ codes) :
    guarded esc codes (b :: s) = b :: guarded esc codes s := by
  unfold guarded
  rw [List.flatMap_cons, if_neg h]
  rfl

theorem last_guarded : last prev (guarded esc codes s) = last prev s := by
  induction s generalizing prev with
  | nil => rfl
  | cons b s ih =>
    by_cases hb : b ∈ codes
    · rw [guarded_cons_of_mem hb]
      exact ih
    · rw [guarded_cons_of_not_mem hb]
      exact ih

/-- A hidden delimiter is not bare. -/
theorem bare_guarded (hesc : esc ∉ codes) (hstop : stop ∈ codes) :
    bare esc stop prev (guarded esc codes s) = 0 := by
  have hne : esc ≠ stop := by
    rintro rfl
    exact hesc hstop
  induction s generalizing prev with
  | nil => rfl
  | cons b s ih =>
    by_cases hb : b ∈ codes
    · rw [guarded_cons_of_mem hb, bare_cons_of_ne hne, bare, ih, if_neg fun h => h.2 rfl]
    · have hb' : b ≠ stop := by
        rintro rfl
        exact hb hstop
      rw [guarded_cons_of_not_mem hb, bare_cons_of_ne hb', ih]

/-- The first symbol is not one of those that are hidden. -/
theorem head?_guarded (hesc : esc ∉ codes) {b : α} (h : (guarded esc codes s).head? = some b) :
    b ∉ codes := by
  cases s with
  | nil => cases h
  | cons c s =>
    by_cases hc : c ∈ codes
    · rw [guarded_cons_of_mem hc, List.head?_cons, Option.some.injEq] at h
      exact h ▸ hesc
    · rw [guarded_cons_of_not_mem hc, List.head?_cons, Option.some.injEq] at h
      exact h ▸ hc

end MetricStore.Common.Scan
