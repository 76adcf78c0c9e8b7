import MetricStore.Common.Bytes
import MetricStore.Common.Run

/-!
# Valid UTF-8

`utf8.ValidString` of Go, as a scan over the bytes. The state of the scan is what has to
follow: a range for each byte that the character still lacks. Surrogates, overlong forms and
numbers beyond Unicode are told apart by the range of the second byte.

Results:
* `validString_take_iff`: what is left of a valid text that is cut is valid exactly when it
  was cut between two characters.
-/

namespace MetricStore.Common

/-- The bytes that may come next, from the first one to the last one. -/
abbrev ByteRange := UInt8 × UInt8

/-- A byte that continues a character. -/
def IsContinuation (b : UInt8) : Prop := 0x80 ≤ b ∧ b ≤ 0xBF

instance (b : UInt8) : Decidable (IsContinuation b) := inferInstanceAs (Decidable (_ ∧ _))

/-- What follows a first byte, if it is one. -/
def follow (b : UInt8) : Option (List ByteRange) :=
  if b < 0x80 then some []
  else if b < 0xC2 then none
  else if b ≤ 0xDF then some [(0x80, 0xBF)]
  else if b = 0xE0 then some [(0xA0, 0xBF), (0x80, 0xBF)]
  else if b = 0xED then some [(0x80, 0x9F), (0x80, 0xBF)]
  else if b ≤ 0xEF then some [(0x80, 0xBF), (0x80, 0xBF)]
  else if b = 0xF0 then some [(0x90, 0xBF), (0x80, 0xBF), (0x80, 0xBF)]
  else if b ≤ 0xF3 then some [(0x80, 0xBF), (0x80, 0xBF), (0x80, 0xBF)]
  else if b = 0xF4 then some [(0x80, 0x8F), (0x80, 0xBF), (0x80, 0xBF)]
  else none

/-- One byte of the scan. -/
def scan : List ByteRange → UInt8 → Option (List ByteRange)
  | [], b => follow b
  | r :: pending, b => if r.1 ≤ b ∧ b ≤ r.2 then some pending else none

/-- `utf8.ValidString`. -/
def validString (s : Bytes) : Bool := run scan [] s = some []

/-! ## Cut texts -/

/-- All ranges are of bytes that continue a character. -/
def Continues (pending : List ByteRange) : Prop := ∀ r ∈ pending, 0x80 ≤ r.1 ∧ r.2 ≤ 0xBF

/-- A first byte does not continue a character; what follows it does. -/
theorem follow_spec {b : UInt8} {pending : List ByteRange} (h : follow b = some pending) :
    ¬ IsContinuation b ∧ Continues pending := by
  have hfirst : b < 0x80 ∨ ¬ b < 0xC2 := by
    by_contra hnot
    push Not at hnot
    unfold follow at h
    rw [if_neg hnot.1, if_pos hnot.2] at h
    cases h
  constructor
  · rintro ⟨hlow, hhigh⟩
    rcases hfirst with hlt | hge
    · exact absurd hlow (UInt8.not_le.mpr hlt)
    · exact hge (UInt8.lt_of_le_of_lt hhigh (by decide))
  · unfold follow at h
    split_ifs at h <;> cases h <;> simp [Continues]

theorem scan_continues {pending pending' : List ByteRange} {b : UInt8} (hp : Continues pending)
    (h : scan pending b = some pending') : Continues pending' := by
  cases pending with
  | nil => exact (follow_spec h).2
  | cons r pending =>
    simp only [scan] at h
    split_ifs at h
    cases h
    intro r' hr'
    exact hp r' (List.mem_cons_of_mem r hr')

/-- Whether a byte continues a character says whether one was begun before it. -/
theorem isContinuation_iff {pending pending' : List ByteRange} {b : UInt8}
    (hp : Continues pending) (h : scan pending b = some pending') :
    IsContinuation b ↔ pending ≠ [] := by
  cases pending with
  | nil => simpa using (follow_spec h).1
  | cons r pending =>
    simp only [scan] at h
    split_ifs at h with hb
    obtain ⟨hlow, hhigh⟩ := hp r List.mem_cons_self
    exact iff_of_true ⟨UInt8.le_trans hlow hb.1, UInt8.le_trans hb.2 hhigh⟩ (List.cons_ne_nil _ _)

/-- **A cut text.** -/
theorem validString_take_iff {s : Bytes} (hs : validString s = true) {n : ℕ}
    (hn : n < s.length) : validString (s.take n) = true ↔ ¬ IsContinuation s[n] := by
  have hrun : run scan [] (s.take n ++ s[n] :: s.drop (n + 1)) = some [] := by
    rw [← List.drop_eq_getElem_cons hn, List.take_append_drop]
    exact of_decide_eq_true hs
  obtain ⟨pending, hcut, hrest⟩ := (run_append_eq_some scan).mp hrun
  obtain ⟨next, hnext, -⟩ := (run_cons_eq_some scan).mp hrest
  have hpending : Continues pending :=
    run_preserves scan (I := Continues) (fun _ _ _ hp h => scan_continues hp h)
      (by simp [Continues]) hcut
  rw [isContinuation_iff hpending hnext, validString, hcut]
  simp

end MetricStore.Common
