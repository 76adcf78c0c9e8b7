import MetricStore.Common.Bytes

/-!
# Matching of regular expressions

A regular expression anchored at both ends is matched piece by piece: a piece takes the
matcher of the rest of the expression and gives that of the whole. Whether a repetition
is greedy or not does not change what is matched.

* `Covers`: every match of a piece ends with a match of the rest.

An expression that need not be anchored is given by the parts of a text that it matches
(`Expression`), and it is searched for in the text.

* `search_anchored`: searching for `^(?:r)$` is matching the whole text.
-/

namespace MetricStore.Common.Regexp

/-- Whether an expression matches the whole text. -/
abbrev Matcher := Bytes → Bool

/-- A literal text. -/
def literal (p : Bytes) (rest : Matcher) : Matcher := fun s =>
  p.isPrefixOf s && rest (s.drop p.length)

/-- `.+` or `.+?`: one or more bytes that are not newlines. -/
def dotPlus (rest : Matcher) : Matcher
  | [] => false
  | b :: s => b != 10 && (rest s || dotPlus rest s)

/-- `[\s\S]*`: any text. -/
def anyStar (rest : Matcher) : Matcher
  | [] => rest []
  | b :: s => rest (b :: s) || anyStar rest s

/-- The bytes of `\s`. -/
def spaces : Bytes := [9, 10, 12, 13, 32]

/-- `\s?$`: the end of the text, or a last space. -/
def optSpaceEnd : Matcher
  | [] => true
  | [b] => decide (b ∈ spaces)
  | _ => false

/-- Every match of `m` ends with a match of `rest`. -/
def Covers (m rest : Matcher) : Prop := ∀ s, m s = true → ∃ t, t <:+ s ∧ rest t = true

theorem Covers.trans {m m' rest : Matcher} (h : Covers m m') (h' : Covers m' rest) :
    Covers m rest := by
  intro s hs
  obtain ⟨t, hts, ht⟩ := h s hs
  obtain ⟨u, hut, hu⟩ := h' t ht
  exact ⟨u, hut.trans hts, hu⟩

theorem literal_covers (p : Bytes) (rest : Matcher) : Covers (literal p rest) rest := by
  intro s hs
  rw [literal, Bool.and_eq_true] at hs
  exact ⟨s.drop p.length, List.drop_suffix _ _, hs.2⟩

theorem dotPlus_covers (rest : Matcher) : Covers (dotPlus rest) rest := by
  intro s
  induction s with
  | nil => intro hs; cases hs
  | cons b s ih =>
    intro hs
    rw [dotPlus, Bool.and_eq_true, Bool.or_eq_true] at hs
    rcases hs.2 with hrest | hmore
    · exact ⟨s, List.suffix_cons b s, hrest⟩
    · obtain ⟨t, hts, ht⟩ := ih hmore
      exact ⟨t, hts.trans (List.suffix_cons b s), ht⟩

theorem anyStar_covers (rest : Matcher) : Covers (anyStar rest) rest := by
  intro s
  induction s with
  | nil => intro hs; exact ⟨[], List.suffix_rfl, hs⟩
  | cons b s ih =>
    intro hs
    rw [anyStar, Bool.or_eq_true] at hs
    rcases hs with hrest | hmore
    · exact ⟨b :: s, List.suffix_rfl, hrest⟩
    · obtain ⟨t, hts, ht⟩ := ih hmore
      exact ⟨t, hts.trans (List.suffix_cons b s), ht⟩

/-! ## Matches inside a text -/

/-- A compiled expression: `matchesAt text i j` says whether it matches the bytes of
    `text` from `i` to `j`. It is given the whole text, since `^`, `$` and `\b` look outside
    of the part they match. -/
structure Expression where
  matchesAt : Bytes → ℕ → ℕ → Bool

/-- `Regexp.MatchString`: some part of the text is matched. -/
def Expression.search (r : Expression) (text : Bytes) : Bool :=
  (List.range (text.length + 1)).any fun j => (List.range (j + 1)).any fun i =>
    r.matchesAt text i j

/-- The whole text is matched. -/
def Expression.wholeMatch (r : Expression) (text : Bytes) : Bool := r.matchesAt text 0 text.length

/-- The expression `^(?:r)$`. -/
def Expression.anchored (r : Expression) : Expression :=
  ⟨fun text i j => i = 0 && j = text.length && r.matchesAt text i j⟩

/-- The expression that matches one text. -/
def Expression.text (p : Bytes) : Expression :=
  ⟨fun text i j => (text.drop i).take (j - i) = p⟩

theorem Expression.search_iff (r : Expression) (text : Bytes) :
    r.search text = true ↔ ∃ i j, i ≤ j ∧ j ≤ text.length ∧ r.matchesAt text i j = true := by
  simp only [search, List.any_eq_true, List.mem_range, Nat.lt_succ_iff]
  constructor
  · rintro ⟨j, hj, i, hi, h⟩
    exact ⟨i, j, hi, hj, h⟩
  · rintro ⟨i, j, hi, hj, h⟩
    exact ⟨j, hj, i, hi, h⟩

theorem Expression.search_of_wholeMatch {r : Expression} {text : Bytes}
    (h : r.wholeMatch text = true) : r.search text = true :=
  (r.search_iff text).2 ⟨0, text.length, Nat.zero_le _, le_rfl, h⟩

/-- **An anchored search** is a match of the whole text. -/
theorem Expression.search_anchored (r : Expression) (text : Bytes) :
    r.anchored.search text = r.wholeMatch text := by
  rw [Bool.eq_iff_iff, search_iff]
  simp only [anchored, wholeMatch, Bool.and_eq_true, decide_eq_true_eq]
  constructor
  · rintro ⟨i, j, -, -, ⟨rfl, rfl⟩, h⟩
    exact h
  · intro h
    exact ⟨0, text.length, Nat.zero_le _, le_rfl, ⟨rfl, rfl⟩, h⟩

end MetricStore.Common.Regexp
