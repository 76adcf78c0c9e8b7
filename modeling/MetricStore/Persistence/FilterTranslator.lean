import MetricStore.Common.Regexp
import MetricStore.Persistence.PointTranslator

/-!
# Translation of label matchers

Model of `pkg/persistence/transform/filter_translator.go`: a list of Prometheus matchers
(`pkg/labels/matcher.go` of the vendored `prometheus`) becomes an expression of the
database. `regexp.Compile` is a parameter; an expression it gives is known by the parts of
a text that it matches.

Prometheus compiles `^(?:v)$`, and the translation compiles `v` itself, which the database
searches for anywhere in the value of the label.

Results:
* `toInfluxFilters_agrees`: when the translation fails, and on which label sets a translated
  list agrees with the matchers: those on which no regular expression matches only a part of
  its label's value, or on which this makes no difference (`PartialMatchesHarmless`).
* `substring_selected`: `=~ "b"` selects the value `abc`.
-/

namespace MetricStore.Persistence

open MetricStore.Common
open MetricStore.Common.Regexp (Expression)

/-! ## Matchers -/

/-- `labels.MatchType`, a Go `int`. -/
abbrev MatchType := ℤ

def matchEqual : MatchType := 0

def matchNotEqual : MatchType := 1

def matchRegexp : MatchType := 2

def matchNotRegexp : MatchType := 3

/-- `labels.Matcher`; the compiled expression is a function of the value. -/
structure Matcher where
  type : MatchType
  name : Bytes
  value : Bytes
  deriving DecidableEq, Repr

section Translation

variable (compile : Bytes → Except Bytes Expression)

/-- `regexp.Compile("^(?:" + v + ")$")` and `MatchString`. -/
def anchoredMatch (v s : Bytes) : Bool :=
  match compile v with
  | .ok r => r.anchored.search s
  | .error _ => false

/-- `Matcher.Matches`; it panics on another type. -/
def Matcher.matches (m : Matcher) (s : Bytes) : Bool :=
  if m.type = matchEqual then s = m.value
  else if m.type = matchNotEqual then s ≠ m.value
  else if m.type = matchRegexp then anchoredMatch compile m.value s
  else if m.type = matchNotRegexp then !anchoredMatch compile m.value s
  else false

/-! ## Expressions of the database -/

/-- The tokens of `influxql` that the translation uses. -/
inductive Token
  | eq
  | neq
  | eqRegex
  | neqRegex
  | and
  deriving DecidableEq, Repr

/-- The expressions of `influxql` that the translation uses. -/
inductive Expr
  | varRef (val : Bytes)
  | stringLiteral (val : Bytes)
  | regexLiteral (val : Expression)
  | binaryExpr (lhs rhs : Expr) (op : Token)

/-- Whether the label set satisfies the expression. A label it does not have is read as
    the empty string. -/
def Expr.satisfiedBy (l : Labels) : Expr → Bool
  | .binaryExpr lhs rhs .and => lhs.satisfiedBy l && rhs.satisfiedBy l
  | .binaryExpr (.varRef name) (.stringLiteral val) .eq => l.get name = val
  | .binaryExpr (.varRef name) (.stringLiteral val) .neq => l.get name ≠ val
  | .binaryExpr (.varRef name) (.regexLiteral val) .eqRegex => val.search (l.get name)
  | .binaryExpr (.varRef name) (.regexLiteral val) .neqRegex => !val.search (l.get name)
  | _ => false

/-- A nil expression is no condition. -/
def satisfies (l : Labels) : Option Expr → Bool
  | none => true
  | some e => e.satisfiedBy l

/-! ## The translation -/

/-- `operatorMapping` (lines 11–16). -/
def operatorMapping (type : MatchType) : Option Token :=
  if type = matchEqual then some .eq
  else if type = matchNotEqual then some .neq
  else if type = matchRegexp then some .eqRegex
  else if type = matchNotRegexp then some .neqRegex
  else none

/-- The error of a matcher of another type. -/
def unsupportedOperation (type : MatchType) : Bytes :=
  lit "Unsupported operation: " ++ formatInt type

/-- `ToInfluxFilter` (lines 18–46). -/
def toInfluxFilter (matcher : Matcher) : Except Bytes Expr :=
  match operatorMapping matcher.type with
  | none => .error (unsupportedOperation matcher.type)
  | some operator =>
    match operator with
    | .eq | .neq =>
      .ok (.binaryExpr (.varRef matcher.name) (.stringLiteral matcher.value) operator)
    | .eqRegex | .neqRegex =>
      match compile matcher.value with
      | .error err => .error (lit "Invalid regular expression: " ++ err)
      | .ok regex => .ok (.binaryExpr (.varRef matcher.name) (.regexLiteral regex) operator)
    | .and => .error (unsupportedOperation matcher.type)

/-- The condition after one more filter (lines 57–66). -/
def addCondition (newFilterCondition : Expr) : Option Expr → Expr
  | none => newFilterCondition
  | some filterCondition => .binaryExpr newFilterCondition filterCondition .and

/-- The loop of `ToInfluxFilters`. -/
def toInfluxFiltersLoop : Option Expr → List Matcher → Except Bytes (Option Expr)
  | filterCondition, [] => .ok filterCondition
  | filterCondition, matcher :: matchers =>
    match toInfluxFilter compile matcher with
    | .error err => .error err
    | .ok newFilterCondition =>
      toInfluxFiltersLoop (some (addCondition newFilterCondition filterCondition)) matchers

/-- `ToInfluxFilters` (lines 48–70). -/
def toInfluxFilters (matchers : List Matcher) : Except Bytes (Option Expr) :=
  toInfluxFiltersLoop compile none matchers

/-! ## When the translation fails -/

/-- A matcher of one of the two regular-expression types. -/
def Matcher.IsRegexp (m : Matcher) : Prop := m.type = matchRegexp ∨ m.type = matchNotRegexp

instance (m : Matcher) : Decidable m.IsRegexp := inferInstanceAs (Decidable (_ ∨ _))

/-- A matcher of none of the four types. -/
def Matcher.UnknownType (m : Matcher) : Prop :=
  m.type ≠ matchEqual ∧ m.type ≠ matchNotEqual ∧ ¬ m.IsRegexp

/-- A matcher whose regular expression does not compile. -/
def Matcher.InvalidRegexp (m : Matcher) : Prop := m.IsRegexp ∧ ∃ err, compile m.value = .error err

/-- The regular expression of the matcher matches a part of the text, but not all of it. -/
def Matcher.PartialMatch (m : Matcher) (s : Bytes) : Prop :=
  m.IsRegexp ∧ ∃ r, compile m.value = .ok r ∧ r.search s = true ∧ r.wholeMatch s = false

/-- The label set is selected by neither or by both, the matchers and their translation: no
    regular expression matches just a part of its value; or another matcher fails; or one such
    part is matched by `=~`, which then fails, and another by `!~`, the translation of which
    fails. -/
def PartialMatchesHarmless (matchers : List Matcher) (l : Labels) : Prop :=
  (∀ m ∈ matchers, ¬ m.PartialMatch compile (l.get m.name)) ∨
  (∃ m ∈ matchers, ¬ m.PartialMatch compile (l.get m.name) ∧
    m.matches compile (l.get m.name) = false) ∨
  ((∃ m ∈ matchers, m.type = matchRegexp ∧ m.PartialMatch compile (l.get m.name)) ∧
    ∃ m ∈ matchers, m.type = matchNotRegexp ∧ m.PartialMatch compile (l.get m.name))

/-- The four types, and the others. -/
theorem Matcher.type_cases (m : Matcher) :
    m.type = matchEqual ∨ m.type = matchNotEqual ∨ m.type = matchRegexp ∨
      m.type = matchNotRegexp ∨ m.UnknownType := by
  unfold UnknownType IsRegexp
  tauto

variable {compile}

theorem toInfluxFilter_error_iff (m : Matcher) :
    (∃ err, toInfluxFilter compile m = .error err) ↔ m.UnknownType ∨ m.InvalidRegexp compile := by
  unfold toInfluxFilter operatorMapping Matcher.InvalidRegexp Matcher.UnknownType Matcher.IsRegexp
  rcases m.type_cases with h | h | h | h | ⟨h₀, h₁, h₂⟩
  · simp [h, matchEqual, matchRegexp, matchNotRegexp]
  · simp [h, matchEqual, matchNotEqual, matchRegexp, matchNotRegexp]
  · cases compile m.value with
    | error err => simp [h, matchEqual, matchNotEqual, matchRegexp]
    | ok r => simp [h, matchEqual, matchNotEqual, matchRegexp]
  · cases compile m.value with
    | error err => simp [h, matchEqual, matchNotEqual, matchRegexp, matchNotRegexp]
    | ok r => simp [h, matchEqual, matchNotEqual, matchRegexp, matchNotRegexp]
  · rw [Matcher.IsRegexp, not_or] at h₂
    simp [h₀, h₁, h₂]

/-- The expression of an accepted matcher, by its type. -/
theorem toInfluxFilter_ok {m : Matcher} {e : Expr} (h : toInfluxFilter compile m = .ok e) :
    m.type = matchEqual ∧ e = .binaryExpr (.varRef m.name) (.stringLiteral m.value) .eq ∨
    m.type = matchNotEqual ∧ e = .binaryExpr (.varRef m.name) (.stringLiteral m.value) .neq ∨
    ∃ r, compile m.value = .ok r ∧
      (m.type = matchRegexp ∧ e = .binaryExpr (.varRef m.name) (.regexLiteral r) .eqRegex ∨
        m.type = matchNotRegexp ∧ e = .binaryExpr (.varRef m.name) (.regexLiteral r) .neqRegex) := by
  unfold toInfluxFilter operatorMapping at h
  rcases m.type_cases with ht | ht | ht | ht | ⟨h₀, h₁, h₂⟩
  · rw [if_pos ht] at h
    exact Or.inl ⟨ht, (Except.ok.inj h).symm⟩
  · rw [ht, if_neg (by decide), if_pos rfl] at h
    exact Or.inr (Or.inl ⟨ht, (Except.ok.inj h).symm⟩)
  · rw [ht, if_neg (by decide), if_neg (by decide), if_pos rfl] at h
    cases hc : compile m.value with
    | error err => simp [hc] at h
    | ok r =>
      simp only [hc, Except.ok.injEq] at h
      exact Or.inr (Or.inr ⟨r, rfl, Or.inl ⟨ht, h.symm⟩⟩)
  · rw [ht, if_neg (by decide), if_neg (by decide), if_neg (by decide), if_pos rfl] at h
    cases hc : compile m.value with
    | error err => simp [hc] at h
    | ok r =>
      simp only [hc, Except.ok.injEq] at h
      exact Or.inr (Or.inr ⟨r, rfl, Or.inr ⟨ht, h.symm⟩⟩)
  · rw [Matcher.IsRegexp, not_or] at h₂
    rw [if_neg h₀, if_neg h₁, if_neg h₂.1, if_neg h₂.2] at h
    cases h

/-! ## What a translated matcher means -/

theorem Matcher.matches_regexp {m : Matcher} {r : Expression} (hc : compile m.value = .ok r)
    (s : Bytes) :
    (m.type = matchRegexp → m.matches compile s = r.wholeMatch s) ∧
      (m.type = matchNotRegexp → m.matches compile s = !r.wholeMatch s) := by
  unfold Matcher.matches anchoredMatch
  rw [hc]
  constructor
  · intro ht
    rw [ht, if_neg (by decide), if_neg (by decide), if_pos rfl]
    exact r.search_anchored s
  · intro ht
    rw [ht, if_neg (by decide), if_neg (by decide), if_neg (by decide), if_pos rfl]
    exact congrArg _ (r.search_anchored s)

/-- **One matcher**: the expression and the matcher agree on a label set exactly when the
    regular expression does not match just a part of the value. -/
theorem satisfiedBy_toInfluxFilter {m : Matcher} {e : Expr}
    (h : toInfluxFilter compile m = .ok e) (l : Labels) :
    e.satisfiedBy l = m.matches compile (l.get m.name) ↔
      ¬ m.PartialMatch compile (l.get m.name) := by
  rcases toInfluxFilter_ok h with ⟨ht, rfl⟩ | ⟨ht, rfl⟩ | ⟨r, hc, hr⟩
  · simp [ht, Expr.satisfiedBy, Matcher.matches, Matcher.PartialMatch, Matcher.IsRegexp, matchEqual,
      matchRegexp, matchNotRegexp]
  · simp [ht, Expr.satisfiedBy, Matcher.matches, Matcher.PartialMatch, Matcher.IsRegexp, matchEqual,
      matchNotEqual, matchRegexp, matchNotRegexp]
  · obtain ⟨hpos, hneg⟩ := Matcher.matches_regexp hc (l.get m.name)
    have hwhole : r.wholeMatch (l.get m.name) = true → r.search (l.get m.name) = true :=
      Expression.search_of_wholeMatch
    -- a part is found and the whole is not matched
    have hpart : m.IsRegexp → (m.PartialMatch compile (l.get m.name) ↔
        r.search (l.get m.name) = true ∧ r.wholeMatch (l.get m.name) = false) := by
      intro hm
      simp [Matcher.PartialMatch, hm, hc]
    rcases hr with ⟨ht, rfl⟩ | ⟨ht, rfl⟩
    · rw [hpart (Or.inl ht), hpos ht]
      show r.search (l.get m.name) = _ ↔ _
      cases hs : r.search (l.get m.name) <;> cases hw : r.wholeMatch (l.get m.name) <;> simp_all
    · rw [hpart (Or.inr ht), hneg ht]
      show (!r.search (l.get m.name)) = _ ↔ _
      cases hs : r.search (l.get m.name) <;> cases hw : r.wholeMatch (l.get m.name) <;> simp_all

/-- A part of the value is matched: `=~` fails and its translation does not, and `!~` is the
    other way round. -/
theorem Matcher.PartialMatch.satisfiedBy {m : Matcher} {e : Expr} {l : Labels}
    (hpart : m.PartialMatch compile (l.get m.name)) (h : toInfluxFilter compile m = .ok e) :
    (m.matches compile (l.get m.name) = false ↔ m.type = matchRegexp) ∧
      (e.satisfiedBy l = false ↔ m.type = matchNotRegexp) := by
  have hdiffer : e.satisfiedBy l ≠ m.matches compile (l.get m.name) := fun hsame =>
    (satisfiedBy_toInfluxFilter h l).1 hsame hpart
  obtain ⟨hm, r, hc, -, hwhole⟩ := hpart
  obtain ⟨hpos, hneg⟩ := Matcher.matches_regexp hc (l.get m.name)
  rcases hm with ht | ht
  · have hmatches : m.matches compile (l.get m.name) = false := (hpos ht).trans hwhole
    rw [hmatches] at hdiffer ⊢
    simp [ht, hdiffer, matchRegexp, matchNotRegexp]
  · have hmatches : m.matches compile (l.get m.name) = true := by rw [hneg ht, hwhole]; rfl
    rw [hmatches] at hdiffer ⊢
    simpa [ht, matchRegexp, matchNotRegexp] using hdiffer

/-! ## Lists of matchers -/

theorem toInfluxFiltersLoop_error_iff (matchers : List Matcher) (cond : Option Expr) :
    (∃ err, toInfluxFiltersLoop compile cond matchers = .error err) ↔
      ∃ m ∈ matchers, ∃ err, toInfluxFilter compile m = .error err := by
  induction matchers generalizing cond with
  | nil => simp [toInfluxFiltersLoop]
  | cons m matchers ih =>
    rw [toInfluxFiltersLoop]
    cases hm : toInfluxFilter compile m with
    | error err => simp [hm]
    | ok e =>
      dsimp only
      rw [ih]
      simp [hm]

theorem satisfies_addCondition (l : Labels) (e : Expr) (cond : Option Expr) :
    satisfies l (some (addCondition e cond)) = (e.satisfiedBy l && satisfies l cond) := by
  cases cond with
  | none => simp [addCondition, satisfies]
  | some c => simp [addCondition, satisfies, Expr.satisfiedBy]

/-- The loop conjoins the expressions of the matchers. -/
theorem satisfies_toInfluxFiltersLoop {matchers : List Matcher} {cond filter : Option Expr}
    (h : toInfluxFiltersLoop compile cond matchers = .ok filter) (l : Labels) :
    satisfies l filter = true ↔ satisfies l cond = true ∧
      ∀ m ∈ matchers, ∃ e, toInfluxFilter compile m = .ok e ∧ e.satisfiedBy l = true := by
  induction matchers generalizing cond with
  | nil =>
    cases h
    simp
  | cons m matchers ih =>
    rw [toInfluxFiltersLoop] at h
    cases hm : toInfluxFilter compile m with
    | error err => simp [hm] at h
    | ok e =>
      rw [hm] at h
      rw [ih h, satisfies_addCondition, Bool.and_eq_true, List.forall_mem_cons]
      simp only [hm, Except.ok.injEq, exists_eq_left']
      tauto

theorem exists_toInfluxFilter {matchers : List Matcher} {filter : Option Expr}
    (h : toInfluxFilters compile matchers = .ok filter) {m : Matcher} (hm : m ∈ matchers) :
    ∃ e, toInfluxFilter compile m = .ok e := by
  cases he : toInfluxFilter compile m with
  | error err =>
    obtain ⟨err', herr⟩ := (toInfluxFiltersLoop_error_iff matchers none).2 ⟨m, hm, err, he⟩
    rw [show toInfluxFiltersLoop compile none matchers = .ok filter from h] at herr
    cases herr
  | ok e => exact ⟨e, rfl⟩

/-- A label set satisfies the translation if it satisfies that of each matcher. -/
theorem satisfies_toInfluxFilters {matchers : List Matcher} {filter : Option Expr}
    (h : toInfluxFilters compile matchers = .ok filter) (l : Labels) :
    satisfies l filter = true ↔
      ∀ m ∈ matchers, ∃ e, toInfluxFilter compile m = .ok e ∧ e.satisfiedBy l = true := by
  rw [satisfies_toInfluxFiltersLoop h]
  simp [satisfies]

/-- The translation selects the label sets in which no `!~` matches a part of its value and
    which the matchers without a partial match select. -/
theorem satisfies_iff_partialMatch {matchers : List Matcher} {filter : Option Expr}
    (h : toInfluxFilters compile matchers = .ok filter) (l : Labels) :
    satisfies l filter = true ↔
      ∀ m ∈ matchers, (m.PartialMatch compile (l.get m.name) → m.type ≠ matchNotRegexp) ∧
        (¬ m.PartialMatch compile (l.get m.name) → m.matches compile (l.get m.name) = true) := by
  rw [satisfies_toInfluxFilters h]
  refine forall₂_congr fun m hm => ?_
  obtain ⟨e, he⟩ := exists_toInfluxFilter h hm
  rw [he]
  simp only [Except.ok.injEq, exists_eq_left']
  by_cases hpart : m.PartialMatch compile (l.get m.name)
  · have hneg := (hpart.satisfiedBy he).2
    simp only [hpart, forall_true_left, not_true_eq_false, false_imp_iff, and_true, ne_eq, ← hneg,
      Bool.not_eq_false]
  · have hsame := (satisfiedBy_toInfluxFilter he l).2 hpart
    simp only [hpart, false_imp_iff, not_false_eq_true, forall_true_left, true_and, hsame]

/-- The matchers select the label sets in which no `=~` matches a part of its value and which
    the matchers without a partial match select. -/
theorem matches_iff_partialMatch {matchers : List Matcher} {filter : Option Expr}
    (h : toInfluxFilters compile matchers = .ok filter) (l : Labels) :
    (∀ m ∈ matchers, m.matches compile (l.get m.name) = true) ↔
      ∀ m ∈ matchers, (m.PartialMatch compile (l.get m.name) → m.type ≠ matchRegexp) ∧
        (¬ m.PartialMatch compile (l.get m.name) → m.matches compile (l.get m.name) = true) := by
  refine forall₂_congr fun m hm => ?_
  obtain ⟨e, he⟩ := exists_toInfluxFilter h hm
  by_cases hpart : m.PartialMatch compile (l.get m.name)
  · have hpos := (hpart.satisfiedBy he).1
    simp only [hpart, forall_true_left, not_true_eq_false, false_imp_iff, and_true, ne_eq, ← hpos,
      Bool.not_eq_false]
  · simp [hpart]

/-- A partial match is one of `=~` or of `!~`. -/
theorem forall_not_partialMatch_iff {matchers : List Matcher} {l : Labels} :
    (∀ m ∈ matchers, ¬ m.PartialMatch compile (l.get m.name)) ↔
      (¬ ∃ m ∈ matchers, m.type = matchRegexp ∧ m.PartialMatch compile (l.get m.name)) ∧
      ¬ ∃ m ∈ matchers, m.type = matchNotRegexp ∧ m.PartialMatch compile (l.get m.name) := by
  constructor
  · intro hall
    exact ⟨fun ⟨m, hm, _, hpart⟩ => hall m hm hpart, fun ⟨m, hm, _, hpart⟩ => hall m hm hpart⟩
  · rintro ⟨hpos, hneg⟩ m hm hpart
    exact hpart.1.elim (fun ht => hpos ⟨m, hm, ht, hpart⟩) fun ht => hneg ⟨m, hm, ht, hpart⟩

/-- **Translated matchers.** The translation fails exactly when a matcher has an unknown
    type or an invalid regular expression. A list it accepts agrees with its matchers on a
    label set exactly when the partial matches of its regular expressions there are harmless. -/
theorem toInfluxFilters_agrees (compile : Bytes → Except Bytes Expression)
    (matchers : List Matcher) :
    ((∃ err, toInfluxFilters compile matchers = .error err) ↔
      ∃ m ∈ matchers, m.UnknownType ∨ m.InvalidRegexp compile) ∧
    ∀ filter, toInfluxFilters compile matchers = .ok filter → ∀ l : Labels,
      ((satisfies l filter = true ↔
          ∀ m ∈ matchers, m.matches compile (l.get m.name) = true) ↔
        PartialMatchesHarmless compile matchers l) := by
  constructor
  · unfold toInfluxFilters
    rw [toInfluxFiltersLoop_error_iff]
    simp only [toInfluxFilter_error_iff]
  · intro filter h l
    rw [satisfies_iff_partialMatch h, matches_iff_partialMatch h]
    unfold PartialMatchesHarmless
    by_cases hfail : ∃ m ∈ matchers, ¬ m.PartialMatch compile (l.get m.name) ∧
        m.matches compile (l.get m.name) = false
    · -- neither the matchers nor their translation select the label set
      obtain ⟨m, hm, hno, hfalse⟩ := id hfail
      refine iff_of_true (iff_of_false (fun hall => ?_) fun hall => ?_) (.inr (.inl hfail))
      · simp [(hall m hm).2 hno] at hfalse
      · simp [(hall m hm).2 hno] at hfalse
    · have hpass : ∀ m ∈ matchers, ¬ m.PartialMatch compile (l.get m.name) →
          m.matches compile (l.get m.name) = true := fun m hm hno =>
        Bool.not_eq_false _ ▸ fun hfalse => hfail ⟨m, hm, hno, hfalse⟩
      -- what is left are the partial matches of one type
      have hkind : ∀ type, (∀ m ∈ matchers,
          (m.PartialMatch compile (l.get m.name) → m.type ≠ type) ∧
          (¬ m.PartialMatch compile (l.get m.name) → m.matches compile (l.get m.name) = true)) ↔
          ¬ ∃ m ∈ matchers, m.type = type ∧ m.PartialMatch compile (l.get m.name) := by
        intro type
        simp only [not_exists, not_and]
        refine forall₂_congr fun m hm => ⟨fun hall ht hpart => hall.1 hpart ht, fun hall => ?_⟩
        exact ⟨fun hpart ht => hall ht hpart, hpass m hm⟩
      rw [hkind, hkind, forall_not_partialMatch_iff, or_iff_right hfail]
      exact (not_iff_not.trans Iff.comm).trans (iff_iff_and_or_not_and_not.trans or_comm)

end Translation

/-- A `regexp.Compile` for expressions without special characters. -/
def compileText (v : Bytes) : Except Bytes Expression := .ok (.text v)

/-- `job =~ "api"` and `job != ""`. -/
def apiMatchers : List Matcher :=
  [⟨matchRegexp, lit "job", lit "api"⟩, ⟨matchNotEqual, lit "job", []⟩]

theorem toInfluxFilters_agrees_api :
    ∃ filter, toInfluxFilters compileText apiMatchers = .ok filter ∧
      satisfies [(lit "job", lit "api")] filter = true := by
  refine ⟨_, rfl, (((toInfluxFilters_agrees compileText apiMatchers).2 _ rfl _).2 ?_).2
    (by decide)⟩
  refine .inl fun m hm hpart => ?_
  obtain ⟨hregexp, r, hc, -, hwhole⟩ := hpart
  cases Except.ok.inj hc
  rcases List.mem_cons.1 hm with rfl | hm
  · exact absurd hwhole (by decide)
  · rw [List.mem_singleton.1 hm] at hregexp
    exact absurd hregexp (by decide)

/-- **A part of the value is enough**: the matcher `job =~ "b"` does not match `abc`, and
    its translation selects it. -/
theorem substring_selected :
    ∃ filter, toInfluxFilters compileText [⟨matchRegexp, lit "job", lit "b"⟩] = .ok filter ∧
      satisfies [(lit "job", lit "abc")] filter = true ∧
      Matcher.matches compileText ⟨matchRegexp, lit "job", lit "b"⟩ (lit "abc") = false :=
  ⟨_, rfl, by decide, by decide⟩

end MetricStore.Persistence
