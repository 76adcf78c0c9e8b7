import MetricStore.Common.Duration
import MetricStore.Common.GoMap
import MetricStore.Influx.Point

/-!
# Rule groups

Model of the rule groups of the rules client (`pkg/rulesclient/rule_group.go`,
`pkg/rulesclient/rule.go`): their validation, their conversion to the groups of
Prometheus, and the JSON in which `RulesClient.UpsertRuleGroup` sends a group and
`RulesAPI.upsertRuleGroup` reads it.

A JSON text is represented by the value that it decodes to. A nil map and an empty one
are the same, and so are a nil list and an empty one. The validation of a rule by
Prometheus (`rulefmt.Rule.Validate`) is a parameter.

An interval is written with the largest of seven units that divides it, from milliseconds
to years, and read by `time.ParseDuration`, which knows no unit above the hour.

Results:
* `interval_survives_iff`: an accepted interval comes back exactly when it is zero, or a
  whole number of milliseconds and not a whole number of days.
* `one_day_rejected`: an interval of one day is rejected by the node that reads it.
-/

namespace MetricStore.Rules

open MetricStore.Common MetricStore.Common.Duration MetricStore.Influx

/-! ## Durations -/

/-- The unit of `Duration.String` (lines 78–102) and its milliseconds: the first of the
    `switch` that divides. -/
def durationUnit (ms : ℤ) : Bytes × ℤ :=
  if ms.tmod (1000 * 60 * 60 * 24 * 365) = 0 then (lit "y", 1000 * 60 * 60 * 24 * 365)
  else if ms.tmod (1000 * 60 * 60 * 24 * 7) = 0 then (lit "w", 1000 * 60 * 60 * 24 * 7)
  else if ms.tmod (1000 * 60 * 60 * 24) = 0 then (lit "d", 1000 * 60 * 60 * 24)
  else if ms.tmod (1000 * 60 * 60) = 0 then (lit "h", 1000 * 60 * 60)
  else if ms.tmod (1000 * 60) = 0 then (lit "m", 1000 * 60)
  else if ms.tmod 1000 = 0 then (lit "s", 1000)
  else (lit "ms", 1)

/-- `Duration.String` (lines 70–103). -/
def durationString (d : Int64) : Bytes :=
  let ms := d.toInt.tdiv (10 ^ 6)
  if ms = 0 then lit "0s"
  else formatInt (ms.tdiv (durationUnit ms).2) ++ (durationUnit ms).1

/-- A JSON value, as far as `UnmarshalJSON` tells them apart. -/
inductive JSONValue
  | number (value : Float64)
  | string (value : Bytes)
  | other
  deriving DecidableEq

/-- `Duration.MarshalJSON` (lines 105–107). -/
def marshalJSON (d : Int64) : JSONValue := .string (durationString d)

/-- The conversion of a `float64` to an `int64`: towards zero, and the smallest integer
    where that does not fit. -/
def truncFloat64 (v : Float64) : Int64 :=
  let e := (exponent v).toNat
  let m := 2 ^ 52 + (fraction v).toNat
  let n : ℕ :=
    if e < 1023 then 0 else if e < 1075 then m / 2 ^ (1075 - e) else m * 2 ^ (e - 1075)
  let z : ℤ := if v.msb then -n else n
  if -2 ^ 63 ≤ z ∧ z < 2 ^ 63 then Int64.ofInt z else Int64.minValue

/-- `Duration.UnmarshalJSON` (lines 109–130). -/
def unmarshalJSON (fractionNanos : ℕ → ℕ → ℕ → ℕ) : JSONValue → Except Bytes Int64
  | .number value => .ok (truncFloat64 value)
  | .string value =>
    match parseDuration fractionNanos value with
    | .error err => .error err
    | .ok dur => .ok (Int64.ofInt dur)
  | .other => .error (lit "invalid duration")

/-! ## Rules and groups -/

/-- `Rule` (`rule.go`, lines 11–18). -/
structure Rule where
  record : Bytes
  alert : Bytes
  expr : Bytes
  for_ : Bytes
  labels : GoMap Bytes Bytes
  annotations : GoMap Bytes Bytes
  deriving DecidableEq

/-- `rulefmt.Rule`. -/
structure PromRule where
  record : Bytes
  alert : Bytes
  expr : Bytes
  for_ : Int64
  labels : GoMap Bytes Bytes
  annotations : GoMap Bytes Bytes
  deriving DecidableEq

/-- `RuleGroup` (`rule_group.go`, lines 17–21). -/
structure RuleGroup where
  name : Bytes
  interval : Int64
  rules : List Rule
  deriving DecidableEq

/-- `rulefmt.RuleGroup`. -/
structure PromRuleGroup where
  name : Bytes
  interval : Int64
  rules : List PromRule
  deriving DecidableEq

/-- What rule groups take from outside: the floating-point arithmetic of
    `time.ParseDuration`, and the errors of `rulefmt.Rule.Validate`. -/
structure RuleLibrary where
  fractionNanos : ℕ → ℕ → ℕ → ℕ
  ruleErrors : PromRule → List Bytes

/-- `strings.Trim` of quotation marks. -/
def trimQuotes (s : Bytes) : Bytes :=
  ((s.dropWhile (· = 34)).reverse.dropWhile (· = 34)).reverse

section Library

variable (lib : RuleLibrary)

/-- `convertToPromRule` (lines 33–51). -/
def Rule.convertToPromRule (r : Rule) : Except Bytes PromRule :=
  if r.for_ = [] then .ok ⟨r.record, r.alert, r.expr, 0, r.labels, r.annotations⟩
  else
    match parseDuration lib.fractionNanos (trimQuotes r.for_) with
    | .error err => .error err
    | .ok duration =>
      .ok ⟨r.record, r.alert, r.expr, Int64.ofInt duration, r.labels, r.annotations⟩

/-- `Rule.Validate` (lines 20–31): the first error, if any. -/
def Rule.validate (r : Rule) : Option Bytes :=
  match r.convertToPromRule lib with
  | .error err => some err
  | .ok promRule => (lib.ruleErrors promRule).head?

/-- `RuleGroup.Validate` (lines 25–46). -/
def RuleGroup.validate (rg : RuleGroup) : Option Bytes :=
  if rg.name = [] then some (lit "name is required")
  else if rg.interval ≠ 0 ∧ rg.interval < 60000000000 then some (lit "interval is too short")
  else if rg.rules = [] then some (lit "at least one rule is required")
  else rg.rules.findSome? (Rule.validate lib)

/-- The loop of `ConvertToPromRuleGroup`. -/
def convertRules : List Rule → Except Bytes (List PromRule)
  | [] => .ok []
  | rule :: rules =>
    match rule.convertToPromRule lib with
    | .error err => .error err
    | .ok promRule =>
      match convertRules rules with
      | .error err => .error err
      | .ok promRules => .ok (promRule :: promRules)

/-- `ConvertToPromRuleGroup` (lines 48–64). -/
def RuleGroup.convertToPromRuleGroup (rg : RuleGroup) : Except Bytes PromRuleGroup :=
  match convertRules lib rg.rules with
  | .error err => .error err
  | .ok promRules => .ok ⟨rg.name, rg.interval, promRules⟩

end Library

/-! ## JSON -/

/-- `RuleGroupData` as JSON. A field that is omitted comes back as its zero value, which
    is what it was; only the interval has an encoding of its own. -/
structure RuleGroupDocument where
  name : Bytes
  interval : Option JSONValue
  rules : List Rule
  deriving DecidableEq

/-- `json.Marshal` of a rule group: an interval of zero is omitted. -/
def RuleGroup.toJSON (rg : RuleGroup) : RuleGroupDocument :=
  ⟨rg.name, if rg.interval = 0 then none else some (marshalJSON rg.interval), rg.rules⟩

/-- `json.Decode` of a rule group. -/
def RuleGroupDocument.decode (fractionNanos : ℕ → ℕ → ℕ → ℕ) (doc : RuleGroupDocument) :
    Except Bytes RuleGroup :=
  match doc.interval with
  | none => .ok ⟨doc.name, 0, doc.rules⟩
  | some value =>
    match unmarshalJSON fractionNanos value with
    | .error err => .error err
    | .ok interval => .ok ⟨doc.name, interval, doc.rules⟩

/-! ## What is read back -/

/-- A duration that `ParseDuration` reads as it was written: zero, or a whole number of
    milliseconds that is not one of days. -/
def Readable (d : Int64) : Prop :=
  d = 0 ∨ (10 ^ 6 ∣ d.toInt ∧ ¬ 86400 * 10 ^ 9 ∣ d.toInt)

instance (d : Int64) : Decidable (Readable d) := inferInstanceAs (Decidable (_ ∨ _))

theorem unitText_of_all {u : Bytes} (h : (u != [] && u.all fun c => !endsUnit c) = true) :
    UnitText u := by
  rw [Bool.and_eq_true, bne_iff_ne, List.all_eq_true] at h
  refine ⟨h.1, fun c hc => ?_⟩
  simpa using h.2 c hc

/-- The unit of a number of milliseconds: it divides the number, and `ParseDuration` knows
    it unless the number is one of days. -/
theorem durationUnit_spec (n : ℕ) :
    ∃ (u : Bytes) (f k : ℕ), durationUnit n = (u, (f : ℤ)) ∧ UnitText u ∧ 0 < f ∧ n = k * f ∧
      (86400000 ∣ n ∧ unitMap.lookup u = none ∨
        ¬ 86400000 ∣ n ∧ unitMap.lookup u = some (f * 10 ^ 6)) := by
  have htmod : ∀ m : ℤ, (n : ℤ).tmod m = (n : ℤ) % m := fun m =>
    Int.tmod_eq_emod_of_nonneg (Int.natCast_nonneg n)
  unfold durationUnit
  simp only [htmod]
  split_ifs with hy hw hd hh hm hs
  · exact ⟨lit "y", 31536000000, n / 31536000000, rfl, unitText_of_all (by decide), by norm_num,
      by omega, Or.inl ⟨by omega, by decide⟩⟩
  · exact ⟨lit "w", 604800000, n / 604800000, rfl, unitText_of_all (by decide), by norm_num,
      by omega, Or.inl ⟨by omega, by decide⟩⟩
  · exact ⟨lit "d", 86400000, n / 86400000, rfl, unitText_of_all (by decide), by norm_num,
      by omega, Or.inl ⟨by omega, by decide⟩⟩
  · exact ⟨lit "h", 3600000, n / 3600000, rfl, unitText_of_all (by decide), by norm_num,
      by omega, Or.inr ⟨by omega, by decide⟩⟩
  · exact ⟨lit "m", 60000, n / 60000, rfl, unitText_of_all (by decide), by norm_num,
      by omega, Or.inr ⟨by omega, by decide⟩⟩
  · exact ⟨lit "s", 1000, n / 1000, rfl, unitText_of_all (by decide), by norm_num,
      by omega, Or.inr ⟨by omega, by decide⟩⟩
  · exact ⟨lit "ms", 1, n, rfl, unitText_of_all (by decide), by norm_num,
      by omega, Or.inr ⟨by omega, by decide⟩⟩

/-- The text of a positive duration: a natural number and its unit. -/
theorem durationString_of_pos {d : Int64} {n k f : ℕ} {u : Bytes}
    (hms : d.toInt.tdiv (10 ^ 6) = n) (hn : 0 < n) (hunit : durationUnit n = (u, (f : ℤ)))
    (hf : 0 < f) (hk : n = k * f) : durationString d = decimal k ++ u := by
  have hne : (n : ℤ) ≠ 0 := by omega
  have hdiv : (n : ℤ).tdiv (f : ℤ) = k := by
    rw [hk, Int.tdiv_eq_ediv_of_nonneg (Int.natCast_nonneg _), Nat.cast_mul,
      Int.mul_ediv_cancel _ (by omega)]
  unfold durationString
  dsimp only
  rw [hms, if_neg hne, hunit]
  dsimp only
  rw [hdiv, formatInt, if_neg (by omega), Int.toNat_natCast]

variable (fractionNanos : ℕ → ℕ → ℕ → ℕ)

/-- A positive duration as it is read back: rejected if it is a number of days, and
    otherwise cut to milliseconds. -/
theorem unmarshalJSON_marshalJSON_of_pos {d : Int64} {n : ℕ}
    (hms : d.toInt.tdiv (10 ^ 6) = n) (hn : 0 < n) (hfits : n * 10 ^ 6 < 2 ^ 63) :
    (86400000 ∣ n → ∃ err, unmarshalJSON fractionNanos (marshalJSON d) = .error err) ∧
    (¬ 86400000 ∣ n →
      unmarshalJSON fractionNanos (marshalJSON d) = .ok (Int64.ofInt (n * 10 ^ 6 : ℕ))) := by
  obtain ⟨u, f, k, hunit, hu, hf, hk, hlookup⟩ := durationUnit_spec n
  have hstring := durationString_of_pos hms hn hunit hf hk
  rw [marshalJSON, hstring]
  constructor
  · intro hday
    rcases hlookup with ⟨-, hnone⟩ | ⟨hnot, -⟩
    · have hk63 : k < 2 ^ 63 := by
        have : k ≤ n := hk ▸ Nat.le_mul_of_pos_right k hf
        omega
      rw [unmarshalJSON, parseDuration_unknown fractionNanos hk63 hu hnone]
      exact ⟨_, rfl⟩
    · exact absurd hday hnot
  · intro hday
    rcases hlookup with ⟨hdvd, -⟩ | ⟨-, hsome⟩
    · exact absurd hdvd hday
    · have hmul : k * (f * 10 ^ 6) = n * 10 ^ 6 := by rw [← mul_assoc, ← hk]
      rw [unmarshalJSON, parseDuration_decimal fractionNanos hu hsome (by positivity)
        (by rw [hmul]; exact hfits), hmul]

/-- An interval that the validation accepts. -/
def AcceptedInterval (d : Int64) : Prop := d = 0 ∨ 60000000000 ≤ d

/-- A duration cut to whole milliseconds is the same if it was a number of them. -/
theorem ofInt_millis_eq_iff {d : Int64} {n : ℕ} (hnonneg : 0 ≤ d.toInt)
    (hdiv : d.toInt / 10 ^ 6 = n) : Int64.ofInt (n * 10 ^ 6) = d ↔ 10 ^ 6 ∣ d.toInt := by
  have hhigh : d.toInt < 2 ^ 63 := d.toInt_lt
  constructor
  · intro heq
    have hval := congrArg Int64.toInt heq
    rw [Int64.toInt_ofInt_of_le (by omega) (by omega)] at hval
    omega
  · intro hdvd
    have hval : (n : ℤ) * 10 ^ 6 = d.toInt := by omega
    rw [hval, Int64.ofInt_toInt]

theorem duration_survives_iff {d : Int64} (hd : AcceptedInterval d) :
    unmarshalJSON fractionNanos (marshalJSON d) = .ok d ↔ Readable d := by
  rcases hd with rfl | hmin
  · refine iff_of_true ?_ (Or.inl rfl)
    have hzero : marshalJSON 0 = .string (decimal 0 ++ lit "s") := by decide
    rw [hzero, unmarshalJSON, parseDuration_decimal fractionNanos
      (unitText_of_all (by decide)) (show unitMap.lookup (lit "s") = some (10 ^ 9) by decide)
      (by norm_num) (by norm_num)]
    rfl
  · have hlow : (60000000000 : ℤ) ≤ d.toInt := by
      have := Int64.le_iff_toInt_le.1 hmin
      exact this
    have hhigh : d.toInt < 2 ^ 63 := d.toInt_lt
    have hne : d ≠ 0 := by
      rintro rfl
      exact absurd hlow (by decide)
    obtain ⟨n, hms⟩ : ∃ n : ℕ, d.toInt.tdiv (10 ^ 6) = n :=
      ⟨(d.toInt / 10 ^ 6).toNat, by
        rw [Int.tdiv_eq_ediv_of_nonneg (by omega)]
        omega⟩
    have hdiv : d.toInt / 10 ^ 6 = n := by
      rw [← Int.tdiv_eq_ediv_of_nonneg (by omega), hms]
    obtain ⟨hday, hother⟩ := unmarshalJSON_marshalJSON_of_pos fractionNanos hms
      (by omega) (by omega)
    unfold Readable
    by_cases hdvd : 86400000 ∣ n
    · obtain ⟨err, herr⟩ := hday hdvd
      rw [herr]
      refine iff_of_false (by simp) ?_
      rintro (h0 | ⟨hmilli, hnot⟩)
      · exact hne h0
      · omega
    · have hback : Int64.ofInt (n * 10 ^ 6 : ℕ) = d ↔ 10 ^ 6 ∣ d.toInt := by
        push_cast
        exact ofInt_millis_eq_iff (by omega) hdiv
      rw [hother hdvd, Except.ok.injEq, hback]
      constructor
      · intro hmilli
        exact Or.inr ⟨hmilli, by omega⟩
      · rintro (h0 | ⟨hmilli, -⟩)
        · exact absurd h0 hne
        · exact hmilli

theorem decode_toJSON_iff {rg : RuleGroup} :
    rg.toJSON.decode fractionNanos = .ok rg ↔
      rg.interval = 0 ∨ unmarshalJSON fractionNanos (marshalJSON rg.interval) = .ok rg.interval := by
  obtain ⟨name, interval, rules⟩ := rg
  unfold RuleGroup.toJSON RuleGroupDocument.decode
  by_cases h0 : interval = 0
  · simp [h0]
  · simp only [h0, if_false, false_or]
    cases unmarshalJSON fractionNanos (marshalJSON interval) <;> simp

/-- What is read back of a group has its name and its rules. -/
theorem decode_toJSON_eq {rg g : RuleGroup} (h : rg.toJSON.decode fractionNanos = .ok g) :
    g.name = rg.name ∧ g.rules = rg.rules ∧
      (g.interval = 0 ∨ unmarshalJSON fractionNanos (marshalJSON rg.interval) = .ok g.interval) := by
  unfold RuleGroup.toJSON RuleGroupDocument.decode at h
  by_cases h0 : rg.interval = 0
  · simp only [h0, if_true] at h
    cases h
    exact ⟨rfl, rfl, Or.inl rfl⟩
  · simp only [h0, if_false] at h
    cases hread : unmarshalJSON fractionNanos (marshalJSON rg.interval) with
    | error err =>
      rw [hread] at h
      cases h
    | ok interval =>
      rw [hread] at h
      cases h
      exact ⟨rfl, rfl, Or.inr rfl⟩

theorem durationUnit_dvd (ms : ℤ) : 0 < (durationUnit ms).2 ∧ (durationUnit ms).2 ∣ ms := by
  unfold durationUnit
  split_ifs with hy hw hd hh hm hs
  · exact ⟨by norm_num, Int.dvd_of_tmod_eq_zero hy⟩
  · exact ⟨by norm_num, Int.dvd_of_tmod_eq_zero hw⟩
  · exact ⟨by norm_num, Int.dvd_of_tmod_eq_zero hd⟩
  · exact ⟨by norm_num, Int.dvd_of_tmod_eq_zero hh⟩
  · exact ⟨by norm_num, Int.dvd_of_tmod_eq_zero hm⟩
  · exact ⟨by norm_num, Int.dvd_of_tmod_eq_zero hs⟩
  · exact ⟨by norm_num, one_dvd ms⟩

/-- A duration of less than a millisecond is written as zero seconds. -/
theorem durationString_of_zero {d : Int64} (h : d.toInt.tdiv (10 ^ 6) = 0) :
    durationString d = decimal 0 ++ lit "s" := by
  unfold durationString
  dsimp only
  rw [if_pos h]
  decide

/-- A duration that is negative in milliseconds is written with a minus sign. -/
theorem durationString_of_neg {d : Int64} (h : d.toInt.tdiv (10 ^ 6) < 0) :
    ∃ s, durationString d = 45 :: s := by
  generalize hms : d.toInt.tdiv (10 ^ 6) = ms at h
  obtain ⟨hpos, k, hk⟩ := durationUnit_dvd ms
  have hneg : ms.tdiv (durationUnit ms).2 < 0 := by
    have htdiv : ms.tdiv (durationUnit ms).2 = k := by
      nth_rewrite 1 [hk]
      exact Int.mul_tdiv_cancel_left k hpos.ne'
    rw [htdiv]
    by_contra hk0
    have : 0 ≤ (durationUnit ms).2 * k := mul_nonneg hpos.le (not_lt.1 hk0)
    omega
  unfold durationString
  dsimp only
  rw [hms, if_neg h.ne, formatInt, if_pos hneg]
  exact ⟨_, rfl⟩

/-- A duration of less than a millisecond, or a negative one, is not read back as a positive
    one. -/
theorem unmarshalJSON_marshalJSON_of_small {d d' : Int64} (hd : d.toInt.tdiv (10 ^ 6) ≤ 0)
    (h : unmarshalJSON fractionNanos (marshalJSON d) = .ok d') : d'.toInt ≤ 0 := by
  by_cases h0 : d.toInt.tdiv (10 ^ 6) = 0
  · rw [marshalJSON, durationString_of_zero h0, unmarshalJSON,
      parseDuration_decimal fractionNanos (unitText_of_all (by decide))
        (show unitMap.lookup (lit "s") = some (10 ^ 9) by decide) (by norm_num) (by norm_num)] at h
    cases h
    decide
  · obtain ⟨s, hs⟩ := durationString_of_neg (lt_of_le_of_ne hd h0)
    rw [marshalJSON, hs, unmarshalJSON] at h
    cases hparse : parseDuration fractionNanos (45 :: s) with
    | error err =>
      rw [hparse] at h
      cases h
    | ok z =>
      rw [hparse] at h
      cases h
      obtain ⟨hlow, hhigh⟩ := parseDuration_minus fractionNanos hparse
      rw [Int64.toInt_ofInt_of_le (by omega) (by omega)]
      exact hhigh

/-- A group that is read back with an accepted interval can be sent on. -/
theorem decode_toJSON_again {rg g : RuleGroup} (h : rg.toJSON.decode fractionNanos = .ok g)
    (haccepted : AcceptedInterval g.interval) : g.toJSON.decode fractionNanos = .ok g := by
  rw [decode_toJSON_iff, duration_survives_iff fractionNanos haccepted]
  rcases (decode_toJSON_eq fractionNanos h).2.2 with h0 | hread
  · exact Or.inl h0
  rcases haccepted with h0 | hmin
  · exact Or.inl h0
  have hlarge : (60000000000 : ℤ) ≤ g.interval.toInt := Int64.le_iff_toInt_le.1 hmin
  by_cases hsmall : rg.interval.toInt.tdiv (10 ^ 6) ≤ 0
  · have := unmarshalJSON_marshalJSON_of_small fractionNanos hsmall hread
    omega
  · obtain ⟨n, hn⟩ := Int.eq_ofNat_of_zero_le (not_le.1 hsmall).le
    have hbound : n * 10 ^ 6 < 2 ^ 63 := by
      have hmax : rg.interval.toInt < 2 ^ 63 := rg.interval.toInt_lt
      have hnonneg : 0 ≤ rg.interval.toInt := by
        by_contra hneg
        have hopposite : 0 ≤ (-rg.interval.toInt).tdiv (10 ^ 6) :=
          Int.tdiv_nonneg (by omega) (by norm_num)
        rw [Int.neg_tdiv] at hopposite
        omega
      rw [Int.tdiv_eq_ediv_of_nonneg hnonneg] at hn
      omega
    obtain ⟨hday, hother⟩ := unmarshalJSON_marshalJSON_of_pos fractionNanos hn (by omega) hbound
    by_cases hdvd : 86400000 ∣ n
    · obtain ⟨err, herr⟩ := hday hdvd
      rw [herr] at hread
      cases hread
    · rw [hother hdvd] at hread
      have hval := congrArg Int64.toInt (Except.ok.inj hread)
      rw [Int64.toInt_ofInt_of_le (by omega) (by omega)] at hval
      exact Or.inr (Or.inr ⟨by omega, by omega⟩)

/-- **When a rule group survives the wire.** An interval that the validation accepts is
    read back as it was written exactly when it is zero, or a whole number of
    milliseconds and not one of days; and then, and only then, a group with it is. -/
theorem interval_survives_iff (d : Int64) (hd : AcceptedInterval d) :
    (unmarshalJSON fractionNanos (marshalJSON d) = .ok d ↔ Readable d) ∧
      ∀ rg : RuleGroup, rg.interval = d →
        (rg.toJSON.decode fractionNanos = .ok rg ↔ Readable d) := by
  refine ⟨duration_survives_iff fractionNanos hd, ?_⟩
  rintro rg rfl
  rw [decode_toJSON_iff, duration_survives_iff fractionNanos hd]
  exact or_iff_right_of_imp Or.inl

theorem interval_survives_ninetyMinutes :
    AcceptedInterval 5400000000000 ∧
      unmarshalJSON (fun _ _ _ => 0) (marshalJSON 5400000000000) = .ok 5400000000000 :=
  have haccepted : AcceptedInterval 5400000000000 := Or.inr (by decide)
  ⟨haccepted, (interval_survives_iff (fun _ _ _ => 0) _ haccepted).1.2 (by decide)⟩

/-- A group with one recording rule and an interval of one day. -/
def dailyGroup : RuleGroup where
  name := lit "daily"
  interval := 86400000000000
  rules := [⟨lit "requests", [], lit "sum(http_total)", [], ∅, ∅⟩]

/-- **One day does not survive**: the validation accepts the group, its interval is
    written as `1d`, and the node that reads it rejects the group. -/
theorem one_day_rejected :
    dailyGroup.validate ⟨fun _ _ _ => 0, fun _ => []⟩ = none ∧
      dailyGroup.toJSON.interval = some (.string (lit "1d")) ∧
      dailyGroup.toJSON.decode (fun _ _ _ => 0)
        = .error (lit "time: unknown unit d in duration 1d") := by
  refine ⟨by decide, by decide, rfl⟩

end MetricStore.Rules
