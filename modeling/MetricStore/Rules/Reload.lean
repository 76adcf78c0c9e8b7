import MetricStore.Rules.RuleGroup

/-!
# Reloading a rule group

Model of the way of a rule group through its file: `writeRules` of `RuleManagerFiles`
(`internal/rules/rule_manager_files.go`, lines 116–130) writes the group that
`ConvertToPromRuleGroup` makes as YAML, and `PromRuleManager.Reload`
(`internal/rules/prom_manager.go`, lines 98–125) has Prometheus read the file:
`rulefmt.ParseFile` and `RuleGroups.Validate` of the vendored `pkg/rulefmt`, with
`ParseDuration` and `Duration.String` of the vendored `model`.

A duration is written in whole milliseconds with a sign, and omitted if it is zero. It is
read as a natural number with a unit.

The YAML library is a parameter, on texts of any type; that a document is read back as it
was written is a law of it.

Results:
* `reloads_iff`: a validated group reloads with its durations exactly if the interval and
  each `for` is a whole number of milliseconds, and no `for` is negative.
* `negative_for_rejected`: a validated group that Prometheus rejects.
-/

namespace MetricStore.Rules

open MetricStore.Common MetricStore.Common.Duration

/-! ## Durations of Prometheus -/

/-- The units of `durationRE` and their milliseconds. -/
def modelUnits : List (Bytes × ℤ) :=
  [(lit "y", 1000 * 60 * 60 * 24 * 365), (lit "w", 1000 * 60 * 60 * 24 * 7),
    (lit "d", 1000 * 60 * 60 * 24), (lit "h", 1000 * 60 * 60), (lit "m", 1000 * 60),
    (lit "s", 1000), (lit "ms", 1)]

/-- `strconv.Atoi` of digits, without its error: a number that does not fit is the largest
    one. -/
def atoi (digits : Bytes) : ℤ :=
  match leadingInt 0 digits with
  | some (n, _) => n
  | none => 2 ^ 63 - 1

/-- `model.ParseDuration`: digits and a unit. The error is about the text. -/
def parseModelDuration (durationStr : Bytes) : Except Bytes Int64 :=
  let digits := durationStr.takeWhile isDigit
  if digits = [] then .error durationStr
  else
    match modelUnits.lookup (durationStr.dropWhile isDigit) with
    | none => .error durationStr
    | some factor => .ok (Int64.ofInt (atoi digits) * Int64.ofInt (10 ^ 6) * Int64.ofInt factor)

/-- `model.Duration.String`, which has the statements of the client's `Duration.String`. -/
def modelDurationString (d : Int64) : Bytes := durationString d

/-- A duration as a YAML value: omitted if it is zero. -/
def writeDuration (d : Int64) : Option Bytes :=
  if d = 0 then none else some (modelDurationString d)

def readDuration : Option Bytes → Except Bytes Int64
  | none => .ok 0
  | some text => parseModelDuration text

/-! ## Rule files -/

/-- `rulefmt.Rule` as a YAML value. -/
structure RuleYAML where
  record : Bytes
  alert : Bytes
  expr : Bytes
  for_ : Option Bytes
  labels : GoMap Bytes Bytes
  annotations : GoMap Bytes Bytes

/-- `rulefmt.RuleGroup` as a YAML value. -/
structure RuleGroupYAML where
  name : Bytes
  interval : Option Bytes
  rules : List RuleYAML

/-- The YAML library on the documents of rule files. -/
structure YamlLibrary (τ : Type) where
  marshal : List RuleGroupYAML → τ
  unmarshalStrict : τ → Option (List RuleGroupYAML)
  unmarshal_marshal : ∀ groups, unmarshalStrict (marshal groups) = some groups

def PromRule.toYAML (r : PromRule) : RuleYAML :=
  ⟨r.record, r.alert, r.expr, writeDuration r.for_, r.labels, r.annotations⟩

def PromRuleGroup.toYAML (g : PromRuleGroup) : RuleGroupYAML :=
  ⟨g.name, writeDuration g.interval, g.rules.map PromRule.toYAML⟩

/-- What `writeRules` (lines 116–130) writes to the rule file. -/
def writeRules {τ : Type} (yaml : YamlLibrary τ) (ruleGroup : Option PromRuleGroup) : τ :=
  yaml.marshal (ruleGroup.toList.map PromRuleGroup.toYAML)

def RuleYAML.decode (r : RuleYAML) : Except Bytes PromRule :=
  match readDuration r.for_ with
  | .error err => .error err
  | .ok for_ => .ok ⟨r.record, r.alert, r.expr, for_, r.labels, r.annotations⟩

def RuleGroupYAML.decode (g : RuleGroupYAML) : Except Bytes PromRuleGroup :=
  match readDuration g.interval with
  | .error err => .error err
  | .ok interval =>
    match g.rules.mapM RuleYAML.decode with
    | .error err => .error err
    | .ok rules => .ok ⟨g.name, interval, rules⟩

/-- The errors of `ParseFile`: a text that is no YAML, a duration that is none, and those
    of `RuleGroups.Validate`. -/
inductive ReloadError
  | yaml
  | duration (text : Bytes)
  | emptyName
  | repeated (name : Bytes)
  | rule (group : Bytes) (rule : ℕ) (ruleName : Bytes) (err : Bytes)

section Load

variable (lib : RuleLibrary)

/-- The errors of a group's rules, with their number. -/
def ruleErrorsOf (g : PromRuleGroup) : List ReloadError :=
  g.rules.zipIdx.flatMap fun r =>
    (lib.ruleErrors r.1).map fun err =>
      .rule g.name r.2 (if r.1.alert ≠ [] then r.1.alert else r.1.record) err

/-- The loop of `RuleGroups.Validate`, with the names that it has seen. -/
def validateGroups : List Bytes → List PromRuleGroup → List ReloadError
  | _, [] => []
  | seen, g :: groups =>
    (if g.name = [] then [.emptyName] else []) ++
      (if g.name ∈ seen then [.repeated g.name] else []) ++ ruleErrorsOf lib g ++
      validateGroups (g.name :: seen) groups

/-- `rulefmt.ParseFile` on the text of a file. `LoadGroups` parses the expressions again,
    which the validation of the rules has done. -/
def parseFile {τ : Type} (yaml : YamlLibrary τ) (text : τ) :
    Except (List ReloadError) (List PromRuleGroup) :=
  match yaml.unmarshalStrict text with
  | none => .error [.yaml]
  | some groups =>
    match groups.mapM RuleGroupYAML.decode with
    | .error err => .error [.duration err]
    | .ok groups =>
      match validateGroups lib [] groups with
      | [] => .ok groups
      | err :: errs => .error (err :: errs)

end Load

/-! ## Specification -/

section Specification

variable {τ : Type} (lib : RuleLibrary) (yaml : YamlLibrary τ)

/-- The group that is written is read back, with the same interval and the same `for` in
    every rule. -/
def Reloads (rg : RuleGroup) : Prop :=
  ∃ promRuleGroup loaded, rg.convertToPromRuleGroup lib = .ok promRuleGroup ∧
    parseFile lib yaml (writeRules yaml (some promRuleGroup)) = .ok [loaded] ∧
    loaded.interval = rg.interval ∧
    loaded.rules.map PromRule.for_ = promRuleGroup.rules.map PromRule.for_

/-- A duration that survives: a whole number of milliseconds, and not negative. -/
def WholeMillis (d : Int64) : Prop := 0 ≤ d.toInt ∧ 10 ^ 6 ∣ d.toInt

/-- Every duration of the group survives. -/
def WholeDurations (rg : RuleGroup) : Prop :=
  10 ^ 6 ∣ rg.interval.toInt ∧
    ∀ r ∈ rg.rules, ∀ promRule, r.convertToPromRule lib = .ok promRule → WholeMillis promRule.for_

end Specification

/-! ## Durations that are read back -/

theorem isDigit_decimal (n : ℕ) : ∀ c ∈ decimal n, isDigit c = true := by
  intro c hc
  unfold decimal at hc
  obtain ⟨d, hd, rfl⟩ := List.mem_map.1 hc
  have hdigit : d.isDigit = true :=
    Nat.isDigit_of_mem_toDigits (b := 10) (n := n) (by norm_num) (by norm_num) hd
  exact (toNat_digit hdigit).1

/-- The unit that `String` picks is one that `ParseDuration` knows. -/
theorem durationUnit_mem (ms : ℤ) :
    modelUnits.lookup (durationUnit ms).1 = some (durationUnit ms).2 ∧
      UnitText (durationUnit ms).1 := by
  unfold durationUnit
  split_ifs
  · exact ⟨by decide, unitText_of_all (by decide)⟩
  · exact ⟨by decide, unitText_of_all (by decide)⟩
  · exact ⟨by decide, unitText_of_all (by decide)⟩
  · exact ⟨by decide, unitText_of_all (by decide)⟩
  · exact ⟨by decide, unitText_of_all (by decide)⟩
  · exact ⟨by decide, unitText_of_all (by decide)⟩
  · exact ⟨by decide, unitText_of_all (by decide)⟩

/-- A number with a unit is read as so many of them. -/
theorem parseModelDuration_decimal {n : ℕ} (hn : n < 2 ^ 63) {u : Bytes} {factor : ℤ}
    (hu : UnitText u) (hunit : modelUnits.lookup u = some factor) :
    parseModelDuration (decimal n ++ u) = .ok (Int64.ofInt (n * 10 ^ 6 * factor)) := by
  obtain ⟨b, u, rfl⟩ := List.exists_cons_of_ne_nil hu.nonempty
  have hb : isDigit b = false := hu.noDigit b rfl
  have hdigits := isDigit_decimal n
  have htake : (decimal n ++ b :: u).takeWhile isDigit = decimal n := by
    rw [List.takeWhile_append_of_pos hdigits, List.takeWhile_cons_of_neg (by simp [hb]),
      List.append_nil]
  have hdrop : (decimal n ++ b :: u).dropWhile isDigit = b :: u := by
    rw [List.dropWhile_append_of_pos hdigits, List.dropWhile_cons_of_neg (by simp [hb])]
  have hne : decimal n ≠ [] := by
    obtain ⟨c, s, hcons, -⟩ := decimal_eq_cons n
    rw [hcons]
    exact List.cons_ne_nil c s
  have hatoi : atoi (decimal n) = n := by
    have hlead : leadingInt 0 (decimal n ++ []) = some (n, []) :=
      leadingInt_decimal hn fun c hc => by cases hc
    rw [List.append_nil] at hlead
    rw [atoi, hlead]
  rw [parseModelDuration]
  simp only [htake, hdrop, if_neg hne, hunit, hatoi]
  rw [Int64.ofInt_mul, Int64.ofInt_mul]

/-- A negative duration starts with a sign, which is no digit. -/
theorem parseModelDuration_minus (s : Bytes) : parseModelDuration (45 :: s) = .error (45 :: s) := by
  rw [parseModelDuration, List.takeWhile_cons_of_neg (by decide)]
  rfl

theorem readDuration_of_pos {d : Int64} {n : ℕ} (hms : d.toInt.tdiv (10 ^ 6) = n) (hn : 0 < n)
    (hfits : n < 2 ^ 63) :
    parseModelDuration (modelDurationString d) = .ok (Int64.ofInt (n * 10 ^ 6)) := by
  obtain ⟨hlookup, hu⟩ := durationUnit_mem n
  obtain ⟨u, f, k, hunit, -, hf, hk, -⟩ := durationUnit_spec n
  rw [hunit] at hlookup hu
  have hkn : k ≤ n := hk ▸ Nat.le_mul_of_pos_right k hf
  rw [modelDurationString, durationString_of_pos hms hn hunit hf hk,
    parseModelDuration_decimal (by omega) hu hlookup, hk]
  congr 2
  push_cast
  ring

/-- A duration comes back from a file exactly if it is a whole number of milliseconds and
    not negative. -/
theorem readDuration_writeDuration_iff (d : Int64) :
    readDuration (writeDuration d) = .ok d ↔ WholeMillis d := by
  unfold WholeMillis writeDuration
  by_cases h0 : d = 0
  · subst h0
    exact iff_of_true rfl ⟨by decide, by decide⟩
  have hne : d.toInt ≠ 0 := fun h => h0 (Int64.toInt_inj.1 h)
  have hhigh : d.toInt < 2 ^ 63 := d.toInt_lt
  have hlow : -2 ^ 63 ≤ d.toInt := d.le_toInt
  rw [if_neg h0, readDuration]
  rcases lt_trichotomy (d.toInt.tdiv (10 ^ 6)) 0 with hneg | hzero | hpos
  · obtain ⟨s, hs⟩ := durationString_of_neg hneg
    rw [modelDurationString, hs, parseModelDuration_minus]
    refine iff_of_false (by simp) fun h => ?_
    rw [Int.tdiv_eq_ediv_of_nonneg h.1] at hneg
    omega
  · rw [modelDurationString, durationString_of_zero hzero,
      parseModelDuration_decimal (by norm_num) (unitText_of_all (by decide))
        (show modelUnits.lookup (lit "s") = some 1000 by decide), Except.ok.injEq]
    refine iff_of_false (fun h => h0 (h.symm.trans (by decide))) fun h => ?_
    rw [Int.tdiv_eq_ediv_of_nonneg h.1] at hzero
    omega
  · obtain ⟨n, hn⟩ := Int.eq_ofNat_of_zero_le hpos.le
    have hnonneg : 0 ≤ d.toInt := by
      by_contra hnot
      have hopposite : 0 ≤ (-d.toInt).tdiv (10 ^ 6) := Int.tdiv_nonneg (by omega) (by norm_num)
      rw [Int.neg_tdiv] at hopposite
      omega
    have hdiv : d.toInt / 10 ^ 6 = n := by
      rw [← Int.tdiv_eq_ediv_of_nonneg hnonneg]
      exact hn
    rw [readDuration_of_pos hn (by omega) (by omega), Except.ok.injEq,
      ofInt_millis_eq_iff hnonneg hdiv]
    exact (and_iff_right hnonneg).symm

/-! ## Groups that are read back -/

theorem PromRule.decode_toYAML {r r' : PromRule} :
    r.toYAML.decode = .ok r' ↔
      ∃ for_, readDuration (writeDuration r.for_) = .ok for_ ∧ r' = { r with for_ := for_ } := by
  rw [PromRule.toYAML, RuleYAML.decode]
  cases readDuration (writeDuration r.for_) with
  | error err => simp
  | ok for_ => simp [eq_comm]

/-- Rules whose durations survive come back as they were. -/
theorem decode_rules_of_whole : ∀ {rules : List PromRule},
    (∀ r ∈ rules, WholeMillis r.for_) →
    (rules.map PromRule.toYAML).mapM RuleYAML.decode = .ok rules := by
  intro rules
  induction rules with
  | nil =>
    intro _
    rfl
  | cons r rules ih =>
    intro h
    rw [List.forall_mem_cons] at h
    have hr : r.toYAML.decode = .ok r :=
      PromRule.decode_toYAML.2 ⟨r.for_, (readDuration_writeDuration_iff r.for_).2 h.1, rfl⟩
    rw [List.map_cons, List.mapM_cons, hr, ih h.2]
    rfl

/-- If the rules come back with the same durations, these survive. -/
theorem whole_of_decode_rules : ∀ {rules loaded : List PromRule},
    (rules.map PromRule.toYAML).mapM RuleYAML.decode = .ok loaded →
    loaded.map PromRule.for_ = rules.map PromRule.for_ → ∀ r ∈ rules, WholeMillis r.for_ := by
  intro rules
  induction rules with
  | nil =>
    intro loaded _ _ r hr
    cases hr
  | cons r rules ih =>
    intro loaded hdecode hfor
    rw [List.map_cons, List.mapM_cons] at hdecode
    cases hr : r.toYAML.decode with
    | error err => simp [hr, bind, Except.bind] at hdecode
    | ok r' =>
      cases hrest : (rules.map PromRule.toYAML).mapM RuleYAML.decode with
      | error err => simp [hr, hrest, bind, Except.bind] at hdecode
      | ok loaded' =>
        simp only [hr, hrest, bind, Except.bind, pure, Except.pure, Except.ok.injEq] at hdecode
        subst hdecode
        rw [List.map_cons, List.map_cons, List.cons.injEq] at hfor
        obtain ⟨for_, hread, rfl⟩ := PromRule.decode_toYAML.1 hr
        have hsame : for_ = r.for_ := hfor.1
        rw [hsame] at hread
        exact List.forall_mem_cons.2
          ⟨(readDuration_writeDuration_iff r.for_).1 hread, ih hrest hfor.2⟩

theorem PromRuleGroup.decode_toYAML {g g' : PromRuleGroup} :
    g.toYAML.decode = .ok g' ↔
      g'.name = g.name ∧ readDuration (writeDuration g.interval) = .ok g'.interval ∧
        (g.rules.map PromRule.toYAML).mapM RuleYAML.decode = .ok g'.rules := by
  obtain ⟨name', interval', rules'⟩ := g'
  rw [PromRuleGroup.toYAML, RuleGroupYAML.decode]
  cases readDuration (writeDuration g.interval) with
  | error err => simp
  | ok interval =>
    cases (g.rules.map PromRule.toYAML).mapM RuleYAML.decode with
    | error err => simp
    | ok rules => simp [eq_comm]

/-- Reading a file with one group: it is decoded and validated. -/
theorem parseFile_writeRules {τ : Type} (lib : RuleLibrary) (yaml : YamlLibrary τ)
    (g loaded : PromRuleGroup) :
    parseFile lib yaml (writeRules yaml (some g)) = .ok [loaded] ↔
      g.toYAML.decode = .ok loaded ∧ loaded.name ≠ [] ∧ ruleErrorsOf lib loaded = [] := by
  rw [parseFile, writeRules, yaml.unmarshal_marshal]
  simp only [Option.toList_some, List.map_cons, List.map_nil, List.mapM_cons, List.mapM_nil, bind,
    pure, Except.bind, Except.pure]
  cases g.toYAML.decode with
  | error err => simp
  | ok g' =>
    by_cases hname : g'.name = []
    · simp only [validateGroups, hname, if_true, List.cons_append]
      refine iff_of_false (by simp) ?_
      rintro ⟨hok, hne, -⟩
      cases hok
      exact hne hname
    · simp only [validateGroups, hname, if_false, List.not_mem_nil, List.nil_append,
        List.append_nil, Except.ok.injEq]
      cases herrors : ruleErrorsOf lib g' with
      | nil =>
        simp only [Except.ok.injEq, List.cons.injEq, and_true]
        constructor
        · rintro rfl
          exact ⟨rfl, hname, herrors⟩
        · exact fun h => h.1
      | cons err errs =>
        refine iff_of_false (by simp) ?_
        rintro ⟨rfl, -, hnil⟩
        rw [herrors] at hnil
        cases hnil

/-! ## Groups that are accepted -/

section Accepted

variable (lib : RuleLibrary)

/-- Rules that the validation accepts are converted to rules without errors. -/
theorem convertRules_of_valid : ∀ {rules : List Rule}, (∀ r ∈ rules, r.validate lib = none) →
    ∃ promRules, convertRules lib rules = .ok promRules ∧
      ∀ p ∈ promRules, lib.ruleErrors p = [] := by
  intro rules
  induction rules with
  | nil =>
    intro _
    exact ⟨[], rfl, by simp⟩
  | cons r rules ih =>
    intro h
    rw [List.forall_mem_cons] at h
    obtain ⟨promRules, hrest, hvalid⟩ := ih h.2
    have hr := h.1
    rw [Rule.validate] at hr
    cases hconvert : r.convertToPromRule lib with
    | error err => simp [hconvert] at hr
    | ok promRule =>
      simp only [hconvert, List.head?_eq_none_iff] at hr
      refine ⟨promRule :: promRules, ?_, List.forall_mem_cons.2 ⟨hr, hvalid⟩⟩
      simp only [convertRules, hconvert, hrest]

/-- What holds of the rules after the conversion, said of the rules before it. -/
theorem forall_convertRules {P : PromRule → Prop} : ∀ {rules : List Rule}
    {promRules : List PromRule}, convertRules lib rules = .ok promRules →
    ((∀ p ∈ promRules, P p) ↔ ∀ r ∈ rules, ∀ p, r.convertToPromRule lib = .ok p → P p) := by
  intro rules
  induction rules with
  | nil =>
    intro promRules h
    cases h
    simp
  | cons r rules ih =>
    intro promRules h
    rw [convertRules] at h
    cases hconvert : r.convertToPromRule lib with
    | error err => simp [hconvert] at h
    | ok promRule =>
      cases hrest : convertRules lib rules with
      | error err => simp [hconvert, hrest] at h
      | ok rest =>
        simp only [hconvert, hrest, Except.ok.injEq] at h
        subst h
        rw [List.forall_mem_cons, List.forall_mem_cons, ih hrest]
        simp [hconvert]

theorem validate_eq_none {rg : RuleGroup} (h : rg.validate lib = none) :
    rg.name ≠ [] ∧ 0 ≤ rg.interval.toInt ∧ ∀ r ∈ rg.rules, r.validate lib = none := by
  rw [RuleGroup.validate] at h
  split_ifs at h with hname hinterval hrules
  refine ⟨hname, ?_, List.findSome?_eq_none_iff.1 h⟩
  by_cases h0 : rg.interval = 0
  · rw [h0]
    decide
  · have hmin : ¬ rg.interval < 60000000000 := fun hlt => hinterval ⟨h0, hlt⟩
    rw [Int64.lt_iff_toInt_lt] at hmin
    have : (60000000000 : Int64).toInt = 60000000000 := by decide
    omega

theorem ruleErrorsOf_eq_nil {g : PromRuleGroup} (h : ∀ p ∈ g.rules, lib.ruleErrors p = []) :
    ruleErrorsOf lib g = [] := by
  rw [ruleErrorsOf, List.flatMap_eq_nil_iff]
  rintro ⟨p, i⟩ hp
  rw [h p (List.fst_mem_of_mem_zipIdx hp), List.map_nil]

end Accepted

/-- A validated rule group reloads with the same durations exactly if these are whole
    numbers of milliseconds and no `for` is negative. -/
theorem reloads_iff {τ : Type} (lib : RuleLibrary) (yaml : YamlLibrary τ) (rg : RuleGroup)
    (h : rg.validate lib = none) : Reloads lib yaml rg ↔ WholeDurations lib rg := by
  obtain ⟨hname, hinterval, hrules⟩ := validate_eq_none lib h
  obtain ⟨promRules, hconvert, hvalid⟩ := convertRules_of_valid lib hrules
  have hgroup : rg.convertToPromRuleGroup lib = .ok ⟨rg.name, rg.interval, promRules⟩ := by
    rw [RuleGroup.convertToPromRuleGroup, hconvert]
  have hwhole := forall_convertRules lib (P := fun p => WholeMillis p.for_) hconvert
  unfold Reloads WholeDurations
  rw [← hwhole]
  constructor
  · rintro ⟨g, loaded, hg, hparse, hsame, hfor⟩
    rw [hgroup, Except.ok.injEq] at hg
    subst hg
    obtain ⟨hdecode, -, -⟩ := (parseFile_writeRules lib yaml _ loaded).1 hparse
    obtain ⟨-, hread, hdecoded⟩ := PromRuleGroup.decode_toYAML.1 hdecode
    rw [hsame] at hread
    exact ⟨((readDuration_writeDuration_iff rg.interval).1 hread).2,
      whole_of_decode_rules hdecoded hfor⟩
  · rintro ⟨hdvd, hall⟩
    refine ⟨_, ⟨rg.name, rg.interval, promRules⟩, hgroup, ?_, rfl, rfl⟩
    refine (parseFile_writeRules lib yaml _ _).2 ⟨?_, hname, ruleErrorsOf_eq_nil lib hvalid⟩
    exact PromRuleGroup.decode_toYAML.2
      ⟨rfl, (readDuration_writeDuration_iff rg.interval).2 ⟨hinterval, hdvd⟩,
        decode_rules_of_whole hall⟩

/-! ## A negative `for` -/

/-- Texts that are the documents themselves. -/
def documentLibrary : YamlLibrary (List RuleGroupYAML) := ⟨id, some, fun _ => rfl⟩

/-- An alerting rule with the given `for`, in a group with an interval of a minute. -/
def alertFor (for_ : Bytes) : RuleGroup :=
  ⟨lit "g", 60000000000, [⟨[], lit "a", lit "1", for_, ∅, ∅⟩]⟩

/-- The checks of `rulefmt.Rule.Validate` that an alerting rule without labels, with an
    expression that parses, can fail. -/
def alertLibrary : RuleLibrary where
  fractionNanos _ _ _ := 0
  ruleErrors r :=
    if r.alert = [] then [lit "one of 'record' or 'alert' must be set"]
    else if r.expr = [] then [lit "field 'expr' must be set in rule"]
    else []

/-- A `for` of minus one hour is accepted, and the file is rejected; one of a millisecond
    and a half is accepted, and comes back as one millisecond. -/
theorem negative_for_rejected :
    (alertFor (lit "-1h")).validate alertLibrary = none ∧
      writeDuration (-3600000000000) = some (lit "-1h") ∧
      (∃ g err, (alertFor (lit "-1h")).convertToPromRuleGroup alertLibrary = .ok g ∧
        parseFile alertLibrary documentLibrary (writeRules documentLibrary (some g)) =
          .error err) ∧
      (alertFor (lit "1500us")).validate alertLibrary = none ∧
      readDuration (writeDuration 1500000) = .ok 1000000 ∧
      ¬ Reloads alertLibrary documentLibrary (alertFor (lit "-1h")) := by
  have hconvert : (alertFor (lit "-1h")).convertToPromRuleGroup alertLibrary =
      .ok ⟨lit "g", 60000000000,
        [⟨[], lit "a", lit "1", Int64.ofInt (-3600000000000), ∅, ∅⟩]⟩ := rfl
  refine ⟨by decide, by decide, ⟨_, _, hconvert, rfl⟩, by decide, by decide, ?_⟩
  rintro ⟨g, loaded, hg, hparse, -⟩
  rw [hconvert, Except.ok.injEq] at hg
  subst hg
  cases hparse

/-- With a `for` of ten minutes the group reloads. -/
theorem ten_minutes_reload :
    (alertFor (lit "10m")).validate alertLibrary = none ∧
      Reloads alertLibrary documentLibrary (alertFor (lit "10m")) := by
  have hvalid : (alertFor (lit "10m")).validate alertLibrary = none := by decide
  refine ⟨hvalid, (reloads_iff alertLibrary documentLibrary _ hvalid).2 ⟨by decide, ?_⟩⟩
  intro r hr p hp
  rw [List.mem_singleton.1 hr] at hp
  have hconvert : Rule.convertToPromRule alertLibrary
      ⟨[], lit "a", lit "1", lit "10m", ∅, ∅⟩ =
        .ok ⟨[], lit "a", lit "1", 600000000000, ∅, ∅⟩ := rfl
  rw [hconvert, Except.ok.injEq] at hp
  subst hp
  exact ⟨by decide, by decide⟩

end MetricStore.Rules
