import MetricStore.Common.Bytes

/-!
# Durations

`time.ParseDuration` of Go 1.13, at the level of bytes. A duration is a sequence of
decimal numbers, each with a unit, and an optional sign.

The contribution of a fraction is computed in floating point; it is a parameter
(`fractionNanos f k unit` for `f / 10^k` of a unit).

* `parseDuration_decimal`: a natural number with a unit is read as so many units.
* `parseDuration_unknown`: with a unit that is not one of the table it is rejected.
* `parseDuration_minus`: after a minus sign, a duration is not positive.
-/

namespace MetricStore.Common.Duration

/-- `unitMap`: the units, in nanoseconds. -/
def unitMap : List (Bytes × ℕ) :=
  [(lit "ns", 1), (lit "us", 10 ^ 3), (lit "µs", 10 ^ 3), (lit "μs", 10 ^ 3), (lit "ms", 10 ^ 6),
    (lit "s", 10 ^ 9), (lit "m", 60 * 10 ^ 9), (lit "h", 3600 * 10 ^ 9)]

def isDigit (c : UInt8) : Bool := 48 ≤ c && c ≤ 57

/-- A byte that ends a unit: a digit or a period. -/
def endsUnit (c : UInt8) : Bool := c = 46 || isDigit c

/-- The loop of `leadingInt`, from the number read so far; `none` on overflow. -/
def leadingInt : ℕ → Bytes → Option (ℕ × Bytes)
  | x, [] => some (x, [])
  | x, c :: s =>
    if !isDigit c then some (x, c :: s)
    else if (2 ^ 63 - 1) / 10 < x then none
    else if 2 ^ 63 ≤ x * 10 + (c.toNat - 48) then none
    else leadingInt (x * 10 + (c.toNat - 48)) s

/-- The loop of `leadingFraction`: the number, the count of its digits, and the rest.
    Digits that do not fit are skipped. -/
def leadingFraction : Bool → ℕ → ℕ → Bytes → ℕ × ℕ × Bytes
  | _, x, k, [] => (x, k, [])
  | overflow, x, k, c :: s =>
    if !isDigit c then (x, k, c :: s)
    else if overflow || (2 ^ 63 - 1) / 10 < x || 2 ^ 63 ≤ x * 10 + (c.toNat - 48) then
      leadingFraction true x k s
    else leadingFraction false (x * 10 + (c.toNat - 48)) (k + 1) s

section Parse

variable (fractionNanos : ℕ → ℕ → ℕ → ℕ)

/-- The optional fraction of a number: its value, its digits, the rest, and whether there
    was a digit. -/
def optFraction : Bytes → (ℕ × ℕ × Bytes) × Bool
  | 46 :: s =>
    let r := leadingFraction false 0 0 s
    (r, r.2.2.length != s.length)
  | s => ((0, 0, s), false)

/-- The loop of `ParseDuration`: the sum so far and what is left to read. Each round reads
    a byte, so the length of the text is enough rounds. -/
def parseLoop (orig : Bytes) : ℕ → ℕ → Bytes → Except Bytes ℕ
  | _, d, [] => .ok d
  | 0, _, _ :: _ => .error (lit "time: invalid duration " ++ orig)
  | rounds + 1, d, c :: s =>
    if !endsUnit c then .error (lit "time: invalid duration " ++ orig)
    else
      match leadingInt 0 (c :: s) with
      | none => .error (lit "time: invalid duration " ++ orig)
      | some (v, s₁) =>
        let pre := s₁.length != (c :: s).length
        let ((f, k, s₂), post) := optFraction s₁
        if !pre && !post then .error (lit "time: invalid duration " ++ orig)
        else
          let u := s₂.takeWhile fun c => !endsUnit c
          if u = [] then .error (lit "time: missing unit in duration " ++ orig)
          else
            match unitMap.lookup u with
            | none => .error (lit "time: unknown unit " ++ u ++ lit " in duration " ++ orig)
            | some unit =>
              if (2 ^ 63 - 1) / unit < v then .error (lit "time: invalid duration " ++ orig)
              else
                let v := if 0 < f then v * unit + fractionNanos f k unit else v * unit
                if 2 ^ 63 ≤ v || 2 ^ 63 ≤ d + v then
                  .error (lit "time: invalid duration " ++ orig)
                else parseLoop orig rounds (d + v) (s₂.drop u.length)

/-- The sign of a duration, and the text after it. -/
def sign : Bytes → Bool × Bytes
  | 45 :: s => (true, s)
  | 43 :: s => (false, s)
  | s => (false, s)

/-- `time.ParseDuration`. -/
def parseDuration (orig : Bytes) : Except Bytes ℤ :=
  let (neg, s) := sign orig
  if s = lit "0" then .ok 0
  else if s = [] then .error (lit "time: invalid duration " ++ orig)
  else
    match parseLoop fractionNanos orig s.length 0 s with
    | .error err => .error err
    | .ok d => .ok (if neg then -d else d)

end Parse

/-! ## Decimal numbers -/

theorem toNat_digit {c : Char} (h : c.isDigit = true) :
    isDigit (UInt8.ofNat c.toNat) = true ∧ (UInt8.ofNat c.toNat).toNat - 48 = c.toNat - 48 := by
  rw [Char.isDigit_iff_toNat, show '0'.toNat = 48 from rfl, show '9'.toNat = 57 from rfl] at h
  have hval : (UInt8.ofNat c.toNat).toNat = c.toNat := by
    rw [UInt8.toNat_ofNat']
    omega
  refine ⟨?_, by rw [hval]⟩
  rw [isDigit, Bool.and_eq_true, decide_eq_true_eq, decide_eq_true_eq, UInt8.le_iff_toNat_le,
    UInt8.le_iff_toNat_le, hval]
  exact h

theorem le_ofDigitChars (l : List Char) (x : ℕ) : x ≤ Nat.ofDigitChars 10 l x := by
  induction l generalizing x with
  | nil => simp
  | cons c l ih =>
    rw [Nat.ofDigitChars_cons]
    refine le_trans ?_ (ih _)
    omega

/-- What `leadingInt` leaves starts with something else than a digit. -/
def NoDigit (rest : Bytes) : Prop := ∀ c ∈ rest.head?, isDigit c = false

theorem leadingInt_of_noDigit {rest : Bytes} (h : NoDigit rest) (x : ℕ) :
    leadingInt x rest = some (x, rest) := by
  cases rest with
  | nil => rfl
  | cons c rest =>
    have hc : isDigit c = false := h c rfl
    simp [leadingInt, hc]

theorem leadingInt_digits {l : List Char} (hl : ∀ c ∈ l, c.isDigit = true) {rest : Bytes}
    (hrest : NoDigit rest) {x : ℕ} (hx : Nat.ofDigitChars 10 l x < 2 ^ 63) :
    leadingInt x (l.map (fun c => UInt8.ofNat c.toNat) ++ rest)
      = some (Nat.ofDigitChars 10 l x, rest) := by
  induction l generalizing x with
  | nil => exact leadingInt_of_noDigit hrest x
  | cons c l ih =>
    obtain ⟨hdigit, hval⟩ := toNat_digit (hl c (List.mem_cons_self))
    rw [Nat.ofDigitChars_cons] at hx ⊢
    have hle := le_ofDigitChars l (10 * x + (c.toNat - '0'.toNat))
    have hzero : '0'.toNat = 48 := rfl
    rw [hzero] at hx hle ⊢
    have hnext : x * 10 + (c.toNat - 48) = 10 * x + (c.toNat - 48) := by ring
    rw [List.map_cons, List.cons_append, leadingInt, hdigit, hval, hnext]
    have hsmall : ¬ (2 ^ 63 - 1) / 10 < x := by omega
    have hfits : ¬ 2 ^ 63 ≤ 10 * x + (c.toNat - 48) := by omega
    rw [if_neg (by decide), if_neg hsmall, if_neg hfits]
    exact ih (fun c hc => hl c (List.mem_cons_of_mem _ hc)) hx

/-- **A decimal number is read back.** -/
theorem leadingInt_decimal {n : ℕ} (hn : n < 2 ^ 63) {rest : Bytes} (hrest : NoDigit rest) :
    leadingInt 0 (decimal n ++ rest) = some (n, rest) := by
  have hten := Nat.ofDigitChars_ten_toDigits (n := n)
  unfold decimal
  rw [leadingInt_digits (fun c hc => Nat.isDigit_of_mem_toDigits (by norm_num) (by norm_num) hc)
    hrest (by rw [hten]; exact hn), hten]

theorem decimal_eq_cons (n : ℕ) : ∃ c s, decimal n = c :: s ∧ isDigit c = true := by
  unfold decimal
  cases hdigits : Nat.toDigits 10 n with
  | nil => exact absurd hdigits Nat.toDigits_ne_nil
  | cons c l =>
    refine ⟨_, _, rfl, (toNat_digit ?_).1⟩
    exact Nat.isDigit_of_mem_toDigits (b := 10) (n := n) (by norm_num) (by norm_num) (by simp [hdigits])

/-! ## One number and one unit -/

/-- A text that can be a unit: it is not empty, and no byte of it ends a unit. -/
structure UnitText (u : Bytes) : Prop where
  nonempty : u ≠ []
  letters : ∀ c ∈ u, endsUnit c = false

theorem UnitText.noDigit {u : Bytes} (h : UnitText u) : NoDigit u := by
  intro c hc
  have := h.letters c (List.mem_of_mem_head? hc)
  simp only [endsUnit, Bool.or_eq_false_iff] at this
  exact this.2

theorem UnitText.optFraction {u : Bytes} (h : UnitText u) :
    optFraction u = ((0, 0, u), false) := by
  unfold Duration.optFraction
  split
  · rename_i s
    have := h.letters 46 (List.mem_cons_self)
    simp [endsUnit] at this
  · rfl

theorem UnitText.takeWhile {u : Bytes} (h : UnitText u) :
    (u.takeWhile fun c => !endsUnit c) = u := by
  rw [List.takeWhile_eq_self_iff]
  intro c hc
  rw [h.letters c hc]
  rfl

variable (fractionNanos : ℕ → ℕ → ℕ → ℕ)

/-- The loop at a number with a unit: the unit decides. -/
theorem parseLoop_unit {n : ℕ} (hn : n < 2 ^ 63) {u : Bytes} (hu : UnitText u) (orig : Bytes)
    (rounds : ℕ) :
    (unitMap.lookup u = none →
      parseLoop fractionNanos orig (rounds + 1) 0 (decimal n ++ u)
        = .error (lit "time: unknown unit " ++ u ++ lit " in duration " ++ orig)) ∧
    ∀ unit, unitMap.lookup u = some unit → n ≤ (2 ^ 63 - 1) / unit → n * unit < 2 ^ 63 →
      parseLoop fractionNanos orig (rounds + 1) 0 (decimal n ++ u) = .ok (n * unit) := by
  have hlead := leadingInt_decimal hn hu.noDigit
  obtain ⟨c, s, hcons, hdigit⟩ := decimal_eq_cons n
  have hlength : u.length ≠ (c :: (s ++ u)).length := by
    rw [List.length_cons, List.length_append]
    omega
  have hends : endsUnit c = true := by simp [endsUnit, hdigit]
  rw [hcons, List.cons_append] at hlead ⊢
  unfold parseLoop
  simp only [hends, Bool.not_true, Bool.false_eq_true, if_false, hlead, hu.optFraction,
    bne_iff_ne.2 hlength, Bool.false_and, hu.takeWhile, if_neg hu.nonempty, Nat.lt_irrefl,
    Nat.zero_add, Bool.or_self, List.drop_length]
  constructor
  · intro hunit
    rw [hunit]
  · intro unit hunit hdiv hfits
    rw [hunit]
    dsimp only
    rw [if_neg (not_lt.2 hdiv), if_neg (by simpa using hfits)]
    cases rounds <;> rfl

theorem sign_decimal (n : ℕ) (u : Bytes) : sign (decimal n ++ u) = (false, decimal n ++ u) := by
  obtain ⟨c, s, hcons, hdigit⟩ := decimal_eq_cons n
  have hminus : c ≠ 45 := by
    rintro rfl
    cases hdigit
  have hplus : c ≠ 43 := by
    rintro rfl
    cases hdigit
  rw [hcons, List.cons_append]
  simp [sign, hminus, hplus]

/-- `ParseDuration` of a number with a unit is what the loop gives. -/
theorem parseDuration_eq_parseLoop (n : ℕ) {u : Bytes} (hu : UnitText u) :
    ∃ rounds, parseDuration fractionNanos (decimal n ++ u) =
      (parseLoop fractionNanos (decimal n ++ u) (rounds + 1) 0 (decimal n ++ u)).map
        fun d => (d : ℤ) := by
  obtain ⟨c, s, hcons, -⟩ := decimal_eq_cons n
  obtain ⟨b, u', rfl⟩ := List.exists_cons_of_ne_nil hu.nonempty
  have hlength : (decimal n ++ b :: u').length = s.length + u'.length + 1 + 1 := by
    rw [hcons, List.length_append, List.length_cons, List.length_cons]
    omega
  have hzero : decimal n ++ b :: u' ≠ lit "0" := by
    intro heq
    have hlen := congrArg List.length heq
    rw [hlength, show (lit "0").length = 1 by decide] at hlen
    omega
  have hnil : decimal n ++ b :: u' ≠ [] := by
    intro heq
    rw [heq] at hlength
    cases hlength
  refine ⟨s.length + u'.length + 1, ?_⟩
  rw [← hlength]
  unfold parseDuration
  rw [sign_decimal]
  dsimp only
  rw [if_neg hzero, if_neg hnil]
  cases parseLoop fractionNanos (decimal n ++ b :: u') (decimal n ++ b :: u').length 0
    (decimal n ++ b :: u') <;> rfl

/-- **A number with a unit of the table** is so many units, if that fits. -/
theorem parseDuration_decimal {n unit : ℕ} {u : Bytes} (hu : UnitText u)
    (hunit : unitMap.lookup u = some unit) (hpos : 0 < unit) (hfits : n * unit < 2 ^ 63) :
    parseDuration fractionNanos (decimal n ++ u) = .ok (n * unit : ℕ) := by
  have hn : n < 2 ^ 63 := lt_of_le_of_lt (Nat.le_mul_of_pos_right n hpos) hfits
  have hdiv : n ≤ (2 ^ 63 - 1) / unit := by
    rw [Nat.le_div_iff_mul_le hpos]
    omega
  obtain ⟨rounds, hrounds⟩ := parseDuration_eq_parseLoop fractionNanos n hu
  rw [hrounds, (parseLoop_unit fractionNanos hn hu _ rounds).2 unit hunit hdiv hfits]
  rfl

/-- **A unit that is not in the table** is rejected. -/
theorem parseDuration_unknown {n : ℕ} (hn : n < 2 ^ 63) {u : Bytes} (hu : UnitText u)
    (hunit : unitMap.lookup u = none) :
    parseDuration fractionNanos (decimal n ++ u)
      = .error (lit "time: unknown unit " ++ u ++ lit " in duration " ++ (decimal n ++ u)) := by
  obtain ⟨rounds, hrounds⟩ := parseDuration_eq_parseLoop fractionNanos n hu
  rw [hrounds, (parseLoop_unit fractionNanos hn hu _ rounds).1 hunit]
  rfl

/-! ## Signs -/

/-- The sum that the loop ends with fits. -/
theorem parseLoop_lt {orig : Bytes} {rounds d n : ℕ} {s : Bytes} (hd : d < 2 ^ 63)
    (h : parseLoop fractionNanos orig rounds d s = .ok n) : n < 2 ^ 63 := by
  induction rounds generalizing d s with
  | zero =>
    cases s with
    | nil =>
      cases h
      exact hd
    | cons c s => cases h
  | succ rounds ih =>
    cases s with
    | nil =>
      cases h
      exact hd
    | cons c s =>
      unfold parseLoop at h
      split at h
      · cases h
      split at h
      · cases h
      dsimp only at h
      split at h
      · cases h
      split at h
      · cases h
      split at h
      · cases h
      split at h
      · cases h
      generalize (if 0 < _ then _ else (_ : ℕ)) = v at h
      split at h
      · cases h
      · -- another round, with a sum that was checked
        rename_i hfits
        simp only [Bool.or_eq_true, decide_eq_true_eq, not_or, not_le] at hfits
        exact ih hfits.2 h

/-- A duration with a minus sign is not positive. -/
theorem parseDuration_minus {s : Bytes} {z : ℤ}
    (h : parseDuration fractionNanos (45 :: s) = .ok z) : -2 ^ 63 < z ∧ z ≤ 0 := by
  unfold parseDuration at h
  rw [show sign (45 :: s) = (true, s) from rfl] at h
  dsimp only at h
  split at h
  · cases h
    norm_num
  split at h
  · cases h
  split at h
  · cases h
  · rename_i d hloop
    have hd := parseLoop_lt fractionNanos (by norm_num) hloop
    cases h
    simp only [if_true]
    omega

end MetricStore.Common.Duration
