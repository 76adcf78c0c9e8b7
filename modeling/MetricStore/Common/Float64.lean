import Mathlib

/-!
# Integers as binary64 numbers

The conversion of an integer to a `float64`, as Go makes it: to the nearest number of the
format, a half to the even one. A number of the format is given by its bits; `toRat` is its
value.

Results:
* `toRat_ofInt`: the value of a converted integer is the integer rounded to 53 bits.
* `nearest_ofInt`: no finite number is nearer to the integer.
* `toRat_ofInt_of_le`: integers up to `2^53` are converted without loss.
* `toRat_ofInt_mono`: the conversion keeps the order of integers that are not negative.
-/

namespace MetricStore.Common.Float64

/-! ## Rounding -/

/-- The quotient `n / 2^k`, rounded to the nearest integer, a half to the even one. -/
def roundShift (n k : ℕ) : ℕ :=
  if 2 * (n % 2 ^ k) < 2 ^ k ∨ (2 * (n % 2 ^ k) = 2 ^ k ∧ n / 2 ^ k % 2 = 0) then n / 2 ^ k
  else n / 2 ^ k + 1

/-- How many bits of `n` are rounded off: those beyond the first 53. -/
def excess (n : ℕ) : ℕ := n.log2 - 52

/-- The number `n`, rounded to 53 bits. -/
def round53 (n : ℕ) : ℕ := roundShift n (excess n) * 2 ^ excess n

theorem le_roundShift (n k : ℕ) : n / 2 ^ k ≤ roundShift n k := by
  unfold roundShift
  split_ifs <;> omega

theorem roundShift_le (n k : ℕ) : roundShift n k ≤ n / 2 ^ k + 1 := by
  unfold roundShift
  split_ifs <;> omega

theorem roundShift_mono {n m : ℕ} (h : n ≤ m) (k : ℕ) : roundShift n k ≤ roundShift m k := by
  have hquotient : n / 2 ^ k ≤ m / 2 ^ k := Nat.div_le_div_right h
  rcases Nat.lt_or_eq_of_le hquotient with hlt | heq
  · have := roundShift_le n k
    have := le_roundShift m k
    omega
  · have hn := Nat.div_add_mod n (2 ^ k)
    have hm := Nat.div_add_mod m (2 ^ k)
    unfold roundShift
    rw [heq] at hn ⊢
    split_ifs <;> omega

/-- The error is half a unit of the last place at most. -/
theorem roundShift_error (n k : ℕ) : 2 * |(roundShift n k * 2 ^ k : ℤ) - n| ≤ 2 ^ k := by
  have hn : (2 ^ k : ℤ) * (n / 2 ^ k : ℕ) + (n % 2 ^ k : ℕ) = n := by
    exact_mod_cast Nat.div_add_mod n (2 ^ k)
  have hpos : n % 2 ^ k < 2 ^ k := Nat.mod_lt n (Nat.two_pow_pos k)
  have hcast : ((2 ^ k : ℕ) : ℤ) = 2 ^ k := by push_cast; rfl
  unfold roundShift
  split_ifs with hdown
  · have herror : ((n / 2 ^ k : ℕ) * 2 ^ k : ℤ) - n = -(n % 2 ^ k : ℕ) := by
      rw [← hn]
      ring
    rw [herror, abs_neg, abs_of_nonneg (Int.natCast_nonneg _)]
    omega
  · have herror : ((n / 2 ^ k + 1 : ℕ) * 2 ^ k : ℤ) - n = 2 ^ k - (n % 2 ^ k : ℕ) := by
      rw [← hn]
      push_cast
      ring
    rw [herror, abs_of_nonneg (by omega)]
    omega

/-- A number that is twice the error away, or further, is not nearer. -/
theorem abs_sub_le_of_far {a c n p : ℤ} (herror : 2 * |a - n| ≤ p)
    (hfar : a + p ≤ c ∨ c + p ≤ a) : |a - n| ≤ |c - n| := by
  rcases abs_cases (a - n) with h | h <;> rcases abs_cases (c - n) with h' | h' <;> omega

/-- No multiple of `2^k` is nearer. -/
theorem roundShift_nearest (n k : ℕ) (c : ℤ) :
    |(roundShift n k * 2 ^ k : ℤ) - n| ≤ |c * 2 ^ k - n| := by
  rcases lt_trichotomy c (roundShift n k) with hlt | rfl | hgt
  · have hstep : (c + 1) * 2 ^ k ≤ roundShift n k * 2 ^ k :=
      mul_le_mul_of_nonneg_right hlt (by positivity)
    rw [add_mul, one_mul] at hstep
    exact abs_sub_le_of_far (roundShift_error n k) (Or.inr hstep)
  · exact le_refl _
  · have hstep : (roundShift n k + 1) * 2 ^ k ≤ c * 2 ^ k :=
      mul_le_mul_of_nonneg_right hgt (by positivity)
    rw [add_mul, one_mul] at hstep
    exact abs_sub_le_of_far (roundShift_error n k) (Or.inl hstep)

theorem roundShift_zero (n : ℕ) : roundShift n 0 = n := by
  simp [roundShift, Nat.mod_one]

theorem excess_of_lt {n : ℕ} (h : n < 2 ^ 53) : excess n = 0 := by
  by_cases hn : n = 0
  · subst hn
    decide
  · have := (Nat.log2_lt hn).2 h
    unfold excess
    omega

/-- Numbers up to `2^53` are not rounded. -/
theorem round53_of_le {n : ℕ} (h : n ≤ 2 ^ 53) : round53 n = n := by
  rcases Nat.lt_or_eq_of_le h with hlt | rfl
  · rw [round53, excess_of_lt hlt, roundShift_zero, pow_zero, Nat.mul_one]
  · decide

/-- The 53 bits that stay, with the one that a carry adds. -/
theorem roundShift_excess_bounds {n : ℕ} (h : 2 ^ 52 ≤ n) :
    2 ^ 52 ≤ roundShift n (excess n) ∧ roundShift n (excess n) ≤ 2 ^ 53 := by
  have hn : n ≠ 0 := by omega
  have hlog : 52 ≤ n.log2 := (Nat.le_log2 hn).2 h
  have hlow : 2 ^ 52 ≤ n / 2 ^ excess n := by
    rw [Nat.le_div_iff_mul_le (Nat.two_pow_pos _), ← pow_add]
    rw [show 52 + excess n = n.log2 from by unfold excess; omega]
    exact Nat.log2_self_le hn
  have hhigh : n / 2 ^ excess n < 2 ^ 53 := by
    rw [Nat.div_lt_iff_lt_mul (Nat.two_pow_pos _), ← pow_add]
    rw [show 53 + excess n = n.log2 + 1 from by unfold excess; omega]
    exact Nat.lt_log2_self
  have := le_roundShift n (excess n)
  have := roundShift_le n (excess n)
  omega

/-- A number with more bits than another one is rounded to a larger number. -/
theorem round53_mono {n m : ℕ} (h : n ≤ m) : round53 n ≤ round53 m := by
  by_cases hm : m ≤ 2 ^ 53
  · rwa [round53_of_le hm, round53_of_le (h.trans hm)]
  have hmbounds := roundShift_excess_bounds (n := m) (by omega)
  by_cases hexcess : excess n = excess m
  · unfold round53
    rw [hexcess]
    exact Nat.mul_le_mul_right _ (roundShift_mono h _)
  have hlt : excess n < excess m := by
    have hlog : n.log2 ≤ m.log2 := by
      by_cases hn : n = 0
      · subst hn
        exact Nat.zero_le _
      · exact (Nat.le_log2 (by omega)).2 ((Nat.log2_self_le hn).trans h)
    unfold excess at hexcess ⊢
    omega
  have hn : roundShift n (excess n) ≤ 2 ^ 53 := by
    by_cases hsmall : n < 2 ^ 53
    · rw [excess_of_lt hsmall, roundShift_zero]
      omega
    · exact (roundShift_excess_bounds (n := n) (by omega)).2
  calc round53 n ≤ 2 ^ 53 * 2 ^ excess n := Nat.mul_le_mul_right _ hn
    _ = 2 ^ 52 * 2 ^ (excess n + 1) := by ring
    _ ≤ 2 ^ 52 * 2 ^ excess m := Nat.mul_le_mul_left _ (Nat.pow_le_pow_right (by omega) hlt)
    _ ≤ round53 m := Nat.mul_le_mul_right _ hmbounds.1

/-! ## The format -/

/-- The exponent, as it is stored. -/
def exponentField (b : BitVec 64) : ℕ := b.toNat / 2 ^ 52 % 2 ^ 11

/-- The magnitude of a finite number, in units of `2^(-1074)`. -/
def scaled (b : BitVec 64) : ℕ :=
  if exponentField b = 0 then b.toNat % 2 ^ 52
  else (2 ^ 52 + b.toNat % 2 ^ 52) * 2 ^ (exponentField b - 1)

/-- Neither infinite nor no number. -/
def Finite (b : BitVec 64) : Prop := exponentField b ≠ 2047

instance decidableFinite (b : BitVec 64) : Decidable (Finite b) :=
  inferInstanceAs (Decidable (exponentField b ≠ 2047))

/-- The value of a finite number. -/
def toRat (b : BitVec 64) : ℚ := (if b.msb then -(scaled b : ℚ) else scaled b) / 2 ^ 1074

/-- The number is finite, and no other one is nearer to the integer. -/
structure Nearest (b : BitVec 64) (z : ℤ) : Prop where
  finite : Finite b
  le : ∀ x, Finite x → |toRat b - z| ≤ |toRat x - z|

/-- The bits of the magnitude. The 53 bits that stay are added to the exponent less one, so
    that their first bit, and a carry, count up the exponent. -/
def magnitudeBits (n : ℕ) : ℕ :=
  if n = 0 then 0
  else (n.log2 + 1022) * 2 ^ 52 + roundShift n (excess n) * 2 ^ (52 - n.log2)

/-- `float64(z)`. -/
def ofInt (z : ℤ) : BitVec 64 :=
  BitVec.ofNat 64 ((if z < 0 then 2 ^ 63 else 0) + magnitudeBits z.natAbs)

/-- The significand has its first bit, or is the carry. -/
theorem significand_bounds {n : ℕ} (hn : n ≠ 0) :
    2 ^ 52 ≤ roundShift n (excess n) * 2 ^ (52 - n.log2) ∧
      roundShift n (excess n) * 2 ^ (52 - n.log2) ≤ 2 ^ 53 := by
  by_cases hsmall : n < 2 ^ 52
  · have hlog : n.log2 < 52 := (Nat.log2_lt hn).2 hsmall
    rw [excess_of_lt (by omega), roundShift_zero]
    constructor
    · calc 2 ^ 52 = 2 ^ n.log2 * 2 ^ (52 - n.log2) := by rw [← pow_add]; congr 1; omega
        _ ≤ n * 2 ^ (52 - n.log2) := Nat.mul_le_mul_right _ (Nat.log2_self_le hn)
    · calc n * 2 ^ (52 - n.log2) ≤ 2 ^ (n.log2 + 1) * 2 ^ (52 - n.log2) :=
            Nat.mul_le_mul_right _ (Nat.le_of_lt Nat.lt_log2_self)
        _ = 2 ^ 53 := by rw [← pow_add]; congr 1; omega
  · have hlog : 52 ≤ n.log2 := (Nat.le_log2 hn).2 (by omega)
    rw [show 52 - n.log2 = 0 from by omega, pow_zero, Nat.mul_one]
    exact roundShift_excess_bounds (by omega)

/-- The fields of a number that is put together from an exponent and a significand. -/
theorem fields_of_bits {b : BitVec 64} {sign e s : ℕ} (hsign : sign = 0 ∨ sign = 2 ^ 63)
    (he : e < 2044) (hlow : 2 ^ 52 ≤ s) (hhigh : s ≤ 2 ^ 53)
    (hb : b.toNat = sign + (e * 2 ^ 52 + s)) : Finite b ∧ scaled b = s * 2 ^ e := by
  rcases Nat.lt_or_eq_of_le hhigh with hlt | rfl
  · have hexponent : exponentField b = e + 1 := by
      unfold exponentField
      omega
    have hfraction : 2 ^ 52 + b.toNat % 2 ^ 52 = s := by omega
    unfold Finite scaled
    rw [hexponent, if_neg (by omega), hfraction]
    exact ⟨by omega, rfl⟩
  · have hexponent : exponentField b = e + 2 := by
      unfold exponentField
      omega
    have hfraction : 2 ^ 52 + b.toNat % 2 ^ 52 = 2 ^ 52 := by omega
    unfold Finite scaled
    rw [hexponent, if_neg (by omega), hfraction]
    exact ⟨by omega, by rw [show e + 2 - 1 = e + 1 from rfl, pow_succ]; ring⟩

section Conversion

variable {z : ℤ} (hz : z.natAbs < 2 ^ 64)

include hz

theorem magnitudeBits_lt : magnitudeBits z.natAbs < 2 ^ 63 := by
  unfold magnitudeBits
  split_ifs with hn
  · decide
  · have hlog := (Nat.log2_lt hn).2 hz
    have := (significand_bounds hn).2
    omega

theorem toNat_ofInt :
    (ofInt z).toNat = (if z < 0 then 2 ^ 63 else 0) + magnitudeBits z.natAbs := by
  have := magnitudeBits_lt hz
  rw [ofInt, BitVec.toNat_ofNat]
  split_ifs <;> omega

theorem msb_ofInt : (ofInt z).msb = decide (z < 0) := by
  have := magnitudeBits_lt hz
  rw [BitVec.msb_eq_decide, toNat_ofInt hz]
  split_ifs with hneg
  · simp [hneg]
  · simp only [hneg, decide_false, decide_eq_false_iff_not]
    omega

theorem scaled_ofInt : Finite (ofInt z) ∧ scaled (ofInt z) = round53 z.natAbs * 2 ^ 1074 := by
  by_cases hn : z.natAbs = 0
  · obtain rfl := Int.natAbs_eq_zero.1 hn
    exact ⟨by decide, by decide +kernel⟩
  · have hlog := (Nat.log2_lt hn).2 hz
    have hbits := toNat_ofInt hz
    rw [magnitudeBits, if_neg hn] at hbits
    have hsign : (if z < 0 then 2 ^ 63 else 0) = 0 ∨ (if z < 0 then 2 ^ 63 else 0) = 2 ^ 63 := by
      split_ifs
      · exact Or.inr rfl
      · exact Or.inl rfl
    obtain ⟨hlow, hhigh⟩ := significand_bounds hn
    obtain ⟨hfinite, hscaled⟩ := fields_of_bits hsign (by omega) hlow hhigh hbits
    refine ⟨hfinite, ?_⟩
    -- one of the two shifts is by no bits
    have hshift : 52 - z.natAbs.log2 + (z.natAbs.log2 + 1022) = excess z.natAbs + 1074 := by
      unfold excess
      omega
    rw [hscaled, round53, Nat.mul_assoc, Nat.mul_assoc, ← pow_add, ← pow_add, hshift]

/-- The value of a converted integer: the integer, rounded to 53 bits. -/
theorem toRat_ofInt :
    toRat (ofInt z) = if z < 0 then -(round53 z.natAbs : ℚ) else round53 z.natAbs := by
  have hunit : (2 ^ 1074 : ℚ) ≠ 0 := by positivity
  rw [toRat, msb_ofInt hz, (scaled_ofInt hz).2, Nat.cast_mul, Nat.cast_pow, Nat.cast_ofNat]
  by_cases hneg : z < 0
  · rw [if_pos (decide_eq_true hneg), if_pos hneg, ← neg_mul, mul_div_cancel_right₀ _ hunit]
  · rw [if_neg (by simpa using hneg), if_neg hneg, mul_div_cancel_right₀ _ hunit]

/-- The distance to the integer is that of the magnitudes. -/
theorem abs_toRat_ofInt_sub :
    |toRat (ofInt z) - z| = |(round53 z.natAbs : ℚ) - z.natAbs| := by
  rw [toRat_ofInt hz, Nat.cast_natAbs, Int.cast_abs]
  split_ifs with hneg
  · have hneg' : (z : ℚ) < 0 := by exact_mod_cast hneg
    rw [abs_of_neg hneg', ← abs_neg]
    ring_nf
  · have hpos' : (0 : ℚ) ≤ z := by exact_mod_cast not_lt.1 hneg
    rw [abs_of_nonneg hpos']

/-- Integers up to `2^53` are converted without loss. -/
theorem toRat_ofInt_of_le (h : z.natAbs ≤ 2 ^ 53) : toRat (ofInt z) = z := by
  have hdistance := abs_toRat_ofInt_sub hz
  rw [round53_of_le h, sub_self, abs_zero, abs_eq_zero, sub_eq_zero] at hdistance
  exact hdistance

end Conversion

/-- The conversion keeps the order of integers that are not negative. -/
theorem toRat_ofInt_mono {z w : ℤ} (hz : 0 ≤ z) (h : z ≤ w) (hw : w.natAbs < 2 ^ 64) :
    toRat (ofInt z) ≤ toRat (ofInt w) := by
  rw [toRat_ofInt (by omega), toRat_ofInt hw, if_neg (by omega), if_neg (by omega), Nat.cast_le]
  apply round53_mono
  omega

/-! ## The nearest number -/

/-- A finite number is a significand of 53 bits, shifted. -/
theorem exists_scaled_eq (b : BitVec 64) : ∃ s t, s < 2 ^ 53 ∧ scaled b = s * 2 ^ t := by
  unfold scaled
  split_ifs
  · exact ⟨b.toNat % 2 ^ 52, 0, by omega, by rw [pow_zero, Nat.mul_one]⟩
  · exact ⟨2 ^ 52 + b.toNat % 2 ^ 52, exponentField b - 1, by omega, rfl⟩

/-- Where the integer is rounded by `k` bits, a number is a multiple of `2^k` or below all
    integers that are. -/
theorem scaled_dvd_or_lt (b : BitVec 64) (k : ℕ) :
    2 ^ (k + 1074) ∣ scaled b ∨ scaled b < 2 ^ (52 + k) * 2 ^ 1074 := by
  obtain ⟨s, t, hs, heq⟩ := exists_scaled_eq b
  rw [heq]
  by_cases ht : k + 1074 ≤ t
  · exact Or.inl (Dvd.dvd.mul_left (pow_dvd_pow 2 ht) s)
  · right
    calc s * 2 ^ t < 2 ^ 53 * 2 ^ t := Nat.mul_lt_mul_of_pos_right hs (Nat.two_pow_pos t)
      _ ≤ 2 ^ 53 * 2 ^ (k + 1073) :=
        Nat.mul_le_mul_left _ (Nat.pow_le_pow_right (by omega) (by omega))
      _ = 2 ^ (52 + k) * 2 ^ 1074 := by
        rw [← pow_add, ← pow_add, show 53 + (k + 1073) = 52 + k + 1074 from by omega]

/-- In units of `2^(-t)`, no number that is a multiple of `2^k` or below all integers that
    are is nearer. -/
theorem round53_nearest (n t : ℕ) {d : ℕ}
    (hd : 2 ^ (excess n + t) ∣ d ∨ d < 2 ^ (52 + excess n) * 2 ^ t) :
    |(round53 n : ℤ) - n| * 2 ^ t ≤ |(d : ℤ) - n * 2 ^ t| := by
  by_cases hn : n ≤ 2 ^ 53
  · rw [round53_of_le hn, sub_self, abs_zero, zero_mul]
    exact abs_nonneg _
  have hlog : 52 + excess n = n.log2 := by
    have : 52 ≤ n.log2 := (Nat.le_log2 (by omega)).2 (by omega)
    unfold excess
    omega
  have hfirst : 2 ^ (52 + excess n) ≤ n := hlog ▸ Nat.log2_self_le (by omega)
  have hunit : (0 : ℤ) < 2 ^ t := by positivity
  have hnearest : ∀ c : ℤ, |(round53 n : ℤ) - n| ≤ |c * 2 ^ excess n - n| := by
    intro c
    have := roundShift_nearest n (excess n) c
    rwa [round53, Nat.cast_mul, Nat.cast_pow, Nat.cast_ofNat]
  rcases hd with ⟨c, rfl⟩ | hlt
  · have hmultiple : ((2 ^ (excess n + t) * c : ℕ) : ℤ) - n * 2 ^ t =
        (c * 2 ^ excess n - n) * 2 ^ t := by
      rw [pow_add]
      push_cast
      ring
    rw [hmultiple, abs_mul, abs_of_pos hunit]
    exact mul_le_mul_of_nonneg_right (hnearest c) hunit.le
  · -- the first multiple lies between the two
    have hfirst' : (2 ^ 52 * 2 ^ excess n : ℤ) ≤ n := by
      rw [← pow_add]
      exact_mod_cast hfirst
    have hlt' : (d : ℤ) < 2 ^ 52 * 2 ^ excess n * 2 ^ t := by
      rw [← pow_add]
      exact_mod_cast hlt
    calc |(round53 n : ℤ) - n| * 2 ^ t
        ≤ |2 ^ 52 * 2 ^ excess n - (n : ℤ)| * 2 ^ t :=
          mul_le_mul_of_nonneg_right (hnearest (2 ^ 52)) hunit.le
      _ = n * 2 ^ t - 2 ^ 52 * 2 ^ excess n * 2 ^ t := by
          rw [abs_of_nonpos (sub_nonpos.2 hfirst')]
          ring
      _ ≤ n * 2 ^ t - d := sub_le_sub_left hlt'.le _
      _ ≤ |(d : ℤ) - n * 2 ^ t| := by
          rw [← neg_sub]
          exact neg_le_abs _

theorem round53_nearest_div (n t : ℕ) {d : ℕ}
    (hd : 2 ^ (excess n + t) ∣ d ∨ d < 2 ^ (52 + excess n) * 2 ^ t) :
    |(round53 n : ℚ) - n| ≤ |(d : ℚ) / 2 ^ t - n| := by
  have hunit : (0 : ℚ) < 2 ^ t := by positivity
  have hscaled : |(round53 n : ℚ) - n| * 2 ^ t ≤ |(d : ℚ) - n * 2 ^ t| := by
    exact_mod_cast round53_nearest n t hd
  have hdiv : |(d : ℚ) / 2 ^ t - n| = |(d : ℚ) - n * 2 ^ t| / 2 ^ t := by
    rw [div_sub' hunit.ne', abs_div, abs_of_pos hunit, mul_comm]
  rw [hdiv, le_div_iff₀ hunit]
  exact hscaled

theorem abs_toRat (b : BitVec 64) : |toRat b| = scaled b / 2 ^ 1074 := by
  have hpos : (0 : ℚ) ≤ scaled b / 2 ^ 1074 := by positivity
  unfold toRat
  split_ifs
  · rw [neg_div, abs_neg, abs_of_nonneg hpos]
  · exact abs_of_nonneg hpos

/-- No finite number is nearer to the integer than the one it is converted to. -/
theorem nearest_ofInt {z : ℤ} (hz : z.natAbs < 2 ^ 64) : Nearest (ofInt z) z := by
  refine ⟨(scaled_ofInt hz).1, fun x _ => ?_⟩
  calc |toRat (ofInt z) - z| = |(round53 z.natAbs : ℚ) - z.natAbs| := abs_toRat_ofInt_sub hz
    _ ≤ |(scaled x : ℚ) / 2 ^ 1074 - z.natAbs| :=
      round53_nearest_div _ _ (scaled_dvd_or_lt x _)
    _ = |(|toRat x| - |(z : ℚ)|)| := by rw [abs_toRat, Nat.cast_natAbs, Int.cast_abs]
    _ ≤ |toRat x - z| := abs_abs_sub_abs_le _ _

end MetricStore.Common.Float64
