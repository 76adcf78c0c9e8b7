import MetricStore.Common.Float64

/-!
# Rational numbers, rounded to binary64

A product or a quotient of two `float64` numbers is the exact one, rounded to the nearest
number of the format, a half to the even one. `roundRat` rounds a rational that is `1` or
more; below `2^1024` the result has an exponent that the format can hold.

Results:
* `roundRat_nearest`: no finite number is nearer to the rational.
* `le_roundRat`, `roundRat_le`: rounding does not cross a number of the format.
-/

namespace MetricStore.Common.Float64

/-! ## Rounding to an integer -/

/-- The nearest integer, of two the even one. -/
def roundEven (y : ℚ) : ℤ :=
  if y - ⌊y⌋ < 1 / 2 ∨ (y - ⌊y⌋ = 1 / 2 ∧ ⌊y⌋ % 2 = 0) then ⌊y⌋ else ⌊y⌋ + 1

/-- No integer is nearer. -/
theorem roundEven_nearest (y : ℚ) (c : ℤ) : |(roundEven y : ℚ) - y| ≤ |(c : ℚ) - y| := by
  have hlow : (⌊y⌋ : ℚ) ≤ y := Int.floor_le y
  have hhigh : y < ⌊y⌋ + 1 := Int.lt_floor_add_one y
  -- an integer is the one below `y`, or further down, or the one above, or further up
  have hside : (c : ℚ) ≤ ⌊y⌋ ∨ (⌊y⌋ : ℚ) + 1 ≤ c := by
    rcases le_or_gt c ⌊y⌋ with hle | hgt
    · exact Or.inl (by exact_mod_cast hle)
    · exact Or.inr (by exact_mod_cast hgt)
  have hfar : y - ⌊y⌋ ≤ |(c : ℚ) - y| ∨ ⌊y⌋ + 1 - y ≤ |(c : ℚ) - y| := by
    rcases hside with hle | hge
    · left
      rw [abs_of_nonpos (by linarith)]
      linarith
    · right
      rw [abs_of_nonneg (by linarith)]
      linarith
  unfold roundEven
  split_ifs with hdown
  · rw [abs_of_nonpos (by linarith)]
    rcases hdown with hlt | ⟨heq, -⟩ <;> rcases hfar with h | h <;> linarith
  · rw [not_or, not_lt] at hdown
    push_cast
    rw [abs_of_nonneg (by linarith)]
    rcases hfar with h | h <;> linarith [hdown.1]

/-! ## Rounding to 53 bits -/

/-- The distance of two numbers of the format, from the power of two below `x` to the next
    one. -/
def ulp (x : ℚ) : ℚ := 2 ^ ⌊x⌋₊.log2 / 2 ^ 52

/-- The number `x`, rounded to 53 bits. -/
def roundRat (x : ℚ) : ℚ := roundEven (x / ulp x) * ulp x

theorem ulp_pos (x : ℚ) : 0 < ulp x := by
  unfold ulp
  positivity

/-- No multiple of the distance is nearer. -/
theorem roundRat_nearest_mul (x : ℚ) (c : ℤ) : |roundRat x - x| ≤ |c * ulp x - x| := by
  have hpos := ulp_pos x
  have hscale : ∀ m : ℤ, |m * ulp x - x| = |(m : ℚ) - x / ulp x| * ulp x := by
    intro m
    rw [← abs_of_pos hpos, ← abs_mul, sub_mul, abs_of_pos hpos, div_mul_cancel₀ x hpos.ne']
  unfold roundRat
  rw [hscale, hscale]
  exact mul_le_mul_of_nonneg_right (roundEven_nearest _ _) hpos.le

/-- The magnitude of a number is a multiple of the distance, or below the power of two that
    is the first number at that distance. -/
theorem abs_toRat_mul_or_lt (b : BitVec 64) (x : ℚ) :
    (∃ c : ℤ, |toRat b| = c * ulp x) ∨ |toRat b| < 2 ^ 52 * ulp x := by
  obtain ⟨s, t, hs, heq⟩ := exists_scaled_eq b
  have hscaled : |toRat b| = s * 2 ^ t / 2 ^ 1074 := by
    rw [abs_toRat, heq]
    push_cast
    rfl
  unfold ulp
  generalize ⌊x⌋₊.log2 = e
  by_cases ht : e + 1022 ≤ t
  · left
    obtain ⟨k, rfl⟩ := Nat.exists_eq_add_of_le ht
    refine ⟨s * 2 ^ k, ?_⟩
    rw [hscaled, div_eq_iff (by positivity)]
    push_cast
    rw [show (1074 : ℕ) = 1022 + 52 from rfl, pow_add, pow_add, pow_add]
    field_simp
  · right
    have hpow : (2 : ℚ) ^ t ≤ 2 ^ (e + 1021) := by
      apply pow_le_pow_right₀ (by norm_num)
      omega
    have hs' : (s : ℚ) < 2 ^ 53 := by exact_mod_cast hs
    rw [hscaled, div_lt_iff₀ (by positivity)]
    calc (s : ℚ) * 2 ^ t < 2 ^ 53 * 2 ^ t := mul_lt_mul_of_pos_right hs' (by positivity)
      _ ≤ 2 ^ 53 * 2 ^ (e + 1021) := mul_le_mul_of_nonneg_left hpow (by positivity)
      _ = 2 ^ 52 * (2 ^ e / 2 ^ 52) * 2 ^ 1074 := by
        rw [mul_div_cancel₀ _ (by positivity), ← pow_add, ← pow_add,
          show 53 + (e + 1021) = e + 1074 from by omega]

section Nearest

variable {x : ℚ} (hx : 1 ≤ x)

include hx

/-- The power of two below the number. -/
theorem two_pow_mul_ulp_le : 2 ^ 52 * ulp x ≤ x := by
  have hfloor : ⌊x⌋₊ ≠ 0 := by
    have := (Nat.one_le_floor_iff x).2 hx
    omega
  unfold ulp
  rw [mul_div_cancel₀ _ (by positivity)]
  calc (2 : ℚ) ^ ⌊x⌋₊.log2 ≤ ⌊x⌋₊ := by exact_mod_cast Nat.log2_self_le hfloor
    _ ≤ x := Nat.floor_le (by linarith)

/-- No finite number of the format is nearer. -/
theorem roundRat_nearest (b : BitVec 64) : |roundRat x - x| ≤ |toRat b - x| := by
  have habs : |(|toRat b| - x)| ≤ |toRat b - x| := by
    have := abs_abs_sub_abs_le (toRat b) x
    rwa [abs_of_nonneg (by linarith : 0 ≤ x)] at this
  refine le_trans ?_ habs
  rcases abs_toRat_mul_or_lt b x with ⟨c, heq⟩ | hlt
  · rw [heq]
    exact roundRat_nearest_mul x c
  · -- the power of two lies between the two
    have hpower := two_pow_mul_ulp_le hx
    calc |roundRat x - x| ≤ |((2 ^ 52 : ℤ) : ℚ) * ulp x - x| := roundRat_nearest_mul x _
      _ = x - 2 ^ 52 * ulp x := by
        rw [Int.cast_pow, Int.cast_ofNat, abs_of_nonpos (by linarith), neg_sub]
      _ ≤ x - |toRat b| := sub_le_sub_left hlt.le x
      _ ≤ |(|toRat b| - x)| := by
        rw [abs_sub_comm]
        exact le_abs_self _

/-- Rounding does not cross a number of the format downwards. -/
theorem le_roundRat {b : BitVec 64} (h : toRat b ≤ x) : toRat b ≤ roundRat x := by
  by_contra hlt
  have hnear := roundRat_nearest hx b
  rw [abs_of_nonpos (by linarith), abs_of_nonpos (by linarith)] at hnear
  linarith

/-- Nor upwards. -/
theorem roundRat_le {b : BitVec 64} (h : x ≤ toRat b) : roundRat x ≤ toRat b := by
  by_contra hlt
  have hnear := roundRat_nearest hx b
  rw [abs_of_nonneg (by linarith), abs_of_nonneg (by linarith)] at hnear
  linarith

end Nearest

end MetricStore.Common.Float64
