import Mathlib
import SchemaLang.Number.Decimal

/-!
# Rounding

Which double is the nearest to a number depends on the number alone, not on the fraction that
it is given as (`Binary64.nearestMagnitude_congr`) or on the digits of a decimal
(`Decimal.magnitude_congr`). A double is the nearest to the number that it stands for
(`Decimal.magnitude_of_value`).
-/

namespace SchemaLang

namespace Binary64

/-! ## Quotients -/

theorem ratio_scale {base : Nat} (hbase : 0 < base) (k : Int) (num den : Nat) :
    ((scale base k num den).1 : ℚ) / (scale base k num den).2 = num / den * (base : ℚ) ^ k := by
  have hne : (base : ℚ) ≠ 0 := Nat.cast_ne_zero.mpr hbase.ne'
  rw [← Int.toNat_sub_toNat_neg k, zpow_sub₀ hne, zpow_natCast, zpow_natCast]
  simp only [scale, Int.toNat_sub_toNat_neg, Nat.pow_eq]
  push_cast
  rw [div_mul_div_comm]

theorem scale_den_pos {base : Nat} (hbase : 0 < base) (k : Int) (num : Nat) {den : Nat}
    (hden : 0 < den) : 0 < (scale base k num den).2 :=
  Nat.mul_pos hden (Nat.pow_pos hbase)

theorem log_eq_of_bounds {base : Nat} (hbase : 1 < base) {r : ℚ} {k : Int}
    (hlow : (base : ℚ) ^ k ≤ r) (hhigh : r < (base : ℚ) ^ (k + 1)) : Int.log base r = k := by
  have hr : 0 < r := (zpow_pos (by exact_mod_cast hbase.le) k).trans_le hlow
  have hle : k ≤ Int.log base r := (Int.zpow_le_iff_le_log hbase hr).mp hlow
  have hlt : Int.log base r < k + 1 := (Int.lt_zpow_iff_log_lt hbase hr).mp hhigh
  omega

/-- The lengths of numerator and denominator tell the logarithm of a quotient up to one. -/
theorem quotient_bounds {num den : Nat} (hnum : 0 < num) (hden : 0 < den) {k : Int}
    (hk : (num.log2 : Int) - den.log2 = k) :
    (2 : ℚ) ^ (k - 1) ≤ num / den ∧ (num : ℚ) / den < 2 ^ (k + 1) := by
  have hdenq : (0 : ℚ) < den := Nat.cast_pos.mpr hden
  have hnlow : (2 : ℚ) ^ (num.log2 : Int) ≤ num := by
    exact_mod_cast Nat.log2_self_le hnum.ne'
  have hnhigh : (num : ℚ) < (2 : ℚ) ^ ((num.log2 : Int) + 1) := by
    exact_mod_cast Nat.lt_log2_self
  have hdlow : (2 : ℚ) ^ (den.log2 : Int) ≤ den := by
    exact_mod_cast Nat.log2_self_le hden.ne'
  have hdhigh : (den : ℚ) < (2 : ℚ) ^ ((den.log2 : Int) + 1) := by
    exact_mod_cast Nat.lt_log2_self
  constructor
  · rw [le_div_iff₀ hdenq]
    calc (2 : ℚ) ^ (k - 1) * den ≤ 2 ^ (k - 1) * 2 ^ ((den.log2 : Int) + 1) := by gcongr
      _ = 2 ^ (num.log2 : Int) := by rw [← zpow_add₀ two_ne_zero, ← hk]; congr 1; ring
      _ ≤ num := hnlow
  · rw [div_lt_iff₀ hdenq]
    calc (num : ℚ) < 2 ^ ((num.log2 : Int) + 1) := hnhigh
      _ = 2 ^ (k + 1) * 2 ^ (den.log2 : Int) := by
        rw [← zpow_add₀ two_ne_zero, ← hk]; congr 1; ring
      _ ≤ 2 ^ (k + 1) * den := by gcongr

theorem scale_le_iff {base : Nat} (hbase : 0 < base) {num den : Nat} (hnum : 0 < num)
    (hden : 0 < den) (k : Int) :
    (scale base k den num).1 ≤ (scale base k den num).2 ↔ (base : ℚ) ^ k ≤ num / den := by
  have hnumq : (0 : ℚ) < num := Nat.cast_pos.mpr hnum
  have hdenq : (0 : ℚ) < den := Nat.cast_pos.mpr hden
  have hpos : (0 : ℚ) < (scale base k den num).2 :=
    Nat.cast_pos.mpr (scale_den_pos hbase k den hnum)
  rw [← Nat.cast_le (α := ℚ), ← div_le_one hpos, ratio_scale hbase, div_mul_eq_mul_div,
    div_le_one hnumq, le_div_iff₀ hdenq, mul_comm]

theorem floorLog2_eq_log {num den : Nat} (hnum : 0 < num) (hden : 0 < den) :
    floorLog2 num den = Int.log 2 ((num : ℚ) / den) := by
  generalize hk : (num.log2 : Int) - den.log2 = k
  obtain ⟨hlow, hhigh⟩ := quotient_bounds hnum hden hk
  rw [floorLog2, hk]
  dsimp only
  split
  · next h =>
    have hle := (scale_le_iff two_pos hnum hden k).mp h
    exact (log_eq_of_bounds one_lt_two hle hhigh).symm
  · next h =>
    refine (log_eq_of_bounds one_lt_two hlow ?_).symm
    rw [sub_add_cancel]
    exact not_le.mp fun hle => h ((scale_le_iff two_pos hnum hden k).mpr hle)

/-! ## The nearest double -/

theorem roundHalfEven_mul_right (num den : Nat) {c : Nat} (hc : 0 < c) :
    roundHalfEven (num * c) (den * c) = roundHalfEven num den := by
  have hlt (a b : Nat) : a * c < b * c ↔ a < b := Nat.mul_lt_mul_right hc
  simp only [roundHalfEven, Nat.mul_div_mul_right num den hc, Nat.mul_mod_mul_right,
    ← Nat.mul_assoc, hlt]

theorem cross_mul_of_div_eq {num den num' den' : Nat} (hden : 0 < den) (hden' : 0 < den')
    (h : (num : ℚ) / den = num' / den') : num * den' = num' * den := by
  rw [div_eq_div_iff (by positivity) (by positivity)] at h
  exact_mod_cast h

theorem roundHalfEven_congr {num den num' den' : Nat} (hden : 0 < den) (hden' : 0 < den')
    (h : (num : ℚ) / den = num' / den') : roundHalfEven num den = roundHalfEven num' den' := by
  rw [← roundHalfEven_mul_right num den hden', cross_mul_of_div_eq hden hden' h, Nat.mul_comm den,
    roundHalfEven_mul_right num' den' hden]

/-- The nearest double depends on the quotient alone. -/
theorem nearestMagnitude_congr {num den num' den' : Nat} (hden : 0 < den) (hden' : 0 < den')
    (h : (num : ℚ) / den = num' / den') :
    nearestMagnitude num den = nearestMagnitude num' den' := by
  have hcross : num * den' = num' * den := cross_mul_of_div_eq hden hden' h
  have hzero : num = 0 ↔ num' = 0 := by
    rw [← mul_eq_zero_iff_right hden'.ne', hcross, mul_eq_zero_iff_right hden.ne']
  unfold nearestMagnitude
  by_cases hnum : num = 0
  · rw [if_pos hnum, if_pos (hzero.mp hnum)]
  · have hnum' : num' ≠ 0 := mt hzero.mpr hnum
    rw [if_neg hnum, if_neg hnum', floorLog2_eq_log (Nat.pos_of_ne_zero hnum) hden,
      floorLog2_eq_log (Nat.pos_of_ne_zero hnum') hden', h]
    dsimp only
    rw [roundHalfEven_congr (scale_den_pos two_pos _ num hden)
      (scale_den_pos two_pos _ num' hden')]
    rw [ratio_scale two_pos, ratio_scale two_pos, h]

/-! ## Doubles on the number line -/

/-- The number that the magnitude stands for. -/
def value (x : Binary64) : ℚ :=
  x.significand * 2 ^ x.exponent

/-- The parts of a magnitude: its significand has a leading one unless the exponent is the
smallest. -/
theorem magnitude_parts (x : Binary64) :
    x.significand < 2 * leadingBit ∧ -1074 ≤ x.exponent ∧
      (x.exponent = -1074 ∨ leadingBit ≤ x.significand) ∧
      (x.exponent + 1074).toNat * leadingBit + x.significand = x.magnitude := by
  unfold significand exponent
  by_cases h : x.magnitude < leadingBit
  · rw [if_pos h]
    simp only [leadingBit] at h ⊢
    omega
  · rw [if_neg h]
    simp only [leadingBit] at h ⊢
    omega

theorem significand_pos {x : Binary64} (h : x.magnitude ≠ 0) : 0 < x.significand := by
  obtain ⟨-, -, hlead, hmagnitude⟩ := x.magnitude_parts
  simp only [leadingBit] at hlead hmagnitude
  omega

theorem value_pos {x : Binary64} (h : x.magnitude ≠ 0) : 0 < x.value := by
  have hsignificand : (0 : ℚ) < x.significand := Nat.cast_pos.mpr (significand_pos h)
  unfold value
  positivity

theorem value_lt (x : Binary64) : x.value < 2 ^ (x.exponent + 53) := by
  have hsignificand : (x.significand : ℚ) < 2 ^ (53 : Int) := by
    exact_mod_cast x.magnitude_parts.1
  rw [value, add_comm, zpow_add₀ two_ne_zero]
  gcongr

theorem le_value {x : Binary64} (h : leadingBit ≤ x.significand) :
    2 ^ (x.exponent + 52) ≤ x.value := by
  have hsignificand : (2 : ℚ) ^ (52 : Int) ≤ x.significand := by
    exact_mod_cast h
  rw [value, add_comm, zpow_add₀ two_ne_zero]
  gcongr

theorem roundHalfEven_one (n : Nat) : roundHalfEven n 1 = n := by
  simp [roundHalfEven, Nat.mod_one]

/-- A double is the nearest to the number that it stands for. -/
theorem nearestMagnitude_value {x : Binary64} (hfinite : x.isFinite = true)
    (hzero : x.magnitude ≠ 0) {num den : Nat} (hden : 0 < den)
    (h : (num : ℚ) / den = x.value) : nearestMagnitude num den = x.magnitude := by
  obtain ⟨-, hexponent, hlead, hmagnitude⟩ := x.magnitude_parts
  have hpos : 0 < x.value := value_pos hzero
  have hnum : num ≠ 0 := by
    rintro rfl
    rw [← h] at hpos
    simp at hpos
  have hlog : max (Int.log 2 x.value - 52) (-1074) = x.exponent := by
    have hhigh : Int.log 2 x.value < x.exponent + 53 :=
      (Int.lt_zpow_iff_log_lt one_lt_two hpos).mp x.value_lt
    rcases hlead with hleast | hlead
    · omega
    · have hlow : x.exponent + 52 ≤ Int.log 2 x.value :=
        (Int.zpow_le_iff_le_log one_lt_two hpos).mp (le_value hlead)
      omega
  have hround : roundHalfEven (scale 2 (-x.exponent) num den).1
      (scale 2 (-x.exponent) num den).2 = x.significand := by
    rw [← roundHalfEven_one x.significand]
    refine roundHalfEven_congr (scale_den_pos two_pos _ num hden) one_pos ?_
    rw [ratio_scale two_pos, h, value, mul_assoc, Nat.cast_ofNat, ← zpow_add₀ two_ne_zero,
      add_neg_cancel, zpow_zero, Nat.cast_one, mul_one, div_one]
  rw [nearestMagnitude, if_neg hnum, floorLog2_eq_log (Nat.pos_of_ne_zero hnum) hden, h, hlog]
  dsimp only
  rw [hround, hmagnitude]
  rw [isFinite, decide_eq_true_eq] at hfinite
  exact min_eq_right hfinite.le

end Binary64

namespace Decimal

/-! ## Decimals on the number line -/

/-- The number that a decimal stands for. -/
def value (d : Decimal) : ℚ :=
  d.digits * 10 ^ d.exponent

theorem value_eq_zero_iff {d : Decimal} : d.value = 0 ↔ d.digits = 0 := by
  simp [value, zpow_ne_zero]

theorem ratio_scale (d : Decimal) :
    ((Binary64.scale 10 d.exponent d.digits 1).1 : ℚ) /
      (Binary64.scale 10 d.exponent d.digits 1).2 = d.value := by
  rw [Binary64.ratio_scale (by decide), Nat.cast_one, div_one, value, Nat.cast_ofNat]

theorem length_digitChars_pos (d : Decimal) : 0 < d.digitChars.length :=
  Nat.length_toDigits_pos

theorem digits_lt (d : Decimal) : d.digits < 10 ^ d.digitChars.length :=
  (Nat.length_toDigits_le_iff (by decide) d.length_digitChars_pos).mp le_rfl

theorem le_digits {d : Decimal} (h : d.digits ≠ 0) :
    10 ^ (d.digitChars.length - 1) ≤ d.digits := by
  by_contra hlt
  rw [not_le] at hlt
  by_cases hone : d.digitChars.length = 1
  · rw [hone] at hlt
    exact h (Nat.lt_one_iff.mp hlt)
  · have hlength := d.length_digitChars_pos
    have hle := (Nat.length_toDigits_le_iff (by decide) (by omega)).mpr hlt
    unfold digitChars at *
    omega

theorem order_eq_log {d : Decimal} (h : d.digits ≠ 0) : d.order = Int.log 10 d.value := by
  have hlength := d.length_digitChars_pos
  have hlow : (10 : ℚ) ^ ((d.digitChars.length : Int) - 1) ≤ d.digits := by
    rw [← Nat.cast_pred hlength, zpow_natCast]
    exact_mod_cast le_digits h
  have hhigh : (d.digits : ℚ) < 10 ^ (d.digitChars.length : Int) := by
    rw [zpow_natCast]
    exact_mod_cast d.digits_lt
  refine (Binary64.log_eq_of_bounds (by decide) ?_ ?_).symm
  · rw [order, Nat.cast_ofNat, zpow_add₀ (by norm_num), value]
    gcongr
  · rw [order, Nat.cast_ofNat, add_right_comm, sub_add_cancel, zpow_add₀ (by norm_num), value]
    gcongr

/-- The nearest double depends on the number alone. -/
theorem magnitude_congr {d d' : Decimal} (h : d.value = d'.value) :
    d.magnitude = d'.magnitude := by
  have hzero : d.digits = 0 ↔ d'.digits = 0 := by
    rw [← value_eq_zero_iff, h, value_eq_zero_iff]
  by_cases hdigits : d.digits = 0
  · rw [magnitude, magnitude, if_pos (Or.inl hdigits), if_pos (Or.inl (hzero.mp hdigits))]
  · have hdigits' : d'.digits ≠ 0 := mt hzero.mpr hdigits
    have hnearest : Binary64.nearestMagnitude (Binary64.scale 10 d.exponent d.digits 1).1
          (Binary64.scale 10 d.exponent d.digits 1).2 =
        Binary64.nearestMagnitude (Binary64.scale 10 d'.exponent d'.digits 1).1
          (Binary64.scale 10 d'.exponent d'.digits 1).2 := by
      refine Binary64.nearestMagnitude_congr (Binary64.scale_den_pos (by decide) _ _ one_pos)
        (Binary64.scale_den_pos (by decide) _ _ one_pos) ?_
      rw [ratio_scale, ratio_scale, h]
    simp only [magnitude, hdigits, hdigits', order_eq_log hdigits, order_eq_log hdigits', h,
      hnearest]

theorem two_pow_le_ten_pow : (2 : ℚ) ^ (1024 : Int) ≤ 10 ^ (311 : Int) := by
  have hhalf : (2 : ℚ) ^ 256 * 2 ^ 256 ≤ 10 ^ 155 := by norm_num
  calc (2 : ℚ) ^ (1024 : Int) = (2 ^ 256 * 2 ^ 256) ^ 2 := by
        rw [← pow_add, ← pow_mul]; rfl
    _ ≤ (10 ^ 155) ^ 2 := by gcongr
    _ = 10 ^ (310 : Int) := by rw [← pow_mul]; rfl
    _ ≤ 10 ^ (311 : Int) := zpow_le_zpow_right₀ (by norm_num) (by norm_num)

theorem ten_pow_le_two_pow : (10 : ℚ) ^ (-330 : Int) ≤ 2 ^ (-1074 : Int) := by
  have hsixth : (2 : ℚ) ^ 179 ≤ 10 ^ 55 := by norm_num
  rw [zpow_neg, zpow_neg]
  refine inv_anti₀ (by positivity) ?_
  calc (2 : ℚ) ^ (1074 : Int) = (2 ^ 179) ^ 6 := by rw [← pow_mul]; rfl
    _ ≤ (10 ^ 55) ^ 6 := by gcongr
    _ = 10 ^ (330 : Int) := by rw [← pow_mul]; rfl

/-- The powers of ten between which the doubles lie. -/
theorem log_value_bounds {x : Binary64} (hfinite : x.isFinite = true) (hzero : x.magnitude ≠ 0) :
    -330 ≤ Int.log 10 x.value ∧ Int.log 10 x.value ≤ 310 := by
  obtain ⟨-, hleast, hlead, hmagnitude⟩ := x.magnitude_parts
  have hpos : 0 < x.value := Binary64.value_pos hzero
  have hgreatest : x.exponent ≤ 971 := by
    rw [Binary64.isFinite, decide_eq_true_eq, Binary64.infiniteMagnitude] at hfinite
    simp only [Binary64.leadingBit] at hlead hmagnitude hfinite
    omega
  constructor
  · rw [← Int.zpow_le_iff_le_log (by decide) hpos]
    have hone : (1 : ℚ) ≤ x.significand := Nat.one_le_cast.mpr (Binary64.significand_pos hzero)
    calc ((10 : Nat) : ℚ) ^ (-330 : Int) ≤ 2 ^ (-1074 : Int) := ten_pow_le_two_pow
      _ ≤ 2 ^ x.exponent := zpow_le_zpow_right₀ one_le_two hleast
      _ ≤ x.value := le_mul_of_one_le_left (by positivity) hone
  · rw [← Int.lt_add_one_iff, ← Int.lt_zpow_iff_log_lt (by decide) hpos]
    calc x.value < 2 ^ (x.exponent + 53) := x.value_lt
      _ ≤ 2 ^ (1024 : Int) := zpow_le_zpow_right₀ one_le_two (by omega)
      _ ≤ ((10 : Nat) : ℚ) ^ (310 + 1 : Int) := two_pow_le_ten_pow

/-- A decimal that stands for the same number as a double is rounded to it. -/
theorem magnitude_of_value {d : Decimal} {x : Binary64} (hfinite : x.isFinite = true)
    (hzero : x.magnitude ≠ 0) (h : d.value = x.value) : d.magnitude = x.magnitude := by
  have hdigits : d.digits ≠ 0 := by
    rw [Ne, ← value_eq_zero_iff, h]
    exact (Binary64.value_pos hzero).ne'
  obtain ⟨hleast, hgreatest⟩ := log_value_bounds hfinite hzero
  rw [← h, ← order_eq_log hdigits] at hleast hgreatest
  rw [magnitude, if_neg (by omega), if_neg (by omega)]
  dsimp only
  exact Binary64.nearestMagnitude_value hfinite hzero
    (Binary64.scale_den_pos (by decide) _ _ one_pos) (d.ratio_scale.trans h)

end Decimal

end SchemaLang
