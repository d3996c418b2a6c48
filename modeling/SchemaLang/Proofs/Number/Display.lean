import SchemaLang.Number.Layout
import SchemaLang.Proofs.Number.Numeral
import SchemaLang.Proofs.Number.Rounding

/-!
# Displayed numbers

A finite number without a minus sign is displayed as digits, perhaps with a point among them,
and this numeral reads as the same number (`isNumeral_render`). The digits are those of a decimal
that rounds to the number; leaving out zeros at their end and putting the point among them
changes the digits but not what they stand for.
-/

namespace SchemaLang

namespace Decimal

/-! ## Shortest decimals -/

/-- Zeros at the end of the digits are powers of ten in the number. -/
theorem pow_dvd_of_zeros (n : Nat) :
    10 ^ ((Nat.toDigits 10 n).reverse.takeWhile (· = '0')).length ∣ n := by
  induction n using Nat.strongRecOn with
  | _ n ih =>
    rw [Nat.toDigits_eq_if (by decide)]
    split
    · next hlt =>
      by_cases hzero : n = 0
      · rw [hzero]
        exact dvd_zero _
      · simp [hzero]
    · next hge =>
      rw [List.reverse_append, List.reverse_singleton, List.singleton_append, List.takeWhile_cons]
      by_cases hlast : n % 10 = 0
      · have hten : 10 * (n / 10) = n := by omega
        have hrest := ih (n / 10) (by omega)
        rw [hlast, if_pos (by decide), List.length_cons, Nat.pow_succ']
        nth_rewrite 2 [← hten]
        exact Nat.mul_dvd_mul_left 10 hrest
      · simp [hlast]

theorem value_trim (d : Decimal) : d.trim.value = d.value := by
  have hdvd : 10 ^ (d.digitChars.reverse.takeWhile (· = '0')).length ∣ d.digits :=
    pow_dvd_of_zeros d.digits
  simp only [trim, value, Nat.pow_eq]
  generalize (d.digitChars.reverse.takeWhile (· = '0')).length = zeros at hdvd
  rw [Nat.cast_div hdvd (by positivity), add_comm, zpow_add₀ (by norm_num), zpow_natCast]
  push_cast
  rw [← mul_assoc, div_mul_cancel₀ _ (by positivity)]

theorem value_exactDecimal (x : Binary64) : x.exactDecimal.value = x.value := by
  have hexponent : min x.exponent 0 = -((-x.exponent).toNat : Int) := by omega
  have hten : (10 : ℚ) ^ (-((-x.exponent).toNat : Int)) =
      2 ^ (-((-x.exponent).toNat : Int)) * 5 ^ (-((-x.exponent).toNat : Int)) := by
    rw [← mul_zpow]
    norm_num
  have htwo : (2 : ℚ) ^ x.exponent =
      2 ^ x.exponent.toNat * 2 ^ (-((-x.exponent).toNat : Int)) := by
    rw [← zpow_natCast, ← zpow_add₀ two_ne_zero]
    congr 1
    omega
  simp only [Binary64.exactDecimal, value, Binary64.value, Nat.pow_eq, hexponent]
  rw [hten, htwo, zpow_neg 5, zpow_natCast 5]
  push_cast
  field_simp

end Decimal

namespace Binary64

theorem magnitude_of_mem_neighbours {tie : Tie} {x : Binary64} {count : Nat} {d : Decimal}
    (h : d ∈ x.neighbours tie count) : d.magnitude = x.magnitude := by
  unfold neighbours at h
  simpa using (List.mem_filter.mp h).2

/-- What a double is written by rounds to it. -/
theorem magnitude_shortest {x : Binary64} (hfinite : x.isFinite = true) (hzero : x.magnitude ≠ 0)
    (tie : Tie) : (x.shortest tie).magnitude = x.magnitude := by
  unfold shortest
  rw [Decimal.magnitude_congr (Decimal.value_trim _)]
  cases hfound : (List.range 17).findSome? fun i => (x.neighbours tie (i + 1)).head? with
  | none => exact Decimal.magnitude_of_value hfinite hzero (Decimal.value_exactDecimal x)
  | some d =>
    obtain ⟨i, -, hd⟩ := List.exists_of_findSome?_eq_some hfound
    exact magnitude_of_mem_neighbours (List.mem_of_head? hd)

/-- A double is its sign and its magnitude. -/
theorem ofMagnitude_magnitude (x : Binary64) : ofMagnitude x.isNegative x.magnitude = x := by
  have hlt : x.bits.toNat < 2 * signBit := x.bits.toNat_lt
  by_cases hsign : signBit ≤ x.bits.toNat
  · have hmagnitude : signBit + x.magnitude = x.bits.toNat := by
      rw [magnitude, Nat.mod_eq_sub_mod hsign, Nat.mod_eq_of_lt (by omega)]
      omega
    rw [ofMagnitude, isNegative, decide_eq_true hsign, if_pos rfl, hmagnitude,
      UInt64.ofNat_toNat]
  · have hmagnitude : x.magnitude = x.bits.toNat := Nat.mod_eq_of_lt (by omega)
    rw [ofMagnitude, isNegative, decide_eq_false hsign, if_neg Bool.false_ne_true, hmagnitude,
      UInt64.ofNat_toNat]

end Binary64

namespace Numeral

/-! ## Digits -/

theorem digitsValue_toDigits (n : Nat) : digitsValue (Nat.toDigits 10 n) = n :=
  Nat.ofDigitChars_toDigits (by decide) (by decide)

theorem digitsValue_zeros_append (k : Nat) (digits : List Char) :
    digitsValue (List.replicate k '0' ++ digits) = digitsValue digits := by
  induction k with
  | zero => rfl
  | succ k ih => exact ih

theorem digitsValue_append_zeros (digits : List Char) (k : Nat) :
    digitsValue (digits ++ List.replicate k '0') = digitsValue digits * 10 ^ k := by
  induction k with
  | zero => simp
  | succ k ih =>
    rw [List.replicate_succ', ← List.append_assoc, digitsValue, List.foldl_append, ← digitsValue,
      ih]
    simp only [List.foldl_cons, List.foldl_nil, Nat.sub_self, Nat.add_zero]
    ring

theorem allDigits_toDigits (n : Nat) : AllDigits (Nat.toDigits 10 n) :=
  fun _ => Nat.isDigit_of_mem_toDigits (by decide) (by decide)

theorem allDigits_zeros (k : Nat) : AllDigits (List.replicate k '0') := by
  intro c hc
  rw [List.eq_of_mem_replicate hc]
  rfl

theorem AllDigits.append {xs ys : List Char} (hxs : AllDigits xs) (hys : AllDigits ys) :
    AllDigits (xs ++ ys) :=
  fun c hc => (List.mem_append.mp hc).elim (hxs c) (hys c)

/-! ## The point among the digits -/

/-- A text of digits, perhaps with a point behind some of them, that stands for the number that
a decimal stands for. -/
def Writes (text : List Char) (d : Decimal) : Prop :=
  ∃ whole part, whole ≠ [] ∧ IsCoefficient text whole part ∧
    (Decimal.mk (digitsValue (whole ++ part)) (-part.length)).value = d.value

variable {d : Decimal}

theorem digitChars_ne_nil (d : Decimal) : d.digitChars ≠ [] :=
  Nat.toDigits_ne_nil

theorem allDigits_digitChars (d : Decimal) : AllDigits d.digitChars :=
  allDigits_toDigits d.digits

theorem digitsValue_digitChars (d : Decimal) : digitsValue d.digitChars = d.digits :=
  digitsValue_toDigits d.digits

/-- Zeros up to the point, and some behind it. -/
theorem value_zeros (hexponent : 0 ≤ d.exponent) (k : Nat) :
    (Decimal.mk (digitsValue (d.digitChars ++ List.replicate (d.exponent.toNat + k) '0'))
      (-k)).value = d.value := by
  have hpower : (10 : ℚ) ^ d.exponent = 10 ^ d.exponent.toNat := by
    rw [← zpow_natCast, Int.toNat_of_nonneg hexponent]
  rw [digitsValue_append_zeros, digitsValue_digitChars, Decimal.value, Decimal.value, hpower,
    zpow_neg, zpow_natCast, pow_add]
  push_cast
  field_simp

/-- A point among the digits. -/
theorem decimal_point (hexponent : d.exponent < 0) (horder : 0 ≤ d.order) :
    d.digitChars.take (d.order + 1).toNat ≠ [] ∧ d.digitChars.drop (d.order + 1).toNat ≠ [] ∧
      Decimal.mk (digitsValue (d.digitChars.take (d.order + 1).toNat ++
        d.digitChars.drop (d.order + 1).toNat))
          (-(d.digitChars.drop (d.order + 1).toNat).length) = d := by
  have hlength := d.length_digitChars_pos
  have hcut : d.digitChars.length - (d.order + 1).toNat = -d.exponent := by
    unfold Decimal.order at *
    omega
  have hsome : 0 < (d.order + 1).toNat := by omega
  generalize (d.order + 1).toNat = cut at *
  have hpart : -((d.digitChars.drop cut).length : Int) = d.exponent := by
    rw [List.length_drop]
    omega
  refine ⟨?_, ?_, ?_⟩
  · rw [Ne, List.take_eq_nil_iff, ← List.length_eq_zero_iff]
    omega
  · rw [Ne, List.drop_eq_nil_iff]
    omega
  · rw [List.take_append_drop, hpart, digitsValue_digitChars]

/-- Zeros between the point and the digits. -/
theorem decimal_fraction (horder : d.order < 0) :
    Decimal.mk (digitsValue (['0'] ++ (List.replicate (-d.order - 1).toNat '0' ++ d.digitChars)))
      (-(List.replicate (-d.order - 1).toNat '0' ++ d.digitChars).length) = d := by
  have hlength := d.length_digitChars_pos
  generalize hzeros : (-d.order - 1).toNat = zeros
  have hpart : -((List.replicate zeros '0' ++ d.digitChars).length : Int) = d.exponent := by
    unfold Decimal.order at horder hzeros
    rw [List.length_append, List.length_replicate]
    omega
  have hvalue : digitsValue (['0'] ++ (List.replicate zeros '0' ++ d.digitChars)) = d.digits := by
    rw [← List.append_assoc]
    exact (digitsValue_zeros_append (zeros + 1) d.digitChars).trans (digitsValue_digitChars d)
  rw [hvalue, hpart]

theorem writes_zeros (hexponent : 0 ≤ d.exponent) :
    Writes (d.digitChars ++ List.replicate d.exponent.toNat '0') d := by
  have hsome : d.digitChars ++ List.replicate d.exponent.toNat '0' ≠ [] :=
    List.append_ne_nil_of_left_ne_nil (digitChars_ne_nil d) _
  refine ⟨_, [], hsome, .whole hsome ((allDigits_digitChars d).append (allDigits_zeros _)), ?_⟩
  rw [List.append_nil]
  exact value_zeros hexponent 0

theorem writes_point (hexponent : d.exponent < 0) (horder : 0 ≤ d.order) :
    Writes (d.digitChars.take (d.order + 1).toNat ++
      '.' :: d.digitChars.drop (d.order + 1).toNat) d := by
  obtain ⟨hwhole, -, hdecimal⟩ := decimal_point hexponent horder
  have hall := allDigits_digitChars d
  exact ⟨_, _, hwhole, .point (Or.inl hwhole) (fun c hc => hall c (List.mem_of_mem_take hc))
    (fun c hc => hall c (List.mem_of_mem_drop hc)), congrArg Decimal.value hdecimal⟩

theorem writes_fraction (horder : d.order < 0) :
    Writes ('0' :: '.' :: List.replicate (-d.order - 1).toNat '0' ++ d.digitChars) d :=
  ⟨['0'], _, by simp, .point (Or.inl (by simp)) (allDigits_zeros 1)
    ((allDigits_zeros _).append (allDigits_digitChars d)),
    congrArg Decimal.value (decimal_fraction horder)⟩

theorem writes_positionalText (d : Decimal) :
    Writes (NumberLayout.display.positionalText d.digitChars d.exponent d.order) d := by
  unfold NumberLayout.positionalText
  split
  · next hexponent =>
    have hending : NumberLayout.display.wholeEnding = [] := rfl
    rw [hending, List.append_nil]
    exact writes_zeros hexponent
  · next hexponent =>
    split
    · next horder => exact writes_point (not_le.mp hexponent) horder
    · next horder => exact writes_fraction (not_le.mp horder)

/-! ## Reading what is displayed -/

/-- What a number without a minus sign is displayed as: digits, perhaps with a point behind some
of them, that stand for a decimal that rounds to the number. -/
theorem writes_render {x : Binary64} (hfinite : x.isFinite = true)
    (hunsigned : x.isNegative = false) :
    ∃ d, Writes x.render.toList d ∧ d.toBinary64 false = x := by
  have hnan : x.isNaN = false := by
    rw [Binary64.isFinite, decide_eq_true_eq] at hfinite
    exact decide_eq_false (Nat.not_lt.mpr hfinite.le)
  have hbits : Binary64.ofMagnitude false x.magnitude = x := by
    rw [← hunsigned]
    exact x.ofMagnitude_magnitude
  have htext : x.render.toList = if x.magnitude = 0 then ['0'] else
      NumberLayout.display.positionalText (x.shortest .up).digitChars (x.shortest .up).exponent
        (x.shortest .up).order := by
    rw [Binary64.render, hnan, hfinite, if_neg Bool.false_ne_true, if_pos rfl,
      String.toList_ofList, NumberLayout.finiteText, hunsigned]
    rfl
  rw [htext]
  split
  · next hzero =>
    refine ⟨⟨0, 0⟩, ⟨['0'], [], by simp, .whole (by simp) (allDigits_zeros 1), rfl⟩, ?_⟩
    rw [← hbits, hzero]
    rfl
  · next hzero =>
    refine ⟨x.shortest .up, writes_positionalText _, ?_⟩
    rw [Decimal.toBinary64, Binary64.magnitude_shortest hfinite hzero, hbits]

/-- Reading gives back the number that was displayed. -/
theorem isNumeral_render {x : Binary64} (hfinite : x.isFinite = true)
    (hunsigned : x.isNegative = false) : IsNumeral x.render.toList x := by
  obtain ⟨d, ⟨whole, part, -, hcoefficient, hvalue⟩, hread⟩ := writes_render hfinite hunsigned
  have hnumeral := IsNumeral.decimal .absent hcoefficient .absent
  rwa [List.nil_append, List.append_nil, zero_sub, Decimal.toBinary64,
    Decimal.magnitude_congr hvalue, ← Decimal.toBinary64, hread] at hnumeral

/-- A text of digits and points that begins with a digit. -/
theorem Writes.exists_cons {text : List Char} (h : Writes text d) :
    ∃ c rest, text = c :: rest ∧ c.isDigit = true ∧ ∀ e ∈ rest, e.isDigit = true ∨ e = '.' := by
  obtain ⟨whole, part, hwhole, hcoefficient, -⟩ := h
  obtain ⟨c, tail, rfl⟩ := List.exists_cons_of_ne_nil hwhole
  cases hcoefficient with
  | whole _ hdigits =>
    rw [AllDigits, List.forall_mem_cons] at hdigits
    exact ⟨c, tail, rfl, hdigits.1, fun e he => Or.inl (hdigits.2 e he)⟩
  | point _ hdigits hpart =>
    rw [AllDigits, List.forall_mem_cons] at hdigits
    refine ⟨c, tail ++ '.' :: part, rfl, hdigits.1, fun e he => ?_⟩
    rcases List.mem_append.mp he with he | he
    · exact Or.inl (hdigits.2 e he)
    · exact (List.mem_cons.mp he).symm.imp_left (hpart e)

end Numeral

end SchemaLang
