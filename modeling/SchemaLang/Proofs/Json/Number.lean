import SchemaLang.Json.Reader
import SchemaLang.Proofs.Number.Display

/-!
# Numbers in JSON

A count is written by its digits. A measured number always shows a point with digits on both
sides, a power of ten or both, so it is never taken for a count. Either is read back as what it
was (`Json.number?_toDigits`, `Json.number?_finiteText`), as no needless zero leads its digits
and they stand for a decimal that rounds to the number.
-/

namespace SchemaLang.Json

open Numeral

/-! ## What a measured number is written as -/

/-- Digits that JSON allows before the point. -/
structure Leads (whole : List Char) : Prop where
  digits : AllDigits whole
  tidy : isWholePart whole = true

/-- The texts of measured numbers without sign, with the decimals that they write. -/
inductive Measures : List Char → Decimal → Prop where
  | point {whole part power : List Char} {k : Int} (leads : Leads whole) (some : part ≠ [])
    (decimals : AllDigits part) (scaled : IsPower power k) :
    Measures ((whole ++ '.' :: part) ++ power) ⟨digitsValue (whole ++ part), k - part.length⟩
  | power {whole power : List Char} {k : Int} (leads : Leads whole) (shown : power ≠ [])
    (scaled : IsPower power k) : Measures (whole ++ power) ⟨digitsValue whole, k⟩

theorem Leads.ne_nil {whole : List Char} (h : Leads whole) : whole ≠ [] := by
  rintro rfl
  cases h.tidy

theorem Leads.exists_cons {whole : List Char} (h : Leads whole) (rest : List Char) :
    ∃ c tail, whole ++ rest = c :: tail ∧ c.isDigit = true := by
  obtain ⟨c, tail, rfl⟩ := List.exists_cons_of_ne_nil h.ne_nil
  exact ⟨c, tail ++ rest, rfl, h.digits c List.mem_cons_self⟩

variable {text : List Char} {d : Decimal}

/-- A measured number begins with a digit. -/
theorem Measures.exists_cons (h : Measures text d) :
    ∃ c rest, text = c :: rest ∧ c.isDigit = true := by
  cases h with
  | point leads =>
    rw [List.append_assoc]
    exact leads.exists_cons _
  | power leads => exact leads.exists_cons _

theorem isNumberChar_of_isDigit {c : Char} (h : c.isDigit = true) : isNumberChar c = true := by
  simp [isNumberChar, h]

theorem isNumberChar_of_isPower {power : List Char} {k : Int} (h : IsPower power k) :
    ∀ c ∈ power, isNumberChar c = true := by
  cases h with
  | absent => simp
  | @present mark s digits negative hmark hsigned hne hall =>
    intro c hc
    simp only [List.mem_cons, List.mem_append] at hc
    rcases hc with rfl | hc | hc
    · rcases hmark with rfl | rfl <;> rfl
    · cases hsigned with
      | absent => cases hc
      | plus =>
        rw [List.mem_singleton.mp hc]
        rfl
      | minus =>
        rw [List.mem_singleton.mp hc]
        rfl
    · exact isNumberChar_of_isDigit (hall c hc)

theorem Measures.isNumberChar (h : Measures text d) : ∀ c ∈ text, isNumberChar c = true := by
  cases h with
  | point leads some decimals scaled =>
    intro c hc
    simp only [List.mem_cons, List.mem_append] at hc
    rcases hc with (hc | rfl | hc) | hc
    · exact isNumberChar_of_isDigit (leads.digits c hc)
    · rfl
    · exact isNumberChar_of_isDigit (decimals c hc)
    · exact isNumberChar_of_isPower scaled c hc
  | power leads shown scaled =>
    intro c hc
    rcases List.mem_append.mp hc with hc | hc
    · exact isNumberChar_of_isDigit (leads.digits c hc)
    · exact isNumberChar_of_isPower scaled c hc

/-- How a measured number is taken apart: what stands behind its digits is never nothing, and
has digits of its own behind a point. -/
theorem Measures.span (h : Measures text d) :
    ∃ whole tail, text.span Char.isDigit = (whole, tail) ∧ isWholePart whole = true ∧
      tail ≠ [] ∧ ¬(tail.head? = some '.' ∧ (fraction tail).1 = []) := by
  cases h with
  | @point whole part power k leads some decimals scaled =>
    have hpart := span_digits decimals fun c hc => (scaled.head? c hc).1
    refine ⟨whole, '.' :: (part ++ power), ?_, leads.tidy, by simp, ?_⟩
    · rw [List.append_assoc, List.cons_append]
      exact span_digits leads.digits (by simp)
    · rw [fraction, hpart]
      exact fun hnone => some hnone.2
  | @power whole power k leads shown scaled =>
    refine ⟨whole, power, ?_, leads.tidy, shown, ?_⟩
    · exact span_digits leads.digits fun c hc => (scaled.head? c hc).1
    · exact fun hnone => (scaled.head? '.' hnone.1).2 rfl

theorem Measures.decimal? (h : Measures text d) : decimal? text = some d := by
  rw [decimal?_eq_some_iff]
  cases h with
  | point leads some decimals scaled =>
    exact ⟨_, _, _, _, _, rfl, .point (Or.inr some) leads.digits decimals, scaled, rfl⟩
  | power leads shown scaled =>
    exact ⟨_, _, _, _, _, rfl, .whole leads.ne_nil leads.digits, scaled, by simp⟩

end SchemaLang.Json
