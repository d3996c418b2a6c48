import Mathlib.Data.List.TakeDrop
import Mathlib.Data.List.TakeWhile
import SchemaLang.Number.Numeral

/-!
# The grammar of numerals

The texts that stand for numbers, told by productions and not by how they are read:

```text
numeral     := sign ('inf' | 'infinity' | 'nan' | coefficient power)
coefficient := digit+ | digit+ '.' digit* | digit* '.' digit+
power       := (('e' | 'E') sign digit+)?
sign        := ('+' | '-')?
```

Reading a text finds exactly the number that the productions give it
(`read?_eq_some_iff`). Of the texts that begin with a digit and hold nothing but digits
and points, the numerals are those with at most one point (`isNumeral_iff_count_point`).
-/

namespace SchemaLang.Numeral

/-! ## The productions -/

/-- A sign or none, and whether it is a minus. -/
inductive IsSign : List Char → Bool → Prop where
  | absent : IsSign [] false
  | plus : IsSign ['+'] false
  | minus : IsSign ['-'] true

/-- Digits and nothing else, perhaps none at all. -/
def AllDigits (text : List Char) : Prop :=
  ∀ c ∈ text, c.isDigit = true

/-- Digits with at most one point among them: those before it and those behind it. -/
inductive IsCoefficient : List Char → List Char → List Char → Prop where
  | whole {whole : List Char} (some : whole ≠ []) (digits : AllDigits whole) :
    IsCoefficient whole whole []
  | point {whole part : List Char} (some : whole ≠ [] ∨ part ≠ []) (digits : AllDigits whole)
    (decimals : AllDigits part) : IsCoefficient (whole ++ '.' :: part) whole part

/-- A power of ten, zero when it is not written. -/
inductive IsPower : List Char → Int → Prop where
  | absent : IsPower [] 0
  | present {mark : Char} {sign digits : List Char} {negative : Bool}
    (marked : mark = 'e' ∨ mark = 'E') (signed : IsSign sign negative) (some : digits ≠ [])
    (all : AllDigits digits) :
    IsPower (mark :: (sign ++ digits))
      (if negative then -(digitsValue digits : Int) else digitsValue digits)

/-- A text and the number it stands for. Words are spelled in any letter case. -/
inductive IsNumeral : List Char → Binary64 → Prop where
  | infinity {sign word : List Char} {negative : Bool} (signed : IsSign sign negative)
    (spelled : String.ofList (word.map Char.toLower) = "inf" ∨
      String.ofList (word.map Char.toLower) = "infinity") :
    IsNumeral (sign ++ word) (.infinity negative)
  | nan {sign word : List Char} {negative : Bool} (signed : IsSign sign negative)
    (spelled : String.ofList (word.map Char.toLower) = "nan") :
    IsNumeral (sign ++ word) (.nan negative)
  | decimal {sign coefficient whole part power : List Char} {negative : Bool} {k : Int}
    (signed : IsSign sign negative) (digits : IsCoefficient coefficient whole part)
    (scaled : IsPower power k) :
    IsNumeral (sign ++ (coefficient ++ power))
      ((Decimal.mk (digitsValue (whole ++ part)) (k - part.length)).toBinary64 negative)

/-! ## Signs and runs of digits -/

theorem sign_spec (text : List Char) :
    ∃ s, text = s ++ (sign text).2 ∧ IsSign s (sign text).1 := by
  fun_cases sign text with
  | case1 rest => exact ⟨['-'], rfl, .minus⟩
  | case2 rest => exact ⟨['+'], rfl, .plus⟩
  | case3 => exact ⟨[], rfl, .absent⟩

/-- A sign is told from what follows it, unless that looks like a sign itself. -/
theorem sign_append {s text : List Char} {negative : Bool} (hs : IsSign s negative)
    (htext : ∀ c ∈ text.head?, c ≠ '-' ∧ c ≠ '+') : sign (s ++ text) = (negative, text) := by
  cases hs with
  | plus => rfl
  | minus => rfl
  | absent =>
    cases text with
    | nil => rfl
    | cons c rest =>
      obtain ⟨hminus, hplus⟩ := htext c rfl
      rw [List.nil_append, sign.eq_3]
      · intro tail h
        exact hminus (List.cons.inj h).1
      · intro tail h
        exact hplus (List.cons.inj h).1

theorem not_sign_of_isDigit {c : Char} (h : c.isDigit = true) : c ≠ '-' ∧ c ≠ '+' := by
  constructor <;>
    · rintro rfl
      cases h

theorem allDigits_takeWhile (text : List Char) : AllDigits (text.takeWhile Char.isDigit) := by
  intro c hc
  exact List.mem_takeWhile_imp hc

/-- A run of characters of a class ends at the first character outside of it. -/
theorem span_append {p : Char → Bool} {run rest : List Char} (hrun : ∀ c ∈ run, p c = true)
    (hrest : ∀ c ∈ rest.head?, p c = false) : (run ++ rest).span p = (run, rest) := by
  have hstop : rest.takeWhile p = [] ∧ rest.dropWhile p = rest := by
    cases rest with
    | nil => exact ⟨rfl, rfl⟩
    | cons c tail => simp [hrest c rfl]
  rw [List.span_eq_takeWhile_dropWhile, List.takeWhile_append_of_pos hrun,
    List.dropWhile_append_of_pos hrun, hstop.1, hstop.2, List.append_nil]

/-- Digits are read up to the first character that is none. -/
theorem span_digits {digits rest : List Char} (hdigits : AllDigits digits)
    (hrest : ∀ c ∈ rest.head?, c.isDigit = false) :
    (digits ++ rest).span Char.isDigit = (digits, rest) :=
  span_append hdigits hrest

theorem digits?_eq_some_iff {text : List Char} {n : Nat} :
    digits? text = some n ↔ (text ≠ [] ∧ AllDigits text) ∧ digitsValue text = n := by
  simp [digits?, AllDigits]

/-! ## Powers and coefficients -/

theorem power?_eq_some_iff {text : List Char} {k : Int} :
    power? text = some k ↔ IsPower text k := by
  constructor
  · intro h
    fun_cases power? text with
    | case1 =>
      cases h
      exact .absent
    | case2 c rest hmark negative tail hsign =>
      simp only [power?, if_pos hmark, hsign] at h
      obtain ⟨i, hi, rfl⟩ := Option.map_eq_some_iff.mp h
      obtain ⟨n, hn, hcast⟩ := Option.bind_eq_some_iff.mp hi
      cases hcast
      obtain ⟨⟨hne, hall⟩, rfl⟩ := digits?_eq_some_iff.mp hn
      obtain ⟨s, hs, hsigned⟩ := sign_spec rest
      rw [hsign] at hs hsigned
      rw [hs]
      exact .present hmark hsigned hne hall
    | case3 c rest hmark =>
      simp only [power?, if_neg hmark] at h
      cases h
  · intro h
    cases h with
    | absent => rfl
    | @present mark s digits negative hmark hsigned hne hall =>
      have hhead : ∀ c ∈ digits.head?, c ≠ '-' ∧ c ≠ '+' := by
        intro c hc
        exact not_sign_of_isDigit (hall c (List.mem_of_mem_head? hc))
      have hdigits : digits? digits = some (digitsValue digits) :=
        digits?_eq_some_iff.mpr ⟨⟨hne, hall⟩, rfl⟩
      simp only [power?, if_pos hmark, sign_append hsigned hhead, hdigits]
      rfl

/-- A power begins with neither a digit nor a point, so it ends the coefficient. -/
theorem IsPower.head? {power : List Char} {k : Int} (h : IsPower power k) :
    ∀ c ∈ power.head?, c.isDigit = false ∧ c ≠ '.' := by
  cases h with
  | absent => simp
  | present hmark =>
    intro c hc
    cases hc
    rcases hmark with rfl | rfl <;> decide

theorem fraction_cases (text : List Char) :
    (∃ tail, text = '.' :: tail ∧
      fraction text = (tail.takeWhile Char.isDigit, tail.dropWhile Char.isDigit)) ∨
    fraction text = ([], text) := by
  fun_cases fraction text with
  | case1 tail => exact Or.inl ⟨tail, rfl, List.span_eq_takeWhile_dropWhile _ tail⟩
  | case2 => exact Or.inr rfl

theorem fraction_of_head? {text : List Char} (h : ∀ c ∈ text.head?, c ≠ '.') :
    fraction text = ([], text) := by
  rcases fraction_cases text with ⟨tail, rfl, -⟩ | hnone
  · exact absurd rfl (h '.' rfl)
  · exact hnone

theorem decimal?_eq_some_iff {text : List Char} {d : Decimal} :
    decimal? text = some d ↔
      ∃ coefficient power whole part k, text = coefficient ++ power ∧
        IsCoefficient coefficient whole part ∧ IsPower power k ∧
        d = ⟨digitsValue (whole ++ part), k - part.length⟩ := by
  constructor
  · intro h
    have hsplit := List.takeWhile_append_dropWhile (p := Char.isDigit) (l := text)
    have hwhole := allDigits_takeWhile text
    rw [decimal?, List.span_eq_takeWhile_dropWhile] at h
    generalize text.takeWhile Char.isDigit = whole at h hsplit hwhole
    generalize text.dropWhile Char.isDigit = rest at h hsplit
    subst hsplit
    dsimp only at h
    rcases fraction_cases rest with ⟨tail, rfl, hpart⟩ | hnone
    · rw [hpart] at h
      dsimp only at h
      split at h
      · cases h
      · next hne =>
        obtain ⟨k, hk, rfl⟩ := Option.map_eq_some_iff.mp h
        refine ⟨whole ++ '.' :: tail.takeWhile Char.isDigit, tail.dropWhile Char.isDigit,
          whole, _, k, ?_, .point ?_ hwhole (allDigits_takeWhile tail),
          power?_eq_some_iff.mp hk, rfl⟩
        · simp [List.takeWhile_append_dropWhile]
        · rwa [← not_and_or]
    · rw [hnone] at h
      dsimp only at h
      split at h
      · cases h
      · next hne =>
        obtain ⟨k, hk, rfl⟩ := Option.map_eq_some_iff.mp h
        have hsome : whole ≠ [] := fun hnil => hne ⟨hnil, rfl⟩
        exact ⟨whole, rest, whole, [], k, rfl, .whole hsome hwhole,
          power?_eq_some_iff.mp hk, rfl⟩
  · rintro ⟨coefficient, power, whole, part, k, rfl, hcoefficient, hpower, rfl⟩
    have hread : power? power = some k := power?_eq_some_iff.mpr hpower
    have hstop := hpower.head?
    cases hcoefficient with
    | whole hne hwhole =>
      rw [decimal?, span_digits hwhole fun c hc => (hstop c hc).1]
      simp [fraction_of_head? fun c hc => (hstop c hc).2, hne, hread]
    | point hne hwhole hpart =>
      have hpoint : ∀ c ∈ ('.' :: (part ++ power)).head?, c.isDigit = false := by
        intro c hc
        cases hc
        decide
      rw [List.append_assoc, List.cons_append, decimal?, span_digits hwhole hpoint]
      simp only [fraction, span_digits hpart fun c hc => (hstop c hc).1, hread]
      rw [if_neg (not_and_or.mpr hne)]
      rfl

/-! ## Numerals -/

theorem toLower_of_isDigit {c : Char} (h : c.isDigit = true) : c.toLower = c := by
  have hupper : ¬ (c.val ≥ 'A'.val ∧ c.val ≤ 'Z'.val) := by
    simp only [Char.isDigit, Bool.and_eq_true, decide_eq_true_eq, ge_iff_le,
      UInt32.le_iff_toNat_le] at h ⊢
    change 48 ≤ c.val.toNat ∧ c.val.toNat ≤ 57 at h
    change ¬ (65 ≤ c.val.toNat ∧ c.val.toNat ≤ 90)
    omega
  exact dif_neg hupper

theorem toLower_head_of_spelled {word : List Char} {name : String} {c first : Char}
    (h : String.ofList (word.map Char.toLower) = name) (hc : c ∈ word.head?)
    (hname : name.toList.head? = some first) : c.toLower = first := by
  rw [← h, String.toList_ofList, List.head?_map, hc] at hname
  exact Option.some.inj hname

/-- A word for what is not finite begins with a letter. -/
theorem head?_ne_of_spelled {word : List Char}
    (h : String.ofList (word.map Char.toLower) = "inf" ∨
      String.ofList (word.map Char.toLower) = "infinity" ∨
      String.ofList (word.map Char.toLower) = "nan") :
    ∀ c ∈ word.head?, c ≠ '-' ∧ c ≠ '+' ∧ c ≠ '.' ∧ c.isDigit = false := by
  intro c hc
  have hlower : c.toLower = 'i' ∨ c.toLower = 'n' := by
    rcases h with h | h | h
    · exact Or.inl (toLower_head_of_spelled h hc rfl)
    · exact Or.inl (toLower_head_of_spelled h hc rfl)
    · exact Or.inr (toLower_head_of_spelled h hc rfl)
  refine ⟨?_, ?_, ?_, ?_⟩
  · rintro rfl
    revert hlower
    decide
  · rintro rfl
    revert hlower
    decide
  · rintro rfl
    revert hlower
    decide
  · by_contra hdigit
    rw [Bool.not_eq_false] at hdigit
    rw [toLower_of_isDigit hdigit] at hlower
    rcases hlower with rfl | rfl <;> cases hdigit

theorem IsCoefficient.head? {coefficient whole part : List Char}
    (h : IsCoefficient coefficient whole part) (rest : List Char) :
    ∃ c, (coefficient ++ rest).head? = some c ∧ (c.isDigit = true ∨ c = '.') := by
  cases h with
  | whole hne hdigits =>
    obtain ⟨c, tail, rfl⟩ := List.exists_cons_of_ne_nil hne
    exact ⟨c, rfl, Or.inl (hdigits c List.mem_cons_self)⟩
  | point _ hdigits =>
    cases whole with
    | nil => exact ⟨'.', rfl, Or.inr rfl⟩
    | cons c tail => exact ⟨c, rfl, Or.inl (hdigits c List.mem_cons_self)⟩

/-- Reading finds the number that a text stands for, if it is a numeral. -/
theorem read?_eq_some_iff {text : String} {x : Binary64} :
    read? text = some x ↔ IsNumeral text.toList x := by
  constructor
  · intro h
    obtain ⟨s, hs, hsigned⟩ := sign_spec text.toList
    rw [hs]
    simp only [read?] at h
    split at h
    · next hword =>
      cases h
      exact .infinity hsigned hword
    · split at h
      · next hword =>
        cases h
        exact .nan hsigned hword
      · obtain ⟨d, hd, rfl⟩ := Option.map_eq_some_iff.mp h
        obtain ⟨coefficient, power, whole, part, k, hunsigned, hcoefficient, hpower, rfl⟩ :=
          decimal?_eq_some_iff.mp hd
        rw [hunsigned]
        exact .decimal hsigned hcoefficient hpower
  · intro h
    rw [read?]
    generalize text.toList = chars at h
    cases h with
    | infinity hsigned hword =>
      have hhead := head?_ne_of_spelled (hword.imp_right Or.inl)
      rw [sign_append hsigned fun c hc => ⟨(hhead c hc).1, (hhead c hc).2.1⟩]
      exact if_pos hword
    | nan hsigned hword =>
      have hhead := head?_ne_of_spelled (Or.inr (Or.inr hword))
      rw [sign_append hsigned fun c hc => ⟨(hhead c hc).1, (hhead c hc).2.1⟩]
      simp [hword]
    | @decimal s coefficient whole part power negative k hsigned hcoefficient hpower =>
      obtain ⟨first, hfirst, hsort⟩ := hcoefficient.head? power
      have hmark : first ≠ '-' ∧ first ≠ '+' := by
        rcases hsort with hdigit | rfl
        · exact not_sign_of_isDigit hdigit
        · decide
      -- what begins with a digit or a point spells no word
      have hword : ¬ (String.ofList ((coefficient ++ power).map Char.toLower) = "inf" ∨
          String.ofList ((coefficient ++ power).map Char.toLower) = "infinity" ∨
          String.ofList ((coefficient ++ power).map Char.toLower) = "nan") := by
        intro hspelled
        obtain ⟨-, -, hpoint, hdigit⟩ := head?_ne_of_spelled hspelled first hfirst
        rcases hsort with hsort | hsort
        · rw [hsort] at hdigit
          cases hdigit
        · exact hpoint hsort
      have hdecimal := decimal?_eq_some_iff.mpr
        ⟨coefficient, power, whole, part, k, rfl, hcoefficient, hpower, rfl⟩
      have hhead : ∀ c ∈ (coefficient ++ power).head?, c ≠ '-' ∧ c ≠ '+' := by
        intro c hc
        rw [hfirst] at hc
        cases hc
        exact hmark
      obtain ⟨hinf, hinfinity, hnan⟩ := by simpa only [not_or] using hword
      rw [sign_append hsigned hhead]
      simp only [hinf, hinfinity, hnan, or_self, if_false, hdecimal, Option.map_some]

/-! ## Digits and points -/

theorem count_point_of_allDigits {text : List Char} (h : AllDigits text) :
    text.count '.' = 0 := by
  rw [List.count_eq_zero]
  intro hmem
  cases h '.' hmem

theorem IsCoefficient.count_point_le {coefficient whole part : List Char}
    (h : IsCoefficient coefficient whole part) : coefficient.count '.' ≤ 1 := by
  cases h with
  | whole _ hwhole => simp [count_point_of_allDigits hwhole]
  | point _ hwhole hpart =>
    simp [List.count_append, count_point_of_allDigits hwhole, count_point_of_allDigits hpart]

/-- What begins with a digit has no sign. -/
theorem IsSign.eq_nil {s text rest : List Char} {negative : Bool} {c : Char}
    (h : IsSign s negative) (htext : s ++ text = c :: rest) (hc : c.isDigit = true) : s = [] := by
  obtain ⟨hminus, hplus⟩ := not_sign_of_isDigit hc
  cases h with
  | absent => rfl
  | plus => exact absurd (List.cons.inj htext).1.symm hplus
  | minus => exact absurd (List.cons.inj htext).1.symm hminus

/-- What begins with a digit is no word for what is not finite. -/
theorem IsSign.not_spelled {s word rest : List Char} {negative : Bool} {c : Char}
    (h : IsSign s negative) (htext : s ++ word = c :: rest) (hc : c.isDigit = true) :
    ¬ (String.ofList (word.map Char.toLower) = "inf" ∨
      String.ofList (word.map Char.toLower) = "infinity" ∨
      String.ofList (word.map Char.toLower) = "nan") := by
  intro hspelled
  obtain rfl := h.eq_nil htext hc
  rw [List.nil_append] at htext
  have hdigit := (head?_ne_of_spelled hspelled c (by rw [htext]; rfl)).2.2.2
  rw [hc] at hdigit
  cases hdigit

theorem IsPower.eq_nil {power : List Char} {k : Int} (h : IsPower power k)
    (hchars : ∀ d ∈ power, d.isDigit = true ∨ d = '.') : power = [] := by
  cases h with
  | absent => rfl
  | present hmark =>
    exfalso
    rcases hmark with rfl | rfl
    · exact absurd (hchars 'e' List.mem_cons_self) (by decide)
    · exact absurd (hchars 'E' List.mem_cons_self) (by decide)

/-- Of the texts of digits and points that begin with a digit, the numerals are those
with one point at most. -/
theorem isNumeral_iff_count_point {c : Char} {rest : List Char} (hc : c.isDigit = true)
    (hrest : ∀ d ∈ rest, d.isDigit = true ∨ d = '.') :
    (∃ x, IsNumeral (c :: rest) x) ↔ (c :: rest).count '.' ≤ 1 := by
  have hchars : ∀ d ∈ c :: rest, d.isDigit = true ∨ d = '.' :=
    List.forall_mem_cons.mpr ⟨Or.inl hc, hrest⟩
  constructor
  · rintro ⟨x, hx⟩
    generalize htext : c :: rest = text at hx hchars
    cases hx with
    | infinity hsigned hword =>
      exact absurd (hword.imp_right Or.inl) (hsigned.not_spelled htext.symm hc)
    | nan hsigned hword =>
      exact absurd (Or.inr (Or.inr hword)) (hsigned.not_spelled htext.symm hc)
    | decimal hsigned hcoefficient hpower =>
      obtain rfl := hsigned.eq_nil htext.symm hc
      obtain rfl := hpower.eq_nil fun d hd => hchars d (by simp [hd])
      rw [List.nil_append, List.append_nil]
      exact hcoefficient.count_point_le
  · intro hcount
    have hsplit := List.takeWhile_append_dropWhile (p := Char.isDigit) (l := c :: rest)
    have hwhole := allDigits_takeWhile (c :: rest)
    have hne : (c :: rest).takeWhile Char.isDigit ≠ [] := by simp [hc]
    generalize (c :: rest).takeWhile Char.isDigit = whole at hsplit hwhole hne
    cases htail : (c :: rest).dropWhile Char.isDigit with
    | nil =>
      rw [htail, List.append_nil] at hsplit
      subst hsplit
      exact ⟨_, by simpa using IsNumeral.decimal .absent (.whole hne hwhole) .absent⟩
    | cons d part =>
      have hd : d.isDigit = false := by
        have := List.head?_dropWhile_not Char.isDigit (c :: rest)
        simpa [htail] using this
      rw [htail] at hsplit
      rw [← hsplit] at hchars hcount
      -- the first character that is no digit is a point, and it is the only one
      obtain rfl : d = '.' := by
        have := hchars d (by simp)
        simpa [hd] using this
      have hpart : AllDigits part := by
        intro e he
        rcases hchars e (by simp [he]) with hdigit | rfl
        · exact hdigit
        · have hpos := List.count_pos_iff.mpr he
          simp only [List.count_append, List.count_cons_self] at hcount
          omega
      have hcoefficient := IsCoefficient.point (Or.inl hne) hwhole hpart
      rw [← hsplit]
      exact ⟨_, by simpa using IsNumeral.decimal .absent hcoefficient .absent⟩

end SchemaLang.Numeral
