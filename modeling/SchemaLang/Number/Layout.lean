import SchemaLang.Number.Decimal

/-!
# How numbers are written

A finite number is written by the fewest decimal digits that read back as it.
Which powers of ten are written out in full, whether a whole number shows a fraction
and which of two equally near decimals is written is up to a layout; there is one for
display and one for JSON.
-/

namespace SchemaLang

/-- The choices that a written form of numbers makes. -/
structure NumberLayout where
  /-- The powers of ten of the leading digit for which the point is placed among
  the digits; the others show the power as an exponent. -/
  positional : Int → Bool
  /-- Whether a whole number ends in `.0`. -/
  showsFraction : Bool
  /-- The choice between two shortest decimals that are equally near. -/
  tie : Tie

namespace NumberLayout

/-- Display never shows an exponent, nor a fraction that is zero, and takes the upper
of two equally near decimals. -/
def display : NumberLayout := ⟨fun _ => true, false, .up⟩

/-- JSON writes out powers from `-5` to `15`, whole numbers end in `.0`, and of two
equally near decimals the even one is taken. -/
def json : NumberLayout := ⟨fun e => -5 ≤ e && e ≤ 15, true, .toEven⟩

/-- The `.0` of a whole number, where the layout asks for it. -/
def wholeEnding (layout : NumberLayout) : List Char :=
  if layout.showsFraction then ['.', '0'] else []

/-- Digits with the point among them, or with the zeros that lead to it. -/
def positionalText (layout : NumberLayout) (digits : List Char) (exponent order : Int) :
    List Char :=
  if 0 ≤ exponent then
    digits ++ List.replicate exponent.toNat '0' ++ layout.wholeEnding
  else if 0 ≤ order then
    digits.take (order + 1).toNat ++ '.' :: digits.drop (order + 1).toNat
  else
    '0' :: '.' :: List.replicate (-order - 1).toNat '0' ++ digits

/-- One digit before the point, the others behind it, and the power of ten. -/
def exponentText (digits : List Char) (order : Int) : List Char :=
  let power := Nat.toDigits 10 order.natAbs
  let mark := if order < 0 then ['e', '-'] else ['e', '+']
  match digits with
  | [] => []
  | [d] => d :: mark ++ power
  | d :: rest => d :: '.' :: rest ++ mark ++ power

/-- The digits of a positive decimal. -/
def decimalText (layout : NumberLayout) (d : Decimal) : List Char :=
  if layout.positional d.order then
    layout.positionalText d.digitChars d.exponent d.order
  else exponentText d.digitChars d.order

/-- The written form of a finite number. -/
def finiteText (layout : NumberLayout) (x : Binary64) : List Char :=
  let unsigned :=
    if x.magnitude = 0 then '0' :: layout.wholeEnding
    else layout.decimalText (x.shortest layout.tie)
  if x.isNegative then '-' :: unsigned else unsigned

end NumberLayout

namespace Binary64

/-- How a number is displayed. -/
def render (x : Binary64) : String :=
  if x.isNaN then "NaN"
  else if x.isFinite then String.ofList (NumberLayout.display.finiteText x)
  else if x.isNegative then "-inf"
  else "inf"

end Binary64

end SchemaLang
