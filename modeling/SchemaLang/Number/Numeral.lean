import SchemaLang.Number.Decimal

/-!
# Numerals

The texts that stand for numbers. A numeral is digits with at most one point
somewhere among them, an optional sign before and an optional power of ten after;
infinity and the value that is no number are written as words in any letter case.
-/

namespace SchemaLang.Numeral

/-- The number that a list of decimal digits writes. -/
def digitsValue (digits : List Char) : Nat :=
  digits.foldl (fun n c => 10 * n + (c.toNat - '0'.toNat)) 0

/-- A sign, if there is one, and what follows it. -/
def sign : List Char → Bool × List Char
  | '-' :: rest => (true, rest)
  | '+' :: rest => (false, rest)
  | text => (false, text)

/-- The value of a text that holds digits only, and at least one. -/
def digits? (text : List Char) : Option Nat :=
  if text ≠ [] ∧ text.all Char.isDigit then some (digitsValue text) else none

/-- The power of ten after the digits: nothing, or `e` and a whole number. -/
def power? : List Char → Option Int
  | [] => some 0
  | c :: rest =>
    if c = 'e' ∨ c = 'E' then
      let (negative, text) := sign rest
      (digits? text).map fun n => if negative then -(n : Int) else n
    else none

/-- The digits after the point, if there is a point, and what follows them. -/
def fraction : List Char → List Char × List Char
  | '.' :: rest => rest.span Char.isDigit
  | text => ([], text)

/-- The decimal that a numeral without sign writes. -/
def decimal? (text : List Char) : Option Decimal :=
  let (whole, rest) := text.span Char.isDigit
  let (part, rest) := fraction rest
  if whole = [] ∧ part = [] then none
  else (power? rest).map fun k => ⟨digitsValue (whole ++ part), k - part.length⟩

/-- The number that a text writes, if it is a numeral. -/
def read? (text : String) : Option Binary64 :=
  let (negative, unsigned) := sign text.toList
  let word := String.ofList (unsigned.map Char.toLower)
  if word = "inf" ∨ word = "infinity" then some (.infinity negative)
  else if word = "nan" then some (.nan negative)
  else (decimal? unsigned).map (·.toBinary64 negative)

end SchemaLang.Numeral
