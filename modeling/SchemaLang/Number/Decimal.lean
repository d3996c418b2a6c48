import SchemaLang.Number.Binary64

/-!
# Decimals

A decimal is `digits * 10 ^ exponent`. Rounding sends it to the nearest double;
going back, a double is named by the decimal with the fewest digits that rounds
to it, and of those by the nearest. Two may be equally near; which one is taken then
is a choice of whoever writes the number.
-/

namespace SchemaLang

/-- The choice between two decimals that are equally near. -/
inductive Tie where
  | up
  | toEven
deriving DecidableEq, Repr, Inhabited

namespace Tie

/-- Whether the lower of two neighbours is taken, by its digits. -/
def takesBelow (tie : Tie) (digits : Nat) : Bool :=
  match tie with
  | up => false
  | toEven => digits % 2 = 0

end Tie

/-- The number `digits * 10 ^ exponent`. -/
structure Decimal where
  digits : Nat
  exponent : Int
deriving DecidableEq, Repr, Inhabited

namespace Decimal

/-- The digits of the coefficient, most significant first. -/
def digitChars (d : Decimal) : List Char :=
  Nat.toDigits 10 d.digits

/-- The power of ten of the leading digit. -/
def order (d : Decimal) : Int :=
  d.digitChars.length - 1 + d.exponent

/-- The magnitude of the nearest double. Decimals far outside its range are told
by their order, without working out the power of ten. -/
def magnitude (d : Decimal) : Nat :=
  if d.digits = 0 ∨ d.order < -330 then 0
  else if 310 < d.order then Binary64.infiniteMagnitude
  else
    let (num, den) := Binary64.scale 10 d.exponent d.digits 1
    Binary64.nearestMagnitude num den

/-- The nearest double of a sign. -/
def toBinary64 (d : Decimal) (negative : Bool) : Binary64 :=
  .ofMagnitude negative d.magnitude

/-- The same number without zeros at the end of its digits. -/
def trim (d : Decimal) : Decimal :=
  let zeros := (d.digitChars.reverse.takeWhile (· = '0')).length
  ⟨d.digits / Nat.pow 10 zeros, d.exponent + zeros⟩

end Decimal

namespace Binary64

/-- The magnitude as a quotient of natural numbers. -/
def ratio (x : Binary64) : Nat × Nat :=
  scale 2 x.exponent x.significand 1

/-- The magnitude written out in full. -/
def exactDecimal (x : Binary64) : Decimal :=
  ⟨x.significand * Nat.pow 2 x.exponent.toNat * Nat.pow 5 (-x.exponent).toNat,
    min x.exponent 0⟩

/-- The greatest `k` with `10 ^ k ≤ num / den`, for positive `num` and `den`. -/
def floorLog10 (num den : Nat) : Int :=
  let k : Int := ((Nat.toDigits 10 num).length : Int) - (Nat.toDigits 10 den).length
  let (low, high) := scale 10 k den num
  if low ≤ high then k else k - 1

/-- Of the two decimals of a given number of digits that enclose the magnitude,
the ones that round to it, the nearer one first. -/
def neighbours (tie : Tie) (x : Binary64) (count : Nat) : List Decimal :=
  let (num, den) := x.ratio
  let unit := floorLog10 num den - count + 1
  let (n, d) := scale 10 (-unit) num den
  let below : Decimal := ⟨n / d, unit⟩
  let above : Decimal := ⟨n / d + 1, unit⟩
  let nearerBelow : Bool := 2 * (n % d) < d ∨ (2 * (n % d) = d ∧ tie.takesBelow (n / d))
  let ordered := if nearerBelow then [below, above] else [above, below]
  ordered.filter (·.magnitude = x.magnitude)

/-- The decimal of fewest digits that rounds to the magnitude. Seventeen digits
are enough for every double; the exact decimal closes the search. -/
def shortest (tie : Tie) (x : Binary64) : Decimal :=
  let found := (List.range 17).findSome? fun i => (x.neighbours tie (i + 1)).head?
  (found.getD x.exactDecimal).trim

end Binary64

end SchemaLang
