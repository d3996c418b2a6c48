/-!
# Double precision numbers

A number is an IEEE 754 double, held as its 64 bits. Its magnitude is the number
`significand * 2 ^ exponent`; magnitudes are ordered as their bits are, and the
bits just past the largest finite one stand for infinity. A quotient of natural
numbers is rounded to the nearest double, a tie to the even one.
-/

namespace SchemaLang

/-- A double, by its bits: the sign, eleven bits of exponent, 52 of fraction. -/
structure Binary64 where
  bits : UInt64
deriving DecidableEq, Repr, Inhabited

namespace Binary64

/-! ## Reading the bits -/

/-- The bit of the sign. -/
def signBit : Nat := 0x8000000000000000

/-- One past the bits of the fraction, which is the bit that leads a significand. -/
def leadingBit : Nat := 0x10000000000000

/-- Whether the sign bit is set. -/
def isNegative (x : Binary64) : Bool :=
  signBit ≤ x.bits.toNat

/-- The bits without the sign. -/
def magnitude (x : Binary64) : Nat :=
  x.bits.toNat % signBit

/-- The magnitude of the infinities; those above it are not numbers. -/
def infiniteMagnitude : Nat := 0x7ff * leadingBit

/-- Whether the bits stand for a number on the real line. -/
def isFinite (x : Binary64) : Bool :=
  x.magnitude < infiniteMagnitude

/-- Whether the bits stand for no number at all. -/
def isNaN (x : Binary64) : Bool :=
  infiniteMagnitude < x.magnitude

/-- The sign and magnitude put together. -/
def ofMagnitude (negative : Bool) (magnitude : Nat) : Binary64 :=
  ⟨UInt64.ofNat (if negative then signBit + magnitude else magnitude)⟩

/-- Infinity of a sign. -/
def infinity (negative : Bool) : Binary64 :=
  ofMagnitude negative infiniteMagnitude

/-- The quiet value of a sign that stands for no number. -/
def nan (negative : Bool) : Binary64 :=
  ofMagnitude negative (infiniteMagnitude + leadingBit / 2)

/-- The whole number that the exponent scales. Numbers of the smallest exponent
have no leading one. -/
def significand (x : Binary64) : Nat :=
  if x.magnitude < leadingBit then x.magnitude else leadingBit + x.magnitude % leadingBit

/-- The power of two that scales the significand. -/
def exponent (x : Binary64) : Int :=
  (max (x.magnitude / leadingBit) 1 : Nat) - 1075

/-- The bits as sixteen hexadecimal digits. -/
def hex (x : Binary64) : String :=
  let digits := String.ofList (Nat.toDigits 16 x.bits.toNat)
  "".pushn '0' (16 - digits.length) ++ digits

/-! ## Rounding -/

/-- The quotient of two natural numbers, rounded to the nearest whole number, a
half to the even one. -/
def roundHalfEven (num den : Nat) : Nat :=
  let q := num / den
  let r := num % den
  if 2 * r < den then q
  else if den < 2 * r then q + 1
  else if q % 2 = 0 then q else q + 1

/-- The numerator and denominator of `num / den * base ^ k`. -/
def scale (base : Nat) (k : Int) (num den : Nat) : Nat × Nat :=
  (num * Nat.pow base k.toNat, den * Nat.pow base (-k).toNat)

/-- The greatest `k` with `2 ^ k ≤ num / den`, for positive `num` and `den`. -/
def floorLog2 (num den : Nat) : Int :=
  let k : Int := (num.log2 : Int) - den.log2
  let (low, high) := scale 2 k den num
  if low ≤ high then k else k - 1

/-- The magnitude nearest to `num / den`. The exponent is the one that leaves 53
bits of significand, unless that is below the smallest. -/
def nearestMagnitude (num den : Nat) : Nat :=
  if num = 0 then 0
  else
    let q := max (floorLog2 num den - 52) (-1074)
    let (n, d) := scale 2 (-q) num den
    min infiniteMagnitude ((q + 1074).toNat * leadingBit + roundHalfEven n d)

end Binary64

end SchemaLang
