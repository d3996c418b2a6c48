/-!
# Similarity of names

The Jaro–Winkler similarity of two texts, a number from zero to one. Characters of
the two match when they are equal and not far apart; the similarity grows with the
number of matches, falls with the number of matches out of order, and favours texts
that begin alike.
-/

namespace SchemaLang.Similarity

/-! ## Matching characters -/

/-- Marks the first character of a text that equals a given one, stands at an index
within bounds and is not marked yet. The index is that of the head. -/
def mark? (c : Char) (low high : Nat) (index : Nat) :
    List (Char × Bool) → Option (List (Char × Bool))
  | [] => none
  | (d, marked) :: rest =>
    if !marked && low ≤ index && index ≤ high && d = c then some ((d, true) :: rest)
    else (mark? c low high (index + 1) rest).map ((d, marked) :: ·)

/-- Matches the characters of one text, from an index on, against another. Gives the
ones that match, and the other text with its matches marked. -/
def matchChars (range : Nat) (index : Nat) :
    List Char → List (Char × Bool) → List Char × List (Char × Bool)
  | [], other => ([], other)
  | c :: rest, other =>
    match mark? c (index - range) (index + range) 0 other with
    | some other =>
      let (matched, other) := matchChars range (index + 1) rest other
      (c :: matched, other)
    | none => matchChars range (index + 1) rest other

/-- The number of places at which two lists differ. -/
def differences (xs ys : List Char) : Nat :=
  ((xs.zip ys).filter fun p => p.1 ≠ p.2).length

/-- How far apart matching characters of two texts may be. -/
def range (a b : List Char) : Nat :=
  max a.length b.length / 2 - 1

/-- The length of the longest common beginning. -/
def commonStart : List Char → List Char → Nat
  | a :: as, b :: bs => if a = b then commonStart as bs + 1 else 0
  | _, _ => 0

/-! ## The two measures -/

/-- The similarity by matches and their order. -/
def jaro (a b : List Char) : Float :=
  if a = [] ∧ b = [] then 1.0
  else if a = [] ∨ b = [] then 0.0
  else
    let (left, other) := matchChars (range a b) 0 a (b.map fun c => (c, false))
    let right := (other.filter (·.2)).map (·.1)
    if left = [] then 0.0
    else
      let m := left.length.toFloat
      let t := (differences left right / 2).toFloat
      (m / a.length.toFloat + m / b.length.toFloat + (m - t) / m) / 3.0

/-- The similarity with a bonus for texts that begin alike, given to those that are
similar anyway. -/
def jaroWinkler (a b : String) : Float :=
  let plain := jaro a.toList b.toList
  if 0.7 < plain then
    let start := (min (commonStart a.toList b.toList) 4).toFloat
    plain + 0.1 * start * (1.0 - plain)
  else plain

end SchemaLang.Similarity
