import SchemaLang.Number.Layout

/-!
# JSON

The values of JSON and the two ways of writing them: without any blanks, and over
several lines. Members of an object are written in the order in which they stand.
Whole numbers that are counts are kept apart from measured ones, which are doubles
and always show a fraction or an exponent.
-/

namespace SchemaLang

/-- A JSON value. -/
inductive Json where
  | null
  | boolean (value : Bool)
  | natural (value : Nat)
  | number (value : Binary64)
  | string (value : String)
  | array (elements : List Json)
  | object (members : List (String × Json))
deriving Inhabited, Repr

namespace Json

/-! ## Text and numbers -/

/-- The written form of one character of a text. Only quotes, backslashes and
controls are escaped. -/
def escapeChar (c : Char) : List Char :=
  if c = '\x22' then ['\\', '\x22']
  else if c = '\\' then ['\\', '\\']
  else if c = '\x08' then ['\\', 'b']
  else if c = '\x0c' then ['\\', 'f']
  else if c = '\n' then ['\\', 'n']
  else if c = '\r' then ['\\', 'r']
  else if c = '\t' then ['\\', 't']
  else if c.toNat < 0x20 then
    let digits := Nat.toDigits 16 c.toNat
    ['\\', 'u'] ++ List.replicate (4 - digits.length) '0' ++ digits
  else [c]

/-- A text between quotes. -/
def quote (text : String) : String :=
  String.ofList ('\x22' :: text.toList.flatMap escapeChar ++ ['\x22'])

/-- A measured number. What is not finite has no written form and becomes `null`. -/
def numberText (x : Binary64) : String :=
  if x.isFinite then String.ofList (NumberLayout.json.finiteText x) else "null"

/-- Texts set between brackets and parted by commas. -/
def bracket (opening closing : String) (parts : List String) : String :=
  opening ++ ",".intercalate parts ++ closing

mutual

/-- The value without blanks. -/
def render : Json → String
  | null => "null"
  | boolean true => "true"
  | boolean false => "false"
  | natural n => toString n
  | number x => numberText x
  | string s => quote s
  | array elements => bracket "[" "]" (renderElements elements)
  | object members => bracket "\x7b" "\x7d" (renderMembers members)

/-- Each element without blanks. -/
def renderElements : List Json → List String
  | [] => []
  | value :: rest => render value :: renderElements rest

/-- Each member without blanks. -/
def renderMembers : List (String × Json) → List String
  | [] => []
  | (key, value) :: rest => (quote key ++ ":" ++ render value) :: renderMembers rest

end

/-! ## Over several lines -/

/-- Texts on lines of their own between brackets, indented by a depth. -/
def bracketLines (opening closing : String) (depth : Nat) (parts : List String) : String :=
  if parts.isEmpty then opening ++ closing
  else
    let inner := "\n" ++ "".pushn ' ' (2 * (depth + 1))
    opening ++ inner ++ ("," ++ inner).intercalate parts
      ++ "\n" ++ "".pushn ' ' (2 * depth) ++ closing

mutual

/-- The value over several lines, inside a given depth of brackets. -/
def prettyAt (depth : Nat) : Json → String
  | array elements => bracketLines "[" "]" depth (prettyElements (depth + 1) elements)
  | object members => bracketLines "\x7b" "\x7d" depth (prettyMembers (depth + 1) members)
  | null => "null"
  | boolean b => render (boolean b)
  | natural n => render (natural n)
  | number x => render (number x)
  | string s => quote s

/-- Each element over several lines. -/
def prettyElements (depth : Nat) : List Json → List String
  | [] => []
  | value :: rest => prettyAt depth value :: prettyElements depth rest

/-- Each member over several lines. -/
def prettyMembers (depth : Nat) : List (String × Json) → List String
  | [] => []
  | (key, value) :: rest =>
    (quote key ++ ": " ++ prettyAt depth value) :: prettyMembers depth rest

end

/-- The value over several lines, two blanks a level. -/
def pretty (value : Json) : String :=
  prettyAt 0 value

/-! ## Taking values apart -/

/-- The member of an object under a key. -/
def member? (key : String) : Json → Option Json
  | object members => members.lookup key
  | _ => none

/-- The text of a string. -/
def string? : Json → Option String
  | string s => some s
  | _ => none

/-- A truth value. -/
def boolean? : Json → Option Bool
  | boolean b => some b
  | _ => none

/-- A count of at most 32 bits. -/
def count? : Json → Option Nat
  | natural n => if n < UInt32.size then some n else none
  | _ => none

/-- The elements of an array. -/
def array? : Json → Option (List Json)
  | array elements => some elements
  | _ => none

/-- The value read as an optional one: `null` is absence. -/
def optional? {α : Type} (read : Json → Option α) : Json → Option (Option α)
  | null => some none
  | value => (read value).map some

/-- The members of a record by their keys, absent ones as `none`. A list has to hold at
least a given number of them. -/
def record? (keys : List String) (least : Nat) : Json → Option (List (Option Json))
  | object members => some (keys.map fun key => members.lookup key)
  | array elements =>
    if least ≤ elements.length ∧ elements.length ≤ keys.length then
      some (elements.map some ++ List.replicate (keys.length - elements.length) none)
    else none
  | _ => none

/-- A word that stands for a choice. -/
def choice? : Json → Option String
  | string s => some s
  | object [(key, null)] => some key
  | _ => none

/-- An optional member, read if it is there and not `null`. -/
def maybe? {α : Type} (read : Json → Option α) : Option Json → Option (Option α)
  | none => some none
  | some value => optional? read value

/-- A text or `null`. -/
def ofOption : Option String → Json
  | some s => string s
  | none => null

end Json

end SchemaLang
