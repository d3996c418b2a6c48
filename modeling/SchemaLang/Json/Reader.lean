import SchemaLang.Json
import SchemaLang.Number.Numeral

/-!
# Reading JSON

The value that a text writes, if it is a JSON text. A whole number without sign
that fits 64 bits is a count; every other number is rounded to a double, and a
text whose numbers are too large for that is refused. Of members with equal keys
the last one counts.
-/

namespace SchemaLang.Json

/-! ## Pieces -/

/-- The blanks of JSON. -/
def isBlank (c : Char) : Bool :=
  c = ' ' || c = '\t' || c = '\n' || c = '\r'

/-- The text from its first character that is not blank. -/
def skipBlanks (text : List Char) : List Char :=
  text.dropWhile isBlank

/-- The value of a hexadecimal digit. -/
def hexDigit? (c : Char) : Option Nat :=
  if c.isDigit then some (c.toNat - '0'.toNat)
  else if 'a' ≤ c ∧ c ≤ 'f' then some (c.toNat - 'a'.toNat + 10)
  else if 'A' ≤ c ∧ c ≤ 'F' then some (c.toNat - 'A'.toNat + 10)
  else none

/-- A unit of sixteen bits, written in four hexadecimal digits. -/
def unit? : List Char → Option (Nat × List Char)
  | a :: b :: c :: d :: rest => do
    let a ← hexDigit? a
    let b ← hexDigit? b
    let c ← hexDigit? c
    let d ← hexDigit? d
    some (((a * 16 + b) * 16 + c) * 16 + d, rest)
  | _ => none

/-- The character after `\u`: one unit, or two that are the halves of a pair. -/
def codePoint? (text : List Char) : Option (Char × List Char) := do
  let (high, rest) ← unit? text
  if 0xd800 ≤ high ∧ high < 0xdc00 then
    match rest with
    | '\\' :: 'u' :: rest =>
      let (low, rest) ← unit? rest
      if 0xdc00 ≤ low ∧ low < 0xe000 then
        some (Char.ofNat (0x10000 + (high - 0xd800) * 0x400 + (low - 0xdc00)), rest)
      else none
    | _ => none
  else if 0xdc00 ≤ high ∧ high < 0xe000 then none
  else some (Char.ofNat high, rest)

/-- The character that a backslash and a letter stand for. -/
def shortEscape? (c : Char) : Option Char :=
  if c = '\x22' ∨ c = '\\' ∨ c = '/' then some c
  else if c = 'b' then some '\x08'
  else if c = 'f' then some '\x0c'
  else if c = 'n' then some '\n'
  else if c = 'r' then some '\r'
  else if c = 't' then some '\t'
  else none

/-- The text up to the closing quote, and what follows it. The budget bounds the
number of characters read. -/
def stringBody? (budget : Nat) (text : List Char) (read : List Char) :
    Option (String × List Char) :=
  match budget with
  | 0 => none
  | budget + 1 =>
    match text with
    | [] => none
    | '\x22' :: rest => some (String.ofList read.reverse, rest)
    | '\\' :: 'u' :: rest => do
      let (c, rest) ← codePoint? rest
      stringBody? budget rest (c :: read)
    | '\\' :: c :: rest => do
      let c ← shortEscape? c
      stringBody? budget rest (c :: read)
    | c :: rest =>
      if c = '\\' ∨ c.toNat < 0x20 then none else stringBody? budget rest (c :: read)

/-- Whether a character can belong to a number. -/
def isNumberChar (c : Char) : Bool :=
  c.isDigit || c = '+' || c = '-' || c = '.' || c = 'e' || c = 'E'

/-- Whether digits before the point are written as JSON asks: no needless zero. -/
def isWholePart (digits : List Char) : Bool :=
  match digits with
  | [] => false
  | ['0'] => true
  | c :: _ => c ≠ '0'

/-- The number that a text writes. -/
def number? (text : List Char) : Option Json := do
  let (negative, unsigned) := match text with
    | '-' :: rest => (true, rest)
    | _ => (false, text)
  let (whole, tail) := unsigned.span Char.isDigit
  if !isWholePart whole then none
  else if tail = [] ∧ negative = false ∧ Numeral.digitsValue whole < UInt64.size then
    some (natural (Numeral.digitsValue whole))
  else
    let (part, _) := Numeral.fraction tail
    if tail.head? = some '.' ∧ part = [] then none
    else
      let decimal ← Numeral.decimal? unsigned
      let value := decimal.toBinary64 negative
      if value.isFinite then some (number value) else none

/-- What follows a word, if the text begins with it. -/
def word? (word : String) (text : List Char) : Option (List Char) :=
  if word.toList.isPrefixOf text then some (text.drop word.length) else none

/-! ## Values -/

mutual

/-- The value at the head of a text, and what follows it. -/
def value? (budget : Nat) (text : List Char) : Option (Json × List Char) :=
  match budget with
  | 0 => none
  | budget + 1 =>
    match skipBlanks text with
    | [] => none
    | '\x22' :: rest => (stringBody? (rest.length + 1) rest []).map fun r => (string r.1, r.2)
    | '[' :: rest =>
      match skipBlanks rest with
      | ']' :: rest => some (array [], rest)
      | rest => (elements? budget rest []).map fun r => (array r.1, r.2)
    | '\x7b' :: rest =>
      match skipBlanks rest with
      | '\x7d' :: rest => some (object [], rest)
      | rest => (members? budget rest []).map fun r => (object r.1, r.2)
    | c :: rest =>
      if c = '-' ∨ c.isDigit then
        let (digits, after) := (c :: rest).span isNumberChar
        (number? digits).map fun n => (n, after)
      else if c = 'n' then (word? "null" (c :: rest)).map fun r => (null, r)
      else if c = 't' then (word? "true" (c :: rest)).map fun r => (boolean true, r)
      else if c = 'f' then (word? "false" (c :: rest)).map fun r => (boolean false, r)
      else none

/-- The elements up to the closing bracket, after those already read. -/
def elements? (budget : Nat) (text : List Char) (read : List Json) :
    Option (List Json × List Char) :=
  match budget with
  | 0 => none
  | budget + 1 => do
    let (value, rest) ← value? budget text
    match skipBlanks rest with
    | ',' :: rest => elements? budget rest (value :: read)
    | ']' :: rest => some ((value :: read).reverse, rest)
    | _ => none

/-- The members up to the closing brace, after those already read. -/
def members? (budget : Nat) (text : List Char) (read : List (String × Json)) :
    Option (List (String × Json) × List Char) :=
  match budget with
  | 0 => none
  | budget + 1 =>
    match skipBlanks text with
    | '\x22' :: rest => do
      let (key, rest) ← stringBody? (rest.length + 1) rest []
      match skipBlanks rest with
      | ':' :: rest =>
        let (value, rest) ← value? budget rest
        let read := (key, value) :: read.filter (·.1 ≠ key)
        match skipBlanks rest with
        | ',' :: rest => members? budget rest read
        | '\x7d' :: rest => some (read.reverse, rest)
        | _ => none
      | _ => none
    | _ => none

end

/-- The value of a whole text. Every step of the reader takes a character or goes
one level deeper, so twice the length is budget enough. -/
def parse? (text : String) : Option Json := do
  let chars := text.toList
  let (value, rest) ← value? (2 * chars.length + 2) chars
  if (skipBlanks rest).isEmpty then some value else none

end SchemaLang.Json
