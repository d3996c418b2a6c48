import SchemaLang.Trace
import SchemaLang.Word

/-!
# Tokens

The units of a source text that carry meaning, each with the place of its first
character. Every token stream ends with the token for the end of the input.
-/

namespace SchemaLang

/-- A mark of one character. -/
inductive Symbol where
  | equals
  | braceOpen
  | braceClose
  | lessThan
  | greaterThan
  | parenOpen
  | parenClose
  | semicolon
  | colon
  | comma
deriving DecidableEq, Repr

namespace Symbol

/-- Every mark. -/
def all : List Symbol :=
  [.equals, .braceOpen, .braceClose, .lessThan, .greaterThan, .parenOpen, .parenClose,
    .semicolon, .colon, .comma]

/-- The character of a mark. -/
def char : Symbol → Char
  | equals => '='
  | braceOpen => '\x7b'
  | braceClose => '\x7d'
  | lessThan => '<'
  | greaterThan => '>'
  | parenOpen => '('
  | parenClose => ')'
  | semicolon => ';'
  | colon => ':'
  | comma => ','

/-- The mark that a character is. -/
def ofChar? (c : Char) : Option Symbol :=
  all.find? (·.char = c)

theorem ofChar?_char (s : Symbol) : ofChar? s.char = some s := by
  cases s <;> decide

theorem char_of_ofChar? {c : Char} {s : Symbol} (h : ofChar? c = some s) : s.char = c := by
  have := List.find?_some h
  simpa using this

end Symbol

namespace Token

/-- What a token is. -/
inductive Kind where
  | string
  | number
  | boolean
  | identifier
  | keyword (keyword : Keyword)
  | symbol (symbol : Symbol)
  | endOfInput
deriving DecidableEq, Repr

namespace Kind

/-- How reports name a kind. -/
def render : Kind → String
  | string => "string"
  | number => "number"
  | boolean => "boolean"
  | identifier => "identifier"
  | keyword k => s!"keyword '{k.name}'"
  | symbol s => "'" ++ s.char.toString ++ "'"
  | endOfInput => "end of input"

/-- Every kind. -/
def all : List Kind :=
  [string, number, boolean, identifier, endOfInput] ++ Keyword.all.map keyword ++
    Symbol.all.map symbol

/-- The kind that reports name so. -/
def ofName? (text : String) : Option Kind :=
  all.find? (·.render = text)

/-- The kind of a word: reserved, a truth value, or a name. -/
def ofWord (word : String) : Kind :=
  match Keyword.ofWord? word with
  | some k => keyword k
  | none =>
    let lower := Keyword.lowerCase word
    if lower = "true" ∨ lower = "false" then boolean else identifier

end Kind

end Token

/-- A unit of source text. The lexeme of a string is its content. -/
structure Token where
  kind : Token.Kind
  lexeme : String
  line : Nat
  offset : Nat
deriving DecidableEq, Repr

namespace Token

/-- A token that starts at a position. -/
def ofPosition (kind : Kind) (lexeme : String) (p : Position) : Token :=
  ⟨kind, lexeme, p.line, p.offset⟩

/-- Where the token starts. -/
def position (t : Token) : Position :=
  ⟨t.line, t.offset⟩

/-- Where the token starts in the source of a path. -/
def trace (t : Token) (path : Option String) : Trace :=
  ⟨t.line, t.offset, path⟩

end Token

end SchemaLang
