import SchemaLang.Declaration
import SchemaLang.Diagnostic
import SchemaLang.Token.Scan

/-!
# Outlines

What a source says before any import is followed: its declarations and import
directives in textual order, up to the first fault. Reading stops at a fault, so
there is at most one of syntax, and the items before it are complete.
-/

namespace SchemaLang

/-- A top-level construct. An import is held by the token of its path. -/
inductive Item where
  | declaration (declaration : Declaration)
  | importFile (file : Token)
deriving DecidableEq

/-- The items of a source and the faults that end it. -/
structure Outline where
  items : List Item
  errors : List Diagnostic
deriving DecidableEq

/-! ## Faults of syntax -/

/-- What the grammar asks for where a source has something else. -/
inductive SyntaxError where
  | expectedToken (kind : Token.Kind)
  | expectedValue
  | expectedDeclaration
  | invalidNumber (lexeme : String)
deriving DecidableEq, Repr

namespace SyntaxError

/-- The report's code. -/
def code : SyntaxError → Diagnostic.Code
  | invalidNumber _ => .invalidLiteral
  | _ => .unexpectedToken

/-- The report's words, given what was found. -/
def message (found : Token.Kind) : SyntaxError → String
  | expectedToken kind => s!"expected {kind.render}, got {found.render}"
  | expectedValue => s!"expected value, got {found.render}"
  | expectedDeclaration =>
    s!"expected keyword 'model', 'enum', 'typedef' or 'import', got {found.render}"
  | invalidNumber lexeme => s!"invalid number literal '{lexeme}'"

end SyntaxError

/-- A fault together with the tokens from the offending one on. None are left when
the input ends too early. -/
structure SyntaxFailure where
  error : SyntaxError
  rest : List Token
deriving DecidableEq, Repr

/-! ## Token streams -/

/-- Tokens without the one that ends them, and where that one stands. -/
structure TokenStream where
  tokens : List Token
  finish : Position
deriving DecidableEq, Repr

namespace TokenStream

/-- The tokens before the first end of input. Without such a token, the input ends
where its last token starts. -/
def ofTokens (tokens : List Token) : TokenStream :=
  { tokens := tokens.takeWhile (·.kind ≠ .endOfInput)
    finish :=
      match tokens.find? (·.kind = .endOfInput) with
      | some t => t.position
      | none => (tokens.getLast?.map Token.position).getD .start }

end TokenStream

namespace SyntaxFailure

/-- The kind of the offending token. -/
def found (f : SyntaxFailure) : Token.Kind :=
  (f.rest.head?.map Token.kind).getD .endOfInput

/-- Where the offending token stands, given where the input ends. -/
def position (f : SyntaxFailure) (finish : Position) : Position :=
  (f.rest.head?.map Token.position).getD finish

/-- The report on a fault in the source of a path. -/
def report (f : SyntaxFailure) (path : Option String) (finish : Position) : Diagnostic :=
  .ofTrace f.error.code (f.error.message f.found) (.ofPosition (f.position finish) path)

end SyntaxFailure

end SchemaLang
