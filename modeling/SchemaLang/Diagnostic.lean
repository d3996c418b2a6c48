import SchemaLang.Trace

/-!
# Diagnostics

The reports that scanning, parsing, importing and validating give about a
source: what is wrong, in words, and where.
-/

namespace SchemaLang

namespace Diagnostic

/-- The rule that a source breaks. -/
inductive Code where
  | unterminatedString
  | unexpectedToken
  | invalidLiteral
  | noImporter
  | importNotFound
  | importCycle
  | duplicateDeclaration
  | nameConflict
  | unresolvedType
  | invalidFieldShape
  | duplicateEnumValue
deriving DecidableEq, Repr, Inhabited

/-- The stage that finds a fault. -/
inductive Kind where
  | lexical
  | syntactic
  | importing
  | semantic
deriving DecidableEq, Repr

namespace Code

/-- Every code, in the order of the stages. -/
def all : List Code :=
  [.unterminatedString, .unexpectedToken, .invalidLiteral, .noImporter, .importNotFound,
    .importCycle, .duplicateDeclaration, .nameConflict, .unresolvedType, .invalidFieldShape,
    .duplicateEnumValue]

/-- The name under which a code is written. -/
def name : Code → String
  | unterminatedString => "UnterminatedString"
  | unexpectedToken => "UnexpectedToken"
  | invalidLiteral => "InvalidLiteral"
  | noImporter => "NoImporter"
  | importNotFound => "ImportNotFound"
  | importCycle => "ImportCycle"
  | duplicateDeclaration => "DuplicateDeclaration"
  | nameConflict => "NameConflict"
  | unresolvedType => "UnresolvedType"
  | invalidFieldShape => "InvalidFieldShape"
  | duplicateEnumValue => "DuplicateEnumValue"

/-- The code of a name. -/
def ofName? (text : String) : Option Code :=
  all.find? (·.name = text)

theorem ofName?_name (c : Code) : ofName? c.name = some c := by
  cases c <;> decide

/-- The stage that reports a code. -/
def kind : Code → Kind
  | unterminatedString => .lexical
  | unexpectedToken | invalidLiteral => .syntactic
  | noImporter | importNotFound | importCycle => .importing
  | duplicateDeclaration | nameConflict | unresolvedType | invalidFieldShape
  | duplicateEnumValue => .semantic

end Code

/-- The name under which a stage is written. -/
def Kind.name : Kind → String
  | lexical => "Lexical"
  | syntactic => "Syntax"
  | importing => "Import"
  | semantic => "Semantic"

end Diagnostic

/-- One report about a source. -/
structure Diagnostic where
  code : Diagnostic.Code
  message : String
  line : Nat
  offset : Nat
  path : Option String
deriving DecidableEq, Repr, Inhabited

namespace Diagnostic

/-- A report about what stands at a trace. -/
def ofTrace (code : Code) (message : String) (trace : Trace) : Diagnostic :=
  ⟨code, message, trace.line, trace.offset, trace.path⟩

/-- Where the report points. -/
def trace (d : Diagnostic) : Trace :=
  ⟨d.line, d.offset, d.path⟩

/-- The message and its place, without the path. -/
def summary (d : Diagnostic) : String :=
  s!"{d.message} on line {d.line}:{d.offset}"

/-- The message and its place, led by the path when it is known. -/
def render (d : Diagnostic) : String :=
  match d.path with
  | some path => s!"{path}: {d.summary}"
  | none => d.summary

/-- All summaries, one a line. -/
def summaries (ds : List Diagnostic) : String :=
  "\n".intercalate (ds.map summary)

@[simp] theorem trace_ofTrace (code : Code) (message : String) (t : Trace) :
    (ofTrace code message t).trace = t := rfl

end Diagnostic

end SchemaLang
