import SchemaLang.Number.Layout
import SchemaLang.Text.Quoted
import SchemaLang.Trace
import SchemaLang.Word

/-!
# Fields

The fields of a model: a visibility, a type, a name and perhaps a default. A type
is a name that may take one type as parameter and one value as options, so a type
is a chain of names from the outermost to the innermost parameter.
-/

namespace SchemaLang

/-- A literal: text, a number or a truth value. -/
inductive Value where
  | text (text : String)
  | number (number : Binary64)
  | boolean (boolean : Bool)
deriving DecidableEq, Repr

namespace Value

/-- A literal as it is displayed, text without quotes. -/
def render : Value → String
  | text s => s
  | number x => x.render
  | boolean true => "true"
  | boolean false => "false"

/-- A literal as the default of a field, text between quotes. -/
def renderQuoted : Value → String
  | text s => Text.quote s
  | value => value.render

/-- The content of a text. -/
def text? : Value → Option String
  | text s => some s
  | _ => none

/-- The number that the literal is. -/
def number? : Value → Option Binary64
  | number x => some x
  | _ => none

/-- The truth value that the literal is. -/
def boolean? : Value → Option Bool
  | boolean b => some b
  | _ => none

end Value

/-- A type: `name(options)` or `name<parameter>(options)`, the options optional. -/
inductive FieldType where
  | plain (name : String) (options : Option Value)
  | parametric (name : String) (parameter : FieldType) (options : Option Value)
deriving DecidableEq, Repr

namespace FieldType

/-- A type that is a name and nothing more. -/
def named (name : String) : FieldType := plain name none

/-- The outermost name. -/
def name : FieldType → String
  | plain name _ => name
  | parametric name _ _ => name

/-- The options of the outermost name. -/
def options : FieldType → Option Value
  | plain _ options => options
  | parametric _ _ options => options

/-- The type parameter of the outermost name. -/
def parameter? : FieldType → Option FieldType
  | plain _ _ => none
  | parametric _ parameter _ => some parameter

/-- The names at every depth, outermost first. -/
def names : FieldType → List String
  | plain name _ => [name]
  | parametric name parameter _ => name :: parameter.names

/-- Whether the outermost name is that of a base type. -/
def isBase (t : FieldType) : Bool :=
  isBaseType t.name

/-- Whether the type is a name and nothing more. -/
def isBare (t : FieldType) : Bool :=
  t.parameter?.isNone && t.options.isNone

/-- Options between parentheses. -/
def renderOptions : Option Value → String
  | some options => "(" ++ options.render ++ ")"
  | none => ""

/-- A type as it is written in a source. -/
def render : FieldType → String
  | plain name options => name ++ renderOptions options
  | parametric name parameter options =>
    name ++ "<" ++ parameter.render ++ ">" ++ renderOptions options

theorem isBare_iff (t : FieldType) : t.isBare = true ↔ t = named t.name := by
  cases t with
  | plain n o => cases o <;> simp [isBare, parameter?, options, named, name]
  | parametric n p o => simp [isBare, parameter?, named]

theorem name_mem_names (t : FieldType) : t.name ∈ t.names := by
  cases t <;> simp [name, names]

end FieldType

/-- A field of a model. -/
structure Field where
  name : String
  type : FieldType
  visibility : Visibility
  default : Option Value
  trace : Trace
deriving DecidableEq, Repr

namespace Field

/-- A field as it is written in a source, without the final semicolon. -/
def render (f : Field) : String :=
  let declared := s!"{f.visibility.name} {f.type.render} {f.name}"
  match f.default with
  | some value => declared ++ " = " ++ value.renderQuoted
  | none => declared

end Field

end SchemaLang
