import SchemaLang.Field
import SchemaLang.OrderedMap

/-!
# Declarations

Models, enums and typedefs. They are the three namespaces of the language: every
declaration has a name, a kind and the trace of the word that opens it.
-/

namespace SchemaLang

/-! ## Enums -/

/-- A list of named values. Each value may have a trace of its own; the lists are
matched by position, and values beyond the last trace have none. -/
structure Enum where
  name : String
  values : List String
  valueTraces : List Trace
  trace : Trace
deriving DecidableEq, Repr

namespace Enum

/-- Values matched with traces by position. -/
def matchTraces : List String → List Trace → List (String × Option Trace)
  | [], _ => []
  | value :: values, [] => (value, none) :: matchTraces values []
  | value :: values, trace :: traces => (value, some trace) :: matchTraces values traces

/-- Each value with its trace. -/
def tracedValues (e : Enum) : List (String × Option Trace) :=
  matchTraces e.values e.valueTraces

/-- Whether the enum lists a value. -/
def hasValue (e : Enum) (value : String) : Bool :=
  e.values.contains value

/-- The trace of the first occurrence of a value. -/
def valueTrace? (e : Enum) (value : String) : Option Trace :=
  (e.tracedValues.lookup value).join

/-- An enum as it is displayed. -/
def render (e : Enum) : String :=
  "enum(" ++ e.name ++ ") \x7b " ++ ", ".intercalate e.values ++ " \x7d"

end Enum

/-! ## Typedefs -/

/-- A second name for a type. -/
structure TypeDef where
  name : String
  type : FieldType
  trace : Trace
deriving DecidableEq, Repr

/-- A typedef as it is displayed. -/
def TypeDef.render (t : TypeDef) : String :=
  s!"typedef({t.name}) -> {t.type.render}"

/-! ## Models -/

/-- What tells one registry from another. -/
structure RegistryId where
  number : Nat
deriving DecidableEq, Repr

/-- A named list of fields, perhaps with a table that stores it. A model belongs to
the registry that has taken it in. -/
structure Model where
  name : String
  table : Option String
  fields : OrderedMap Field
  trace : Trace
  registry : Option RegistryId
deriving DecidableEq

namespace Model

/-- A model without fields that belongs to no registry. -/
def new (name : String) (table : Option String) (trace : Trace) : Model :=
  ⟨name, table, .empty, trace, none⟩

/-- The model with a field more. A field of the same name is replaced in place. -/
def insertField (m : Model) (f : Field) : Model :=
  { m with fields := m.fields.insert f.name f }

/-- The field of a name. -/
def field? (m : Model) (name : String) : Option Field :=
  m.fields.find? name

/-- Whether the model belongs to a registry. -/
def isBound (m : Model) : Bool :=
  m.registry.isSome

/-- The model as property of a registry. -/
def bind (m : Model) (id : RegistryId) : Model :=
  { m with registry := some id }

/-- A model as it is displayed, one field a line. -/
def render (m : Model) : String :=
  let table := match m.table with
    | some table => " -> " ++ table
    | none => ""
  s!"model({m.name})" ++ table ++ String.join (m.fields.values.map fun f => "\n" ++ f.render)

end Model

/-! ## Declarations of any kind -/

/-- A declaration of one of the three kinds. -/
inductive Declaration where
  | model (model : Model)
  | enum (enum : Enum)
  | typeDef (typeDef : TypeDef)
deriving DecidableEq

namespace Declaration

/-- The kind of a declaration. -/
def kind : Declaration → DeclarationKind
  | model _ => .model
  | enum _ => .enum
  | typeDef _ => .typeDef

/-- The declared name. -/
def name : Declaration → String
  | model m => m.name
  | enum e => e.name
  | typeDef t => t.name

/-- The trace of the word that opens a declaration. -/
def trace : Declaration → Trace
  | model m => m.trace
  | enum e => e.trace
  | typeDef t => t.trace

/-- A declaration as it is displayed. -/
def render : Declaration → String
  | model m => m.render
  | enum e => e.render
  | typeDef t => t.render

end Declaration

end SchemaLang
