import SchemaLang.Diagnostic
import SchemaLang.Scope

/-!
# Validation

The rules that a schema has to keep beyond its grammar. There are two modes: strict
validation checks all of them; lazy validation leaves out the rules that depend on
what else is declared or was declared before, which are the resolution of type names
and the repetition of declarations.
-/

namespace SchemaLang

/-- How much is checked. -/
inductive ValidationMode where
  | lazy
  | strict
deriving DecidableEq, Repr

/-! ## Shapes of fields -/

/-- What a field of a base type lacks or has too much. -/
inductive ShapeError where
  | stringWithoutLength
  | arrayWithDefault
  | customWithParameter
  | customWithoutType
  | refWithOptions
  | refWithoutModel
deriving DecidableEq, Repr

/-- The words for a fault in the shape of a field. -/
def ShapeError.message (field : String) : ShapeError → String
  | stringWithoutLength => s!"String field `{field}` requires length option"
  | arrayWithDefault => s!"Array field `{field}` cannot have default"
  | customWithParameter => s!"Custom field type `{field}` cannot have type parameter"
  | customWithoutType => s!"Custom field type `{field}` must specify type as option"
  | refWithOptions => s!"Model reference field `{field}` cannot have options"
  | refWithoutModel => s!"Model reference field `{field}` must specify model as type parameter"

/-- The first rule that the shape of a field breaks. Only some base types have rules. -/
def Field.shapeError? (f : Field) : Option ShapeError :=
  if f.type.name = "string" then
    if f.type.options = none then some .stringWithoutLength else none
  else if f.type.name = "array" then
    if f.default ≠ none then some .arrayWithDefault else none
  else if f.type.name = "custom" then
    if f.type.parameter? ≠ none then some .customWithParameter
    else if f.type.options = none then some .customWithoutType
    else none
  else if f.type.name = "ref" then
    if f.type.options ≠ none then some .refWithOptions
    else if f.type.parameter? = none then some .refWithoutModel
    else none
  else none

/-! ## Faults -/

/-- Where a type is used. -/
inductive TypeUse where
  | field (model field : String)
  | typeDef (name : String)
deriving DecidableEq, Repr

/-- The words for a use. -/
def TypeUse.render : TypeUse → String
  | field model name => s!"`{model}` (field `{name}`)"
  | typeDef name => s!"typedef `{name}`"

/-- A broken rule. -/
inductive ValidationError where
  | duplicateDeclaration (kind : DeclarationKind) (name : String)
  | nameConflict (kind : DeclarationKind) (name : String) (other : DeclarationKind)
  | unresolvedType (name : String) (use : TypeUse) (suggestion : Option String)
  | invalidShape (error : ShapeError) (field : String)
  | duplicateValue (value enum : String)
deriving DecidableEq, Repr

namespace ValidationError

/-- The report's code. -/
def code : ValidationError → Diagnostic.Code
  | duplicateDeclaration .. => .duplicateDeclaration
  | nameConflict .. => .nameConflict
  | unresolvedType .. => .unresolvedType
  | invalidShape .. => .invalidFieldShape
  | duplicateValue .. => .duplicateEnumValue

/-- The report's words. -/
def message : ValidationError → String
  | duplicateDeclaration kind name => s!"Duplicate {kind.name} `{name}`"
  | nameConflict kind name other =>
    s!"Name `{name}` of {kind.name} is already declared as a {other.name}"
  | unresolvedType name use suggestion =>
    let unresolved := s!"Unresolved type `{name}` in {use.render}"
    match suggestion with
    | some candidate => unresolved ++ s!", did you mean `{candidate}`?"
    | none => unresolved
  | invalidShape error field => error.message field
  | duplicateValue value enum => s!"Duplicate value `{value}` in enum `{enum}`"

/-- The report on a broken rule. -/
def report (e : ValidationError) (trace : Trace) : Diagnostic :=
  .ofTrace e.code e.message trace

end ValidationError

namespace Declaration

/-- The report that a declaration repeats an earlier one of its kind. -/
def duplicate (d : Declaration) : Diagnostic :=
  (ValidationError.duplicateDeclaration d.kind d.name).report d.trace

/-- The report that the name of a declaration has another kind already. -/
def conflict (d : Declaration) (other : DeclarationKind) : Diagnostic :=
  (ValidationError.nameConflict d.kind d.name other).report d.trace

end Declaration

/-! ## Validators -/

/-- What validation goes by. -/
structure Validator where
  scope : Scope
  mode : ValidationMode
  suggestions : Bool
deriving DecidableEq, Repr

namespace Validator

/-- The reports on the names in a type that are not in scope, outermost first. -/
def unresolvedTypes (v : Validator) (type : FieldType) (use : TypeUse) (trace : Trace) :
    List Diagnostic :=
  match v.mode with
  | .lazy => []
  | .strict =>
    (type.names.filter fun name => !v.scope.resolves name).map fun name =>
      let suggestion := if v.suggestions then v.scope.suggest? name else none
      (ValidationError.unresolvedType name use suggestion).report trace

/-- The report on the shape of a field. -/
def shape (f : Field) : List Diagnostic :=
  f.shapeError?.toList.map fun e => (ValidationError.invalidShape e f.name).report f.trace

/-- The reports on a model: for each field its shape, then its type. -/
def validateModel (v : Validator) (m : Model) : List Diagnostic :=
  m.fields.values.flatMap fun f =>
    shape f ++ v.unresolvedTypes f.type (.field m.name f.name) f.trace

/-- The reports on the values of an enum that occur among those seen before. -/
def repeatedValues (e : Enum) (seen : List String) :
    List (String × Option Trace) → List Diagnostic
  | [] => []
  | (value, trace) :: rest =>
    if value ∈ seen then
      (ValidationError.duplicateValue value e.name).report (trace.getD e.trace) ::
        repeatedValues e seen rest
    else repeatedValues e (value :: seen) rest

/-- The reports on an enum. -/
def validateEnum (e : Enum) : List Diagnostic :=
  repeatedValues e [] e.tracedValues

/-- The reports on a typedef. -/
def validateTypeDef (v : Validator) (t : TypeDef) : List Diagnostic :=
  v.unresolvedTypes t.type (.typeDef t.name) t.trace

/-- The reports on names of a schema that have more than one kind. -/
def conflicts (s : Schema) : List Diagnostic :=
  let ofEnum (e : Enum) : List Diagnostic :=
    if s.models.contains e.name then [(Declaration.enum e).conflict .model] else []
  let ofTypeDef (t : TypeDef) : List Diagnostic :=
    if s.models.contains t.name then [(Declaration.typeDef t).conflict .model]
    else if s.enums.contains t.name then [(Declaration.typeDef t).conflict .enum]
    else []
  s.enums.values.flatMap ofEnum ++ s.typedefs.values.flatMap ofTypeDef

/-- The reports on what a source declares twice. -/
def redeclarations (v : Validator) (s : Schema) : List Diagnostic :=
  match v.mode with
  | .lazy => []
  | .strict => s.redeclared.map fun r =>
      (ValidationError.duplicateDeclaration r.kind r.name).report r.trace

/-- The reports on a schema. -/
def validate (v : Validator) (s : Schema) : List Diagnostic :=
  v.redeclarations s ++ conflicts s ++
    s.enums.values.flatMap validateEnum ++
    s.typedefs.values.flatMap v.validateTypeDef ++
    s.models.values.flatMap v.validateModel

end Validator

end SchemaLang
