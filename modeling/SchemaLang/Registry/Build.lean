import SchemaLang.Json.Encoding
import SchemaLang.Registry

/-!
# Built models

A built model has the types of its fields resolved against a registry: a bare name of
a typedef is replaced by the typedef's type, again and again, and the name it ends
with is a model, an enum or neither. An alias that leads back to itself ends at the
first name that comes up a second time.
-/

namespace SchemaLang

/-- What the type of a field means in a registry. -/
inductive ResolvedType where
  | type (type : FieldType)
  | reference (model field : String)
  | enumeration (name : String) (values : List String)
deriving DecidableEq, Repr

/-- A field with its type resolved. -/
structure BuiltField where
  name : String
  visibility : Visibility
  type : ResolvedType
  default : Option Value
  trace : Trace
deriving DecidableEq, Repr

/-- A model with its types resolved. -/
structure BuiltModel where
  name : String
  table : Option String
  trace : Trace
  fields : OrderedMap BuiltField
deriving DecidableEq

namespace Registry

/-! ## Resolving types -/

/-- What a type that is no alias means: a model, else an enum, else itself. -/
def classify (r : Registry) (field : String) (type : FieldType) : ResolvedType :=
  if r.tables.models.contains type.name then .reference type.name field
  else
    match r.enum? type.name with
    | some e => .enumeration type.name e.values
    | none => .type type

/-- The typedef that a bare type names. -/
def alias? (r : Registry) (type : FieldType) : Option TypeDef :=
  if type.isBare then r.typeDef? type.name else none

/-- The names of typedefs that have not been followed. -/
def unfollowed (r : Registry) (seen : List String) : List String :=
  r.tables.typedefs.keys.filter (· ∉ seen)

theorem mem_keys_of_alias {r : Registry} {type : FieldType} {d : TypeDef}
    (h : r.alias? type = some d) : type.name ∈ r.tables.typedefs.keys := by
  unfold alias? at h
  split at h
  · unfold typeDef? at h
    obtain ⟨e, he, -⟩ := Option.map_eq_some_iff.1 h
    exact OrderedMap.mem_keys_of_find? he
  · cases h

theorem length_unfollowed_lt {r : Registry} {type : FieldType} {d : TypeDef}
    {seen : List String} (h : r.alias? type = some d) (hs : type.name ∉ seen) :
    (r.unfollowed (type.name :: seen)).length < (r.unfollowed seen).length := by
  have hsub : r.unfollowed (type.name :: seen) =
      (r.unfollowed seen).filter (· ≠ type.name) := by
    simp only [unfollowed, List.filter_filter, List.mem_cons, not_or]
    congr 1
    funext q
    by_cases hq : q = type.name <;> simp [hq]
  rw [hsub]
  apply List.length_filter_lt_length_iff_exists.2
  refine ⟨type.name, ?_, by simp⟩
  simp only [unfollowed, List.mem_filter]
  exact ⟨mem_keys_of_alias h, by simpa using hs⟩

/-- What a type means, given the names of the typedefs already followed. -/
def resolveFrom (r : Registry) (field : String) (seen : List String) (type : FieldType) :
    ResolvedType :=
  match _h : r.alias? type with
  | none => r.classify field type
  | some d =>
    if _hs : type.name ∈ seen then .type type
    else r.resolveFrom field (type.name :: seen) d.type
termination_by (r.unfollowed seen).length
decreasing_by exact length_unfollowed_lt _h _hs

/-- What the type of a field means. -/
def resolve (r : Registry) (field : String) (type : FieldType) : ResolvedType :=
  r.resolveFrom field [] type

end Registry

/-! ## Building -/

/-- The field with its type resolved. A reference carries the key of the field. -/
def Field.build (f : Field) (key : String) (r : Registry) : BuiltField :=
  ⟨f.name, f.visibility, r.resolve key f.type, f.default, f.trace⟩

/-- The model with the types of its fields resolved. It has to belong to the registry. -/
def Model.build (m : Model) (r : Registry) : Except RegistryError BuiltModel :=
  match m.registry with
  | none => .error (.unbound m.name)
  | some id =>
    if id = r.id then
      .ok ⟨m.name, m.table, m.trace, m.fields.mapValues fun key f => f.build key r⟩
    else .error (.foreignRegistry m.name)

/-! ## Written forms -/

/-- A resolved type as it is displayed. -/
def ResolvedType.render : ResolvedType → String
  | type t => t.render
  | reference model _ => s!"ref<{model}>"
  | enumeration _ values => "enum(" ++ "|".intercalate values ++ ")"

/-- A resolved type as an object that tells its sort. -/
def ResolvedType.toJson : ResolvedType → Json
  | type t => .object (("kind", .string "type") :: t.members)
  | reference model field =>
    .object [("kind", .string "reference"), ("model", .string model), ("field", .string field)]
  | enumeration name values =>
    .object [("kind", .string "enumeration"), ("name", .string name),
      ("values", .array (values.map .string))]

/-- A built field as an object. -/
def BuiltField.toJson (f : BuiltField) : Json :=
  .object <|
    [("name", .string f.name), ("visibility", .string f.visibility.name),
      ("type", f.type.toJson)] ++
    Json.optionalMember "default" (f.default.map Value.toJson) ++
    [("trace", f.trace.toJson)]

/-- A built model as an object; a missing table is `null`. -/
def BuiltModel.toJson (m : BuiltModel) : Json :=
  .object [("name", .string m.name), ("table", .ofOption m.table), ("trace", m.trace.toJson),
    ("fields", .object (m.fields.entries.map fun entry => (entry.1, entry.2.toJson)))]

end SchemaLang
