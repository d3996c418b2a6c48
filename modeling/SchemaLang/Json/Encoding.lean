import SchemaLang.Declaration
import SchemaLang.Diagnostic
import SchemaLang.Json

/-!
# Declarations as JSON

The JSON form of the language's values. What is absent is left out, except for the
path of a trace, which is `null` then. Traces, fields and diagnostics are also read
back. A record may be read from an object, where members without a meaning are
passed over, or from the list of its members in order; a word may be read from a
string or from an object that holds it as its only key.
-/

namespace SchemaLang

/-! ## Writing -/

/-- An optional member of an object. -/
def Json.optionalMember (key : String) (value : Option Json) : List (String × Json) :=
  (value.map fun v => (key, v)).toList

/-- The members of a trace. -/
def Trace.toJson (t : Trace) : Json :=
  .object [("line", .natural t.line), ("offset", .natural t.offset), ("path", .ofOption t.path)]

/-- A diagnostic as an object. -/
def Diagnostic.toJson (d : Diagnostic) : Json :=
  .object [("code", .string d.code.name), ("message", .string d.message),
    ("line", .natural d.line), ("offset", .natural d.offset), ("path", .ofOption d.path)]

/-- A literal as the JSON value of its sort. Numbers that are not finite become `null`. -/
def Value.toJson : Value → Json
  | text s => .string s
  | number x => if x.isFinite then .number x else .null
  | boolean b => .boolean b

/-- The members of a type. -/
def FieldType.members : FieldType → List (String × Json)
  | plain name options =>
    ("name", .string name) :: Json.optionalMember "options" (options.map Value.toJson)
  | parametric name parameter options =>
    ("name", .string name) :: ("parameter", .object parameter.members) ::
      Json.optionalMember "options" (options.map Value.toJson)

/-- A type as an object. -/
def FieldType.toJson (t : FieldType) : Json :=
  .object t.members

/-- A field as an object. -/
def Field.toJson (f : Field) : Json :=
  .object <|
    [("name", .string f.name), ("type", f.type.toJson),
      ("visibility", .string f.visibility.name)] ++
    Json.optionalMember "default" (f.default.map Value.toJson) ++
    [("trace", f.trace.toJson)]

/-- A model as an object; its fields are an object by name. -/
def Model.toJson (m : Model) : Json :=
  .object <|
    [("name", .string m.name)] ++
    Json.optionalMember "table" (m.table.map .string) ++
    [("fields", .object (m.fields.entries.map fun entry => (entry.1, entry.2.toJson))),
      ("trace", m.trace.toJson)]

/-- An enum as an object, without the traces of its values. -/
def Enum.toJson (e : Enum) : Json :=
  .object [("name", .string e.name), ("values", .array (e.values.map .string)),
    ("trace", e.trace.toJson)]

/-- A typedef as an object. -/
def TypeDef.toJson (t : TypeDef) : Json :=
  .object [("name", .string t.name), ("type", t.type.toJson), ("trace", t.trace.toJson)]

/-! ## Reading -/

/-- The trace that a JSON value writes. -/
def Trace.ofJson? (value : Json) : Option Trace := do
  match ← value.record? ["line", "offset", "path"] 3 with
  | [some line, some offset, path] =>
    some ⟨← line.count?, ← offset.count?, ← Json.maybe? Json.string? path⟩
  | _ => none

/-- The diagnostic that a JSON value writes. -/
def Diagnostic.ofJson? (value : Json) : Option Diagnostic := do
  match ← value.record? ["code", "message", "line", "offset", "path"] 5 with
  | [some code, some message, some line, some offset, path] =>
    some ⟨← Code.ofName? (← code.choice?), ← message.string?, ← line.count?, ← offset.count?,
      ← Json.maybe? Json.string? path⟩
  | _ => none

/-- The literal that a JSON value is. Any number counts as a double. -/
def Value.ofJson? : Json → Option Value
  | .string s => some (text s)
  | .natural n => some (number ((Decimal.mk n 0).toBinary64 false))
  | .number x => some (number x)
  | .boolean b => some (boolean b)
  | _ => none

/-- The type that a JSON value writes, to a given depth of parameters. -/
def FieldType.ofJsonWithin? : Nat → Json → Option FieldType
  | 0, _ => none
  | depth + 1, value => do
    match ← value.record? ["name", "parameter", "options"] 1 with
    | [some name, parameter, options] =>
      let name ← name.string?
      let options ← Json.maybe? Value.ofJson? options
      match ← Json.maybe? (ofJsonWithin? depth) parameter with
      | some parameter => some (parametric name parameter options)
      | none => some (plain name options)
    | _ => none

mutual

/-- How deeply arrays and objects are nested in a value. -/
def Json.depth : Json → Nat
  | .array elements => Json.depthElements elements + 1
  | .object members => Json.depthMembers members + 1
  | _ => 0

/-- The depth of the deepest element. -/
def Json.depthElements : List Json → Nat
  | [] => 0
  | value :: rest => max value.depth (Json.depthElements rest)

/-- The depth of the deepest member. -/
def Json.depthMembers : List (String × Json) → Nat
  | [] => 0
  | (_, value) :: rest => max value.depth (Json.depthMembers rest)

end

/-- The type that a JSON value writes. -/
def FieldType.ofJson? (value : Json) : Option FieldType :=
  ofJsonWithin? value.depth value

/-- The field that a JSON value writes. -/
def Field.ofJson? (value : Json) : Option Field := do
  match ← value.record? ["name", "type", "visibility", "default", "trace"] 5 with
  | [some name, some type, some visibility, default, some trace] =>
    some {
      name := ← name.string?
      type := ← FieldType.ofJson? type
      visibility := ← Visibility.ofName? (← visibility.choice?)
      default := ← Json.maybe? Value.ofJson? default
      trace := ← Trace.ofJson? trace }
  | _ => none

end SchemaLang
