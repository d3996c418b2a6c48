import SchemaLang.Json
import SchemaLang.Path

/-!
# Configuration

What a registry can be told: the extensions of definition files, the directories in
which imports are looked for, and whether validation suggests names.
-/

namespace SchemaLang

/-- The settings of a registry. -/
structure Config where
  extensions : List String
  importPaths : List String
  suggestions : Bool
deriving DecidableEq, Repr

namespace Config

/-- The settings that hold when nothing else is said. -/
def standard : Config := ⟨["mdl"], [], true⟩

instance : Inhabited Config := ⟨standard⟩

/-- Whether a path has one of the extensions, which may be set with leading dots. -/
def matchesExtension (config : Config) (path : String) : Bool :=
  match Path.extension? path with
  | some extension => config.extensions.any fun e =>
      e.toList.dropWhile (· = '.') = extension.toList
  | none => false

/-- The settings as an object. -/
def toJson (config : Config) : Json :=
  .object [("extensions", .array (config.extensions.map .string)),
    ("import_paths", .array (config.importPaths.map .string)),
    ("suggestions", .boolean config.suggestions)]

/-- The settings that a JSON value writes. What is left out keeps its standard. -/
def ofJson? (value : Json) : Option Config := do
  match ← value.record? ["extensions", "import_paths", "suggestions"] 0 with
  | [extensions, importPaths, suggestions] =>
    let texts (value : Json) : Option (List String) := do
      (← value.array?).mapM Json.string?
    some {
      extensions := ← extensions.elim (some standard.extensions) texts
      importPaths := ← importPaths.elim (some standard.importPaths) texts
      suggestions := ← suggestions.elim (some standard.suggestions) Json.boolean? }
  | _ => none

end Config

end SchemaLang
