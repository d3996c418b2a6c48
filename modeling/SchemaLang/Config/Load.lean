import SchemaLang.Files
import SchemaLang.Yaml.Document

/-!
# Settings in files

Settings are read from a YAML file: the one named on the command line or in the
environment, else the one of the standard name in the working directory, if there is
one. Keys without a meaning are passed over; a key with one may not be repeated.
-/

namespace SchemaLang

/-- Why settings cannot be had from a file. -/
inductive ConfigError where
  | unreadable (path : String) (error : ReadError)
  | malformed (path : String)
deriving DecidableEq, Repr

namespace ConfigError

/-- The words for a fault. -/
def message : ConfigError → String
  | unreadable path _ => s!"Failed to read config {path}"
  | malformed path => s!"Failed to parse config {path}"

/-- The words for a fault and for its cause. -/
def fullMessage (e : ConfigError) : String :=
  match e with
  | unreadable _ cause => e.message ++ ": " ++ cause.message
  | malformed _ => e.message

end ConfigError

namespace Config

/-- The name of the settings file in the working directory. -/
def fileName : String := "mdf.yaml"

/-- The variable of the environment that names a settings file. -/
def variableName : String := "MDF_CONFIG"

/-- The values of the pairs with a key. -/
def valuesOf (key : String) (pairs : List (Yaml × Yaml)) : List Yaml :=
  (pairs.filter fun pair => pair.1.scalar? = some key).map Prod.snd

/-- The setting of a key: its standard when the key is missing. -/
def setting? {α : Type} (key : String) (standard : α) (read : Yaml → Option α)
    (pairs : List (Yaml × Yaml)) : Option α :=
  match valuesOf key pairs with
  | [] => some standard
  | [value] => read value
  | _ => none

/-- A list of texts. -/
def texts? (document : Yaml.Document) (value : Yaml) : Option (List String) := do
  (← document.items? value).mapM Yaml.scalar?

/-- The settings that a document writes. -/
def ofDocument? (document : Yaml.Document) : Option Config := do
  let pairs ← document.pairs? document.root
  let texts? := texts? document
  if pairs.any fun pair => pair.1.scalar?.isNone then none
  else
    some {
      extensions := ← setting? "extensions" standard.extensions texts? pairs
      importPaths := ← setting? "import_paths" standard.importPaths texts? pairs
      suggestions := ← setting? "suggestions" standard.suggestions Yaml.boolean? pairs }

/-- The settings in a file. -/
def load (files : Files) (path : String) : Except ConfigError Config :=
  match files.read path with
  | .error e => .error (.unreadable path e)
  | .ok text =>
    match (Yaml.Document.parse? text).bind ofDocument? with
    | some config => .ok config
    | none => .error (.malformed path)

/-- The settings in the file that the environment names, else in the file of the
standard name, else the standard ones. -/
def fromEnvironment (files : Files) (named : Option String) : Except ConfigError Config :=
  match named with
  | some path => load files path
  | none => if files.isFile fileName then load files fileName else .ok standard

end Config

end SchemaLang
