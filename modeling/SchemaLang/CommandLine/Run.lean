import SchemaLang.CommandLine
import SchemaLang.CommandLine.Style
import SchemaLang.Config.Load
import SchemaLang.Registry.Build

/-!
# Running a command

What a run prints, given the files it can see. Results go to the standard output.
Diagnostics and the final error go to the standard error output as text, or to the
standard output as JSON.
-/

namespace SchemaLang.CommandLine

open Style (padLeft padRight)

/-- What a run can see besides its arguments: the files, the settings file that the
environment names, and whether styles are shown. -/
structure Surroundings where
  files : Files
  config : Option String
  color : Bool

/-- What a run has printed and, if it failed, why. -/
structure Transcript where
  stdout : String
  stderr : String
  failure : Option String
deriving DecidableEq, Repr

/-- What the caller of a run gets to see. -/
structure Output where
  exitCode : Nat
  stdout : String
  stderr : String
deriving DecidableEq, Repr

/-! ## Printing -/

/-- Every text on a line of its own. -/
def unlines (lines : List String) : String :=
  String.join (lines.map (· ++ "\n"))

/-- A run that prints a result. -/
def printed (text : String) : Transcript := ⟨text, "", none⟩

/-- A run that fails without having printed. -/
def failed (reason : String) : Transcript := ⟨"", "", some reason⟩

/-- A run that prints diagnostics and fails. -/
def reported (s : Surroundings) (format : OutputFormat) (errors : List Diagnostic)
    (reason : String) : Transcript :=
  match format with
  | .json => ⟨(Json.array (errors.map Diagnostic.toJson)).pretty ++ "\n", "", some reason⟩
  | .pretty =>
    let line (d : Diagnostic) := Style.red.paint s.color "✗" ++ " " ++ d.render
    ⟨"", unlines (errors.map line), some reason⟩

/-- The end of a run: the reason of a failure is printed last. -/
def conclude (s : Surroundings) (format : OutputFormat) (t : Transcript) : Output :=
  match t.failure, format with
  | none, _ => ⟨0, t.stdout, t.stderr⟩
  | some reason, .json =>
    ⟨1, t.stdout ++ (Json.object [("error", .string reason)]).render ++ "\n", t.stderr⟩
  | some reason, .pretty =>
    ⟨1, t.stdout, t.stderr ++ Style.boldRed.paint s.color "error" ++ ": " ++ reason ++ "\n"⟩

/-! ## Tokens -/

/-- A token as an object with its keys in order. -/
def tokenJson (t : Token) : Json :=
  .object [("kind", .string t.kind.render), ("lexeme", .string t.lexeme),
    ("line", .natural t.line), ("offset", .natural t.offset)]

/-- The style of a kind of token. -/
def kindStyle : Token.Kind → Style
  | .keyword _ => .magenta
  | .symbol _ => .dimmed
  | .endOfInput => .dimmed
  | _ => .cyan

/-- A token as a line of columns. -/
def tokenLine (color : Bool) (t : Token) : String :=
  padLeft 4 (toString t.line) ++ ":" ++ padRight 4 (toString t.offset) ++ " " ++
    (kindStyle t.kind).paintColumn color 20 t.kind.render ++ " " ++ t.lexeme

/-- Shows the tokens of a file. -/
def runTokens (s : Surroundings) (format : OutputFormat) (file : String) : Transcript :=
  match s.files.read file with
  | .error e => failed s!"Failed to read {file}: {e.message}"
  | .ok text =>
    let scan := Scan.ofText text (some file)
    if scan.ok then
      match format with
      | .json => printed ((Json.array (scan.tokens.map tokenJson)).pretty ++ "\n")
      | .pretty => printed (unlines (scan.tokens.map (tokenLine s.color)))
    else reported s format scan.errors s!"{scan.errors.length} lexical error(s)"

/-! ## Loading -/

/-- Loads files as one batch into a new registry and goes on with it. -/
def withLoaded (s : Surroundings) (format : OutputFormat) (config : Config)
    (files : List String) (next : Registry → Transcript) : Transcript :=
  let (r, result) := (Registry.ofFiles ⟨0⟩ config s.files).loadAllFiles s.files files
  match result with
  | .ok () => next r
  | .error e => reported s format e.diagnostics e.message

/-! ## Checking -/

/-- The numbers of declarations as an object with its keys in order. -/
def summaryJson (r : Registry) : Json :=
  .object [("enums", .natural r.enums.length), ("models", .natural r.models.length),
    ("typedefs", .natural r.typedefs.length), ("valid", .boolean true)]

/-- The numbers of files and declarations, then every declaration. -/
def summaryLines (color : Bool) (count : Nat) (r : Registry) : List String :=
  let total := Style.green.paint color "OK" ++ s!" {count} file(s): {r.models.length} models, " ++
    s!"{r.enums.length} enums, {r.typedefs.length} typedefs"
  total :: r.declarations.map fun d => s!"  {d.kind.name} {d.name} ({d.trace.render})"

/-- Checks files. -/
def runCheck (s : Surroundings) (format : OutputFormat) (config : Config)
    (files : List String) : Transcript :=
  withLoaded s format config files fun r =>
    match format with
    | .json => printed ((summaryJson r).pretty ++ "\n")
    | .pretty => printed (unlines (summaryLines s.color files.length r))

/-! ## Dumping -/

/-- A built field as a line of columns. -/
def fieldLine (color : Bool) (f : BuiltField) : String :=
  let default := match f.default with
    | some value => " = " ++ value.render
    | none => ""
  "  " ++ Style.dimmed.paintColumn color 8 f.visibility.name ++ " " ++
    Style.cyan.paintColumn color 24 f.type.render ++ " " ++ f.name ++ default

/-- A built model, one field a line. -/
def modelLines (color : Bool) (m : BuiltModel) : List String :=
  (Style.bold.paint color "model" ++ " " ++ Style.bold.paint color m.name ++ " -> " ++
    m.table.getD "-") ::
    m.fields.values.map (fieldLine color)

/-- The models to dump: all, or the one of a name. -/
def chosenModels (r : Registry) : Option String → Except String (List Model)
  | none => .ok r.models
  | some name =>
    match r.model? name with
    | some m => .ok [m]
    | none => .error s!"Unknown model `{name}`"

/-- Dumps the models of files. -/
def runDump (s : Surroundings) (format : OutputFormat) (config : Config) (files : List String)
    (model : Option String) : Transcript :=
  withLoaded s format config files fun r =>
    let built : Except String (List BuiltModel) := do
      let models ← chosenModels r model
      (models.mapM fun m : Model => m.build r).mapError RegistryError.message
    match built with
    | .error reason => failed reason
    | .ok models =>
      match format with
      | .json => printed ((Json.array (models.map BuiltModel.toJson)).pretty ++ "\n")
      | .pretty => printed (unlines (models.flatMap (modelLines s.color)))

/-! ## Any command -/

/-- The settings of a run: from the file that an option or the environment names, else
from the standard one. -/
def settings (s : Surroundings) (config : Option String) : Except ConfigError Config :=
  Config.fromEnvironment s.files (config.or s.config)

/-- Loads the settings and goes on with them. -/
def withSettings (s : Surroundings) (i : Invocation) (next : Config → Transcript) :
    Transcript :=
  match settings s i.config with
  | .ok config => next config
  | .error e => failed e.fullMessage

/-- Runs a command. Showing tokens needs no settings. -/
def transcript (s : Surroundings) (i : Invocation) : Transcript :=
  match i.command with
  | .tokens file => runTokens s i.format file
  | .check files => withSettings s i fun config => runCheck s i.format config files
  | .dump files model => withSettings s i fun config => runDump s i.format config files model

/-- Runs the program with its arguments. An empty path in the environment is as wrong as
one among the arguments, unless an argument stands in for it. -/
def run (s : Surroundings) (arguments : List String) : Output :=
  match parse arguments with
  | .error _ => ⟨2, "", usage⟩
  | .ok i =>
    if i.config.or s.config = some "" then ⟨2, "", usage⟩
    else conclude s i.format (transcript s i)

end SchemaLang.CommandLine
