/-!
# The command line

What a run is asked to do: to show the tokens of a file, to check files as one batch,
or to dump the models of files with their types resolved. Options may stand anywhere;
those for the format and the settings belong to every command.
-/

namespace SchemaLang

/-- How results are printed. -/
inductive OutputFormat where
  | json
  | pretty
deriving DecidableEq, Repr

/-- What is to be done. -/
inductive Command where
  | tokens (file : String)
  | check (files : List String)
  | dump (files : List String) (model : Option String)
deriving DecidableEq, Repr

/-- A command with the options that belong to every command. -/
structure Invocation where
  command : Command
  format : OutputFormat
  config : Option String
deriving DecidableEq, Repr

namespace CommandLine

/-! ## Options -/

/-- The options that take a value. -/
inductive OptionName where
  | format
  | config
  | model
deriving DecidableEq, Repr

/-- An argument: an option, perhaps with its value attached, the mark that ends the
options, or anything else. -/
inductive Argument where
  | option (name : OptionName) (value : Option String)
  | endOfOptions
  | unknownOption (text : String)
  | positional (text : String)
deriving DecidableEq, Repr

/-- The option of a long name. -/
def longName? (name : String) : Option OptionName :=
  [("format", .format), ("config", .config), ("model", .model)].lookup name

/-- The option of a letter. -/
def letter? (letter : Char) : Option OptionName :=
  [('o', .format), ('c', .config), ('m', .model)].lookup letter

/-- What an argument is by its form. -/
def classify (text : String) : Argument :=
  match text.toList with
  | ['-', '-'] => .endOfOptions
  | '-' :: '-' :: rest =>
    let name := rest.takeWhile (· ≠ '=')
    let value := match rest.dropWhile (· ≠ '=') with
      | _ :: value => some (String.ofList value)
      | [] => none
    match longName? (String.ofList name) with
    | some name => .option name value
    | none => .unknownOption text
  | '-' :: letter :: rest =>
    match letter? letter with
    | some name =>
      let value := match rest with
        | [] => none
        | '=' :: value => some (String.ofList value)
        | value => some (String.ofList value)
      .option name value
    | none => .unknownOption text
  | _ => .positional text

/-! ## Reading arguments -/

/-- What is wrong with the arguments of a run. -/
inductive UsageError where
  | unknownArgument (text : String)
  | missingValue (option : OptionName)
  | invalidValue (text : String)
  | repeatedOption (option : OptionName)
  | missingCommand
  | missingFile
deriving DecidableEq, Repr

/-- The options and other arguments read so far. -/
structure Arguments where
  options : List (OptionName × String)
  positionals : List String
deriving DecidableEq, Repr

/-- The formats by their names. -/
def format? (name : String) : Option OutputFormat :=
  [("json", .json), ("pretty", .pretty)].lookup name

/-- Whether an option can have a value: a format has to be known, and a path must not be
empty. -/
def admits (name : OptionName) (value : String) : Bool :=
  match name with
  | .format => (format? value).isSome
  | .config => value ≠ ""
  | .model => true

/-- The arguments with an option more. -/
def Arguments.store (read : Arguments) (name : OptionName) (value : String) :
    Except UsageError Arguments :=
  if (read.options.lookup name).isSome then .error (.repeatedOption name)
  else if admits name value then .ok { read with options := read.options ++ [(name, value)] }
  else .error (.invalidValue value)

/-- Sorts arguments into options and others. A value may stand in an argument of its own
unless it looks like an option. With `leading` the first positional ends the reading;
what follows it is given back. -/
def sort (leading : Bool) (read : Arguments) :
    List String → Except UsageError (Arguments × List String)
  | [] => .ok (read, [])
  | text :: rest =>
    match classify text with
    | .unknownOption text => .error (.unknownArgument text)
    | .endOfOptions =>
      if leading then .error (.unknownArgument text)
      else .ok ({ read with positionals := read.positionals ++ rest }, [])
    | .positional text =>
      if leading then .ok ({ read with positionals := [text] }, rest)
      else sort leading { read with positionals := read.positionals ++ [text] } rest
    | .option name (some value) =>
      match read.store name value with
      | .ok read => sort leading read rest
      | .error e => .error e
    | .option name none =>
      match rest with
      | [] => .error (.missingValue name)
      | value :: rest =>
        if value.toList.head? = some '-' ∧ value ≠ "-" then .error (.missingValue name)
        else
          match read.store name value with
          | .ok read => sort leading read rest
          | .error e => .error e

/-- The command of a word with the files and the model that go with it. -/
def command? (word : String) (files : List String) (model : Option String) :
    Except UsageError Command :=
  match word, files, model with
  | "tokens", [], _ => .error .missingFile
  | "tokens", [file], none => .ok (.tokens file)
  | "tokens", _ :: extra :: _, none => .error (.unknownArgument extra)
  | "check", [], _ => .error .missingFile
  | "check", files, none => .ok (.check files)
  | "dump", [], _ => .error .missingFile
  | "dump", files, model => .ok (.dump files model)
  | _, _, _ => .error (.unknownArgument word)

/-- The invocation that the arguments of a run write. The command is the first argument
that is no option; an option behind it counts before the same one in front of it. -/
def parse (arguments : List String) : Except UsageError Invocation := do
  let (front, rest) ← sort true ⟨[], []⟩ arguments
  let (back, _) ← sort false ⟨[], []⟩ rest
  match front.positionals with
  | [] => .error .missingCommand
  | word :: _ =>
    if (front.options.lookup .model).isSome then .error (.unknownArgument "model")
    else do
      let option (name : OptionName) :=
        (back.options.lookup name).or (front.options.lookup name)
      let command ← command? word back.positionals (option .model)
      let format := (option .format).bind format?
      if "" ∈ back.positionals then .error (.invalidValue "")
      else .ok ⟨command, format.getD .pretty, option .config⟩

/-- How the program is to be called. -/
def usage : String :=
  "usage: [--format json|pretty] [--config FILE] COMMAND\n" ++
  "  tokens FILE                  print the token stream of a file\n" ++
  "  check FILE...                load files as one batch and report diagnostics\n" ++
  "  dump FILE... [--model NAME]  load files and print the resolved models\n"

end CommandLine

end SchemaLang
