import SchemaLang.Importer
import SchemaLang.Schema

/-!
# Reading a source

A source is read by going through its outline: declarations are added one by one,
and an import adds the whole schema of the imported source, which is read in the
same way. The first fault stops the reading, wherever it is; what was complete
before it is kept, but nothing of an import that fails.
-/

namespace SchemaLang

/-- Why an import fails. -/
inductive ImportError where
  | noImporter
  | notFound (file : String)
  | cycle (chain : List String)
deriving DecidableEq, Repr

namespace ImportError

/-- The report's code. -/
def code : ImportError → Diagnostic.Code
  | noImporter => .noImporter
  | notFound _ => .importNotFound
  | cycle _ => .importCycle

/-- The report's words. -/
def message : ImportError → String
  | noImporter => "import failed, no importer set"
  | notFound file => s!"import failed, cannot find path '{file}'"
  | cycle chain => "import cycle detected: " ++ " -> ".intercalate chain

/-- The report on an import at the token of its path. -/
def report (e : ImportError) (file : Token) (path : Option String) : Diagnostic :=
  .ofTrace e.code e.message (file.trace path)

end ImportError

/-- What has been read of a source so far: its schema, and the kinds and names that the
source itself has declared. -/
structure Draft where
  schema : Schema
  declared : List (DeclarationKind × String)
deriving DecidableEq

namespace Draft

/-- The draft before the first item. -/
def empty : Draft := ⟨.empty, []⟩

/-- The draft with one of the source's own declarations more. -/
def declare (draft : Draft) (d : Declaration) : Draft :=
  let key := (d.kind, d.name)
  let schema :=
    if key ∈ draft.declared then
      { draft.schema with
        redeclared := draft.schema.redeclared ++ [⟨d.kind, d.name, d.trace⟩] }
    else draft.schema
  ⟨schema.insert d, key :: draft.declared⟩

/-- The draft with the schema of an imported source more. -/
def addImport (draft : Draft) (s : Schema) : Draft :=
  { draft with schema := draft.schema.merge s }

end Draft

namespace Schema

/-- The source that an import names, unless it is being read already. -/
def findImport (importer : Option Importer) (chain : List String) (path : Option String)
    (file : String) : Except ImportError ImportedSource :=
  match importer with
  | none => .error .noImporter
  | some finder =>
    match finder.resolve path file with
    | none => .error (.notFound file)
    | some source =>
      let underway := chain ++ path.toList
      if source.path ∈ underway then .error (.cycle (underway ++ [source.path]))
      else .ok source

theorem findImport_ok {importer : Option Importer} {chain : List String}
    {path : Option String} {file : String} {source : ImportedSource}
    (h : findImport importer chain path file = .ok source) :
    (importer.getD .none).resolve path file = some source ∧
      source.path ∉ chain ++ path.toList := by
  cases importer with
  | none => cases h
  | some finder =>
    simp only [findImport] at h
    split at h
    · cases h
    · next found heq =>
      split at h
      · cases h
      · next hfresh =>
        cases h
        exact ⟨heq, hfresh⟩

/-- Reads the items of a source on top of a draft. Gives the draft that results and the
faults that stopped the reading; at the end of the items these are the faults that
end the source. -/
def readItems (importer : Option Importer) (chain : List String) (path : Option String)
    (ending : List Diagnostic) (draft : Draft) (items : List Item) :
    Draft × List Diagnostic :=
  match items with
  | [] => (draft, ending)
  | .declaration d :: rest => readItems importer chain path ending (draft.declare d) rest
  | .importFile file :: rest =>
    match _hsource : findImport importer chain path file.lexeme with
    | .error e => (draft, [e.report file path])
    | .ok source =>
      let outline := source.outline
      let inner := readItems importer (chain ++ path.toList) (some source.path)
        outline.errors .empty outline.items
      if inner.2 = [] then
        readItems importer chain path ending (draft.addImport inner.1.schema) rest
      else (draft, inner.2)
termination_by (importer.getD .none).ends.wrap ⟨chain, path, items⟩
decreasing_by
  · exact .next _ _ _ _
  · exact .enter _ _ _ _ _ (findImport_ok _hsource).1 (findImport_ok _hsource).2
  · exact .next _ _ _ _

/-- Reads an outline: what it amounts to, and the faults. -/
def readOutline (importer : Option Importer) (path : Option String) (outline : Outline) :
    Schema × List Diagnostic :=
  let (draft, errors) := readItems importer [] path outline.errors .empty outline.items
  (draft.schema, errors)

/-- Reads a token list as the source of a path. -/
def readTokens (importer : Option Importer) (path : Option String) (tokens : List Token) :
    Schema × List Diagnostic :=
  readOutline importer path (.ofStream path (.ofTokens tokens))

/-- The schema of a source text, or the faults that stopped its reading. -/
def ofText (importer : Option Importer) (path : Option String) (text : String) :
    Except (List Diagnostic) Schema :=
  let (schema, errors) := readOutline importer path (.ofText path text)
  if errors = [] then .ok schema else .error errors

end Schema

end SchemaLang
