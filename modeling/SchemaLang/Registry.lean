import SchemaLang.Config
import SchemaLang.Schema.Read
import SchemaLang.Validation

/-!
# Registries

A registry takes in sources and holds their declarations. Every load is all or
nothing. Several sources can be loaded as one batch, in which each may use the names
of all the others: a lazy pass first registers every name of the batch, then a strict
pass reads the sources again and confirms them.
-/

namespace SchemaLang

/-! ## Tables -/

/-- A registered declaration: whether it only announces a name so far, and the number
of the load that registered it. -/
structure Entry (α : Type) where
  declaration : α
  lazy : Bool
  batch : Nat
deriving DecidableEq

/-- The same registration of a declaration of any kind. -/
def Entry.map {α β : Type} (f : α → β) (e : Entry α) : Entry β :=
  ⟨f e.declaration, e.lazy, e.batch⟩

/-- The registered declarations of the three kinds. -/
structure Tables where
  models : OrderedMap (Entry Model)
  enums : OrderedMap (Entry Enum)
  typedefs : OrderedMap (Entry TypeDef)
deriving DecidableEq

namespace Tables

/-- Tables without declarations. -/
def empty : Tables := ⟨.empty, .empty, .empty⟩

/-- The registration of a name in the table of a kind. -/
def lookup? (t : Tables) (kind : DeclarationKind) (name : String) : Option (Entry Declaration) :=
  match kind with
  | .model => (t.models.find? name).map (·.map .model)
  | .enum => (t.enums.find? name).map (·.map .enum)
  | .typeDef => (t.typedefs.find? name).map (·.map .typeDef)

/-- Whether a name is registered as a kind, and not just announced. -/
def isConfirmed (t : Tables) (kind : DeclarationKind) (name : String) : Bool :=
  (t.lookup? kind name).any fun e => !e.lazy

/-- The registered names of all kinds. -/
def names (t : Tables) : List String :=
  t.models.keys ++ t.enums.keys ++ t.typedefs.keys

/-- A table with an entry more. An announcement does not displace what is confirmed. -/
def register {α : Type} (table : OrderedMap (Entry α)) (name : String) (entry : Entry α) :
    OrderedMap (Entry α) :=
  if entry.lazy && (table.find? name).any fun e => !e.lazy then table
  else table.insert name entry

/-- A table with an entry more for each name of a map. -/
def registerAll {α : Type} (table : OrderedMap (Entry α)) (entries : OrderedMap (Entry α)) :
    OrderedMap (Entry α) :=
  entries.entries.foldl (fun acc entry => register acc entry.1 entry.2) table

/-- The tables with the declarations of a schema, whose models become property of a
registry. -/
def commit (t : Tables) (s : Schema) (id : RegistryId) (lazy : Bool) (batch : Nat) : Tables :=
  { models := registerAll t.models (s.models.mapValues fun _ m => ⟨m.bind id, lazy, batch⟩)
    enums := registerAll t.enums (s.enums.mapValues fun _ e => ⟨e, lazy, batch⟩)
    typedefs := registerAll t.typedefs (s.typedefs.mapValues fun _ d => ⟨d, lazy, batch⟩) }

end Tables

/-! ## Errors -/

/-- Why a file cannot be read. -/
inductive ReadError where
  | notFound
  | notADirectory
  | isADirectory
  | tooManyLinks
  | nameTooLong
  | invalidPath
  | invalidText
  | other (text : String)
deriving DecidableEq, Repr, Inhabited

/-- The words for a reading fault. -/
def ReadError.message : ReadError → String
  | notFound => "No such file or directory (os error 2)"
  | notADirectory => "Not a directory (os error 20)"
  | isADirectory => "Is a directory (os error 21)"
  | tooManyLinks => "Too many levels of symbolic links (os error 40)"
  | nameTooLong => "File name too long (os error 36)"
  | invalidPath => "file name contained an unexpected NUL byte"
  | invalidText => "stream did not contain valid UTF-8"
  | other text => text

/-- Why a registry refuses what it is asked for. -/
inductive RegistryError where
  | load (errors : List Diagnostic)
  | unbound (model : String)
  | foreignRegistry (model : String)
  | io (path : String) (error : ReadError)
deriving DecidableEq, Repr

namespace RegistryError

/-- The words for a refusal. -/
def message : RegistryError → String
  | load errors => s!"load failed: {errors.length} error(s)"
  | unbound model => s!"model `{model}` is not bound to a registry"
  | foreignRegistry model => s!"model `{model}` is bound to a different registry"
  | io path error => s!"failed to read {path}: {error.message}"

/-- The reports behind a failed load. -/
def diagnostics : RegistryError → List Diagnostic
  | load errors => errors
  | _ => []

end RegistryError

/-! ## The registry -/

/-- A source text, with its path when it has one. -/
structure Source where
  text : String
  path : Option String
deriving DecidableEq, Repr

/-- The state of a registry: its tables, the reports of the last load, and the number
of loads so far. -/
structure Registry where
  id : RegistryId
  config : Config
  importer : Importer
  tables : Tables
  errors : List Diagnostic
  batch : Nat

namespace Registry

/-- A registry that has taken in nothing. -/
def new (id : RegistryId) (config : Config) (importer : Importer) : Registry :=
  ⟨id, config, importer, .empty, [], 0⟩

/-- The registry with another importer for the loads to come. -/
def setImporter (r : Registry) (importer : Importer) : Registry :=
  { r with importer }

/-! ## Checking a schema -/

/-- Whether a declaration repeats one of its kind. It may be registered again by the
same load, as what stands at the same place of the same file. -/
def isDuplicate (r : Registry) (d : Declaration) : Bool :=
  match r.tables.lookup? d.kind d.name with
  | none => false
  | some e =>
    let same := d.trace.path.isSome && e.declaration.trace = d.trace && e.batch = r.batch
    !e.lazy && !same

/-- The reports on a declaration whose name is taken. -/
def collisions (r : Registry) (d : Declaration) : List Diagnostic :=
  let repeated := if r.isDuplicate d then [d.duplicate] else []
  let others := DeclarationKind.all.filter fun kind =>
    kind ≠ d.kind && r.tables.isConfirmed kind d.name
  repeated ++ others.map d.conflict

/-- The names that types of a schema may use when the registry takes it in. -/
def scope (r : Registry) (s : Schema) : Scope :=
  (Scope.ofSchema s).extend r.tables.names

/-- The reports on a schema that is to be taken in. -/
def check (r : Registry) (mode : ValidationMode) (s : Schema) : List Diagnostic :=
  let rules : Validator := ⟨r.scope s, mode, r.config.suggestions⟩
  match mode with
  | .lazy => rules.validate s
  | .strict => rules.validate s ++ s.declarations.flatMap r.collisions

/-! ## Loading -/

/-- One pass over one source: reads, checks and registers it. -/
def loadPass (mode : ValidationMode) (r : Registry) (source : Source) :
    Except (List Diagnostic) Registry := do
  let s ← Schema.ofText (some r.importer) source.path source.text
  let errors := r.check mode s
  if errors = [] then
    .ok { r with tables := r.tables.commit s r.id (mode = .lazy) r.batch }
  else .error errors

/-- The registry as its next load begins. -/
def nextBatch (r : Registry) : Registry :=
  { r with batch := r.batch + 1 }

/-- The end of a load: the registry that the passes have made, or the one before them
with the reports on what went wrong. -/
def finish (before : Registry) :
    Except (List Diagnostic) Registry → Registry × Except RegistryError Unit
  | .ok after => ({ after with errors := [] }, .ok ())
  | .error errors => ({ before with errors := errors }, .error (.load errors))

/-- Loads one source. -/
def loadSource (r : Registry) (source : Source) : Registry × Except RegistryError Unit :=
  r.nextBatch.finish (r.nextBatch.loadPass .strict source)

/-- Loads one text without a path. -/
def load (r : Registry) (text : String) : Registry × Except RegistryError Unit :=
  r.loadSource ⟨text, none⟩

/-- Loads several sources as one batch. -/
def loadAllSources (r : Registry) (sources : List Source) :
    Registry × Except RegistryError Unit :=
  r.nextBatch.finish do
    let announced ← sources.foldlM (loadPass .lazy) r.nextBatch
    sources.foldlM (loadPass .strict) announced

/-- Loads several texts without paths as one batch. -/
def loadAll (r : Registry) (texts : List String) : Registry × Except RegistryError Unit :=
  r.loadAllSources (texts.map fun text => ⟨text, none⟩)

/-! ## Queries -/

/-- The registered models, in order. -/
def models (r : Registry) : List Model :=
  r.tables.models.values.map (·.declaration)

/-- The registered enums, in order. -/
def enums (r : Registry) : List Enum :=
  r.tables.enums.values.map (·.declaration)

/-- The registered typedefs, in order. -/
def typedefs (r : Registry) : List TypeDef :=
  r.tables.typedefs.values.map (·.declaration)

/-- The model of a name. -/
def model? (r : Registry) (name : String) : Option Model :=
  (r.tables.models.find? name).map (·.declaration)

/-- The enum of a name. -/
def enum? (r : Registry) (name : String) : Option Enum :=
  (r.tables.enums.find? name).map (·.declaration)

/-- The typedef of a name. -/
def typeDef? (r : Registry) (name : String) : Option TypeDef :=
  (r.tables.typedefs.find? name).map (·.declaration)

/-- The declaration of a name: a model, else an enum, else a typedef. -/
def declaration? (r : Registry) (name : String) : Option Declaration :=
  ((r.model? name).map .model).or <|
    ((r.enum? name).map .enum).or ((r.typeDef? name).map .typeDef)

/-- The registered declarations: models, enums, then typedefs. -/
def declarations (r : Registry) : List Declaration :=
  r.models.map .model ++ r.enums.map .enum ++ r.typedefs.map .typeDef

/-- The number of registered declarations. -/
def size (r : Registry) : Nat :=
  r.tables.models.size + r.tables.enums.size + r.tables.typedefs.size

/-- Whether nothing is registered. -/
def isEmpty (r : Registry) : Bool :=
  r.size = 0

/-- The names in the three tables and the number of reports. The id is passed over. -/
def render (r : Registry) : String :=
  let quoted (names : List String) := "[" ++ ", ".intercalate (names.map Text.quote) ++ "]"
  "Registry \x7b id: RegistryId(_), models: " ++ quoted r.tables.models.keys ++
    ", enums: " ++ quoted r.tables.enums.keys ++
    ", typedefs: " ++ quoted r.tables.typedefs.keys ++
    s!", errors: {r.errors.length}, .. " ++ "\x7d"

end Registry

end SchemaLang
