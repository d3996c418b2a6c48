import SchemaLang.Importer
import SchemaLang.Path
import SchemaLang.Registry

/-!
# Files

What can be asked of a collection of files: the text behind a path, whether there is a
regular file, the one canonical path of whatever a path names, and the names in a
directory. A collection is finite, so the importer that looks for its sources among
the files brings every reading to an end.
-/

namespace SchemaLang

/-- A collection of files. Paths that name the same file have one canonical path, and
those of regular files are in a list. -/
structure Files where
  read : String → Except ReadError String
  isFile : String → Bool
  canonical? : String → Option String
  list : String → Except ReadError (List String)
  paths : List String
  canonical_mem : ∀ path, isFile path = true → (canonical? path).getD path ∈ paths

namespace Files

/-- The canonical form of a path, or the path itself when it names nothing. -/
def canonicalPath (files : Files) (path : String) : String :=
  (files.canonical? path).getD path

/-! ## Importing -/

/-- Where an import is looked for: beside the file that imports, then as it is written,
then in each of the roots. -/
def candidates (roots : List String) (current : Option String) (file : String) :
    List String :=
  let beside := (current.bind Path.parent?).toList.map fun directory => Path.join directory file
  beside ++ file :: roots.map fun root => Path.join root file

/-- The source that an import names: the first candidate that is a file. When that one
cannot be read, nothing is found. -/
def findImport (files : Files) (roots : List String) (current : Option String) (file : String) :
    Option ImportedSource :=
  match (candidates roots current file).find? files.isFile with
  | none => none
  | some path =>
    match files.read path with
    | .ok text => some ⟨files.canonicalPath path, text⟩
    | .error _ => none

theorem findImport_path_mem (files : Files) (roots : List String) (current : Option String)
    (file : String) (source : ImportedSource)
    (h : files.findImport roots current file = some source) : source.path ∈ files.paths := by
  unfold findImport at h
  split at h
  · cases h
  · next path hpath =>
    split at h
    · cases h
      exact files.canonical_mem path (List.find?_some hpath)
    · cases h

/-- The importer that looks for sources among the files. -/
def importer (files : Files) (roots : List String) : Importer :=
  .ofPaths (files.findImport roots) files.paths (files.findImport_path_mem roots)

/-! ## Reading sources -/

/-- The source in a file; its path is the canonical one. -/
def source (files : Files) (path : String) : Except RegistryError Source :=
  match files.read path with
  | .ok text => .ok ⟨text, some (files.canonicalPath path)⟩
  | .error e => .error (.io path e)

/-- The paths of the definition files of a directory, in the order of their names. -/
def definitions (files : Files) (config : Config) (directory : String) :
    Except RegistryError (List String) :=
  match files.list directory with
  | .ok names =>
    let paths := (names.mergeSort fun a b => a ≤ b).map fun name => Path.join directory name
    .ok (paths.filter fun path => files.isFile path && config.matchesExtension path)
  | .error e => .error (.io directory e)

end Files

/-! ## Loading files -/

/-- Reads files one after another, behind the sources read so far. -/
def Files.readInTurn (files : Files) (sources : List Source) :
    List String → Except RegistryError (List Source)
  | [] => .ok sources
  | path :: rest =>
    match files.source path with
    | .ok source => readInTurn files (sources ++ [source]) rest
    | .error e => .error e

namespace Registry

/-- A registry whose imports are looked for among files. -/
def ofFiles (id : RegistryId) (config : Config) (files : Files) : Registry :=
  .new id config (files.importer config.importPaths)

/-- Goes on with what has been read, or leaves the registry as it is. -/
def withRead {α : Type} (r : Registry) (read : Except RegistryError α)
    (load : α → Registry × Except RegistryError Unit) :
    Registry × Except RegistryError Unit :=
  match read with
  | .ok value => load value
  | .error e => (r, .error e)

/-- Loads the source in a file. -/
def loadFile (r : Registry) (files : Files) (path : String) :
    Registry × Except RegistryError Unit :=
  r.withRead (files.source path) r.loadSource

/-- Loads the sources in several files as one batch, after all have been read. -/
def loadAllFiles (r : Registry) (files : Files) (paths : List String) :
    Registry × Except RegistryError Unit :=
  r.withRead (paths.mapM files.source) r.loadAllSources

/-- Loads the source in a file. Other work may go on while the file is read, since the
registry is not touched before. -/
def loadFileAsync (r : Registry) (files : Files) (path : String) :
    Registry × Except RegistryError Unit :=
  r.withRead (files.source path) r.loadSource

/-- Loads the sources in several files as one batch. Other work may go on while they are
read one after another, since the registry is not touched before the last one is. -/
def loadAllFilesAsync (r : Registry) (files : Files) (paths : List String) :
    Registry × Except RegistryError Unit :=
  r.withRead (files.readInTurn [] paths) r.loadAllSources

/-- Loads the definition files of a directory as one batch, and gives their paths. -/
def loadDir (r : Registry) (files : Files) (directory : String) :
    Registry × Except RegistryError (List String) :=
  match files.definitions r.config directory with
  | .error e => (r, .error e)
  | .ok paths =>
    let (after, result) := r.loadAllFiles files paths
    (after, result.map fun _ => paths)

end Registry

end SchemaLang
