import SchemaLang.CommandLine.Run
import SchemaLang.Files.Snapshot

/-!
# What a run asks of the files

The paths that a run looks at, as far as they can be told from what has been found so
far: each file that is found may bring in the places of its imports. When nothing new
is asked for, the snapshot is all that the run can see.
-/

namespace SchemaLang.CommandLine

/-- The paths at which settings are looked for. -/
def settingsPaths (named : Option String) (i : Invocation) : List String :=
  [((i.config.or named).getD Config.fileName)]

/-- The paths of the sources that a command reads, and of the places where their imports
are looked for. Every path in the snapshot counts as one of a source, apart from those
of settings. -/
def sourcePaths (s : Snapshot) (named : Option String) (i : Invocation)
    (files : List String) : List String :=
  match settings ⟨s.files, named, false⟩ i.config with
  | .error _ => []
  | .ok config =>
    let found := (s.probes.map Prod.fst).filter (· ∉ settingsPaths named i)
    files ++ found.flatMap (s.importCandidates config.importPaths)

/-- The paths that a run looks at, given what has been found. -/
def requested (s : Snapshot) (named : Option String) (i : Invocation) : List String :=
  match i.command with
  | .tokens file => [file]
  | .check files => settingsPaths named i ++ sourcePaths s named i files
  | .dump files _ => settingsPaths named i ++ sourcePaths s named i files

/-- The paths that are still to be looked at. -/
def missing (s : Snapshot) (named : Option String) (i : Invocation) : List String :=
  ((requested s named i).filter fun path => (s.probe? path).isNone).eraseDups

end SchemaLang.CommandLine
