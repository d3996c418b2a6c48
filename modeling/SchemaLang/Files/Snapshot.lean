import SchemaLang.Files

/-!
# Snapshots

What has been found out about a number of paths, kept as a table. A path that is not in
the table names nothing.
-/

namespace SchemaLang

/-- What was found at a path: the text or why it cannot be read, whether it is a regular
file, and its canonical path. -/
structure Probe where
  text : Except ReadError String
  isFile : Bool
  canonical : Option String

/-- What was found at each of a number of paths. -/
structure Snapshot where
  probes : List (String × Probe)

namespace Snapshot

/-- The snapshot before anything was looked at. -/
def empty : Snapshot := ⟨[]⟩

/-- What was found at a path. -/
def probe? (s : Snapshot) (path : String) : Option Probe :=
  s.probes.lookup path

/-- The snapshot with what was found at a path more. -/
def add (s : Snapshot) (path : String) (probe : Probe) : Snapshot :=
  ⟨(path, probe) :: s.probes⟩

/-- The text of the file at a path. -/
def read (s : Snapshot) (path : String) : Except ReadError String :=
  match s.probe? path with
  | some probe => probe.text
  | none => .error .notFound

/-- Whether there is a regular file at a path. -/
def isFile (s : Snapshot) (path : String) : Bool :=
  (s.probe? path).any (·.isFile)

/-- The canonical form of a path. -/
def canonical? (s : Snapshot) (path : String) : Option String :=
  (s.probe? path).bind (·.canonical)

theorem mem_of_lookup {probes : List (String × Probe)} {path : String} {probe : Probe}
    (h : probes.lookup path = some probe) : (path, probe) ∈ probes := by
  induction probes with
  | nil => cases h
  | cons entry rest ih =>
    rw [List.mem_cons]
    by_cases he : path = entry.1
    · rw [List.lookup_cons, he, beq_self_eq_true] at h
      cases h
      exact Or.inl (by rw [he])
    · have hb : (path == entry.1) = false := by simpa using he
      rw [List.lookup_cons, hb] at h
      exact Or.inr (ih h)

theorem canonical_mem (s : Snapshot) (path : String) (h : s.isFile path = true) :
    (s.canonical? path).getD path ∈
      s.probes.map fun entry => entry.2.canonical.getD entry.1 := by
  unfold isFile at h
  cases hp : s.probe? path with
  | none => simp [hp] at h
  | some probe =>
    simp only [canonical?, hp, Option.bind_some]
    exact List.mem_map.2 ⟨(path, probe), mem_of_lookup hp, rfl⟩

/-- The snapshot as a collection of files. It lists no directories. -/
def files (s : Snapshot) : Files :=
  { read := s.read
    isFile := s.isFile
    canonical? := s.canonical?
    list := fun _ => .error .notADirectory
    paths := s.probes.map fun entry => entry.2.canonical.getD entry.1
    canonical_mem := s.canonical_mem }

/-- The places where the imports of the source at a path are looked for. -/
def importCandidates (s : Snapshot) (roots : List String) (path : String) : List String :=
  match s.files.source path with
  | .error _ => []
  | .ok source =>
    (Outline.ofText source.path source.text).items.flatMap fun item =>
      match item with
      | .importFile file => Files.candidates roots source.path file.lexeme
      | .declaration _ => []

end Snapshot

end SchemaLang
