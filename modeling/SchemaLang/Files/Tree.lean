import SchemaLang.Files

/-!
# File trees

A tree of directories, regular files and links, held as a list of absolute paths with
what is there. A path is followed part by part from the root or from the working
directory; links on the way are followed too, up to a number of them. Names and paths
have a longest length, and no zero characters.
-/

namespace SchemaLang

namespace FileTree

/-- What stands at a place in a tree. A file whose bytes are not text has none. -/
inductive Node where
  | file (text : Option String)
  | directory
  | link (target : String)
deriving DecidableEq, Repr

/-- A file that holds bytes, which are text if they are UTF-8. -/
def Node.ofBytes (bytes : List UInt8) : Node :=
  .file (String.fromUTF8? ⟨bytes.toArray⟩)

end FileTree

/-- Places with what is there, and the working directory. -/
structure FileTree where
  entries : List (List String × FileTree.Node)
  workingDirectory : List String
deriving DecidableEq, Repr

namespace FileTree

/-- A place written as an absolute path. -/
def pathText (place : List String) : String :=
  "/" ++ "/".intercalate place

/-- What is at a place. The root is a directory always. -/
def node? (tree : FileTree) (place : List String) : Option Node :=
  if place = [] then some .directory else tree.entries.lookup place

/-- The number of links that are followed on one path. -/
def maxLinks : Nat := 40

/-- The number of bytes that a name in a directory may have. -/
def maxNameLength : Nat := 255

/-- The number of bytes that a path may have. -/
def maxPathLength : Nat := 4095

/-- The place that the parts of a path lead to from another place. -/
def walk (tree : FileTree) (links : Nat) (place : List String) (parts : List String) :
    Except ReadError (List String) :=
  match parts with
  | [] => .ok place
  | part :: rest =>
    match tree.node? place with
    | none => .error .notFound
    | some (.file _) => .error .notADirectory
    | some (.link _) => .error .notADirectory
    | some .directory =>
      if part = "" ∨ part = "." then walk tree links place rest
      else if part = ".." then walk tree links place.dropLast rest
      else if maxNameLength < part.utf8ByteSize then .error .nameTooLong
      else
        match tree.node? (place ++ [part]) with
        | none => .error .notFound
        | some (.link target) =>
          match links with
          | 0 => .error .tooManyLinks
          | links + 1 =>
            let start := if Path.isAbsolute target then [] else place
            walk tree links start (Path.segments target ++ rest)
        | some _ => walk tree links (place ++ [part]) rest
termination_by (links, parts.length)

/-- The place that a path names. -/
def place (tree : FileTree) (path : String) : Except ReadError (List String) :=
  if path.contains '\x00' then .error .invalidPath
  else if path = "" then .error .notFound
  else
    let start := if Path.isAbsolute path then [] else tree.workingDirectory
    walk tree maxLinks start (Path.segments path)

/-- What a path names, with its place. -/
def find (tree : FileTree) (path : String) : Except ReadError (List String × Node) :=
  match tree.place path with
  | .error e => .error e
  | .ok place =>
    match tree.node? place with
    | some node => .ok (place, node)
    | none => .error .notFound

/-- What a path names, with its place, if the path is short enough to be opened. -/
def opened (tree : FileTree) (path : String) : Except ReadError (List String × Node) :=
  if maxPathLength < path.utf8ByteSize && !path.contains '\x00' then .error .nameTooLong
  else tree.find path

/-- The text of the file that a path names. -/
def read (tree : FileTree) (path : String) : Except ReadError String :=
  match tree.opened path with
  | .error e => .error e
  | .ok (_, .file (some text)) => .ok text
  | .ok (_, .file none) => .error .invalidText
  | .ok (_, .directory) => .error .isADirectory
  | .ok (_, .link _) => .error .notFound

/-- Whether a path names a regular file. -/
def isFile (tree : FileTree) (path : String) : Bool :=
  match tree.opened path with
  | .ok (_, .file _) => true
  | _ => false

/-- The absolute path, free of links, of what a path names. It is found part by part, so
the path may be of any length. -/
def canonical? (tree : FileTree) (path : String) : Option String :=
  match tree.find path with
  | .ok (place, _) => some (pathText place)
  | .error _ => none

/-- The names in the directory that a path names. -/
def list (tree : FileTree) (path : String) : Except ReadError (List String) :=
  match tree.opened path with
  | .error e => .error e
  | .ok (place, .directory) =>
    .ok (tree.entries.filterMap fun entry =>
      if entry.1 ≠ [] ∧ entry.1.dropLast = place then entry.1.getLast? else none)
  | .ok _ => .error .notADirectory

theorem pathText_mem_of_lookup {entries : List (List String × Node)} {place : List String}
    {node : Node} (h : entries.lookup place = some node) :
    pathText place ∈ entries.map fun entry => pathText entry.1 := by
  induction entries with
  | nil => cases h
  | cons entry rest ih =>
    rw [List.map_cons, List.mem_cons]
    by_cases he : place = entry.1
    · exact Or.inl (by rw [he])
    · have hb : (place == entry.1) = false := by simpa using he
      rw [List.lookup_cons, hb] at h
      exact Or.inr (ih h)

theorem find_of_opened {tree : FileTree} {path : String} {found : List String × Node}
    (h : tree.opened path = .ok found) : tree.find path = .ok found := by
  unfold opened at h
  split at h
  · cases h
  · exact h

/-- The canonical path of a regular file is that of an entry. -/
theorem canonical_mem (tree : FileTree) (path : String) (h : tree.isFile path = true) :
    (tree.canonical? path).getD path ∈ tree.entries.map fun entry => pathText entry.1 := by
  unfold isFile at h
  split at h
  · next place text hopened =>
    have hfind := find_of_opened hopened
    simp only [canonical?, hfind, Option.getD_some]
    unfold find at hfind
    split at hfind
    · cases hfind
    · next found hplace =>
      split at hfind
      · next node hnode =>
        cases hfind
        unfold node? at hnode
        split at hnode
        · cases hnode
        · exact pathText_mem_of_lookup hnode
      · cases hfind
  · cases h

/-- The tree as a collection of files. -/
def files (tree : FileTree) : Files :=
  { read := tree.read
    isFile := tree.isFile
    canonical? := tree.canonical?
    list := tree.list
    paths := tree.entries.map fun entry => pathText entry.1
    canonical_mem := tree.canonical_mem }

/-! ## Growing a tree -/

/-- The tree with a node at a place, unless something is there already. -/
def addNode (tree : FileTree) (place : List String) (node : Node) : FileTree :=
  if (tree.node? place).isSome then tree
  else { tree with entries := tree.entries ++ [(place, node)] }

/-- The tree with all directories on the way to a place. -/
def addDirectories (tree : FileTree) (place : List String) : FileTree :=
  (List.range (place.length + 1)).foldl
    (fun tree n => tree.addNode (place.take n) .directory) tree

/-- The empty tree with a working directory. -/
def atDirectory (directory : List String) : FileTree :=
  addDirectories ⟨[], directory⟩ directory

/-- The tree with a node at a path relative to the working directory, and directories on
the way to it. Directories that are there already, or are linked to, are used. -/
def add (tree : FileTree) (path : String) (node : Node) : FileTree :=
  let parts := Path.parts path
  match parts.getLast? with
  | none => tree
  | some name =>
    let above := parts.dropLast
    let (tree, place) := above.foldl
      (fun state part =>
        let (tree, place) := state
        match tree.walk maxLinks place [part] with
        | .ok next => (tree, next)
        | .error _ => (tree.addNode (place ++ [part]) .directory, place ++ [part]))
      (tree, tree.workingDirectory)
    tree.addNode (place ++ [name]) node

end FileTree

end SchemaLang
