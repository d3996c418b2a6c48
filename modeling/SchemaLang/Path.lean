/-!
# Paths

Paths are texts whose parts are set off by slashes. Empty parts and single dots mean
nothing, except that a path that begins with a slash starts at the root.
-/

namespace SchemaLang.Path

/-- Whether a path starts at the root. -/
def isAbsolute (path : String) : Bool :=
  path.toList.head? = some '/'

/-- The texts between the slashes, as characters. -/
def split : List Char → List (List Char)
  | [] => [[]]
  | c :: rest =>
    if c = '/' then [] :: split rest
    else
      match split rest with
      | first :: others => (c :: first) :: others
      | [] => [[c]]

/-- The texts between the slashes. -/
def segments (path : String) : List String :=
  (split path.toList).map String.ofList

/-- The parts of a path that mean something. A dot does at the very beginning only. -/
def parts (path : String) : List String :=
  match segments path with
  | [] => []
  | first :: rest =>
    let tail := rest.filter fun s => s ≠ "" ∧ s ≠ "."
    if first = "" then tail else first :: tail

/-- A path behind another one; an absolute path stands for itself. -/
def join (directory path : String) : String :=
  if isAbsolute path then path
  else if directory = "" ∨ directory.toList.getLast? = some '/' then directory ++ path
  else directory ++ "/" ++ path

/-- The directory that holds what a path names. The root and the empty path have none. -/
def parent? (path : String) : Option String :=
  if parts path = [] then none
  else
    let above := "/".intercalate (parts path).dropLast
    some (if isAbsolute path then "/" ++ above else above)

/-- The last part of a path, unless it leads upwards or nowhere. -/
def fileName? (path : String) : Option String :=
  match (parts path).getLast? with
  | some last => if last = ".." ∨ last = "." then none else some last
  | none => none

/-- What follows the last dot of the file name. A dot in front does not count. -/
def extension? (path : String) : Option String := do
  let name ← fileName? path
  let reversed := name.toList.reverse
  let ending := reversed.takeWhile (· ≠ '.')
  let front := (reversed.dropWhile (· ≠ '.')).drop 1
  if front = [] then none else some (String.ofList ending.reverse)

end SchemaLang.Path
