/-!
# Traces

Where something was written: a line, a column and, when it is known, the path of
the source. Lines and columns count from one, columns in characters.
-/

namespace SchemaLang

/-- A place in a source text. -/
structure Position where
  line : Nat
  offset : Nat
deriving DecidableEq, Repr, Inhabited

namespace Position

/-- The first character of a text. -/
def start : Position := ⟨1, 1⟩

/-- The place after a character: a line feed begins a new line. -/
def next (p : Position) (c : Char) : Position :=
  if c = '\n' then ⟨p.line + 1, 1⟩ else ⟨p.line, p.offset + 1⟩

/-- The place after a run of characters. -/
def advance (p : Position) (text : List Char) : Position :=
  text.foldl next p

@[simp] theorem advance_nil (p : Position) : p.advance [] = p := rfl

theorem advance_append (p : Position) (xs ys : List Char) :
    p.advance (xs ++ ys) = (p.advance xs).advance ys := by
  simp [advance]

end Position

/-- A place together with the path of its source. -/
structure Trace where
  line : Nat
  offset : Nat
  path : Option String
deriving DecidableEq, Repr, Inhabited

namespace Trace

/-- A position in the source of a given path. -/
def ofPosition (p : Position) (path : Option String) : Trace :=
  ⟨p.line, p.offset, path⟩

/-- Written `path:line:offset`, without the path when it is not known. -/
def render (t : Trace) : String :=
  match t.path with
  | some path => s!"{path}:{t.line}:{t.offset}"
  | none => s!"{t.line}:{t.offset}"

end Trace

end SchemaLang
