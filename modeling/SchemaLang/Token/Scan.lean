import SchemaLang.Token.Segment
import SchemaLang.Diagnostic

/-!
# Scanning

The token stream of a source text: the tokens of its segments in order, and the
token for the end of the input at the position behind the last character. The only
fault that scanning can find is a quoted text without end.
-/

namespace SchemaLang

/-- What scanning a text gives. -/
structure Scan where
  tokens : List Token
  errors : List Diagnostic
deriving DecidableEq, Repr

namespace Scan

/-- The report about a quoted text without end. -/
def unterminatedString (path : Option String) (p : Position) : Diagnostic :=
  .ofTrace .unterminatedString "string not terminated" (.ofPosition p path)

/-- Scans the source of a path. -/
def ofText (source : String) (path : Option String) : Scan :=
  let chars := source.toList
  let placed := Segment.place .start (Segment.segments chars)
  { tokens := placed.filterMap (fun s => s.2.token? s.1) ++
      [.ofPosition .endOfInput "" (Position.start.advance chars)]
    errors := (placed.filter (·.2.isUnclosed)).map fun s => unterminatedString path s.1 }

/-- Whether nothing was found wrong. -/
def ok (scan : Scan) : Bool :=
  scan.errors.isEmpty

end Scan

end SchemaLang
