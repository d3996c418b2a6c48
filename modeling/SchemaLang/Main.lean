import SchemaLang.CommandLine.Request

/-!
# The program

Looks at the files that a run asks for, runs it, and prints what it has to say.
-/

namespace SchemaLang

/-- The fault behind an error of the operating system. The sign of its number does not
count. -/
def readError (e : IO.Error) : ReadError :=
  match e with
  | .noFileOrDirectory .. => .notFound
  | .inappropriateType _ code _ =>
    if min code (0 - code) = 21 then .isADirectory else .notADirectory
  | .invalidArgument _ code _ =>
    match min code (0 - code) with
    | 22 => .invalidPath
    | 36 => .nameTooLong
    | 40 => .tooManyLinks
    | _ => .other (toString e)
  | other => .other (toString other)

/-- Looks at a path. -/
def probe (path : String) : IO Probe := do
  let text ← try
      let bytes ← IO.FS.readBinFile path
      pure ((String.fromUTF8? bytes).elim (.error .invalidText) .ok)
    catch e => pure (.error (readError e))
  let place ← try
      let real ← IO.FS.realPath path
      let info ← real.metadata
      pure (some (real.toString, info.type == .file))
    catch _ => pure none
  pure ⟨text, (place.map Prod.snd).getD false, place.map Prod.fst⟩

/-- Looks at everything that a run asks for. -/
partial def survey (named : Option String) (i : Invocation) (s : Snapshot) : IO Snapshot := do
  match CommandLine.missing s named i with
  | [] => pure s
  | paths =>
    let mut s := s
    for path in paths do
      s := s.add path (← probe path)
    survey named i s

/-- Whether the standard output shows styles. -/
def showsStyles : IO Bool := do
  let forced ← IO.getEnv "CLICOLOR_FORCE"
  if forced.isSome && forced ≠ some "0" then return true
  if (← IO.getEnv "NO_COLOR").isSome then return false
  return (← (← IO.getStdout).isTty) && (← IO.getEnv "CLICOLOR") ≠ some "0"

end SchemaLang

open SchemaLang in
/-- Runs the program and gives its exit code. -/
def main (arguments : List String) : IO UInt32 := do
  let named ← IO.getEnv Config.variableName
  let s ← match CommandLine.parse arguments with
    | .ok i => survey named i .empty
    | .error _ => pure .empty
  let output := CommandLine.run ⟨s.files, named, ← showsStyles⟩ arguments
  IO.print output.stdout
  IO.eprint output.stderr
  return UInt32.ofNat output.exitCode
