import SchemaLang.Yaml.Token.Read

/-!
# Layout

How columns, brackets and colons turn a text into tokens. A block list or map begins
where a dash or a key stands to the right of the margin, and ends where a text stands to
the left of it. That a node is a key shows only at its colon, so the last place at which
one may begin is kept for every level of brackets until the colon comes, the line ends
or the key grows too long.
-/

namespace SchemaLang.Yaml

/-- A node that may turn out to be a key. -/
structure Candidate where
  /-- Where the node begins. -/
  spot : Spot
  /-- The number of tokens before it. -/
  index : Nat
  /-- Whether nothing but a key can stand there. -/
  required : Bool
deriving DecidableEq, Repr

/-- The number of bytes that a key and what is in front of its colon may take. -/
def maxKeyLength : Nat := 1024

namespace Candidate

/-- Whether a node is no key any more if its colon has not come by a place. -/
def isOver (k : Candidate) (s : Spot) : Bool :=
  k.spot.line < s.line || k.spot.offset + maxKeyLength < s.offset

/-- The candidate of a level, as long as it is not over at a place. A required one may
not be lost. -/
def current? (s : Spot) : Option Candidate → Option (Option Candidate)
  | none => some none
  | some k =>
    if k.isOver s then if k.required then none else some none
    else some (some k)

end Candidate

/-- What has been made of a text so far. -/
structure Layout where
  tokens : Array Token
  /-- The columns of the open block lists and maps, innermost first. -/
  columns : List Nat
  candidate : Option Candidate
  /-- The candidates outside the open brackets, innermost first. -/
  outer : List (Option Candidate)
  /-- Whether a key may begin here. -/
  keyAllowed : Bool
deriving Repr

namespace Layout

/-- The layout at the head of a text. -/
def start : Layout := ⟨#[], [], none, [], true⟩

/-- Whether the text is within brackets. -/
def inFlow (l : Layout) : Bool :=
  !l.outer.isEmpty

/-- The first column inside the innermost open list or map. -/
def margin (l : Layout) : Nat :=
  match l.columns with
  | [] => 0
  | column :: _ => column + 1

/-- The layout with one more token, behind which a key may begin or not. -/
def push (l : Layout) (token : Token) (keyAllowed : Bool) : Layout :=
  { l with tokens := l.tokens.push token, keyAllowed := keyAllowed }

/-- The layout with one more token behind the first so many. -/
def insert (l : Layout) (index : Nat) (token : Token) : Layout :=
  { l with tokens := l.tokens.insertIdxIfInBounds index token }

/-! ## Blocks -/

/-- Opens a list or map in a column, unless one in this column is open. -/
def openBlock (l : Layout) (column index : Nat) (token : Token) : Layout :=
  if l.inFlow || column < l.margin then l
  else { l.insert index token with columns := column :: l.columns }

/-- Closes the lists and maps in the columns from a given one on. -/
def closeFrom (l : Layout) (column : Nat) : Layout :=
  if l.inFlow then l
  else
    let closed := l.columns.takeWhile (column ≤ ·)
    { l with
      tokens := l.tokens ++ Array.replicate closed.length Token.blockEnd
      columns := l.columns.drop closed.length }

/-! ## Candidates -/

/-- Gives up the candidate of this level. -/
def abandon? (l : Layout) : Option Layout :=
  if l.candidate.any (·.required) then none else some { l with candidate := none }

/-- Takes a place as the candidate of this level, if a key may begin there. -/
def propose? (l : Layout) (s : Spot) : Option Layout :=
  if l.keyAllowed then do
    let required := !l.inFlow && l.margin = s.column + 1
    some { ← l.abandon? with candidate := some ⟨s, l.tokens.size, required⟩ }
  else some l

/-- Goes on to a place: candidates that are over are dropped, and blocks that the place
is to the left of are closed. -/
def advance? (l : Layout) (s : Spot) : Option Layout := do
  let candidate ← Candidate.current? s l.candidate
  let outer ← l.outer.mapM (Candidate.current? s)
  some ({ l with candidate := candidate, outer := outer }.closeFrom (s.column + 1))

/-! ## Tokens -/

/-- Enters brackets. -/
def enter (l : Layout) : Layout :=
  { l with candidate := none, outer := l.candidate :: l.outer }

/-- Leaves the innermost brackets, if there are any. -/
def leave (l : Layout) : Layout :=
  match l.outer with
  | [] => l
  | candidate :: outer => { l with candidate := candidate, outer := outer }

/-- Adds the mark of a list item or a key. Outside of brackets it may only stand where a
key may begin, and it opens a block of its own if none is open in its column. -/
def addMark? (l : Layout) (s : Spot) (token block : Token) (keyAllowed : Bool) :
    Option Layout :=
  if l.inFlow || l.keyAllowed then do
    let opened := l.openBlock s.column l.tokens.size block
    some ((← opened.abandon?).push token keyAllowed)
  else none

/-- Adds a colon. It makes the candidate of its level a key; without one the key is
absent, or given by its own mark. -/
def addValue? (l : Layout) (s : Spot) : Option Layout :=
  match l.candidate with
  | some k =>
    let marked := { l with candidate := none }.insert k.index .key
    some ((marked.openBlock k.spot.column k.index .mapStart).push .value false)
  | none =>
    if l.inFlow then some (l.push .value false)
    else if l.keyAllowed then
      some ((l.openBlock s.column l.tokens.size .mapStart).push .value true)
    else none

/-- Adds the token that is found at a place. -/
def add? (l : Layout) (s : Spot) (token : Token) (endsBelow : Bool) : Option Layout :=
  match token with
  | .version _ _ | .handle _ _ | .documentStart | .documentEnd => do
    some ((← (l.closeFrom 0).abandon?).push token false)
  | .openBracket | .openBrace => do some ((← l.propose? s).enter.push token true)
  | .closeBracket | .closeBrace => do some ((← l.abandon?).leave.push token false)
  | .comma => do some ((← l.abandon?).push token true)
  | .dash => l.addMark? s token .listStart true
  | .key => l.addMark? s token .mapStart (!l.inFlow)
  | .value => l.addValue? s
  | .block _ _ => do some ((← l.abandon?).push token true)
  | _ => do some ((← l.propose? s).push token endsBelow)

/-! ## Texts -/

/-- Goes past blanks, comments and line ends, behind which a key may begin outside of
brackets. Tabs count as blanks only where no key may begin. -/
def skip (flow keyAllowed inComment : Bool) : List Spot → Bool × List Spot
  | [] => (keyAllowed, [])
  | s :: rest =>
    if isBreak s.char then skip flow (keyAllowed || !flow) false rest
    else if inComment || s.char = '#' then skip flow keyAllowed true rest
    else if s.char = ' ' || (s.char = '\t' && (flow || !keyAllowed)) ||
        (s.char = byteOrderMark && s.column = 0) then
      skip flow keyAllowed false rest
    else (keyAllowed, s :: rest)

theorem length_skip (flow keyAllowed inComment : Bool) (text : List Spot) :
    (skip flow keyAllowed inComment text).2.length ≤ text.length := by
  fun_induction skip flow keyAllowed inComment text <;> grind

/-- All tokens, at the end of a text. -/
def finish? (l : Layout) : Option (List Token) := do
  some (← (l.closeFrom 0).abandon?).tokens.toList

/-- The tokens of a text that comes behind what there is. -/
def tokens? (l : Layout) (text : List Spot) : Option (List Token) :=
  let next := skip l.inFlow l.keyAllowed false text
  match _ : next.2 with
  | [] => l.finish?
  | s :: rest =>
    match { l with keyAllowed := next.1 }.advance? s with
    | none => none
    | some here =>
      match _ : Token.read? here.inFlow here.margin s rest with
      | none => none
      | some found =>
        match here.add? s found.token found.endsBelow with
        | none => none
        | some after => after.tokens? found.rest
termination_by text.length
decreasing_by
  have read := Token.length_read? ‹Token.read? _ _ s rest = some found›
  have skipped := length_skip l.inFlow l.keyAllowed false text
  have here : (skip l.inFlow l.keyAllowed false text).2.length = rest.length + 1 :=
    congrArg List.length ‹next.2 = s :: rest›
  omega

end Layout

/-- The tokens of a text. -/
def Token.ofText? (text : String) : Option (List Token) :=
  if text.toList.all isAllowed then
    Layout.start.tokens? (Spot.ofChars (unifyBreaks text.toList))
  else none

end SchemaLang.Yaml
