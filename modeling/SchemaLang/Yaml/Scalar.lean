import SchemaLang.Json.Reader
import SchemaLang.Yaml.Spot

/-!
# Scalars on lines that are joined

Plain and quoted scalars may go on over several lines. The blanks around a line end are
dropped then: one line end is read as a blank, and of several the first is left out.
-/

namespace SchemaLang.Yaml

/-! ## Gaps -/

/-- The blanks and line ends between two characters of a scalar. -/
structure Gap where
  /-- The blanks before the first line end. -/
  blanks : List Char
  breaks : List Char
  /-- Whether a backslash has taken away a line end in front. -/
  escaped : Bool
deriving DecidableEq, Repr

namespace Gap

/-- The gap between characters that follow each other. -/
def empty : Gap := ⟨[], [], false⟩

/-- Whether the gap leads to another line. -/
def spansLines (g : Gap) : Bool :=
  g.escaped || !g.breaks.isEmpty

/-- The gap with one more blank or line end. -/
def add (g : Gap) (c : Char) : Gap :=
  if isBreak c then { g with breaks := g.breaks ++ [c] }
  else if g.spansLines then g
  else { g with blanks := g.blanks ++ [c] }

/-- What a gap is read as. -/
def text (g : Gap) : List Char :=
  if g.escaped then g.breaks
  else
    match g.breaks with
    | [] => g.blanks
    | first :: more =>
      if first ≠ '\n' then first :: more
      else if more.isEmpty then [' ']
      else more

end Gap

/-! ## Plain scalars -/

/-- Whether a plain scalar ends at a character, for what the character is. -/
def endsPlain (flow : Bool) (c : Char) (rest : List Spot) : Bool :=
  (c = ':' && startsBlank rest) ||
    (flow && [',', '[', ']', '\x7b', '\x7d'].contains c)

/-- Whether a plain scalar ends at the text behind a gap, for where the text stands. -/
def endsAfter (flow : Bool) (margin : Nat) (gap : Gap) (s : Spot) (rest : List Spot) : Bool :=
  gap != .empty && (s.char = '#' || startsMark (s :: rest) || (!flow && s.column < margin))

/-- A plain scalar, whether a line end stands behind it, and the text from there on.
Its lines begin at the margin or to the right of it. -/
def plain? (flow : Bool) (margin : Nat) (gap : Gap) :
    List Spot → Option (List Char × Bool × List Spot)
  | [] => some ([], gap.spansLines, [])
  | s :: rest =>
    if isBlank s.char || isBreak s.char then
      if s.char = '\t' && gap.spansLines && s.column < margin then none
      else plain? flow margin (gap.add s.char) rest
    else if endsAfter flow margin gap s rest || endsPlain flow s.char rest then
      some ([], gap.spansLines, s :: rest)
    else if flow && s.char = ':' && startsAmong [',', '?', '[', ']', '\x7b', '\x7d'] rest then
      none
    else do
      let (text, below, after) ← plain? flow margin .empty rest
      some (gap.text ++ s.char :: text, below, after)

/-! ## Quoted scalars -/

/-- The character of an escape by letter. -/
def escapeLetter? (c : Char) : Option Char :=
  [('0', '\x00'), ('a', '\x07'), ('b', '\x08'), ('t', '\t'), ('\t', '\t'), ('n', '\n'),
    ('v', '\x0b'), ('f', '\x0c'), ('r', '\r'), ('e', '\x1b'), (' ', ' '), ('\x22', '\x22'),
    ('/', '/'), ('\\', '\\'), ('N', '\x85'), ('_', '\xa0'), ('L', '\u2028'),
    ('P', '\u2029')].lookup c

/-- The number of digits of an escape by code point. -/
def escapeWidth? (c : Char) : Option Nat :=
  [('x', 2), ('u', 4), ('U', 8)].lookup c

/-- The character that hexadecimal digits name. -/
def codePoint? (digits : List Char) : Option Char := do
  let values ← digits.mapM Json.hexDigit?
  let code := values.foldl (fun n d => 16 * n + d) 0
  if code.isValidChar then some (Char.ofNat code) else none

/-- The character of an escape, from behind the backslash on, and how many characters
the escape takes after its letter. -/
def escape? (letter : Char) (rest : List Spot) : Option (Char × Nat) :=
  match escapeWidth? letter with
  | none => (escapeLetter? letter).map (·, 0)
  | some width =>
    if rest.length < width then none
    else (codePoint? ((rest.take width).map Spot.char)).map (·, width)

/-- A scalar up to its closing quote, and the text behind it. Single quotes know no
escape but the doubled quote. -/
def quoted? (quote : Char) (gap : Gap) (text : List Spot) : Option (List Char × List Spot) :=
  match text with
  | [] => none
  | s :: rest =>
    if isBlank s.char || isBreak s.char then quoted? quote (gap.add s.char) rest
    else if startsMark (s :: rest) then none
    else if s.char = quote then
      if quote = '\'' && startsAmong ['\''] rest then do
        let (more, after) ← quoted? quote .empty (rest.drop 1)
        some (gap.text ++ quote :: more, after)
      else some (gap.text, rest)
    else if s.char = '\\' && quote = '\x22' then
      match rest with
      | [] => none
      | letter :: rest =>
        if isBreak letter.char then do
          let (more, after) ← quoted? quote ⟨[], [], true⟩ rest
          some (gap.text ++ more, after)
        else do
          let (c, width) ← escape? letter.char rest
          let (more, after) ← quoted? quote .empty (rest.drop width)
          some (gap.text ++ c :: more, after)
    else do
      let (more, after) ← quoted? quote .empty rest
      some (gap.text ++ s.char :: more, after)
termination_by text.length
decreasing_by all_goals simp_all <;> omega

/-! ## Progress -/

theorem length_plain? {flow : Bool} {margin : Nat} {gap : Gap} {text after : List Spot}
    {chars : List Char} {below : Bool}
    (h : plain? flow margin gap text = some (chars, below, after)) :
    after.length ≤ text.length := by
  fun_induction plain? flow margin gap text generalizing chars below after <;>
    grind [Option.bind_eq_some_iff]

theorem length_quoted? {quote : Char} {gap : Gap} {text after : List Spot} {chars : List Char}
    (h : quoted? quote gap text = some (chars, after)) : after.length ≤ text.length := by
  fun_induction quoted? quote gap text generalizing chars after <;>
    grind [Option.bind_eq_some_iff]

end SchemaLang.Yaml
