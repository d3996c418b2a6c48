import SchemaLang.Yaml.BlockScalar
import SchemaLang.Yaml.Directive
import SchemaLang.Yaml.Scalar

/-!
# The token at a place

Which token begins at a character, as far as the text tells it: by the character, by
what is around it, a bracket or not, and by the margin, the first column inside the
innermost open block. Main statement: every token takes at least the character it
begins with.
-/

namespace SchemaLang.Yaml.Token

/-- A token, whether a line end that belongs to it stands behind its text, and the text
from there on. -/
structure Found where
  token : Token
  endsBelow : Bool
  rest : List Spot
deriving DecidableEq, Repr

/-- The token of a single character that is one wherever it stands. -/
def ofChar? (c : Char) : Option Token :=
  [('[', openBracket), (']', closeBracket), ('\x7b', openBrace), ('\x7d', closeBrace),
    (',', comma)].lookup c

/-- The token of a single character that is one in front of a blank; a question mark and
a colon are so anywhere within brackets. -/
def ofIndicator? (flow : Bool) (c : Char) (rest : List Spot) : Option Token :=
  if c = '-' && startsBlank rest then some dash
  else if c = '?' && (flow || startsBlank rest) then some key
  else if c = ':' && (flow || startsBlank rest) then some value
  else none

/-- The characters with which no plain scalar begins, unless they are one of the first
three and stand in front of something else than a blank. -/
def indicators : List Char :=
  ['-', '?', ':', ',', '[', ']', '\x7b', '\x7d', '#', '&', '*', '!', '|', '>', '\'', '\x22',
    '%', '@', '\x60']

/-- Whether a plain scalar begins with a character that is no token by itself. -/
def beginsPlain (flow : Bool) (c : Char) : Bool :=
  (!indicators.contains c || c = '-' || (!flow && (c = '?' || c = ':'))) &&
    !isBlank c && !isBreak c

/-- The token that begins with a character, within brackets or not. -/
def read? (flow : Bool) (margin : Nat) (s : Spot) (rest : List Spot) : Option Found :=
  let c := s.char
  let single (token : Token) : Found := ⟨token, false, rest⟩
  if s.column = 0 && c = '%' then
    (directive? rest).map fun r => ⟨r.1, false, r.2⟩
  else if startsMark (s :: rest) then
    some ⟨if c = '-' then documentStart else documentEnd, false, rest.drop 2⟩
  else if let some token := ofChar? c then some (single token)
  else if let some token := ofIndicator? flow c rest then some (single token)
  else if c = '*' then (name? rest).map fun r => ⟨reference r.1, false, r.2⟩
  else if c = '&' then (name? rest).map fun r => ⟨anchor r.1, false, r.2⟩
  else if c = '!' then (tag? flow rest).map fun r => ⟨r.1, false, r.2⟩
  else if !flow && (c = '|' || c = '>') then
    let folded : Bool := c = '>'
    (blockScalar? folded margin rest).map fun r =>
      ⟨block folded (String.ofList r.1), false, r.2⟩
  else if c = '\'' || c = '\x22' then
    (quoted? c .empty rest).map fun r => ⟨quoted (String.ofList r.1), false, r.2⟩
  else if beginsPlain flow c then
    (plain? flow margin .empty rest).map fun r =>
      ⟨plain (String.ofList (c :: r.1)), r.2.1, r.2.2⟩
  else none

/-! ## Progress -/

/-- Every token takes the character it begins with. -/
theorem length_read? {flow : Bool} {margin : Nat} {s : Spot} {rest : List Spot}
    {found : Found} (h : read? flow margin s rest = some found) :
    found.rest.length ≤ rest.length := by
  simp only [read?] at h
  split at h
  · obtain ⟨r, hr, rfl⟩ := Option.map_eq_some_iff.1 h
    exact length_directive? hr
  split at h
  · cases h
    simp
  split at h
  · cases h
    exact Nat.le_refl _
  split at h
  · cases h
    exact Nat.le_refl _
  split at h
  · obtain ⟨r, hr, rfl⟩ := Option.map_eq_some_iff.1 h
    exact length_name? hr
  split at h
  · obtain ⟨r, hr, rfl⟩ := Option.map_eq_some_iff.1 h
    exact length_name? hr
  split at h
  · obtain ⟨r, hr, rfl⟩ := Option.map_eq_some_iff.1 h
    exact length_tag? hr
  split at h
  · obtain ⟨r, hr, rfl⟩ := Option.map_eq_some_iff.1 h
    exact length_blockScalar? hr
  split at h
  · obtain ⟨r, hr, rfl⟩ := Option.map_eq_some_iff.1 h
    exact length_quoted? hr
  split at h
  · obtain ⟨r, hr, rfl⟩ := Option.map_eq_some_iff.1 h
    exact length_plain? hr
  · cases h

end SchemaLang.Yaml.Token
