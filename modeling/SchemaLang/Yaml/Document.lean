import SchemaLang.Yaml
import SchemaLang.Yaml.Layout

/-!
# Documents

The value of a text that holds one document, from its tokens:

```text
document   := (version | handle)* (documentStart node?)? documentEnd*
node       := reference | (anchor | tag)* (scalar | collection)?
collection := listStart (dash node?)* blockEnd
            | (dash node?)+
            | mapStart (key node? (value node?)?)* blockEnd
            | openBracket (item (comma item)* comma?)? closeBracket
            | openBrace (pair (comma pair)* comma?)? closeBrace
item       := node | key node? (value node?)?
pair       := node | key node? (value node?)?
```

A node that is left out is an absent value. A list whose dashes stand in the column of
the keys around it has no tokens for where it begins and ends; it can be only the key or
the value of a pair. Without tokens there is no document, which is an absent value too.

A named node gets a number as it begins, the number of names that there are before it. A
reference takes the number that its name has where the reference stands.
-/

namespace SchemaLang.Yaml.Document

/-- What is left to be read of a document, and what has been named in it. -/
structure State where
  tokens : List Token
  /-- The names of nodes, each once, with the number that it stands for. -/
  names : List (String × Nat)
  /-- The nodes by number, the one that begins last first. -/
  numbered : List (Nat × Yaml)
  /-- The handles that tags may have, with the octets that they stand for. -/
  handles : List (String × List UInt8)

/-- A step that reads a part of a document, unless the document is malformed. -/
abbrev Reading (α : Type) : Type := StateT State Option α

/-! ## Tokens -/

/-- The next token. -/
def peek : Reading (Option Token) := do
  return (← get).tokens.head?

/-- Goes past the next token. -/
def skip : Reading Unit :=
  modify fun s => { s with tokens := s.tokens.drop 1 }

/-- Goes past the next token if it is a given one. -/
def accept (token : Token) : Reading Bool := do
  if (← peek) = some token then
    skip
    return true
  else return false

/-- Goes past the next token, which has to be a given one. -/
def expect (token : Token) : Reading Unit := do
  if !(← accept token) then failure

/-- An absent value in front of some tokens, else what a step reads. -/
def unlessBefore (tokens : List Token) (read : Reading Yaml) : Reading Yaml := do
  if (← peek).any tokens.contains then return absent else read

/-! ## Names and tags -/

/-- What stands for the node of a name. -/
def referenceTo (name : String) : Reading Yaml := do
  match (← get).names.lookup name with
  | some number => return reference number
  | none => failure

/-- Reads a node under a name. If the name is there already, the number of names does not
grow, so that a later node gets the same number; it takes the place of this one for all
references. -/
def naming (name : String) (read : Reading Yaml) : Reading Yaml := do
  let before ← get
  let number := before.names.length
  set { before with names := (name, number) :: before.names.filter fun known => known.1 ≠ name }
  let value ← read
  modify fun s =>
    let within := s.numbered.take (s.numbered.length - before.numbered.length)
    { s with numbered := within ++ (number, value) :: before.numbered }
  return value

/-- Goes past a tag, if there is one, and gives its octets. -/
def acceptTag : Reading (Option (List UInt8)) := do
  match ← peek with
  | some (.tag none suffix) =>
    skip
    return some suffix
  | some (.tag (some handle) suffix) =>
    match (← get).handles.lookup handle with
    | some meaning =>
      skip
      return some (meaning ++ suffix)
    | none => failure
  | _ => return none

/-- Goes past an anchor, if there is one, and gives its name. -/
def acceptAnchor : Reading (Option String) := do
  match ← peek with
  | some (.anchor name) =>
    skip
    return some name
  | _ => return none

/-- What stands in front of a node. -/
structure Marks where
  name : Option String
  tag : Option (List UInt8)

/-- Goes past an anchor and a tag, of which there may be one each in either order. -/
def acceptMarks : Reading Marks := do
  let before ← acceptTag
  let name ← acceptAnchor
  let tag ← if before.isNone then acceptTag else pure before
  return ⟨name, tag⟩

/-- Reads a node behind what stands in front of it, which the step is told. -/
def marked (read : Marks → Reading Yaml) : Reading Yaml := do
  let marks ← acceptMarks
  match marks.name with
  | some name => naming name (read marks)
  | none => read marks

/-- The tag of truth values. -/
def truthTag : List UInt8 := octetsOf "tag:yaml.org,2002:bool"

/-- The value of a block scalar. With the tag of truth values it is one, unless its lines
are folded. -/
def ofBlock (marks : Marks) (folded : Bool) (text : String) : Yaml :=
  if !folded && marks.tag = some truthTag then truth text else quoted text

/-- The value of a node of which nothing is written but what stands in front of it. -/
def ofMarks (marks : Marks) : Reading Yaml :=
  if marks.name.isSome || marks.tag.isSome then return absent else failure

/-! ## Nodes -/

/-- What is around a node: brackets, a block list or the document, or a block map. -/
inductive Place where
  | flow
  | block
  | pair
deriving DecidableEq, Repr

mutual

/-- A node. -/
def node : Nat → Place → Reading Yaml
  | 0, _ => failure
  | budget + 1, place => do
    if let some (.reference name) := ← peek then
      skip
      referenceTo name
    else
      marked fun marks => do
        match ← peek with
        | some (.plain text) => do skip; return plain text
        | some (.quoted text) => do skip; return quoted text
        | some (.block folded text) => do skip; return ofBlock marks folded text
        | some .openBracket => do skip; return list (← bracketItems budget true)
        | some .openBrace => do skip; return map (← bracePairs budget true)
        | some .listStart =>
          if place = .flow then failure else do skip; return list (← blockItems budget)
        | some .mapStart =>
          if place = .flow then failure else do skip; return map (← blockPairs budget)
        | some .dash =>
          if place = .pair then return list (← dashItems budget)
          else ofMarks marks
        | _ => ofMarks marks

/-- The items of a block list. -/
def blockItems : Nat → Reading (List Yaml)
  | 0 => failure
  | budget + 1 => do
    if ← accept .blockEnd then return []
    else
      expect .dash
      let item ← unlessBefore [.dash, .blockEnd] (node budget .block)
      return item :: (← blockItems budget)

/-- The items of a list whose dashes stand in the column of the keys around it. -/
def dashItems : Nat → Reading (List Yaml)
  | 0 => failure
  | budget + 1 => do
    if ← accept .dash then
      let item ← unlessBefore [.dash, .key, .value, .blockEnd] (node budget .block)
      return item :: (← dashItems budget)
    else return []

/-- The pairs of a block map. -/
def blockPairs : Nat → Reading (List (Yaml × Yaml))
  | 0 => failure
  | budget + 1 => do
    if ← accept .blockEnd then return []
    else
      expect .key
      let ends : List Token := [.key, .value, .blockEnd]
      let key ← unlessBefore ends (node budget .pair)
      let value ←
        if ← accept .value then unlessBefore ends (node budget .pair) else pure absent
      return (key, value) :: (← blockPairs budget)

/-- The items of a list in brackets. A pair by itself is a map; if its key is left out,
the token behind its mark counts for nothing. -/
def bracketItems : Nat → Bool → Reading (List Yaml)
  | 0, _ => failure
  | budget + 1, isFirst => do
    if ← accept .closeBracket then return []
    else
      if !isFirst then expect .comma
      if ← accept .closeBracket then return []
      else
        let ends : List Token := [.comma, .closeBracket]
        let item ←
          if ← accept .key then
            let key ←
              if (← peek).any fun t => (Token.value :: ends).contains t then
                skip
                pure absent
              else node budget .flow
            let value ←
              if ← accept .value then unlessBefore ends (node budget .flow)
              else pure absent
            pure (map [(key, value)])
          else node budget .flow
        return item :: (← bracketItems budget false)

/-- The pairs of a map in braces. A key may stand without a value. -/
def bracePairs : Nat → Bool → Reading (List (Yaml × Yaml))
  | 0, _ => failure
  | budget + 1, isFirst => do
    if ← accept .closeBrace then return []
    else
      if !isFirst then expect .comma
      if ← accept .closeBrace then return []
      else
        let ends : List Token := [.comma, .closeBrace]
        let pair ←
          if ← accept .key then
            let key ← unlessBefore (.value :: ends) (node budget .flow)
            let value ←
              if ← accept .value then unlessBefore ends (node budget .flow)
              else pure absent
            pure (key, value)
          else pure (← node budget .flow, absent)
        return pair :: (← bracePairs budget false)

end

/-! ## The whole text -/

/-- Whether a token stands before or behind the node of a document. -/
def isOutside : Token → Bool
  | .version _ _ | .handle _ _ | .documentStart | .documentEnd => true
  | _ => false

/-- Whether a token is a directive. -/
def isDirective : Token → Bool
  | .version _ _ | .handle _ _ => true
  | _ => false

/-- The handles that directives introduce, with the octets that they stand for. -/
def newHandles (directives : List Token) : List (String × List UInt8) :=
  directives.filterMap fun
    | .handle name meaning => some (name, meaning)
    | _ => none

/-- Whether directives ask for at most one version, one that is known, and introduce no
handle twice. -/
def agree (directives : List Token) : Bool :=
  let versions := directives.filter fun t => !(t matches .handle _ _)
  decide (versions.length ≤ 1) && versions.all [Token.version 1 1, .version 1 2].contains &&
    decide ((newHandles directives).map Prod.fst).Nodup

/-- The handles of a document that introduces none. -/
def commonHandles : List (String × List UInt8) :=
  [("!", octetsOf "!"), ("!!", octetsOf "tag:yaml.org,2002:")]

/-- Goes past the directives of a document and the mark that has to follow them. The
handles that they introduce count before the common ones. -/
def opening : Reading Unit := do
  let directives := (← get).tokens.takeWhile isDirective
  if !agree directives then failure
  modify fun s =>
    { s with
      tokens := s.tokens.drop directives.length
      handles := newHandles directives ++ s.handles }
  expect .documentStart

/-- The node of the document. -/
def content (budget : Nat) : Reading Yaml := do
  match ← peek with
  | none => return absent
  | some first =>
    if isDirective first || first = .documentStart then
      opening
      if (← peek).all isOutside then return absent else node budget .block
    else node budget .block

/-- The only document of a text. Two steps for each token are enough. -/
def ofTokens? (tokens : List Token) : Option Document := do
  let (root, rest) ← (content (2 * tokens.length + 2)).run ⟨tokens, [], [], commonHandles⟩
  if rest.tokens.all (· = .documentEnd) then some ⟨root, rest.numbered⟩ else none

/-- The document of a text that holds at most one. -/
def parse? (text : String) : Option Document := do
  ofTokens? (← Token.ofText? text)

end SchemaLang.Yaml.Document
