import SchemaLang.Yaml.Octets
import SchemaLang.Yaml.Spot
import SchemaLang.Yaml.Token

/-!
# Names and tags

What may stand in front of a node: an anchor, which names it, and a tag. A tag is
written out in full, or as a handle and what follows the meaning of the handle.
-/

namespace SchemaLang.Yaml

/-- The name of an anchor, and the text behind it. -/
def name? (text : List Spot) : Option (String × List Spot) :=
  let name := text.takeWhile fun s => isWord s.char
  let rest := text.drop name.length
  if name.isEmpty then none
  else if startsBlank rest || startsAmong ['?', ':', ',', ']', '\x7d', '%', '@', '\x60'] rest then
    some (Spot.spell name, rest)
  else none

/-! ## Tags -/

/-- Whether a character may stand in a tag. -/
def isTagChar (c : Char) : Bool :=
  isWord c ||
    [';', '/', '?', ':', '@', '&', '=', '+', '$', '.', '%', '!', '~', '*', '\'', '(',
      ')'].contains c

/-- Whether a character may stand in a tag that is written out in full. -/
def isUriChar (c : Char) : Bool :=
  isTagChar c || [',', '[', ']'].contains c

/-- The octets that a run of characters of a class writes, and the text behind it. -/
def tagText? (p : Char → Bool) (text : List Spot) : Option (List UInt8 × List Spot) :=
  let run := text.takeWhile fun s => p s.char
  (octets? 0 (run.map Spot.char)).map fun octets => (octets, text.drop run.length)

/-- The octets of a run that is not empty, as far as they count, and the text behind it. -/
def someTagText? (p : Char → Bool) (text : List Spot) : Option (List UInt8 × List Spot) := do
  let (octets, rest) ← tagText? p text
  if octets.isEmpty then none else some (beforeZero octets, rest)

/-- A handle from behind its exclamation mark on, and the text behind it. -/
def handle? (text : List Spot) : Option (String × List Spot) :=
  let word := text.takeWhile fun s => isWord s.char
  match text.drop word.length with
  | [] => none
  | s :: rest =>
    if s.char = '!' then some ("!" ++ Spot.spell word ++ "!", rest) else none

/-- A tag written out in full, from behind its opening bracket on, and the text behind
it. -/
def fullTag? (text : List Spot) : Option (Token × List Spot) := do
  let (octets, rest) ← someTagText? isUriChar text
  if startsAmong ['>'] rest then some (.tag none octets, rest.drop 1) else none

/-- A tag with a handle, from behind the first exclamation mark on, and the text behind
it. One exclamation mark is a handle by itself, unless nothing follows it: then it is
the whole tag. -/
def shortTag? (text : List Spot) : Option (Token × List Spot) :=
  match handle? text with
  | some (handle, rest) => do
    let (suffix, rest) ← someTagText? isTagChar rest
    some (.tag (some handle) suffix, rest)
  | none => do
    let (octets, rest) ← tagText? isTagChar text
    let suffix := beforeZero octets
    if suffix.isEmpty then some (.tag none (octetsOf "!"), rest)
    else some (.tag (some "!") suffix, rest)

/-- Whether a tag may end here. -/
def endsTag (flow : Bool) (rest : List Spot) : Bool :=
  startsBlank rest || (flow && startsAmong [','] rest)

/-- A tag from behind its exclamation mark on, and the text behind it. -/
def tag? (flow : Bool) (text : List Spot) : Option (Token × List Spot) := do
  let written := if startsAmong ['<'] text then fullTag? (text.drop 1) else shortTag? text
  let (token, rest) ← written
  if endsTag flow rest then some (token, rest) else none

/-! ## Progress -/

theorem length_name? {text rest : List Spot} {name : String}
    (h : name? text = some (name, rest)) : rest.length ≤ text.length := by
  grind [name?]

theorem length_tagText? {p : Char → Bool} {text rest : List Spot} {octets : List UInt8}
    (h : tagText? p text = some (octets, rest)) : rest.length ≤ text.length := by
  obtain ⟨read, _, h⟩ := Option.map_eq_some_iff.1 h
  cases h
  simp

theorem length_someTagText? {p : Char → Bool} {text rest : List Spot} {octets : List UInt8}
    (h : someTagText? p text = some (octets, rest)) : rest.length ≤ text.length := by
  simp only [someTagText?, Option.bind_eq_bind, Option.bind_eq_some_iff] at h
  obtain ⟨⟨read, after⟩, ht, h⟩ := h
  split at h
  · cases h
  · cases h
    exact length_tagText? ht

theorem length_handle? {text rest : List Spot} {name : String}
    (h : handle? text = some (name, rest)) : rest.length ≤ text.length := by
  simp only [handle?] at h
  split at h
  · cases h
  · next s below hd =>
    have bound := congrArg List.length hd
    simp only [List.length_drop, List.length_cons] at bound
    grind

theorem length_fullTag? {text rest : List Spot} {token : Token}
    (h : fullTag? text = some (token, rest)) : rest.length ≤ text.length := by
  simp only [fullTag?, Option.bind_eq_bind, Option.bind_eq_some_iff] at h
  obtain ⟨⟨octets, after⟩, ht, h⟩ := h
  have bound := length_someTagText? ht
  split at h
  · cases h
    simp only [List.length_drop]
    omega
  · cases h

theorem length_shortTag? {text rest : List Spot} {token : Token}
    (h : shortTag? text = some (token, rest)) : rest.length ≤ text.length := by
  simp only [shortTag?, Option.bind_eq_bind] at h
  split at h
  · next name after hh =>
    obtain ⟨⟨suffix, behind⟩, ht, h⟩ := Option.bind_eq_some_iff.1 h
    cases h
    exact Nat.le_trans (length_someTagText? ht) (length_handle? hh)
  · obtain ⟨⟨octets, behind⟩, ht, h⟩ := Option.bind_eq_some_iff.1 h
    have bound := length_tagText? ht
    split at h <;> cases h <;> exact bound

theorem length_tag? {flow : Bool} {text rest : List Spot} {token : Token}
    (h : tag? flow text = some (token, rest)) : rest.length ≤ text.length := by
  simp only [tag?, Option.bind_eq_bind, Option.bind_eq_some_iff] at h
  obtain ⟨⟨read, after⟩, ht, h⟩ := h
  have bound : after.length ≤ text.length := by
    split at ht
    · have inside := length_fullTag? ht
      simp only [List.length_drop] at inside
      omega
    · exact length_shortTag? ht
  split at h
  · cases h
    exact bound
  · cases h

end SchemaLang.Yaml
