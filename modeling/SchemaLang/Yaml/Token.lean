/-!
# Tokens of YAML

What a text is made of once its layout is known. Block lists and maps have a token where
they begin and one where they end, although nothing is written there.
-/

namespace SchemaLang.Yaml

/-- A token of a text. -/
inductive Token where
  /-- The version of the language that a directive asks for. -/
  | version (major minor : Nat)
  /-- A handle for tags that a directive introduces, with the octets that it stands for. -/
  | handle (name : String) (meaning : List UInt8)
  | documentStart
  | documentEnd
  | listStart
  | mapStart
  | blockEnd
  | openBracket
  | closeBracket
  | openBrace
  | closeBrace
  | comma
  | dash
  | key
  | value
  /-- A name for the node that follows. -/
  | anchor (name : String)
  /-- The node of a name. -/
  | reference (name : String)
  /-- A tag, by its handle and the octets behind it. Tags written out in full have no
  handle. -/
  | tag (handle : Option String) (suffix : List UInt8)
  | plain (text : String)
  | quoted (text : String)
  /-- A scalar on lines of its own, which are folded or not. -/
  | block (folded : Bool) (text : String)
deriving DecidableEq, Repr, Inhabited

end SchemaLang.Yaml
