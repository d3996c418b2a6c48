/-!
# YAML

The values of YAML as settings use them: scalars, lists and maps. A plain scalar keeps
its text; what it means is up to the reader of the value. Any other scalar, in quotes or
as a block of lines, is a text, unless a tag says that the block is a truth value.

A node may be referred to from elsewhere in its document. References are followed only
when a document is used, so a node may well refer to itself.
-/

namespace SchemaLang

/-- A YAML value. An absent value is an empty plain scalar. -/
inductive Yaml where
  | plain (text : String)
  /-- A scalar that is a text whatever it says. -/
  | quoted (text : String)
  /-- A text that is marked as a truth value. -/
  | truth (text : String)
  | list (items : List Yaml)
  | map (pairs : List (Yaml × Yaml))
  /-- What stands for the node of a number. -/
  | reference (number : Nat)
deriving Inhabited, Repr

namespace Yaml

/-- The value that stands where nothing is written. -/
def absent : Yaml := plain ""

/-- The text of a scalar. -/
def scalar? : Yaml → Option String
  | plain text => some text
  | quoted text => some text
  | truth text => some text
  | _ => none

/-- The truth value that a text spells. -/
def spelledTruth? (text : String) : Option Bool :=
  if text ∈ ["true", "True", "TRUE"] then some true
  else if text ∈ ["false", "False", "FALSE"] then some false
  else none

/-- A truth value, which is a plain scalar or one that is marked as such. -/
def boolean? : Yaml → Option Bool
  | plain text => spelledTruth? text
  | truth text => spelledTruth? text
  | _ => none

/-- The items of a list. An absent value is a list without items. -/
def items? : Yaml → Option (List Yaml)
  | list items => some items
  | plain text => if text = "" then some [] else none
  | _ => none

/-- The pairs of a map. An absent value is a map without pairs. -/
def pairs? : Yaml → Option (List (Yaml × Yaml))
  | map pairs => some pairs
  | plain text => if text = "" then some [] else none
  | _ => none

/-! ## Documents -/

/-- A value with the nodes that references in it stand for. -/
structure Document where
  root : Yaml
  /-- The nodes that can be referred to, by number. Of those with one number the first
  one counts. -/
  numbered : List (Nat × Yaml)
deriving Repr

namespace Document

/-- The node that a value stands for, which is the value itself unless it is a reference. -/
def follow (d : Document) (value : Yaml) : Yaml :=
  match value with
  | reference number => (d.numbered.lookup number).getD value
  | _ => value

/-- The items of a list, with references followed. -/
def items? (d : Document) (value : Yaml) : Option (List Yaml) :=
  value.items?.map fun items => items.map d.follow

/-- The pairs of a map, with references followed. -/
def pairs? (d : Document) (value : Yaml) : Option (List (Yaml × Yaml)) :=
  value.pairs?.map fun pairs => pairs.map fun pair => (d.follow pair.1, d.follow pair.2)

end Document

end Yaml

end SchemaLang
