import SchemaLang.Declaration

/-!
# Schemas

The declarations that a source amounts to, its own and those it imports, in three
ordered maps. A later declaration of a name replaces an earlier one in place. What
one source declares twice itself is also kept in a list, for validation to report.
-/

namespace SchemaLang

/-- A declaration whose kind and name the same source had declared before. -/
structure Redeclaration where
  kind : DeclarationKind
  name : String
  trace : Trace
deriving DecidableEq, Repr

/-- The declarations of a source together with those it imports. -/
structure Schema where
  models : OrderedMap Model
  enums : OrderedMap Enum
  typedefs : OrderedMap TypeDef
  redeclared : List Redeclaration
deriving DecidableEq

namespace Schema

/-- The schema without declarations. -/
def empty : Schema := ⟨.empty, .empty, .empty, []⟩

instance : Inhabited Schema := ⟨empty⟩

/-- The schema with a declaration more. -/
def insert (s : Schema) : Declaration → Schema
  | .model m => { s with models := s.models.insert m.name m }
  | .enum e => { s with enums := s.enums.insert e.name e }
  | .typeDef t => { s with typedefs := s.typedefs.insert t.name t }

/-- The schema followed by a second one. -/
def merge (s other : Schema) : Schema :=
  { models := s.models.extend other.models
    enums := s.enums.extend other.enums
    typedefs := s.typedefs.extend other.typedefs
    redeclared := s.redeclared ++ other.redeclared }

/-- The number of declarations. -/
def size (s : Schema) : Nat :=
  s.models.size + s.enums.size + s.typedefs.size

/-- Whether nothing is declared. -/
def isEmpty (s : Schema) : Bool :=
  s.size = 0

/-- The declared names of all kinds. -/
def names (s : Schema) : List String :=
  s.models.keys ++ s.enums.keys ++ s.typedefs.keys

/-- The declarations: enums, typedefs, then models. -/
def declarations (s : Schema) : List Declaration :=
  s.enums.values.map .enum ++ s.typedefs.values.map .typeDef ++ s.models.values.map .model

end Schema

end SchemaLang
