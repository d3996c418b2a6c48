/-!
# The words of the language

The reserved words: the three kinds of declaration, the import, and the three
visibilities. They are recognised in any letter case. The names of the base types
are not reserved; they are looked up as they are written.
-/

namespace SchemaLang

/-- What a source can declare. -/
inductive DeclarationKind where
  | model
  | enum
  | typeDef
deriving DecidableEq, Repr, Inhabited

namespace DeclarationKind

/-- Every kind. -/
def all : List DeclarationKind := [.model, .enum, .typeDef]

/-- The word for a kind. -/
def name : DeclarationKind → String
  | model => "model"
  | enum => "enum"
  | typeDef => "typedef"

theorem mem_all (k : DeclarationKind) : k ∈ all := by
  cases k <;> decide

end DeclarationKind

/-- Who may see a field. -/
inductive Visibility where
  | publicField
  | privateField
  | secretField
deriving DecidableEq, Repr, Inhabited

namespace Visibility

/-- Every visibility. -/
def all : List Visibility := [.publicField, .privateField, .secretField]

/-- The word for a visibility. -/
def name : Visibility → String
  | publicField => "public"
  | privateField => "private"
  | secretField => "secret"

/-- The visibility of a word, spelled exactly. -/
def ofName? (word : String) : Option Visibility :=
  all.find? (·.name = word)

theorem ofName?_name (v : Visibility) : ofName? v.name = some v := by
  cases v <;> decide

end Visibility

/-- A reserved word. -/
inductive Keyword where
  | declare (kind : DeclarationKind)
  | importFile
  | visibility (visibility : Visibility)
deriving DecidableEq, Repr

namespace Keyword

/-- Every reserved word. -/
def all : List Keyword :=
  DeclarationKind.all.map declare ++ importFile :: Visibility.all.map visibility

/-- The spelling of a reserved word. -/
def name : Keyword → String
  | declare kind => kind.name
  | importFile => "import"
  | visibility v => v.name

/-- The same word in lower case. -/
def lowerCase (word : String) : String :=
  String.ofList (word.toList.map Char.toLower)

/-- The reserved word that a word spells in some letter case. -/
def ofWord? (word : String) : Option Keyword :=
  all.find? (·.name = lowerCase word)

theorem ofWord?_name (k : Keyword) : ofWord? k.name = some k := by
  cases k with
  | declare kind => cases kind <;> decide
  | importFile => decide
  | visibility v => cases v <;> decide

end Keyword

/-- The types that need no declaration. -/
def baseTypes : List String :=
  ["string", "boolean", "integer", "decimal", "array", "custom", "ref"]

/-- Whether a name is that of a base type. -/
def isBaseType (name : String) : Bool :=
  baseTypes.contains name

end SchemaLang
