import SchemaLang.Outline.Grammar
import SchemaLang.Proofs.Number.Numeral
import SchemaLang.Proofs.OrderedMap

/-!
# Phrases

The grammar of the language as a relation between token lists and what they mean, one
inductive predicate for each production. No order of reading is involved: a phrase is
put together from its parts, and nothing says how they are found.

```text
unit        := (model | enum | typedef | inclusion)*
model       := 'model' IDENT (':' STRING)? '{' field* '}' ';'?
field       := visibility? type IDENT ('=' value)? ';'
visibility  := 'public' | 'private' | 'secret'
type        := IDENT ('<' type '>')? ('(' option ')')?
option      := value | IDENT
enum        := 'enum' IDENT '{' (IDENT (',' IDENT)* ','?)? '}' ';'?
typedef     := 'typedef' IDENT type ';'?
inclusion   := 'import' STRING ';'?
value       := STRING | NUMBER | BOOLEAN
```
-/

namespace SchemaLang.Grammar

/-! ## Parts that may be missing, and repetition -/

/-- A mark or nothing. -/
inductive OptionalMark (mark : Symbol) : List Token → Prop where
  | absent : OptionalMark mark []
  | present {t : Token} (marked : t.kind = .symbol mark) : OptionalMark mark [t]

/-- Phrases of one sort, one after another. -/
inductive Sequence {α : Type} (P : List Token → α → Prop) :
    List Token → List α → Prop where
  | nil : Sequence P [] []
  | cons {phrase rest : List Token} {a : α} {as : List α} (first : P phrase a)
    (others : Sequence P rest as) : Sequence P (phrase ++ rest) (a :: as)

/-! ## Literals and types -/

/-- A string stands for its content, a number for what its numeral says, and a truth
value for itself in any letter case. -/
inductive IsLiteral (t : Token) : Value → Prop where
  | text (kind : t.kind = .string) : IsLiteral t (.text t.lexeme)
  | number {x : Binary64} (kind : t.kind = .number)
    (numeral : Numeral.IsNumeral t.lexeme.toList x) : IsLiteral t (.number x)
  | boolean (kind : t.kind = .boolean) :
    IsLiteral t (.boolean (Keyword.lowerCase t.lexeme = "true"))

/-- What may stand between the parentheses of a type. A name counts as text. -/
inductive IsOption (t : Token) : Value → Prop where
  | name (kind : t.kind = .identifier) : IsOption t (.text t.lexeme)
  | literal {v : Value} (literal : IsLiteral t v) : IsOption t v

inductive OptionsPhrase : List Token → Option Value → Prop where
  | absent : OptionsPhrase [] none
  | present {opening t closing : Token} {v : Value} (opens : opening.kind = .symbol .parenOpen)
    (chosen : IsOption t v) (closes : closing.kind = .symbol .parenClose) :
    OptionsPhrase [opening, t, closing] (some v)

/-- A type, with a parameter or without. -/
inductive TypePhrase : List Token → FieldType → Prop where
  | plain {name : Token} {options : List Token} {chosen : Option Value}
    (named : name.kind = .identifier) (optional : OptionsPhrase options chosen) :
    TypePhrase (name :: options) (.plain name.lexeme chosen)
  | parametric {name opening closing : Token} {inner options : List Token}
    {parameter : FieldType} {chosen : Option Value} (named : name.kind = .identifier)
    (opens : opening.kind = .symbol .lessThan) (typed : TypePhrase inner parameter)
    (closes : closing.kind = .symbol .greaterThan) (optional : OptionsPhrase options chosen) :
    TypePhrase (name :: opening :: (inner ++ closing :: options))
      (.parametric name.lexeme parameter chosen)

/-! ## Fields and models -/

/-- A visibility; without a word for it, private. -/
inductive VisibilityPhrase : List Token → Visibility → Prop where
  | absent : VisibilityPhrase [] .privateField
  | present {t : Token} {v : Visibility} (kind : t.kind = .keyword (.visibility v)) :
    VisibilityPhrase [t] v

inductive DefaultPhrase : List Token → Option Value → Prop where
  | absent : DefaultPhrase [] none
  | present {mark t : Token} {v : Value} (marked : mark.kind = .symbol .equals)
    (literal : IsLiteral t v) : DefaultPhrase [mark, t] (some v)

/-- A field. Its trace is that of the visibility or, when there is none, of the type. -/
inductive FieldPhrase (path : Option String) : List Token → Field → Prop where
  | intro {visible typed defaulted : List Token} {name closing first : Token}
    {visibility : Visibility} {type : FieldType} {default : Option Value}
    (visibly : VisibilityPhrase visible visibility) (ofType : TypePhrase typed type)
    (named : name.kind = .identifier) (byDefault : DefaultPhrase defaulted default)
    (closes : closing.kind = .symbol .semicolon) (leads : (visible ++ typed).head? = some first) :
    FieldPhrase path (visible ++ (typed ++ name :: (defaulted ++ [closing])))
      ⟨name.lexeme, type, visibility, default, first.trace path⟩

inductive TablePhrase : List Token → Option String → Prop where
  | absent : TablePhrase [] none
  | present {mark name : Token} (marked : mark.kind = .symbol .colon)
    (named : name.kind = .string) : TablePhrase [mark, name] (some name.lexeme)

/-- A model. Of the fields of one name the last counts, at the place of the first. -/
inductive ModelPhrase (path : Option String) : List Token → Model → Prop where
  | intro {keyword name opening closing : Token} {tabled members ending : List Token}
    {table : Option String} {written : List Field} {fields : OrderedMap Field}
    (kind : keyword.kind = .keyword (.declare .model)) (named : name.kind = .identifier)
    (stored : TablePhrase tabled table) (opens : opening.kind = .symbol .braceOpen)
    (lists : Sequence (FieldPhrase path) members written)
    (closes : closing.kind = .symbol .braceClose) (ends : OptionalMark .semicolon ending)
    (collected : fields.Collects (written.map fun f => (f.name, f))) :
    ModelPhrase path (keyword :: name :: (tabled ++ opening :: (members ++ closing :: ending)))
      ⟨name.lexeme, table, fields, keyword.trace path, none⟩

/-! ## Enums, typedefs and inclusions -/

/-- Names with commas between them and perhaps one behind the last, or none at all. -/
inductive ValuesPhrase (path : Option String) : List Token → List (String × Trace) → Prop where
  | none : ValuesPhrase path [] []
  | last {t : Token} (named : t.kind = .identifier) :
    ValuesPhrase path [t] [(t.lexeme, t.trace path)]
  | more {t mark : Token} {rest : List Token} {values : List (String × Trace)}
    (named : t.kind = .identifier) (marked : mark.kind = .symbol .comma)
    (others : ValuesPhrase path rest values) :
    ValuesPhrase path (t :: mark :: rest) ((t.lexeme, t.trace path) :: values)

inductive EnumPhrase (path : Option String) : List Token → Enum → Prop where
  | intro {keyword name opening closing : Token} {members ending : List Token}
    {values : List (String × Trace)} (kind : keyword.kind = .keyword (.declare .enum))
    (named : name.kind = .identifier) (opens : opening.kind = .symbol .braceOpen)
    (lists : ValuesPhrase path members values) (closes : closing.kind = .symbol .braceClose)
    (ends : OptionalMark .semicolon ending) :
    EnumPhrase path (keyword :: name :: opening :: (members ++ closing :: ending))
      ⟨name.lexeme, values.map Prod.fst, values.map Prod.snd, keyword.trace path⟩

inductive TypeDefPhrase (path : Option String) : List Token → TypeDef → Prop where
  | intro {keyword name : Token} {typed ending : List Token} {type : FieldType}
    (kind : keyword.kind = .keyword (.declare .typeDef)) (named : name.kind = .identifier)
    (ofType : TypePhrase typed type) (ends : OptionalMark .semicolon ending) :
    TypeDefPhrase path (keyword :: name :: (typed ++ ending))
      ⟨name.lexeme, type, keyword.trace path⟩

inductive InclusionPhrase : List Token → Token → Prop where
  | intro {keyword file : Token} {ending : List Token}
    (kind : keyword.kind = .keyword .importFile) (named : file.kind = .string)
    (ends : OptionalMark .semicolon ending) : InclusionPhrase (keyword :: file :: ending) file

/-! ## Units -/

inductive ItemPhrase (path : Option String) : List Token → Item → Prop where
  | model {tokens : List Token} {m : Model} (phrase : ModelPhrase path tokens m) :
    ItemPhrase path tokens (.declaration (.model m))
  | enum {tokens : List Token} {e : Enum} (phrase : EnumPhrase path tokens e) :
    ItemPhrase path tokens (.declaration (.enum e))
  | typeDef {tokens : List Token} {t : TypeDef} (phrase : TypeDefPhrase path tokens t) :
    ItemPhrase path tokens (.declaration (.typeDef t))
  | inclusion {tokens : List Token} {file : Token} (phrase : InclusionPhrase tokens file) :
    ItemPhrase path tokens (.importFile file)

/-- A unit: top-level constructs in the source of a path, one after another. -/
abbrev UnitPhrase (path : Option String) : List Token → List Item → Prop :=
  Sequence (ItemPhrase path)

end SchemaLang.Grammar
