import SchemaLang.Schema
import SchemaLang.Scope.Similarity

/-!
# Scopes

The names that types may use: the base types and a collection of declared names. For
a name that is not among them the scope suggests the most similar one that is.
-/

namespace SchemaLang

/-! ## The closest candidate -/

/-- Of two candidates the one of higher score, and of equal ones the smaller name. -/
def closer {σ : Type} [LT σ] [DecidableLT σ] (score : String → σ) (a b : String) : String :=
  if score a < score b then b
  else if score b < score a then a
  else if b < a then b
  else a

/-- The closest of the candidates that reach a threshold, if there are any. -/
def closest? {σ : Type} [LT σ] [DecidableLT σ] (score : String → σ) (threshold : σ)
    (candidates : List String) : Option String :=
  match candidates.filter fun c => ¬ score c < threshold with
  | [] => none
  | first :: rest => some (rest.foldl (closer score) first)

/-! ## Scopes -/

/-- The declared names that types may use. -/
structure Scope where
  names : List String
deriving DecidableEq, Repr

namespace Scope

/-- The scope of the names of a schema. -/
def ofSchema (s : Schema) : Scope := ⟨s.names⟩

/-- The scope with more names. -/
def extend (scope : Scope) (names : List String) : Scope :=
  ⟨scope.names ++ names⟩

/-- Whether a type may use a name. -/
def resolves (scope : Scope) (name : String) : Bool :=
  isBaseType name || scope.names.contains name

/-- The name that types may use and that is closest to a given one, as a score has it. -/
def closestTo? {σ : Type} [LT σ] [DecidableLT σ] (scope : Scope) (score : String → String → σ)
    (threshold : σ) (input : String) : Option String :=
  closest? (score input) threshold (baseTypes ++ scope.names)

/-- The similarity from which a name is suggested. -/
def threshold : Float := 0.8

/-- The name to suggest in place of another one. -/
def suggest? (scope : Scope) (input : String) : Option String :=
  scope.closestTo? Similarity.jaroWinkler threshold input

end Scope

end SchemaLang
