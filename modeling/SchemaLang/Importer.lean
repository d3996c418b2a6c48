import SchemaLang.Outline.Grammar

/-!
# Importers

An importer finds the source that an import names, given the path of the source
that asks. While a source is read, the paths of the sources that are importing form
a chain; an import whose source is on the chain is refused. An importer carries the
guarantee that following its imports comes to an end. It does whenever its answers
use finitely many paths, because the chain never holds a path twice (`ofPaths`).
-/

namespace SchemaLang

/-- A source that an import has been resolved to. The path is its identity. -/
structure ImportedSource where
  path : String
  text : String
deriving DecidableEq, Repr

/-- The items of the source, with its path in their traces. -/
def ImportedSource.outline (source : ImportedSource) : Outline :=
  .ofText (some source.path) source.text

/-- A point in the reading of a source: the paths of the sources that import it, the
outermost first, its own path, and the items still to come. -/
structure Reading where
  chain : List String
  path : Option String
  items : List Item

namespace Reading

/-- The paths of the sources being read, the outermost first. -/
def underway (r : Reading) : List String :=
  r.chain ++ r.path.toList

end Reading

namespace Importer

/-- What reading does next: it goes on to the following item, or into an imported
source that is not being read already. -/
inductive Step (resolve : Option String → String → Option ImportedSource) :
    Reading → Reading → Prop where
  | next (chain : List String) (path : Option String) (item : Item) (rest : List Item) :
    Step resolve ⟨chain, path, rest⟩ ⟨chain, path, item :: rest⟩
  | enter (chain : List String) (path : Option String) (file : Token) (rest : List Item)
      (source : ImportedSource) (found : resolve path file.lexeme = some source)
      (fresh : source.path ∉ chain ++ path.toList) :
    Step resolve ⟨chain ++ path.toList, some source.path, source.outline.items⟩
      ⟨chain, path, .importFile file :: rest⟩

end Importer

/-- A way to find imported sources under which every reading comes to an end. -/
structure Importer where
  resolve : Option String → String → Option ImportedSource
  ends : WellFounded (Importer.Step resolve)

namespace Importer

/-- The paths of a list that no source being read has. -/
def unread (paths : List String) (r : Reading) : List String :=
  paths.filter (· ∉ r.underway)

theorem length_unread_lt {paths : List String} {chain : List String} {path : Option String}
    {items inner : List Item} {p : String} (hp : p ∈ paths) (hfresh : p ∉ chain ++ path.toList) :
    (unread paths ⟨chain ++ path.toList, some p, inner⟩).length <
      (unread paths ⟨chain, path, items⟩).length := by
  have hsub : unread paths ⟨chain ++ path.toList, some p, inner⟩ =
      (unread paths ⟨chain, path, items⟩).filter (· ≠ p) := by
    simp only [unread, Reading.underway, List.filter_filter, Option.toList_some, List.mem_append,
      List.mem_singleton, not_or]
    congr 1
    funext q
    by_cases h : q = p <;> simp [h]
  rw [hsub]
  apply List.length_filter_lt_length_iff_exists.2
  refine ⟨p, ?_, by simp⟩
  simp only [unread, Reading.underway, List.mem_filter]
  exact ⟨hp, by simpa using hfresh⟩

/-- Answers that use finitely many paths lead every reading to an end. -/
theorem wellFounded_step {resolve : Option String → String → Option ImportedSource}
    {paths : List String}
    (finite : ∀ current file source, resolve current file = some source → source.path ∈ paths) :
    WellFounded (Step resolve) := by
  refine Subrelation.wf (r := InvImage (Prod.Lex (· < ·) (· < ·)) fun r : Reading =>
    ((unread paths r).length, r.items.length)) ?_ (InvImage.wf _ (Prod.lex Nat.lt_wfRel
      Nat.lt_wfRel).wf)
  intro a b h
  cases h with
  | next chain path item rest => exact Prod.Lex.right _ (by simp)
  | enter chain path file rest source found fresh =>
    exact Prod.Lex.left _ _ (length_unread_lt (finite _ _ _ found) fresh)

/-- The importer of a function whose answers use the paths of a list only. -/
def ofPaths (resolve : Option String → String → Option ImportedSource) (paths : List String)
    (finite : ∀ current file source, resolve current file = some source → source.path ∈ paths) :
    Importer :=
  ⟨resolve, wellFounded_step finite⟩

/-- The importer that finds nothing. -/
def none : Importer :=
  ofPaths (fun _ _ => Option.none) [] (fun _ _ _ h => nomatch h)

instance : Inhabited Importer := ⟨none⟩

end Importer

end SchemaLang
