import SchemaLang.Proofs.Outline.Relocation
import SchemaLang.Proofs.Schema.Inlining

/-!
# Schemas of joined texts

A text on a new line behind another is read where the first one ends. What the two amount to
together is what the first amounts to, merged with what the second amounts to when the
declarations it makes itself stand further down (`ofText_merges_joined`). What the second text
imports stays where it was written.
-/

namespace SchemaLang

/-- The declaration on other lines, if it is among the items of a source. -/
def Declaration.mapOwnLine (f : Nat → Nat) (items : List Item) (d : Declaration) : Declaration :=
  if .declaration d ∈ items then d.mapLine f else d

namespace Schema

/-- The schema with the declarations that are among the items of a source on other lines. -/
def mapOwnLine (f : Nat → Nat) (items : List Item) (s : Schema) : Schema :=
  { s with
    models := s.models.mapValues fun _ m =>
      if .declaration (.model m) ∈ items then m.mapLine f else m
    enums := s.enums.mapValues fun _ e =>
      if .declaration (.enum e) ∈ items then e.mapLine f else e
    typedefs := s.typedefs.mapValues fun _ t =>
      if .declaration (.typeDef t) ∈ items then t.mapLine f else t }

variable {resolve : Option String → String → Option ImportedSource} {f : Nat → Nat}
  {own : List Item}

theorem ofKind_mapOwnLine (s : Schema) (kind : DeclarationKind) :
    (s.mapOwnLine f own).ofKind kind =
      (s.ofKind kind).mapValues fun _ d => d.mapOwnLine f own := by
  cases kind <;>
    simp only [ofKind, mapOwnLine, OrderedMap.mapValues_mapValues, Declaration.mapOwnLine,
      Declaration.mapLine, apply_ite Declaration.model, apply_ite Declaration.enum, apply_ite Declaration.typeDef]

/-- Two schemas with the same names in the same order, each with the same declaration. -/
structure SameMaps (s t : Schema) : Prop where
  models : s.models = t.models
  enums : s.enums = t.enums
  typedefs : s.typedefs = t.typedefs

theorem sameMaps_of_ofKind {s t : Schema} (h : ∀ kind, s.ofKind kind = t.ofKind kind) :
    s.SameMaps t where
  models := OrderedMap.mapValues_injective (fun _ _ => Declaration.model.inj) (h .model)
  enums := OrderedMap.mapValues_injective (fun _ _ => Declaration.enum.inj) (h .enum)
  typedefs := OrderedMap.mapValues_injective (fun _ _ => Declaration.typeDef.inj) (h .typeDef)

/-! ## Whose declarations are read -/

/-- What has been read was there before, is listed by the source, or comes from a source that
is none of those being read. -/
theorem Reads.find?_cases {chain : List String} {path : Option String} {draft after : Draft}
    {items : List Item} (h : Reads resolve chain path draft items after)
    {kind : DeclarationKind} {name : String} {d : Declaration}
    (hd : after.schema.find? kind name = some d) :
    draft.schema.find? kind name = some d ∨ .declaration d ∈ items ∨
      ∃ p, d.trace.path = some p ∧ p ∉ chain ++ path.toList := by
  induction h with
  | finish => exact Or.inl hd
  | @declare chain path draft after first rest _ ih =>
    rcases ih hd with hbefore | hlisted | himported
    · rw [find?_declare] at hbefore
      split at hbefore
      · cases hbefore
        exact Or.inr (Or.inl List.mem_cons_self)
      · exact Or.inl hbefore
    · exact Or.inr (Or.inl (List.mem_cons_of_mem _ hlisted))
    · exact Or.inr (Or.inr himported)
  | @enter chain path draft inside after file rest source _ hfresh _ _ _ ihInner ihRest =>
    rcases ihRest hd with hbefore | hlisted | himported
    · rcases find?_merge_cases hbefore with hinside | hbefore
      · refine Or.inr (Or.inr ?_)
        rcases ihInner hinside with hnone | hlisted | ⟨p, hp, hforeign⟩
        · cases (find?_empty kind name).symm.trans hnone
        · exact ⟨source.path, Outline.path_of_mem hlisted, hfresh⟩
        · exact ⟨p, hp, fun hmem => hforeign (List.mem_append_left _ hmem)⟩
      · exact Or.inl hbefore
    · exact Or.inr (Or.inl (List.mem_cons_of_mem _ hlisted))
    · exact Or.inr (Or.inr himported)

theorem Reads.append {chain : List String} {path : Option String} {draft between after : Draft}
    {xs ys : List Item} (h : Reads resolve chain path draft xs between)
    (h' : Reads resolve chain path between ys after) :
    Reads resolve chain path draft (xs ++ ys) after := by
  induction h with
  | finish => exact h'
  | declare _ ih => exact .declare (ih h')
  | enter hfound hfresh hwhole hinner _ _ ih => exact .enter hfound hfresh hwhole hinner (ih h')

end Schema

/-! ## Reading behind another source -/

/-- A draft that holds what another holds, with the own declarations of a source on other lines,
behind a schema that was there in front. -/
def Draft.Continues (front : Schema) (f : Nat → Nat) (own : List Item) (draft joint : Draft) :
    Prop :=
  ∀ kind, joint.schema.ofKind kind = (front.merge (draft.schema.mapOwnLine f own)).ofKind kind

namespace Draft

variable {front : Schema} {f : Nat → Nat} {own : List Item} {draft joint : Draft}

theorem continues_empty (start : Draft) : Continues start.schema f own .empty start := by
  intro kind
  rw [Schema.ofKind_merge, Schema.ofKind_mapOwnLine]
  cases kind <;> rfl

theorem Continues.declare (h : Continues front f own draft joint) {d : Declaration}
    (hown : .declaration d ∈ own) :
    Continues front f own (draft.declare d) (joint.declare (d.mapLine f)) := by
  intro kind
  have hbefore := h kind
  rw [Schema.ofKind_merge, Schema.ofKind_mapOwnLine] at hbefore ⊢
  rw [Schema.ofKind_declare, Schema.ofKind_declare, Schema.ofKind_insert, Schema.ofKind_insert,
    Declaration.kind_mapLine, Declaration.name_mapLine, hbefore]
  split
  · rw [OrderedMap.mapValues_insert, OrderedMap.extend_insert, Declaration.mapOwnLine,
      if_pos hown]
  · rfl

/-- What is imported does not move, since no source that is being read is imported. -/
theorem Continues.addImport (h : Continues front f own draft joint) {inside : Schema}
    (hforeign : ∀ kind name d, inside.find? kind name = some d → .declaration d ∉ own) :
    Continues front f own (draft.addImport inside) (joint.addImport inside) := by
  intro kind
  have hkept : ((inside.ofKind kind).mapValues fun _ d => d.mapOwnLine f own) =
      inside.ofKind kind := by
    apply OrderedMap.ext_find
    · rw [OrderedMap.keys_mapValues]
    · intro name
      rw [OrderedMap.find?_mapValues]
      cases hd : (inside.ofKind kind).find? name with
      | none => rfl
      | some d => rw [Option.map_some, Declaration.mapOwnLine, if_neg (hforeign kind name d hd)]
  have hbefore := h kind
  rw [Schema.ofKind_merge, Schema.ofKind_mapOwnLine] at hbefore ⊢
  rw [Schema.ofKind_addImport, Schema.ofKind_addImport, hbefore, OrderedMap.mapValues_extend, hkept]
  exact (OrderedMap.extend_insertAll _ _ _).symm

end Draft

namespace Schema

variable {resolve : Option String → String → Option ImportedSource} {f : Nat → Nat}
  {own : List Item}

/-- Items that stand on other lines are read behind another source as they are read alone. -/
theorem Reads.continues {chain : List String} {path : Option String} {draft after : Draft}
    {items : List Item} (h : Reads resolve chain path draft items after) {front : Schema}
    {joint : Draft} (hjoint : draft.Continues front f own joint)
    (hitems : ∀ d, .declaration d ∈ items → .declaration d ∈ own)
    (hown : ∀ d, .declaration d ∈ own → d.trace.path = path) :
    ∃ later, Reads resolve chain path joint (items.map (Item.mapLine f)) later ∧
      after.Continues front f own later := by
  induction h generalizing joint with
  | finish => exact ⟨joint, .finish, hjoint⟩
  | @declare chain path draft after d rest _ ih =>
    obtain ⟨later, hlater, hafter⟩ := ih (hjoint.declare (hitems d List.mem_cons_self))
      (fun e he => hitems e (List.mem_cons_of_mem _ he)) hown
    exact ⟨later, .declare hlater, hafter⟩
  | @enter chain path draft inside after file rest source hfound hfresh hwhole hinner _ _ ih =>
    have hforeign : ∀ kind name d, inside.schema.find? kind name = some d →
        .declaration d ∉ own := by
      intro kind name d hd hmem
      have hpath := hown d hmem
      rcases hinner.find?_cases hd with hnone | hlisted | ⟨p, hp, hother⟩
      · cases (find?_empty kind name).symm.trans hnone
      · rw [Outline.path_of_mem hlisted] at hpath
        exact hfresh (by simp [← hpath])
      · rw [hp] at hpath
        exact hother (by simp [← hpath])
    obtain ⟨later, hlater, hafter⟩ := ih (hjoint.addImport hforeign)
      (fun e he => hitems e (List.mem_cons_of_mem _ he)) hown
    exact ⟨later, .enter hfound hfresh hwhole hinner hlater, hafter⟩

/-- A text on a new line behind another. What both amount to is what the first amounts to,
merged with what the second does when its own declarations stand further down by the lines of
the first, and those it imports stand where they were. Its own are those with its path. -/
theorem ofText_merges_joined {importer : Option Importer} {path : Option String} {a b : String}
    {s t : Schema} (ha : ofText importer path a = .ok s) (hb : ofText importer path b = .ok t)
    (hblock : ¬Segment.EndsInBlockComment a.toList) :
    ∃ u, ofText importer path (a ++ "\n" ++ b) = .ok u ∧
      u.SameMaps (s.merge (t.mapOwnLine (· + (a.toList.count '\n' + 1))
        (Outline.ofText path b).items)) ∧
      ∀ d ∈ t.declarations,
        .declaration d ∈ (Outline.ofText path b).items ↔ d.trace.path = path := by
  obtain ⟨hwhole, front, hreads, rfl⟩ := ofText_eq_ok_iff.mp ha
  obtain ⟨hwhole', after, hreads', rfl⟩ := ofText_eq_ok_iff.mp hb
  have hitems : Outline.ofText path a = ⟨(Outline.ofText path a).items, []⟩ := by rw [← hwhole]
  have hitems' : Outline.ofText path b = ⟨(Outline.ofText path b).items, []⟩ := by rw [← hwhole']
  have hjoined := Outline.ofText_join hitems hitems' hblock
  obtain ⟨later, hlater, hcontinues⟩ := hreads'.continues
    (f := (· + (a.toList.count '\n' + 1))) (Draft.continues_empty front) (fun _ hd => hd)
    fun _ => Outline.path_of_mem
  refine ⟨later.schema, ?_, sameMaps_of_ofKind hcontinues, fun d hd => ⟨Outline.path_of_mem, ?_⟩⟩
  · rw [ofText_eq_ok_iff, AmountsTo, hjoined]
    exact ⟨rfl, later, hreads.append hlater, rfl⟩
  · intro hpath
    obtain ⟨name, hfound⟩ := mem_declarations.mp hd
    rcases hreads'.find?_cases hfound with hnone | hlisted | ⟨p, hp, hother⟩
    · cases (find?_empty d.kind name).symm.trans hnone
    · exact hlisted
    · exact absurd (by simp [← hpath, hp]) hother

/-- An importer that knows one source, with one enum. -/
def enumImporter : Importer :=
  .ofPaths enumSource ["a"] (by rintro _ _ _ ⟨⟩; simp)

/-- An enum is replaced by one of its name that the second text imports, which does not move; the
own enum of the second text does. -/
theorem ofText_merges_joined_import :
    ∃ s t u, ofText (some enumImporter) none "enum A \x7b Y \x7d // one" = .ok s ∧
      ofText (some enumImporter) none "import \"a\" enum B \x7b Z \x7d" = .ok t ∧
      ¬Segment.EndsInBlockComment "enum A \x7b Y \x7d // one".toList ∧
      ofText (some enumImporter) none
        ("enum A \x7b Y \x7d // one" ++ "\n" ++ "import \"a\" enum B \x7b Z \x7d") = .ok u ∧
      u.enums = .ofList [("A", ⟨"A", ["X"], [⟨1, 10, some "a"⟩], ⟨1, 1, some "a"⟩⟩),
        ("B", ⟨"B", ["Z"], [⟨2, 21, none⟩], ⟨2, 12, none⟩⟩)] := by
  have ha : ofText (some enumImporter) none "enum A \x7b Y \x7d // one" =
      .ok ⟨.empty, .ofList [("A", ⟨"A", ["Y"], [⟨1, 10, none⟩], ⟨1, 1, none⟩⟩)], .empty, []⟩ := by
    cbv
  have hb : ofText (some enumImporter) none "import \"a\" enum B \x7b Z \x7d" =
      .ok ⟨.empty, .ofList [("A", ⟨"A", ["X"], [⟨1, 10, some "a"⟩], ⟨1, 1, some "a"⟩⟩),
        ("B", ⟨"B", ["Z"], [⟨1, 21, none⟩], ⟨1, 12, none⟩⟩)], .empty, []⟩ := by
    cbv
  have hblock : ¬Segment.EndsInBlockComment "enum A \x7b Y \x7d // one".toList := by
    have hlast : (Segment.segments "enum A \x7b Y \x7d // one".toList).getLast? =
        some (.comment "// one".toList) := by
      cbv
    rw [Segment.endsInBlockComment_iff, hlast]
    rintro ⟨body, hbody, -⟩
    simp at hbody
  have houtline : (Outline.ofText none "import \"a\" enum B \x7b Z \x7d").items =
      [.importFile ⟨.string, "a", 1, 8⟩,
        .declaration (.enum ⟨"B", ["Z"], [⟨1, 21, none⟩], ⟨1, 12, none⟩⟩)] := by
    cbv
  obtain ⟨u, hu, hmaps, -⟩ := ofText_merges_joined ha hb hblock
  refine ⟨_, _, u, ha, hb, hblock, hu, ?_⟩
  rw [hmaps.enums, houtline]
  rfl

end Schema

end SchemaLang
