import Mathlib.Data.List.Induction
import SchemaLang.Proofs.OrderedMap
import SchemaLang.Schema.Read

/-!
# Facts about schemas

The three maps of a schema seen as one, from a kind and a name to a declaration. Merging makes
schemas a monoid, order included (`merge_monoid`). Every schema that comes from sources is
keyed: it has each declaration under its own name (`ofText_keyed`, `Assembled.keyed`). What a
list repeats is told for any relation (`repeating`), as kind and name of a declaration may be
repeated anywhere in a text or only in the same occurrence of a source.
-/

namespace SchemaLang

namespace Declaration

/-- The names that the types of a declaration use, at every depth. -/
def typeNames : Declaration → List String
  | model m => m.fields.values.flatMap fun f => f.type.names
  | enum _ => []
  | typeDef t => t.type.names

/-- The declaration as property of a registry. Only models are owned. -/
def bind (id : RegistryId) : Declaration → Declaration
  | model m => model (m.bind id)
  | enum e => enum e
  | typeDef t => typeDef t

@[simp] theorem name_bind (id : RegistryId) (d : Declaration) : (d.bind id).name = d.name := by
  cases d <;> rfl

@[simp] theorem trace_bind (id : RegistryId) (d : Declaration) :
    (d.bind id).trace = d.trace := by
  cases d <;> rfl

@[simp] theorem typeNames_bind (id : RegistryId) (d : Declaration) :
    (d.bind id).typeNames = d.typeNames := by
  cases d <;> rfl

@[simp] theorem bind_bind (id : RegistryId) (d : Declaration) :
    (d.bind id).bind id = d.bind id := by
  cases d <;> rfl

end Declaration

/-! ## Repetition -/

section

variable {α : Type} (repeats : α → α → Prop) [DecidableRel repeats]

/-- The elements of a list that repeat one before them, those in front of the list included. -/
def repeating (front : List α) : List α → List α
  | [] => []
  | a :: rest =>
    (if ∃ e ∈ front, repeats a e then [a] else []) ++ repeating (front ++ [a]) rest

theorem repeating_append (front as bs : List α) :
    repeating repeats front (as ++ bs) =
      repeating repeats front as ++ repeating repeats (front ++ as) bs := by
  induction as generalizing front with
  | nil => simp [repeating]
  | cons a rest ih =>
    simp only [List.cons_append, repeating, ih, List.append_assoc, List.nil_append]

theorem repeating_concat (as : List α) (a : α) :
    repeating repeats [] (as ++ [a]) =
      repeating repeats [] as ++ if ∃ e ∈ as, repeats a e then [a] else [] := by
  rw [repeating_append, List.nil_append, repeating, repeating, List.append_nil]

/-- What no element of a list repeats may as well be missing in front of it. -/
theorem repeating_of_apart {before as : List α} (h : ∀ e ∈ before, ∀ a ∈ as, ¬repeats a e)
    (front : List α) : repeating repeats (before ++ front) as = repeating repeats front as := by
  induction as generalizing front with
  | nil => rfl
  | cons a rest ih =>
    have hsame : (∃ e ∈ before ++ front, repeats a e) ↔ ∃ e ∈ front, repeats a e := by
      constructor
      · rintro ⟨e, he, hrepeats⟩
        rcases List.mem_append.mp he with he | he
        · exact absurd hrepeats (h e he a List.mem_cons_self)
        · exact ⟨e, he, hrepeats⟩
      · rintro ⟨e, he, hrepeats⟩
        exact ⟨e, List.mem_append_right _ he, hrepeats⟩
    simp only [repeating, hsame, List.append_assoc,
      ih fun e he a ha => h e he a (List.mem_cons_of_mem _ ha)]

theorem repeating_eq_nil_iff {as : List α} :
    repeating repeats [] as = [] ↔ as.Pairwise fun e a => ¬repeats a e := by
  induction as using List.reverseRecOn with
  | nil => simp [repeating]
  | append_singleton as a ih =>
    rw [repeating_concat, List.append_eq_nil_iff, ih, List.pairwise_append]
    simp

end

namespace Declaration

/-- The declaration has kind and name of an earlier one. -/
def Repeats (d earlier : Declaration) : Prop :=
  earlier.kind = d.kind ∧ earlier.name = d.name

instance (d earlier : Declaration) : Decidable (d.Repeats earlier) :=
  inferInstanceAs (Decidable (_ ∧ _))

/-- The declaration as one that repeats another. -/
def redeclaration (d : Declaration) : Redeclaration :=
  ⟨d.kind, d.name, d.trace⟩

end Declaration

theorem Draft.redeclared_declare (draft : Draft) (d : Declaration) :
    (draft.declare d).schema.redeclared = draft.schema.redeclared ++
      if (d.kind, d.name) ∈ draft.declared then [d.redeclaration] else [] := by
  rw [Draft.declare]
  cases d <;> dsimp only [Schema.insert] <;> split <;> simp [Declaration.redeclaration]

/-- A draft that lists what repeats an earlier declaration goes on to do so, if its own list of
what is declared tells whether the next declaration does. -/
theorem Draft.redeclared_declare_repeating {α : Type} {repeats : α → α → Prop}
    [DecidableRel repeats] (declaration : α → Declaration) {draft : Draft} {as : List α} (a : α)
    (h : draft.schema.redeclared =
      (repeating repeats [] as).map fun e => (declaration e).redeclaration)
    (hrepeats : (∃ e ∈ as, repeats a e) ↔
      ((declaration a).kind, (declaration a).name) ∈ draft.declared) :
    (draft.declare (declaration a)).schema.redeclared =
      (repeating repeats [] (as ++ [a])).map fun e => (declaration e).redeclaration := by
  rw [redeclared_declare, h, repeating_concat, List.map_append]
  simp only [hrepeats, apply_ite (List.map _), List.map_cons, List.map_nil]

namespace Schema

/-! ## The maps of a schema as one -/

/-- The declarations of a kind under their names. -/
def ofKind (s : Schema) : DeclarationKind → OrderedMap Declaration
  | .model => s.models.mapValues fun _ m => .model m
  | .enum => s.enums.mapValues fun _ e => .enum e
  | .typeDef => s.typedefs.mapValues fun _ t => .typeDef t

/-- The declaration of a kind and a name. -/
def find? (s : Schema) (kind : DeclarationKind) (name : String) : Option Declaration :=
  (s.ofKind kind).find? name

theorem find?_eq (s : Schema) (kind : DeclarationKind) (name : String) :
    s.find? kind name = match kind with
      | .model => (s.models.find? name).map .model
      | .enum => (s.enums.find? name).map .enum
      | .typeDef => (s.typedefs.find? name).map .typeDef := by
  cases kind <;> exact OrderedMap.find?_mapValues _ _ _

theorem kind_of_find? {s : Schema} {kind : DeclarationKind} {name : String}
    {d : Declaration} (h : s.find? kind name = some d) : d.kind = kind := by
  rw [find?_eq] at h
  cases kind <;>
    · obtain ⟨x, -, rfl⟩ := Option.map_eq_some_iff.mp h
      rfl

theorem mem_keys_ofKind {s : Schema} {kind : DeclarationKind} {name : String} :
    name ∈ (s.ofKind kind).keys ↔ ∃ d, s.find? kind name = some d :=
  OrderedMap.mem_keys_iff

theorem names_eq (s : Schema) :
    s.names = DeclarationKind.all.flatMap fun kind => (s.ofKind kind).keys := by
  simp [names, DeclarationKind.all, ofKind]

theorem mem_names {s : Schema} {name : String} :
    name ∈ s.names ↔ ∃ kind d, s.find? kind name = some d := by
  simp [names_eq, DeclarationKind.mem_all, mem_keys_ofKind]

theorem mem_declarations {s : Schema} {d : Declaration} :
    d ∈ s.declarations ↔ ∃ name, s.find? d.kind name = some d := by
  simp only [declarations, List.mem_append, List.mem_map, OrderedMap.mem_values_iff, find?_eq]
  cases d <;> simp [Declaration.kind]

/-! ## Merging -/

theorem merge_assoc (a b c : Schema) : (a.merge b).merge c = a.merge (b.merge c) := by
  simp only [merge, OrderedMap.extend_assoc, List.append_assoc]

theorem empty_merge (s : Schema) : empty.merge s = s := by
  simp only [merge, empty, OrderedMap.empty_extend, List.nil_append]

theorem merge_empty (s : Schema) : s.merge empty = s := by
  simp only [merge, empty, OrderedMap.extend_empty, List.append_nil]

/-- Schemas with merging are a monoid, down to the order of every map and of the repeated
declarations; and what is merged into a schema lies over it in each map. -/
theorem merge_monoid (a b c : Schema) :
    (a.merge b).merge c = a.merge (b.merge c) ∧
      empty.merge a = a ∧ a.merge empty = a ∧
      (a.merge b).models.IsOverlay a.models b.models ∧
      (a.merge b).enums.IsOverlay a.enums b.enums ∧
      (a.merge b).typedefs.IsOverlay a.typedefs b.typedefs ∧
      (a.merge b).redeclared = a.redeclared ++ b.redeclared :=
  ⟨merge_assoc a b c, empty_merge a, merge_empty a,
    OrderedMap.isOverlay_extend a.models b.models, OrderedMap.isOverlay_extend a.enums b.enums,
    OrderedMap.isOverlay_extend a.typedefs b.typedefs, rfl⟩

/-! ## Keyed schemas -/

/-- Every declaration stands under its own name. -/
def Keyed (s : Schema) : Prop :=
  ∀ kind name d, s.find? kind name = some d → d.name = name

theorem Keyed.find?_self {s : Schema} (hs : s.Keyed) {d : Declaration}
    (h : d ∈ s.declarations) : s.find? d.kind d.name = some d := by
  obtain ⟨name, hd⟩ := mem_declarations.mp h
  rw [hs _ _ _ hd]
  exact hd

theorem Keyed.forall_keys {s : Schema} (hs : s.Keyed) (kind : DeclarationKind)
    (P : String → Prop) :
    (∀ name ∈ (s.ofKind kind).keys, P name) ↔ ∀ d ∈ (s.ofKind kind).values, P d.name := by
  constructor
  · intro h d hd
    obtain ⟨name, hname⟩ := OrderedMap.mem_values_iff.mp hd
    rw [hs kind name d hname]
    exact h name (OrderedMap.mem_keys_of_find? hname)
  · intro h name hname
    obtain ⟨d, hd⟩ := OrderedMap.mem_keys_iff.mp hname
    rw [← hs kind name d hd]
    exact h d (OrderedMap.mem_values_iff.mpr ⟨name, hd⟩)

theorem mem_declarations_of_find? {s : Schema} {kind : DeclarationKind} {name : String}
    {d : Declaration} (h : s.find? kind name = some d) : d ∈ s.declarations :=
  mem_declarations.mpr ⟨name, by rw [kind_of_find? h]; exact h⟩

theorem find?_empty (kind : DeclarationKind) (name : String) : empty.find? kind name = none := by
  cases kind <;> rfl

theorem keyed_empty : empty.Keyed := by
  intro kind name d h
  rw [find?_empty] at h
  cases h

theorem ofKind_insert (s : Schema) (d : Declaration) (kind : DeclarationKind) :
    (s.insert d).ofKind kind =
      if d.kind = kind then (s.ofKind kind).insert d.name d else s.ofKind kind := by
  cases d <;> cases kind <;>
    simp only [insert, ofKind, Declaration.kind, Declaration.name, OrderedMap.mapValues_insert,
      reduceCtorEq, if_true, if_false]

theorem find?_insert (s : Schema) (d : Declaration) (kind : DeclarationKind) (name : String) :
    (s.insert d).find? kind name =
      if kind = d.kind ∧ name = d.name then some d else s.find? kind name := by
  rw [find?, ofKind_insert]
  by_cases hkind : d.kind = kind
  · rw [if_pos hkind, OrderedMap.find?_insert]
    simp only [hkind, true_and]
    rfl
  · rw [if_neg hkind, if_neg fun h => hkind h.1.symm]
    rfl

theorem Keyed.insert {s : Schema} (hs : s.Keyed) (d : Declaration) : (s.insert d).Keyed := by
  intro kind name d' h
  rw [find?_insert] at h
  split at h
  · next heq =>
    cases h
    exact heq.2.symm
  · exact hs _ _ _ h

theorem ofKind_merge (s other : Schema) (kind : DeclarationKind) :
    (s.merge other).ofKind kind = (s.ofKind kind).extend (other.ofKind kind) := by
  cases kind <;> simp only [merge, ofKind, OrderedMap.mapValues_extend]

theorem find?_merge_cases {s other : Schema} {kind : DeclarationKind} {name : String}
    {d : Declaration} (h : (s.merge other).find? kind name = some d) :
    other.find? kind name = some d ∨ s.find? kind name = some d := by
  rw [find?, ofKind_merge] at h
  exact OrderedMap.find?_extend_cases h

theorem Keyed.merge {s other : Schema} (hs : s.Keyed) (ho : other.Keyed) :
    (s.merge other).Keyed := by
  intro kind name d h
  rcases find?_merge_cases h with h | h
  · exact ho _ _ _ h
  · exact hs _ _ _ h

/-- Whether a declaration repeats another does not show in the maps. -/
theorem ofKind_declare (draft : Draft) (d : Declaration) (kind : DeclarationKind) :
    (draft.declare d).schema.ofKind kind = (draft.schema.insert d).ofKind kind := by
  by_cases hkey : (d.kind, d.name) ∈ draft.declared
  · simp only [Draft.declare, if_pos hkey, ofKind_insert]
    rfl
  · simp only [Draft.declare, if_neg hkey]

theorem ofKind_addImport (draft : Draft) (s : Schema) (kind : DeclarationKind) :
    (draft.addImport s).schema.ofKind kind = (draft.schema.ofKind kind).extend (s.ofKind kind) :=
  ofKind_merge draft.schema s kind

/-- Of the three maps only the one of its kind takes a declaration in. -/
theorem collects_declare {draft : Draft} {kind : DeclarationKind} {ds : List Declaration}
    (h : (draft.schema.ofKind kind).Collects
      ((ds.filter (·.kind = kind)).map fun d => (d.name, d))) (d : Declaration) :
    ((draft.declare d).schema.ofKind kind).Collects
      (((ds ++ [d]).filter (·.kind = kind)).map fun d => (d.name, d)) := by
  rw [ofKind_declare, ofKind_insert, List.filter_append, List.map_append]
  by_cases hkind : d.kind = kind
  · rw [if_pos hkind, List.filter_cons_of_pos (by simpa using hkind)]
    exact h.insert d.name d
  · rw [if_neg hkind, List.filter_cons_of_neg (by simpa using hkind), List.filter_nil,
      List.map_nil, List.append_nil]
    exact h

theorem find?_declare (draft : Draft) (d : Declaration) (kind : DeclarationKind)
    (name : String) :
    (draft.declare d).schema.find? kind name =
      if kind = d.kind ∧ name = d.name then some d else draft.schema.find? kind name := by
  rw [find?, ofKind_declare]
  exact find?_insert draft.schema d kind name

theorem Keyed.declare {draft : Draft} (h : draft.schema.Keyed) (d : Declaration) :
    (draft.declare d).schema.Keyed := by
  unfold Draft.declare
  apply Keyed.insert
  split
  · exact h
  · exact h

/-- Reading keeps what no declaration and no merge can break, when it may rely on the
declarations that it meets. The induction follows the reading, so an imported source is
covered by a hypothesis of its own. -/
theorem readItems_keeps {Q : Schema → Prop} {met : Declaration → Prop}
    {importer : Option Importer} (hempty : Q .empty)
    (hdeclare : ∀ (draft : Draft) d, met d → Q draft.schema → Q (draft.declare d).schema)
    (hmerge : ∀ s s', Q s → Q s' → Q (s.merge s'))
    (himported : ∀ current file source,
      (importer.getD .none).resolve current file = some source →
        ∀ d, .declaration d ∈ source.outline.items → met d)
    (chain : List String) (path : Option String) (ending : List Diagnostic) (draft : Draft)
    (items : List Item) (hitems : ∀ d, .declaration d ∈ items → met d) (h : Q draft.schema) :
    Q (readItems importer chain path ending draft items).1.schema := by
  fun_induction readItems importer chain path ending draft items with
  | case1 => exact h
  | case2 chain path ending draft d rest ih =>
    exact ih (fun d hd => hitems d (List.mem_cons_of_mem _ hd))
      (hdeclare draft d (hitems d List.mem_cons_self) h)
  | case3 => exact h
  | case4 chain path ending draft file rest source hsource outline inner hok _ ihInner ihRest =>
    have hmet := himported _ _ _ (findImport_ok hsource).1
    exact ihRest (fun d hd => hitems d (List.mem_cons_of_mem _ hd))
      (hmerge _ _ h (ihInner hmet hempty))
  | case5 => exact h

theorem readItems_keyed (importer : Option Importer) (chain : List String)
    (path : Option String) (ending : List Diagnostic) (draft : Draft) (items : List Item)
    (h : draft.schema.Keyed) :
    (readItems importer chain path ending draft items).1.schema.Keyed :=
  readItems_keeps keyed_empty (fun _ d _ h => h.declare d) (fun _ _ => Keyed.merge)
    (fun _ _ _ _ _ _ => trivial) chain path ending draft items (fun _ _ => trivial) h

theorem ofText_ok_iff {importer : Option Importer} {path : Option String} {text : String}
    {s : Schema} :
    ofText importer path text = .ok s ↔
      readOutline importer path (.ofText path text) = (s, []) := by
  unfold ofText
  obtain ⟨schema, errors⟩ := readOutline importer path (.ofText path text)
  by_cases h : errors = [] <;> simp [h]

theorem ofText_error_iff {importer : Option Importer} {path : Option String} {text : String}
    {errors : List Diagnostic} :
    ofText importer path text = .error errors ↔
      errors ≠ [] ∧ (readOutline importer path (.ofText path text)).2 = errors := by
  unfold ofText
  obtain ⟨schema, found⟩ := readOutline importer path (.ofText path text)
  by_cases h : found = []
  · simp [h, eq_comm]
  · simp only [if_neg h, Except.error.injEq]
    refine ⟨?_, And.right⟩
    rintro rfl
    exact ⟨h, rfl⟩

/-- What a text amounts to is keyed. -/
theorem ofText_keyed {importer : Option Importer} {path : Option String} {text : String}
    {s : Schema} (h : ofText importer path text = .ok s) : s.Keyed := by
  have hs : (readOutline importer path (.ofText path text)).1 = s :=
    congrArg Prod.fst (ofText_ok_iff.mp h)
  rw [← hs]
  exact readItems_keyed _ _ _ _ _ _ keyed_empty

theorem readTokens_keyed (importer : Option Importer) (path : Option String)
    (tokens : List Token) : (readTokens importer path tokens).1.Keyed :=
  readItems_keyed _ _ _ _ _ _ keyed_empty

/-- The schemas that sources amount to: what a text or a token list is read as, also when
the reading stops at a fault, and such schemas merged. -/
inductive Assembled : Schema → Prop where
  | text {importer : Option Importer} {path : Option String} {text : String} {s : Schema}
    (h : ofText importer path text = .ok s) : Assembled s
  | tokens (importer : Option Importer) (path : Option String) (tokens : List Token) :
    Assembled (readTokens importer path tokens).1
  | merge {s other : Schema} (hs : Assembled s) (ho : Assembled other) :
    Assembled (s.merge other)

theorem Assembled.keyed {s : Schema} (h : s.Assembled) : s.Keyed := by
  induction h with
  | text h => exact ofText_keyed h
  | tokens importer path tokens => exact readTokens_keyed importer path tokens
  | merge _ _ hs ho => exact hs.merge ho

end Schema

end SchemaLang
