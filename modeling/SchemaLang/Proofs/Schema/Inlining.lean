import Mathlib
import SchemaLang.Proofs.Outline
import SchemaLang.Proofs.Schema

/-!
# Imports are inlined

What a source amounts to is what its declarations amount to when every import is replaced, in
place, by the declarations of the imported source (`ofText_inlines`). A source that is imported
twice is met twice; only what one occurrence of a source declares twice is a redeclaration.

Success of reading is said by a relation (`Reads`) of the source and the answers to its
imports alone, so the answers may lead other readings nowhere.
-/

namespace SchemaLang

/-! ## Reading without fault -/

namespace Schema

variable {resolve : Option String → String → Option ImportedSource} {importer : Option Importer}

/-- The items of a source are read without fault, from a draft to a draft. The paths are those
of the sources that import it, and its own. -/
inductive Reads (resolve : Option String → String → Option ImportedSource) :
    List String → Option String → Draft → List Item → Draft → Prop where
  | finish {chain : List String} {path : Option String} {draft : Draft} :
    Reads resolve chain path draft [] draft
  | declare {chain : List String} {path : Option String} {draft after : Draft} {d : Declaration}
    {rest : List Item} (others : Reads resolve chain path (draft.declare d) rest after) :
    Reads resolve chain path draft (.declaration d :: rest) after
  | enter {chain : List String} {path : Option String} {draft inside after : Draft} {file : Token}
    {rest : List Item} {source : ImportedSource} (found : resolve path file.lexeme = some source)
    (fresh : source.path ∉ chain ++ path.toList) (whole : source.outline.errors = [])
    (inner : Reads resolve (chain ++ path.toList) (some source.path) .empty source.outline.items
      inside)
    (others : Reads resolve chain path (draft.addImport inside.schema) rest after) :
    Reads resolve chain path draft (.importFile file :: rest) after

theorem findImport_eq_ok_iff {chain : List String} {path : Option String} {file : String}
    {source : ImportedSource} :
    findImport importer chain path file = .ok source ↔
      (importer.getD .none).resolve path file = some source ∧
        source.path ∉ chain ++ path.toList := by
  refine ⟨findImport_ok, ?_⟩
  rintro ⟨hfound, hfresh⟩
  cases importer with
  | none => cases hfound
  | some finder =>
    have hfinder : finder.resolve path file = some source := hfound
    simp only [findImport, hfinder]
    exact if_neg hfresh

theorem readItems_enter {chain : List String} {path : Option String} {ending : List Diagnostic}
    {draft : Draft} {file : Token} {rest : List Item} {source : ImportedSource}
    (hsource : findImport importer chain path file.lexeme = .ok source) :
    readItems importer chain path ending draft (.importFile file :: rest) =
      let inner := readItems importer (chain ++ path.toList) (some source.path)
        source.outline.errors .empty source.outline.items
      if inner.2 = [] then
        readItems importer chain path ending (draft.addImport inner.1.schema) rest
      else (draft, inner.2) := by
  rw [readItems]
  split
  · next e he => cases he.symm.trans hsource
  · next found hfound =>
    cases hfound.symm.trans hsource
    rfl

theorem reads_of_readItems (importer : Option Importer) (chain : List String)
    (path : Option String) (ending : List Diagnostic) (draft : Draft) (items : List Item)
    (h : (readItems importer chain path ending draft items).2 = []) :
    ending = [] ∧ Reads (importer.getD .none).resolve chain path draft items
      (readItems importer chain path ending draft items).1 := by
  fun_induction readItems importer chain path ending draft items with
  | case1 => exact ⟨h, .finish⟩
  | case2 chain path ending draft d rest ih =>
    obtain ⟨hending, hrest⟩ := ih h
    exact ⟨hending, .declare hrest⟩
  | case3 => cases h
  | case4 chain path ending draft file rest source hsource outline inner hok _ ihInner ihRest =>
    obtain ⟨hfound, hfresh⟩ := findImport_ok hsource
    obtain ⟨hwhole, hinner⟩ := ihInner hok
    obtain ⟨hending, hrest⟩ := ihRest h
    exact ⟨hending, .enter hfound hfresh hwhole hinner hrest⟩
  | case5 chain path ending draft file rest source hsource outline inner hok =>
    exact absurd h hok

theorem Reads.readItems {chain : List String} {path : Option String} {draft after : Draft}
    {items : List Item} (h : Reads (importer.getD .none).resolve chain path draft items after) :
    readItems importer chain path [] draft items = (after, []) := by
  induction h with
  | finish => rw [Schema.readItems]
  | declare _ ih => rw [Schema.readItems, ih]
  | enter hfound hfresh hwhole _ _ ihInner ihRest =>
    rw [readItems_enter (findImport_eq_ok_iff.mpr ⟨hfound, hfresh⟩), hwhole, ihInner]
    exact ihRest

/-- A text is read without fault, and this is what it amounts to. -/
def AmountsTo (resolve : Option String → String → Option ImportedSource) (path : Option String)
    (text : String) (s : Schema) : Prop :=
  (Outline.ofText path text).errors = [] ∧
    ∃ after, Reads resolve [] path .empty (Outline.ofText path text).items after ∧
      after.schema = s

theorem ofText_eq_ok_iff {path : Option String} {text : String} {s : Schema} :
    ofText importer path text = .ok s ↔ AmountsTo (importer.getD .none).resolve path text s := by
  rw [ofText_ok_iff]
  constructor
  · intro h
    obtain ⟨hwhole, hreads⟩ := reads_of_readItems _ _ _ _ _ _ (congrArg Prod.snd h)
    exact ⟨hwhole, _, hreads, congrArg Prod.fst h⟩
  · rintro ⟨hwhole, after, hreads, rfl⟩
    rw [readOutline, hwhole, hreads.readItems]

end Schema

/-! ## The declarations that are met -/

/-- A declaration in the text that inlining makes: the occurrence of the source that it stands
in, told by the items that lead there from the outermost source, and the path of that source. -/
structure Met where
  occurrence : List Nat
  source : Option String
  declaration : Declaration

namespace Met

/-- What is met in the items of an occurrence of a source, the first of which has the number
given, when imports are replaced by what is met in the sources that they find. -/
inductive Inlines (resolve : Option String → String → Option ImportedSource) :
    List Nat → Nat → Option String → List Item → List Met → Prop where
  | nil {occurrence : List Nat} {n : Nat} {path : Option String} :
    Inlines resolve occurrence n path [] []
  | declaration {occurrence : List Nat} {n : Nat} {path : Option String} {d : Declaration}
    {rest : List Item} {met : List Met} (others : Inlines resolve occurrence (n + 1) path rest met) :
    Inlines resolve occurrence n path (.declaration d :: rest) (⟨occurrence, path, d⟩ :: met)
  | importFile {occurrence : List Nat} {n : Nat} {path : Option String} {file : Token}
    {rest : List Item} {source : ImportedSource} {inside met : List Met}
    (found : resolve path file.lexeme = some source)
    (inner : Inlines resolve (occurrence ++ [n]) 0 (some source.path) source.outline.items inside)
    (others : Inlines resolve occurrence (n + 1) path rest met) :
    Inlines resolve occurrence n path (.importFile file :: rest) (inside ++ met)

variable {resolve : Option String → String → Option ImportedSource}

theorem Inlines.unique {occurrence : List Nat} {n : Nat} {path : Option String}
    {items : List Item} {met met' : List Met} (h : Inlines resolve occurrence n path items met)
    (h' : Inlines resolve occurrence n path items met') : met' = met := by
  induction h generalizing met' with
  | nil =>
    cases h'
    rfl
  | declaration _ ih =>
    cases h' with
    | declaration others => rw [ih others]
  | importFile found _ _ ihInner ihRest =>
    cases h' with
    | importFile found' inner others =>
      cases found.symm.trans found'
      rw [ihInner inner, ihRest others]

/-- Every trace in what is met has the path of the source that it stands in. -/
theorem Inlines.path_of_mem_traces {occurrence : List Nat} {n : Nat} {path : Option String}
    {items : List Item} {met : List Met} (h : Inlines resolve occurrence n path items met)
    (hitems : ∀ d, .declaration d ∈ items → ∀ t ∈ d.traces, t.path = path) :
    ∀ m ∈ met, ∀ t ∈ m.declaration.traces, t.path = m.source := by
  induction h with
  | nil => simp
  | @declaration _ _ path d rest met _ ih =>
    rw [List.forall_mem_cons]
    exact ⟨hitems d List.mem_cons_self, ih fun e he => hitems e (List.mem_cons_of_mem _ he)⟩
  | importFile _ _ _ ihInner ihRest =>
    intro m hm
    rcases List.mem_append.mp hm with hm | hm
    · exact ihInner (fun d hd t ht => Outline.path_of_mem_traces hd ht) m hm
    · exact ihRest (fun e he => hitems e (List.mem_cons_of_mem _ he)) m hm

/-- One occurrence of a source declares kind and name of an earlier declaration of its own. -/
def Repeats (m earlier : Met) : Prop :=
  earlier.occurrence = m.occurrence ∧ m.declaration.Repeats earlier.declaration

instance (m earlier : Met) : Decidable (m.Repeats earlier) :=
  inferInstanceAs (Decidable (_ ∧ _))

/-- The declarations that repeat an earlier one. -/
def repeated (earlier met : List Met) : List Redeclaration :=
  (repeating Repeats earlier met).map fun m => m.declaration.redeclaration

/-- In the occurrence itself, or in one that an item before the given one leads to. -/
def Within (occurrence : List Nat) (n : Nat) (m : Met) : Prop :=
  m.occurrence = occurrence ∨ ∃ i < n, occurrence ++ [i] <+: m.occurrence

theorem Within.next {occurrence : List Nat} {n : Nat} {m : Met} (h : m.Within occurrence n) :
    m.Within occurrence (n + 1) := by
  rcases h with h | ⟨i, hi, hleads⟩
  · exact Or.inl h
  · exact Or.inr ⟨i, Nat.lt_succ_of_lt hi, hleads⟩

theorem Within.isPrefixOf {occurrence : List Nat} {n : Nat} {m : Met} (h : m.Within occurrence n) :
    occurrence <+: m.occurrence := by
  rcases h with h | ⟨i, -, hleads⟩
  · exact h ▸ List.prefix_rfl
  · exact (List.prefix_append _ _).trans hleads

/-- What an import leads to is apart from all that was met before it. -/
theorem Within.occurrence_ne {occurrence : List Nat} {n k : Nat} {m e : Met}
    (hm : m.Within (occurrence ++ [n]) k) (he : e.Within occurrence n) :
    e.occurrence ≠ m.occurrence := by
  intro heq
  have hn : occurrence ++ [n] <+: e.occurrence := heq ▸ hm.isPrefixOf
  rcases he with he | ⟨i, hi, hleads⟩
  · have hlength := hn.length_le
    rw [he, List.length_append, List.length_singleton] at hlength
    omega
  · -- the next step from the occurrence would be two different ones
    have hsame : occurrence ++ [i] = occurrence ++ [n] :=
      (List.prefix_of_prefix_length_le hleads hn (by simp)).eq_of_length (by simp)
    simp at hsame
    omega

end Met

/-! ## A draft takes in what is met -/

/-- A draft of an occurrence of a source, of which so many items have been read. -/
structure Draft.Gathers (draft : Draft) (occurrence : List Nat) (n : Nat) (met : List Met) :
    Prop where
  collected : ∀ kind, (draft.schema.ofKind kind).Collects
    (((met.map Met.declaration).filter (·.kind = kind)).map fun d => (d.name, d))
  redeclared : draft.schema.redeclared = Met.repeated [] met
  declared : ∀ kind name, (kind, name) ∈ draft.declared ↔
    ∃ m ∈ met, m.occurrence = occurrence ∧ m.declaration.kind = kind ∧ m.declaration.name = name
  within : ∀ m ∈ met, m.Within occurrence n

namespace Draft

variable {draft : Draft} {occurrence : List Nat} {n : Nat} {met : List Met}

theorem gathers_empty (occurrence : List Nat) (n : Nat) :
    Draft.empty.Gathers occurrence n [] where
  collected := by
    intro kind
    cases kind <;> exact OrderedMap.collects_ofList []
  redeclared := rfl
  declared := by simp [empty]
  within := by simp

theorem Gathers.declare (h : draft.Gathers occurrence n met) (path : Option String)
    (d : Declaration) :
    (draft.declare d).Gathers occurrence (n + 1) (met ++ [⟨occurrence, path, d⟩]) where
  collected := by
    intro kind
    rw [List.map_append]
    exact Schema.collects_declare (h.collected kind) d
  redeclared :=
    redeclared_declare_repeating Met.declaration ⟨occurrence, path, d⟩ h.redeclared
      (h.declared _ _).symm
  declared := by
    intro kind name
    have hkeys : (draft.declare d).declared = (d.kind, d.name) :: draft.declared := rfl
    simp only [hkeys, List.mem_cons, h.declared, List.mem_append, List.not_mem_nil, or_false,
      or_and_right, exists_or, exists_eq_left, true_and, Prod.mk.injEq]
    rw [or_comm, @eq_comm _ kind, @eq_comm _ name]
  within := by
    intro m hm
    rcases List.mem_append.mp hm with hm | hm
    · exact (h.within m hm).next
    · rw [List.mem_singleton.mp hm]
      exact Or.inl rfl

theorem Gathers.addImport {inside : Draft} {k : Nat} {inner : List Met}
    (h : draft.Gathers occurrence n met) (hinside : inside.Gathers (occurrence ++ [n]) k inner) :
    (draft.addImport inside.schema).Gathers occurrence (n + 1) (met ++ inner) where
  collected := by
    intro kind
    rw [Schema.ofKind_addImport, List.map_append, List.filter_append, List.map_append]
    exact (h.collected kind).extend (hinside.collected kind)
  redeclared := by
    have happart : ∀ e ∈ met, ∀ m ∈ inner, ¬m.Repeats e :=
      fun e he m hm hrepeats =>
        (hinside.within m hm).occurrence_ne (h.within e he) hrepeats.1
    calc (draft.addImport inside.schema).schema.redeclared =
          draft.schema.redeclared ++ inside.schema.redeclared := rfl
      _ = Met.repeated [] met ++ Met.repeated (met ++ []) inner := by
          simp only [h.redeclared, hinside.redeclared, Met.repeated, repeating_of_apart _ happart]
      _ = Met.repeated [] (met ++ inner) := by
          simp only [Met.repeated, repeating_append, List.map_append, List.append_nil,
            List.nil_append]
  declared := by
    intro kind name
    have hkeys : (draft.addImport inside.schema).declared = draft.declared := rfl
    rw [hkeys, h.declared]
    constructor
    · rintro ⟨m, hm, hkey⟩
      exact ⟨m, List.mem_append_left _ hm, hkey⟩
    · rintro ⟨m, hm, hhere, hkey⟩
      rcases List.mem_append.mp hm with hm | hm
      · exact ⟨m, hm, hhere, hkey⟩
      · -- what the import leads to stands elsewhere
        have hlength := (hinside.within m hm).isPrefixOf.length_le
        rw [hhere, List.length_append, List.length_singleton] at hlength
        omega
  within := by
    intro m hm
    rcases List.mem_append.mp hm with hm | hm
    · exact (h.within m hm).next
    · exact Or.inr ⟨n, Nat.lt_succ_self n, (hinside.within m hm).isPrefixOf⟩

end Draft

namespace Schema

/-- What is read goes behind what was there, with the imports inlined. -/
theorem Reads.gathers {resolve : Option String → String → Option ImportedSource}
    {chain : List String} {path : Option String} {draft after : Draft} {items : List Item}
    (h : Reads resolve chain path draft items after) {occurrence : List Nat} {n : Nat}
    {before : List Met} (hbefore : draft.Gathers occurrence n before) :
    ∃ k met, Met.Inlines resolve occurrence n path items met ∧
      after.Gathers occurrence k (before ++ met) := by
  induction h generalizing occurrence n before with
  | @finish _ _ draft => exact ⟨n, [], .nil, by rwa [List.append_nil]⟩
  | @declare _ path _ _ d _ _ ih =>
    obtain ⟨k, met, hmet, hafter⟩ := ih (hbefore.declare path d)
    rw [List.append_assoc] at hafter
    exact ⟨k, _, .declaration hmet, hafter⟩
  | enter hfound _ _ _ _ ihInner ihRest =>
    obtain ⟨_, inner, hinner, hinside⟩ := ihInner (Draft.gathers_empty (occurrence ++ [n]) 0)
    obtain ⟨k, met, hmet, hafter⟩ := ihRest (hbefore.addImport hinside)
    rw [List.append_assoc] at hafter
    exact ⟨k, _, .importFile hfound hinner hmet, hafter⟩

/-- Imports are inlined. A text that is read without fault amounts to the declarations that are
met when every import is replaced by what is met in its source: in the map of each kind every
name stands at the place of its first declaration, with its last, and what an occurrence of a
source declares again is listed in order. -/
theorem ofText_inlines (path : Option String) (text : String) :
    (∀ importer s, ofText importer path text = .ok s ↔
      AmountsTo (importer.getD .none).resolve path text s) ∧
    ∀ resolve s, AmountsTo resolve path text s →
      ∃ met : List Met,
        (∀ met', Met.Inlines resolve [] 0 path (Outline.ofText path text).items met' ↔
          met' = met) ∧
        (∀ m ∈ met, ∀ t ∈ m.declaration.traces, t.path = m.source) ∧
        (∀ kind, s.ofKind kind = .ofList
          (((met.map Met.declaration).filter (·.kind = kind)).map fun d => (d.name, d))) ∧
        s.redeclared = Met.repeated [] met := by
  refine ⟨fun importer s => ofText_eq_ok_iff, ?_⟩
  rintro resolve s ⟨-, after, hreads, rfl⟩
  obtain ⟨k, met, hmet, hafter⟩ := hreads.gathers (Draft.gathers_empty [] 0)
  refine ⟨met, ?_, hmet.path_of_mem_traces fun d hd t ht => Outline.path_of_mem_traces hd ht,
    fun kind => (hafter.collected kind).eq_ofList, hafter.redeclared⟩
  intro met'
  constructor
  · exact hmet.unique
  · rintro rfl
    exact hmet

/-- The answers of an importer that knows one source, with one enum. -/
def enumSource (_ : Option String) (_ : String) : Option ImportedSource :=
  some ⟨"a", "enum A \x7b X \x7d"⟩

/-- An enum that is imported before and after one of its name counts in the end, and is no
redeclaration. -/
theorem ofText_inlines_enumSource :
    ∃ met : List Met,
      Met.Inlines enumSource [] 0 none
        (Outline.ofText none "import \"a\" enum A \x7b Y \x7d import \"a\"").items met ∧
      OrderedMap.ofList (((met.map Met.declaration).filter (·.kind = .enum)).map fun d =>
          (d.name, d)) =
        .ofList [("A", .enum ⟨"A", ["X"], [⟨1, 10, some "a"⟩], ⟨1, 1, some "a"⟩⟩)] ∧
      Met.repeated [] met = [] := by
  have hread : ofText (some (.ofPaths enumSource ["a"] (by rintro _ _ _ ⟨⟩; simp))) none
      "import \"a\" enum A \x7b Y \x7d import \"a\"" =
        .ok ⟨.empty, .ofList [("A", ⟨"A", ["X"], [⟨1, 10, some "a"⟩], ⟨1, 1, some "a"⟩⟩)],
          .empty, []⟩ := by
    cbv
  obtain ⟨met, hmet, -, hmaps, hredeclared⟩ :=
    (ofText_inlines none _).2 _ _ (((ofText_inlines none _).1 _ _).mp hread)
  exact ⟨met, (hmet met).mpr rfl, (hmaps .enum).symm, hredeclared.symm⟩

end Schema

end SchemaLang
