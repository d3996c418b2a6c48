import SchemaLang.Proofs.Outline
import SchemaLang.Proofs.Schema

/-!
# What tokens without imports declare

A token list that has no import among its tokens is read without fault exactly when it is
a unit, and the schema that is read holds what the unit says (`readTokens_iff_unit`): each
name of a kind at the place of its first declaration, with the last one.
-/

namespace SchemaLang

namespace Schema

/-! ## Declarations one after another -/

/-- The declarations that repeat kind and name of an earlier one. -/
def redeclarations (earlier ds : List Declaration) : List Redeclaration :=
  (repeating Declaration.Repeats earlier ds).map Declaration.redeclaration

/-- A schema of declarations in order: in the map of each kind every name stands at the
place of its first declaration, with its last, and what repeats another is listed. -/
structure Declares (s : Schema) (ds : List Declaration) : Prop where
  collected : ∀ kind,
    (s.ofKind kind).Collects ((ds.filter (·.kind = kind)).map fun d => (d.name, d))
  redeclared : s.redeclared = redeclarations [] ds

end Schema

/-- A draft of a source that has declared so much and imported nothing. -/
structure Draft.Declares (draft : Draft) (ds : List Declaration) : Prop where
  schema : draft.schema.Declares ds
  declared : ∀ kind name, (kind, name) ∈ draft.declared ↔
    ∃ d ∈ ds, d.kind = kind ∧ d.name = name

namespace Draft

theorem declares_empty : Draft.empty.Declares [] where
  schema :=
    { collected := by
        intro kind
        cases kind <;> exact OrderedMap.collects_ofList []
      redeclared := rfl }
  declared := by simp [empty]

/-- A declaration more goes behind the others. -/
theorem Declares.declare {draft : Draft} {ds : List Declaration} (h : draft.Declares ds)
    (d : Declaration) : (draft.declare d).Declares (ds ++ [d]) where
  schema :=
    { collected := fun kind => Schema.collects_declare (h.schema.collected kind) d
      redeclared :=
        redeclared_declare_repeating id d h.schema.redeclared (h.declared _ _).symm }
  declared := by
    intro kind name
    have hkeys : (draft.declare d).declared = (d.kind, d.name) :: draft.declared := rfl
    rw [hkeys, List.mem_cons, h.declared]
    constructor
    · rintro (heq | ⟨e, he, hkey⟩)
      · obtain ⟨rfl, rfl⟩ := Prod.mk.inj heq
        exact ⟨d, by simp, rfl, rfl⟩
      · exact ⟨e, by simp [he], hkey⟩
    · rintro ⟨e, he, rfl, rfl⟩
      rcases List.mem_append.mp he with he | he
      · exact Or.inr ⟨e, he, rfl, rfl⟩
      · rw [List.mem_singleton.mp he]
        exact Or.inl rfl

end Draft

namespace Schema

/-! ## Reading without imports -/

/-- Declarations are taken in one by one, and nothing stops the reading before its end. -/
theorem readItems_declarations {draft : Draft} {ds : List Declaration}
    (importer : Option Importer) (chain : List String) (path : Option String)
    (ending : List Diagnostic) (h : draft.Declares ds) (more : List Declaration) :
    ∃ after, readItems importer chain path ending draft (more.map .declaration) = (after, ending) ∧
      after.Declares (ds ++ more) := by
  induction more generalizing draft ds with
  | nil => exact ⟨draft, by rw [List.map_nil, readItems], by rwa [List.append_nil]⟩
  | cons d rest ih =>
    obtain ⟨after, hread, hafter⟩ := ih (h.declare d)
    refine ⟨after, by rw [List.map_cons, readItems, hread], ?_⟩
    rwa [List.append_assoc] at hafter

/-- Without imports the tokens alone decide what is read. -/
theorem readTokens_of_no_imports (importer : Option Importer) (path : Option String)
    {tokens : List Token}
    (himports : ∀ t ∈ tokens.takeWhile (·.kind ≠ .endOfInput), t.kind ≠ .keyword .importFile) :
    ∃ ds : List Declaration,
      (Outline.ofStream path (.ofTokens tokens)).items = ds.map .declaration ∧
      (readTokens importer path tokens).1.Declares ds ∧
      (readTokens importer path tokens).2 =
        (Outline.ofStream path (.ofTokens tokens)).errors := by
  obtain ⟨phrase, rest, hsplit, hunit⟩ := Outline.ofStream_items path (.ofTokens tokens)
  have hphrase : ∀ t ∈ phrase, t.kind ≠ .keyword .importFile := by
    intro t ht
    have hbefore : t ∈ (TokenStream.ofTokens tokens).tokens := by
      rw [hsplit]
      exact List.mem_append_left _ ht
    exact himports t hbefore
  obtain ⟨ds, hds⟩ := hunit.exists_declarations hphrase
  obtain ⟨after, hread, hafter⟩ := readItems_declarations importer [] path
    (Outline.ofStream path (.ofTokens tokens)).errors Draft.declares_empty ds
  refine ⟨ds, hds, ?_⟩
  rw [readTokens, readOutline, hds, hread]
  exact ⟨hafter.schema, rfl⟩

/-- Tokens without imports are read without fault exactly when those before the end of the
input are a unit, and the schema is that of its declarations. A number counts as a value
when its lexeme is a numeral: in a text, when it has one point at most. -/
theorem readTokens_iff_unit (importer : Option Importer) (path : Option String)
    (tokens : List Token)
    (himports : ∀ t ∈ tokens.takeWhile (·.kind ≠ .endOfInput), t.kind ≠ .keyword .importFile) :
    ((readTokens importer path tokens).2 = [] ↔
      ∃ items, Grammar.UnitPhrase path (tokens.takeWhile (·.kind ≠ .endOfInput)) items) ∧
    (∀ items, Grammar.UnitPhrase path (tokens.takeWhile (·.kind ≠ .endOfInput)) items →
      ∃ ds : List Declaration, items = ds.map .declaration ∧
        (readTokens importer path tokens).1.Declares ds) ∧
    ∀ text source, ∀ t ∈ (Scan.ofText text source).tokens, t.kind = .number →
      ((∃ x, Numeral.IsNumeral t.lexeme.toList x) ↔ t.lexeme.toList.count '.' ≤ 1) := by
  obtain ⟨ds, hitems, hdeclares, herrors⟩ := readTokens_of_no_imports importer path himports
  refine ⟨?_, ?_, ?_⟩
  · rw [herrors]
    constructor
    · exact fun hnone => ⟨_, Outline.unit_iff.mpr ⟨rfl, hnone⟩⟩
    · rintro ⟨items, hunit⟩
      exact (Outline.unit_iff.mp hunit).2
  · intro items hunit
    rw [(Outline.unit_iff.mp hunit).1] at hitems
    exact ⟨ds, hitems, hdeclares⟩
  · -- a number of a text is a digit with digits and points behind it
    intro text source t ht hkind
    obtain ⟨c, rest, hlexeme, hc, hrest⟩ := Scan.lexeme_of_number ht hkind
    rw [hlexeme]
    exact Numeral.isNumeral_iff_count_point hc fun d hd => by
      simpa [Segment.isNumberChar] using hrest d hd

/-- The tokens of an enum with a comma behind its last value. -/
def enumTokens : List Token :=
  [⟨.keyword (.declare .enum), "enum", 1, 1⟩, ⟨.identifier, "E", 1, 6⟩,
    ⟨.symbol .braceOpen, "\x7b", 1, 8⟩, ⟨.identifier, "A", 1, 10⟩, ⟨.symbol .comma, ",", 1, 11⟩,
    ⟨.symbol .braceClose, "\x7d", 1, 13⟩, ⟨.endOfInput, "", 1, 14⟩]

/-- A comma may stand behind the last value of an enum. -/
theorem readTokens_enum :
    (∀ t ∈ enumTokens.takeWhile (·.kind ≠ .endOfInput), t.kind ≠ .keyword .importFile) ∧
    (readTokens none none enumTokens).2 = [] ∧
    ∃ ds : List Declaration,
      [Item.declaration (.enum ⟨"E", ["A"], [⟨1, 10, none⟩], ⟨1, 1, none⟩⟩)] =
        ds.map .declaration ∧
      (readTokens none none enumTokens).1.Declares ds := by
  have himports : ∀ t ∈ enumTokens.takeWhile (·.kind ≠ .endOfInput),
      t.kind ≠ .keyword .importFile := by
    decide
  have hunit : Grammar.UnitPhrase none (enumTokens.takeWhile (·.kind ≠ .endOfInput))
      [.declaration (.enum ⟨"E", ["A"], [⟨1, 10, none⟩], ⟨1, 1, none⟩⟩)] :=
    Grammar.Sequence.cons (Grammar.ItemPhrase.enum (.intro rfl rfl rfl (.more rfl rfl .none)
      rfl .absent)) .nil
  obtain ⟨haccepted, hdeclares, -⟩ := readTokens_iff_unit none none enumTokens himports
  exact ⟨himports, haccepted.mpr ⟨_, hunit⟩, hdeclares _ hunit⟩

end Schema

end SchemaLang
