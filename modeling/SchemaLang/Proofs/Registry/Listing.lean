import SchemaLang.Proofs.Registry.Pass
import SchemaLang.Proofs.Schema.Reading

/-!
# Schemas as lists of declarations

A text without imports lists its declarations, and its schema is made of that list
(`declares_of_ofText`). As long as no two declarations of the list have one name, nothing of it
is lost: the maps of the schema hold the list kind by kind (`Declares.entries_eq`), and whether
the schema is sound can be told from the list (`Declares.sound_iff`).
-/

namespace SchemaLang

/-- Without repeated names a list of entries is just what is collected. -/
theorem OrderedMap.Collects.entries_eq {α : Type} {m : OrderedMap α}
    {entries : List (String × α)} (h : m.Collects entries)
    (hnd : (entries.map Prod.fst).Nodup) : m.entries = entries := by
  have hfind : ∀ entry ∈ entries, (m.find? entry.1).map (fun value => (entry.1, value)) =
      some entry := by
    intro entry hentry
    rw [h.found, lookup_reverse hnd, lookup_of_mem hnd hentry]
    rfl
  rw [OrderedMap.entries_eq, h.keys, eraseDups_of_nodup hnd, List.filterMap_map]
  calc entries.filterMap _ = entries.filterMap some := List.filterMap_congr hfind
    _ = entries := List.filterMap_some

namespace Schema

variable {s s' : Schema} {ds ds' : List Declaration} {known : String → Prop}

/-! ## Texts without imports -/

/-- The tokens of a text ask for no import. -/
def ImportFree (text : String) : Prop :=
  ∀ t ∈ (Scan.ofText text none).tokens, t.kind ≠ .keyword .importFile

theorem ofText_of_outline (importer : Option Importer) {path : Option String} {text : String}
    (h : Outline.ofText path text = ⟨ds.map .declaration, []⟩) :
    ∃ s, ofText importer path text = .ok s ∧ s.Declares ds := by
  obtain ⟨draft, hread, hdraft⟩ := readItems_declarations importer [] path []
    Draft.declares_empty ds
  refine ⟨draft.schema, ofText_ok_iff.mpr ?_, hdraft.schema⟩
  rw [readOutline, h, hread]

/-- A text without imports that can be read lists declarations, of which its schema is made. -/
theorem declares_of_ofText {importer : Option Importer} {text : String}
    (h : ofText importer none text = .ok s) (hfree : ImportFree text) :
    ∃ ds : List Declaration, Outline.ofText none text = ⟨ds.map .declaration, []⟩ ∧
      s.Declares ds := by
  rw [ofText_ok_iff] at h
  unfold Outline.ofText at h
  dsimp only at h
  split at h
  · next hok =>
    have hplain : ∀ t ∈ (Scan.ofText text none).tokens.takeWhile (·.kind ≠ .endOfInput),
        t.kind ≠ .keyword .importFile :=
      fun t ht => hfree t (List.takeWhile_sublist _ |>.subset ht)
    obtain ⟨ds, hitems, hdeclares, herrors⟩ := readTokens_of_no_imports importer none hplain
    rw [readTokens, h] at hdeclares herrors
    dsimp only at herrors
    refine ⟨ds, ?_, hdeclares⟩
    rw [Outline.ofText, if_pos hok, ← hitems, herrors]
  · next hfaulty =>
    -- a text that does not scan is not read either
    rw [readOutline, readItems] at h
    have hnone : (Scan.ofText text none).errors = [] := congrArg Prod.snd h
    exact absurd (by simp [Scan.ok, hnone]) hfaulty

/-! ## Names -/

theorem Declares.mem_of_find? (h : s.Declares ds) {kind : DeclarationKind} {name : String}
    {d : Declaration} (hd : s.find? kind name = some d) :
    d ∈ ds ∧ d.kind = kind ∧ d.name = name := by
  obtain ⟨d', hd', heq⟩ := List.mem_map.mp ((h.collected kind).mem_of_find? hd)
  obtain ⟨rfl, rfl⟩ := Prod.mk.inj heq
  obtain ⟨hmem, hkind⟩ := List.mem_filter.mp hd'
  exact ⟨hmem, by simpa using hkind, rfl⟩

theorem Declares.mem_keys (h : s.Declares ds) {kind : DeclarationKind} {name : String} :
    name ∈ (s.ofKind kind).keys ↔ ∃ d ∈ ds, d.kind = kind ∧ d.name = name := by
  rw [(h.collected kind).keys, List.mem_eraseDups, List.map_map]
  simp only [List.mem_map, List.mem_filter, Function.comp_apply, decide_eq_true_eq, and_assoc]

theorem Declares.mem_names (h : s.Declares ds) {name : String} :
    name ∈ s.names ↔ name ∈ ds.map Declaration.name := by
  rw [Schema.mem_names, List.mem_map]
  simp only [← mem_keys_ofKind, h.mem_keys]
  constructor
  · rintro ⟨kind, d, hd, -, hname⟩
    exact ⟨d, hd, hname⟩
  · rintro ⟨d, hd, hname⟩
    exact ⟨d.kind, d, hd, rfl, hname⟩

/-- Kinds and names are repeated where the schema lists a declaration as repeated. -/
theorem redeclarations_eq_nil_iff :
    redeclarations [] ds = [] ↔ ds.Pairwise fun d e => ¬(d.kind = e.kind ∧ d.name = e.name) := by
  rw [redeclarations, List.map_eq_nil_iff, repeating_eq_nil_iff]
  rfl

theorem Declares.distinct_iff (h : s.Declares ds) :
    s.redeclared = [] ∧ s.Apart ↔ (ds.map Declaration.name).Nodup := by
  rw [h.redeclared, redeclarations_eq_nil_iff, List.Nodup, List.pairwise_map]
  constructor
  · rintro ⟨honce, hapart⟩
    refine honce.imp_of_mem fun {d e} hd he hdiffer hname => hdiffer ⟨?_, hname⟩
    exact hapart d.name d.kind e.kind (h.mem_keys.mpr ⟨d, hd, rfl, rfl⟩)
      (h.mem_keys.mpr ⟨e, he, rfl, hname.symm⟩)
  · intro hdistinct
    refine ⟨hdistinct.imp fun hname hsame => hname hsame.2, fun name kind kind' hk hk' => ?_⟩
    obtain ⟨d, hd, rfl, hname⟩ := h.mem_keys.mp hk
    obtain ⟨d', hd', rfl, hname'⟩ := h.mem_keys.mp hk'
    have hnodup : (ds.map Declaration.name).Nodup := List.pairwise_map.mpr hdistinct
    rw [List.inj_on_of_nodup_map hnodup hd hd' (hname.trans hname'.symm)]

/-! ## Contents -/

theorem Declares.entries_eq (h : s.Declares ds) (hnd : (ds.map Declaration.name).Nodup)
    (kind : DeclarationKind) :
    (s.ofKind kind).entries = (ds.filter (·.kind = kind)).map fun d => (d.name, d) := by
  apply (h.collected kind).entries_eq
  rw [List.map_map]
  exact hnd.sublist (List.filter_sublist.map _)

theorem Declares.mem_declarations (h : s.Declares ds) (hnd : (ds.map Declaration.name).Nodup)
    {d : Declaration} : d ∈ s.declarations ↔ d ∈ ds := by
  rw [Schema.mem_declarations]
  constructor
  · rintro ⟨name, hd⟩
    exact (h.mem_of_find? hd).1
  · intro hd
    refine ⟨d.name, OrderedMap.find?_eq_some_iff.mpr ?_⟩
    rw [h.entries_eq hnd]
    exact List.mem_map.mpr ⟨d, List.mem_filter.mpr ⟨hd, by simp⟩, rfl⟩

/-- A schema is sound when no two of its declarations have one name and each keeps the rules. -/
theorem Declares.sound_iff (h : s.Declares ds) :
    s.Sound known ↔ (ds.map Declaration.name).Nodup ∧ ∀ d ∈ ds, d.WellFormed ∧
      ∀ name ∈ d.typeNames, isBaseType name = true ∨ known name := by
  constructor
  · rintro ⟨honce, hapart, hwell, hresolved⟩
    have hnd := h.distinct_iff.mp ⟨honce, hapart⟩
    refine ⟨hnd, fun d hd => ?_⟩
    have hmem := (h.mem_declarations hnd).mpr hd
    exact ⟨hwell d hmem, hresolved d hmem⟩
  · rintro ⟨hnd, hrules⟩
    obtain ⟨honce, hapart⟩ := h.distinct_iff.mpr hnd
    exact ⟨honce, hapart, fun d hd => (hrules d ((h.mem_declarations hnd).mp hd)).1,
      fun d hd => (hrules d ((h.mem_declarations hnd).mp hd)).2⟩

/-- Without paths, schemas agree only when they have no name in common. -/
theorem Declares.agrees_iff (h : s.Declares ds) (h' : s'.Declares ds')
    (hpath : ∀ d ∈ ds, d.trace.path = none) :
    s.Agrees s' ↔ (ds.map Declaration.name).Disjoint (ds'.map Declaration.name) := by
  constructor
  · intro hagree name hname hname'
    obtain ⟨kind, d, hd⟩ := Schema.mem_names.mp (h.mem_names.mpr hname)
    obtain ⟨kind', d', hd'⟩ := Schema.mem_names.mp (h'.mem_names.mpr hname')
    obtain ⟨-, -, hsome⟩ := hagree name kind kind' d d' hd hd'
    rw [hpath d (h.mem_of_find? hd).1] at hsome
    cases hsome
  · intro hdisjoint name kind kind' d d' hd hd'
    have hname := h.mem_names.mp (Schema.mem_names.mpr ⟨kind, d, hd⟩)
    have hname' := h'.mem_names.mp (Schema.mem_names.mpr ⟨kind', d', hd'⟩)
    exact absurd hname' (hdisjoint hname)

end Schema

end SchemaLang
