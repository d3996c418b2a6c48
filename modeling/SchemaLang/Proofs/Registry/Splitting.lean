import SchemaLang.Proofs.Outline.Relocation
import SchemaLang.Proofs.Registry.Listing
import SchemaLang.Proofs.Registry.Sequence

/-!
# Sources split into a batch

Texts without imports come to the same as a batch and as one text, joined by line feeds
(`loadAll_alike_joined`). In one text, names that clash show in the list of what is declared
twice and in the conflicts of its schema; in a batch they show against what other texts have
confirmed. Both ask the same of the list of all declarations (`admits_iff_accepts`): no two have
one name. The list is the same, too, but for the lines that the declarations stand on, and lines
are nothing that a registry looks at when the sources have no path.
-/

namespace SchemaLang

theorem forall_iff_of_forall₂ {α β : Type} {R : α → β → Prop} {P : α → Prop} {Q : β → Prop}
    {as : List α} {bs : List β} (h : List.Forall₂ R as bs) (hiff : ∀ a b, R a b → (P a ↔ Q b)) :
    (∀ a ∈ as, P a) ↔ ∀ b ∈ bs, Q b := by
  induction h with
  | nil => simp
  | cons hfirst _ ih => rw [List.forall_mem_cons, List.forall_mem_cons, hiff _ _ hfirst, ih]

namespace Declaration

variable (f : Nat → Nat) (d : Declaration)

@[simp] theorem typeNames_mapLine : (d.mapLine f).typeNames = d.typeNames := by
  cases d with
  | model m => simp [mapLine, Model.mapLine, typeNames, List.flatMap_map, Field.mapLine]
  | enum e => rfl
  | typeDef t => rfl

@[simp] theorem wellFormed_mapLine : (d.mapLine f).WellFormed ↔ d.WellFormed := by
  cases d with
  | model m =>
    simp only [mapLine, Model.mapLine, WellFormed, OrderedMap.values_mapValues,
      List.forall_mem_map]
    rfl
  | enum e => rfl
  | typeDef t => rfl

theorem bind_mapLine (id : RegistryId) : (d.mapLine f).bind id = (d.bind id).mapLine f := by
  cases d <;> rfl

end Declaration

theorem Outline.path_of_listed {path : Option String} {text : String} {ds : List Declaration}
    (h : ofText path text = ⟨ds.map .declaration, []⟩) : ∀ d ∈ ds, d.trace.path = path := by
  intro d hd
  have hmem : .declaration d ∈ (ofText path text).items := by
    rw [h]
    exact List.mem_map_of_mem hd
  exact path_of_mem hmem

/-! ## Declarations that are taken in together -/

namespace Schema

variable {units : List Schema} {lists : List (List Declaration)}

theorem pairwise_agrees_iff (h : List.Forall₂ Declares units lists)
    (hpath : ∀ ds ∈ lists, ∀ d ∈ ds, d.trace.path = none) :
    units.Pairwise Agrees ↔
      lists.Pairwise fun ds ds' =>
        (ds.map Declaration.name).Disjoint (ds'.map Declaration.name) := by
  induction h with
  | nil => simp
  | cons hfirst hrest ih =>
    rw [List.forall_mem_cons] at hpath
    rw [List.pairwise_cons, List.pairwise_cons, ih hpath.2,
      forall_iff_of_forall₂ hrest fun _ _ hother => hfirst.agrees_iff hother hpath.1]

/-- Where no name comes up twice, what is collected is all that is declared of a kind. -/
theorem collect_of_declares (h : List.Forall₂ Declares units lists)
    (hnd : (lists.flatten.map Declaration.name).Nodup) (kind : DeclarationKind) :
    collect units kind = (lists.flatten.filter (·.kind = kind)).map fun d => (d.name, d) := by
  induction h with
  | nil => rfl
  | @cons s ds units lists hfirst hrest ih =>
    rw [List.flatten_cons, List.map_append, List.nodup_append] at hnd
    obtain ⟨hown, hothers, hapart⟩ := hnd
    have hnew : ∀ s' ∈ units, ∀ name ∈ s'.names, name ∉ s.names := by
      rw [forall_iff_of_forall₂ hrest fun s' ds' hs' => by
        simp only [hs'.mem_names, hfirst.mem_names]; exact Iff.rfl]
      intro ds' hds' name hname hmine
      obtain ⟨d, hd, rfl⟩ := List.mem_map.mp hname
      exact hapart _ hmine _ (List.mem_map_of_mem (List.mem_flatten_of_mem hds' hd)) rfl
    rw [collect_cons kind hnew, ih hothers, collect_singleton, hfirst.entries_eq hown,
      List.flatten_cons, List.filter_append, List.map_append]

end Schema

namespace Registry

variable {r : Registry}

/-- Declarations that a registry can take in together: no two have one name, no name is taken,
and each keeps the rules and uses known names only. -/
structure Accepts (r : Registry) (ds : List Declaration) : Prop where
  distinct : (ds.map Declaration.name).Nodup
  fresh : ∀ d ∈ ds, d.name ∉ r.tables.names
  wellFormed : ∀ d ∈ ds, d.WellFormed
  resolved : ∀ d ∈ ds, ∀ used ∈ d.typeNames, isBaseType used = true ∨
    used ∈ r.tables.names ∨ used ∈ ds.map Declaration.name

theorem accepts_mapLine_iff (f : Nat → Nat) (ds : List Declaration) :
    r.Accepts (ds.map (Declaration.mapLine f)) ↔ r.Accepts ds := by
  have hnames : (ds.map (Declaration.mapLine f)).map Declaration.name =
      ds.map Declaration.name := by
    simp [List.map_map, Function.comp_def]
  constructor
  · rintro ⟨hdistinct, hfresh, hwell, hresolved⟩
    rw [hnames] at hdistinct hresolved
    exact ⟨hdistinct, by simpa using hfresh, by simpa using hwell,
      by simpa only [List.forall_mem_map, Declaration.typeNames_mapLine] using hresolved⟩
  · rintro ⟨hdistinct, hfresh, hwell, hresolved⟩
    refine ⟨by rwa [hnames], by simpa using hfresh, by simpa using hwell, ?_⟩
    rw [hnames]
    simpa only [List.forall_mem_map, Declaration.typeNames_mapLine] using hresolved

/-- Sources without paths are admitted as a batch when all that they declare is accepted, and it
does not matter which source declares what. -/
theorem admits_iff_accepts {units : List Schema} {lists : List (List Declaration)}
    (h : List.Forall₂ Schema.Declares units lists)
    (hpath : ∀ ds ∈ lists, ∀ d ∈ ds, d.trace.path = none) :
    r.Admits units ↔ r.Accepts lists.flatten := by
  have hmem (name : String) : (∃ s ∈ units, name ∈ s.names) ↔
      name ∈ lists.flatten.map Declaration.name := by
    have hnone : (∀ s ∈ units, name ∉ s.names) ↔
        ∀ ds ∈ lists, name ∉ ds.map Declaration.name :=
      forall_iff_of_forall₂ h fun s ds hs => not_congr hs.mem_names
    rw [List.map_flatten, ← not_iff_not]
    simpa using hnone
  have hsound : (∀ s ∈ units, s.Sound fun name =>
      name ∈ r.tables.names ∨ ∃ s' ∈ units, name ∈ s'.names) ↔
        ∀ ds ∈ lists, (ds.map Declaration.name).Nodup ∧ ∀ d ∈ ds, d.WellFormed ∧
          ∀ used ∈ d.typeNames, isBaseType used = true ∨
            used ∈ r.tables.names ∨ used ∈ lists.flatten.map Declaration.name := by
    simp only [hmem]
    exact forall_iff_of_forall₂ h fun s ds hs => hs.sound_iff
  have hfresh : (∀ s ∈ units, ∀ name ∈ s.names, name ∉ r.tables.names) ↔
      ∀ ds ∈ lists, ∀ d ∈ ds, d.name ∉ r.tables.names :=
    forall_iff_of_forall₂ h fun s ds hs => by
      simp only [hs.mem_names, List.forall_mem_map]
  have hdistinct : (lists.flatten.map Declaration.name).Nodup ↔
      (∀ ds ∈ lists, (ds.map Declaration.name).Nodup) ∧ units.Pairwise Schema.Agrees := by
    rw [List.map_flatten, List.nodup_flatten, List.forall_mem_map, List.pairwise_map,
      Schema.pairwise_agrees_iff h hpath]
  constructor
  · rintro ⟨hrules, hnew, hagree⟩
    rw [hsound] at hrules
    rw [hfresh] at hnew
    exact ⟨hdistinct.mpr ⟨fun ds hds => (hrules ds hds).1, hagree⟩,
      List.forall_mem_flatten.mpr hnew,
      List.forall_mem_flatten.mpr fun ds hds d hd => ((hrules ds hds).2 d hd).1,
      List.forall_mem_flatten.mpr fun ds hds d hd => ((hrules ds hds).2 d hd).2⟩
  · rintro ⟨hnames, hnew, hwell, hresolved⟩
    obtain ⟨hown, hagree⟩ := hdistinct.mp hnames
    rw [List.forall_mem_flatten] at hnew hwell hresolved
    exact ⟨hsound.mpr fun ds hds =>
      ⟨hown ds hds, fun d hd => ⟨hwell ds hds d hd, hresolved ds hds d hd⟩⟩,
      hfresh.mpr hnew, hagree⟩

theorem contents_accept_of_declares {units : List Schema} {lists : List (List Declaration)}
    (h : List.Forall₂ Schema.Declares units lists)
    (hpath : ∀ ds ∈ lists, ∀ d ∈ ds, d.trace.path = none) (ha : r.Admits units)
    (kind : DeclarationKind) :
    (r.accept units).tables.contents kind = r.tables.contents kind ++
      (lists.flatten.filter (·.kind = kind)).map fun d => (d.name, d.bind r.id) := by
  have hnd := ((admits_iff_accepts h hpath).mp ha).distinct
  rw [ha.contents_accept, Schema.collect_of_declares h hnd, List.map_map]
  rfl

end Registry

/-! ## Without lines -/

/-- What is registered as a kind, but for the lines in the traces. -/
def Tables.unlined (t : Tables) (kind : DeclarationKind) : List (String × Declaration) :=
  (t.contents kind).map fun entry => (entry.1, entry.2.mapLine fun _ => 0)

namespace Registry

variable {r : Registry}

/-- What is added to the tables, but for the lines, depends only on what is declared, but for
the lines. -/
theorem unlined_accept {units : List Schema} {lists : List (List Declaration)}
    (h : List.Forall₂ Schema.Declares units lists)
    (hpath : ∀ ds ∈ lists, ∀ d ∈ ds, d.trace.path = none) (ha : r.Admits units)
    (kind : DeclarationKind) :
    (r.accept units).tables.unlined kind = r.tables.unlined kind ++
      ((lists.flatten.map (Declaration.mapLine fun _ => 0)).filter (·.kind = kind)).map
        fun d => (d.name, d.bind r.id) := by
  rw [Tables.unlined, contents_accept_of_declares h hpath ha, List.map_append, List.filter_map,
    List.map_map, List.map_map]
  simp only [Function.comp_def, Declaration.kind_mapLine, Declaration.name_mapLine,
    Declaration.bind_mapLine]
  rfl

/-! ## One text or many -/

/-- A batch whose sources are known to parse is taken in when it is admitted. -/
theorem Settled.loadAllSources_of_parses (h : r.Settled) {sources : List Source}
    {units : List Schema} (hparse : List.Forall₂ (Source.Parses r.importer) sources units) :
    ((r.loadAllSources sources).2 = .ok () ↔ r.Admits units) ∧
      (r.Admits units → (r.loadAllSources sources).1 = r.accept units) := by
  have hload (ha : r.Admits units) : r.loadAllSources sources = (r.accept units, .ok ()) :=
    h.loadAllSources_eq_ok_iff.mpr ⟨units, hparse, ha, rfl⟩
  refine ⟨⟨fun hok => ?_, fun ha => by rw [hload ha]⟩, fun ha => by rw [hload ha]⟩
  obtain ⟨units', hparse', ha, -⟩ := h.loadAllSources_eq_ok_iff.mp (Prod.ext rfl hok)
  rwa [Source.parses_unique hparse hparse']

/-- Texts that parse and import nothing, with what they declare. -/
theorem exists_declared {importer : Importer} {texts : List String}
    (hparses : ∀ text ∈ texts, ∃ s, Source.Parses importer ⟨text, none⟩ s)
    (hfree : ∀ text ∈ texts, Schema.ImportFree text) :
    ∃ units lists,
      List.Forall₂ (Source.Parses importer) (texts.map fun text => ⟨text, none⟩) units ∧
      List.Forall₂ Schema.Declares units lists ∧
      List.Forall₂ (fun text (ds : List Declaration) =>
        Outline.ofText none text = ⟨ds.map .declaration, []⟩) texts lists := by
  induction texts with
  | nil => exact ⟨[], [], .nil, .nil, .nil⟩
  | cons text rest ih =>
    rw [List.forall_mem_cons] at hparses hfree
    obtain ⟨s, hs⟩ := hparses.1
    obtain ⟨ds, houtline, hdeclares⟩ := Schema.declares_of_ofText hs hfree.1
    obtain ⟨units, lists, hunits, hlists, houtlines⟩ := ih hparses.2 hfree.2
    exact ⟨s :: units, ds :: lists, .cons hs hunits, .cons hdeclares hlists,
      .cons houtline houtlines⟩

/-- Texts that parse, import nothing and do not end inside a block comment are taken in as a
batch exactly when they are as one text, joined by line feeds. The same names are registered
then, in the same order, and the declarations are equal but for the lines in their traces. -/
theorem loadAll_alike_joined (h : r.Reachable) {texts : List String}
    (hparses : ∀ text ∈ texts, ∃ s, Source.Parses r.importer ⟨text, none⟩ s)
    (hfree : ∀ text ∈ texts, Schema.ImportFree text)
    (hblock : ∀ text ∈ texts, ¬Segment.EndsInBlockComment text.toList) :
    ((r.loadAll texts).2 = .ok () ↔ (r.load ("\n".intercalate texts)).2 = .ok ()) ∧
    ((r.loadAll texts).2 = .ok () → ∀ kind,
      (r.loadAll texts).1.tables.unlined kind =
        (r.load ("\n".intercalate texts)).1.tables.unlined kind) := by
  obtain ⟨units, lists, hunits, hlists, houtlines⟩ := exists_declared hparses hfree
  obtain ⟨ds, houtline, hlines⟩ := Outline.ofText_intercalate houtlines hblock
  obtain ⟨s, hs, hdeclares⟩ := Schema.ofText_of_outline (some r.importer) houtline
  have hpaths : ∀ ds ∈ lists, ∀ d ∈ ds, d.trace.path = none :=
    (forall_iff_of_forall₂ (P := fun _ => True) houtlines fun _ _ hlisted =>
      iff_of_true trivial (Outline.path_of_listed hlisted)).mp fun _ _ => trivial
  have hone : List.Forall₂ Schema.Declares [s] [ds] := .cons hdeclares .nil
  have hpathOne : ∀ ds' ∈ [ds], ∀ d ∈ ds', d.trace.path = none := by
    simpa using Outline.path_of_listed houtline
  have hparse : List.Forall₂ (Source.Parses r.importer) [⟨"\n".intercalate texts, none⟩] [s] :=
    .cons hs .nil
  -- one text is a batch of one
  have hsingle := h.settled.loadSource_alike_batch ⟨"\n".intercalate texts, none⟩
  have hjoined := h.settled.loadAllSources_of_parses hparse
  have hbatch := h.settled.loadAllSources_of_parses hunits
  have hadmits : r.Admits units ↔ r.Admits [s] :=
    calc r.Admits units ↔ r.Accepts lists.flatten := admits_iff_accepts hlists hpaths
      _ ↔ r.Accepts (lists.flatten.map (Declaration.mapLine fun _ => 0)) :=
          (accepts_mapLine_iff _ _).symm
      _ ↔ r.Accepts (ds.map (Declaration.mapLine fun _ => 0)) := by rw [hlines]
      _ ↔ r.Accepts ds := accepts_mapLine_iff _ _
      _ ↔ r.Admits [s] := by rw [admits_iff_accepts hone hpathOne, List.flatten_singleton]
  have hloads : (r.loadAll texts).2 = .ok () ↔
      (r.load ("\n".intercalate texts)).2 = .ok () :=
    hbatch.1.trans (hadmits.trans (hjoined.1.symm.trans hsingle.1.symm))
  refine ⟨hloads, fun hok kind => ?_⟩
  have ha : r.Admits units := hbatch.1.mp hok
  have htables : (r.load ("\n".intercalate texts)).1.tables = (r.accept [s]).tables := by
    rw [← hjoined.2 (hadmits.mp ha)]
    exact hsingle.2
  have htables' : (r.loadAll texts).1.tables = (r.accept units).tables :=
    congrArg Registry.tables (hbatch.2 ha)
  rw [htables, htables', unlined_accept hlists hpaths ha,
    unlined_accept hone hpathOne (hadmits.mp ha), List.flatten_singleton, hlines]

/-- An enum with a comment behind it, and a typedef that uses it. -/
def enumAndTypedef : List String :=
  ["enum A \x7b X \x7d // one", "typedef B A"]

/-- A comment at the end of a text does not reach into the next one. -/
theorem loadAll_alike_joined_comment :
    (Registry.new ⟨0⟩ .standard .none).Reachable ∧
    (∀ text ∈ enumAndTypedef, ∃ s, Source.Parses .none ⟨text, none⟩ s) ∧
    (∀ text ∈ enumAndTypedef, Schema.ImportFree text) ∧
    (∀ text ∈ enumAndTypedef, ¬Segment.EndsInBlockComment text.toList) ∧
    ((Registry.new ⟨0⟩ .standard .none).load ("\n".intercalate enumAndTypedef)).2 = .ok () ∧
    ∀ kind, ((Registry.new ⟨0⟩ .standard .none).loadAll enumAndTypedef).1.tables.unlined kind =
      ((Registry.new ⟨0⟩ .standard .none).load
        ("\n".intercalate enumAndTypedef)).1.tables.unlined kind := by
  have hnew : (Registry.new ⟨0⟩ .standard .none).Reachable := .new _ _ _
  have hparses : ∀ text ∈ enumAndTypedef, ∃ s, Source.Parses .none ⟨text, none⟩ s := by
    have hread : enumAndTypedef.map (fun text =>
        (Schema.ofText (some .none) none text).toOption.isSome) = [true, true] := by
      cbv
    intro text htext
    have hsome := List.mem_map_of_mem (f := fun text =>
      (Schema.ofText (some .none) none text).toOption.isSome) htext
    rw [hread] at hsome
    cases hs : Schema.ofText (some .none) none text with
    | ok s => exact ⟨s, hs⟩
    | error errors => simp [hs, Except.toOption] at hsome
  have hfree : ∀ text ∈ enumAndTypedef, Schema.ImportFree text := by
    have hkinds : enumAndTypedef.map (fun text =>
        (Scan.ofText text none).tokens.all fun t => t.kind ≠ .keyword .importFile) =
          [true, true] := by
      cbv
    intro text htext
    have hall := List.mem_map_of_mem (f := fun text =>
      (Scan.ofText text none).tokens.all fun t => t.kind ≠ .keyword .importFile) htext
    rw [hkinds] at hall
    simpa [Schema.ImportFree] using hall
  have hblock : ∀ text ∈ enumAndTypedef, ¬Segment.EndsInBlockComment text.toList := by
    have hlast : enumAndTypedef.map (fun text => (Segment.segments text.toList).getLast?) =
        [some (.comment "// one".toList), some (.word "A".toList)] := by
      cbv
    intro text htext hends
    obtain ⟨body, hbody, -⟩ := Segment.endsInBlockComment_iff.mp hends
    have hsegment := List.mem_map_of_mem (f := fun text =>
      (Segment.segments text.toList).getLast?) htext
    rw [hlast, hbody] at hsegment
    simp at hsegment
  have hload : ((Registry.new ⟨0⟩ .standard .none).load
      ("\n".intercalate enumAndTypedef)).2 = .ok () := by
    cbv
  obtain ⟨hloads, hcontents⟩ := loadAll_alike_joined hnew hparses hfree hblock
  exact ⟨hnew, hparses, hfree, hblock, hload, hcontents (hloads.mpr hload)⟩

end Registry

end SchemaLang
