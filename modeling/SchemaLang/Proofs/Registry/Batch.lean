import SchemaLang.Proofs.Outline
import SchemaLang.Proofs.Registry.Admission

/-!
# Batches

What several sources of a batch have in common. Declarations of one name have to stand at
one place of one file; if every path denotes one text, they are the same declaration
(`declarations_eq_of_same_name`). The order of the sources matters neither to the outcome
nor to the names and traces that are registered, and a source that has a path may as well
be listed twice (`loadAllSources_alike`).
-/

namespace SchemaLang

/-- The importer that knows one file. -/
def Importer.ofFile (path text : String) : Importer :=
  ofPaths (fun _ file => if file = path then some ⟨path, text⟩ else Option.none) [path] (by
    intro current file source h
    split at h <;> cases h
    exact List.mem_singleton_self path)

/-! ## Where declarations come from -/

/-- Every path denotes one text, wherever it turns up: in an answer of the importer or in
a source of a batch. -/
structure PathsDenote (texts : String → String) (importer : Importer) (sources : List Source) :
    Prop where
  answers : ∀ current file source, importer.resolve current file = some source →
    source.text = texts source.path
  listed : ∀ source ∈ sources, ∀ path, source.path = some path → source.text = texts path

/-- A declaration with a path comes from the text that the path denotes. -/
def Declaration.ComesFrom (texts : String → String) (d : Declaration) : Prop :=
  ∀ path, d.trace.path = some path →
    .declaration d ∈ (Outline.ofText (some path) (texts path)).items

variable {texts : String → String} {importer : Importer} {sources : List Source}

theorem Declaration.comesFrom_of_mem {d : Declaration} {path : String} {text : String}
    (htext : text = texts path) (hd : .declaration d ∈ (Outline.ofText (some path) text).items) :
    d.ComesFrom texts := by
  intro path' hpath'
  rw [Outline.path_of_mem hd] at hpath'
  obtain rfl := Option.some.inj hpath'
  rwa [← htext]

/-- A place of a file tells one declaration. -/
theorem Declaration.ComesFrom.eq {d d' : Declaration} (h : d.ComesFrom texts)
    (h' : d'.ComesFrom texts) (htrace : d.trace = d'.trace)
    (hpath : d.trace.path.isSome = true) : d = d' := by
  obtain ⟨path, hsome⟩ := Option.isSome_iff_exists.mp hpath
  exact Outline.eq_of_trace (h path hsome) (h' path (by rw [← htrace, hsome])) htrace

/-- What can be said of every declaration that is met on the way holds of all that a
source amounts to. -/
theorem Source.Parses.forall_declarations {source : Source} {s : Schema}
    {P : Declaration → Prop} (h : source.Parses importer s)
    (hown : ∀ d, .declaration d ∈ (Outline.ofText source.path source.text).items → P d)
    (himported : ∀ current file answer, importer.resolve current file = some answer →
      ∀ d, .declaration d ∈ answer.outline.items → P d) :
    ∀ kind name d, s.find? kind name = some d → P d := by
  have hs : (Schema.readOutline (some importer) source.path
      (.ofText source.path source.text)).1 = s :=
    congrArg Prod.fst (Schema.ofText_ok_iff.mp h)
  have hempty : ∀ kind name d, Schema.empty.find? kind name = some d → P d := by
    intro kind name d hd
    cases kind <;> cases hd
  rw [← hs]
  refine @Schema.readItems_keeps (fun s => ∀ kind name d, s.find? kind name = some d → P d) P
    (some importer) hempty ?_ ?_ himported _ _ _ _ _ hown hempty
  -- what is found is the declaration that was met last under the name, or an older one
  · intro draft d hmet hdraft kind name d' hd'
    rw [Schema.find?_declare] at hd'
    split at hd'
    · cases hd'
      exact hmet
    · exact hdraft kind name d' hd'
  · intro s s' hs hs' kind name d hd
    rcases Schema.find?_merge_cases hd with hd | hd
    · exact hs' kind name d hd
    · exact hs kind name d hd

theorem Source.Parses.comesFrom {source : Source} {s : Schema} (h : source.Parses importer s)
    (hpaths : PathsDenote texts importer sources) (hsource : source ∈ sources) :
    ∀ kind name d, s.find? kind name = some d → d.ComesFrom texts := by
  refine h.forall_declarations ?_ ?_
  · intro d hd
    cases hpath : source.path with
    | none =>
      intro path hsome
      rw [Outline.path_of_mem hd, hpath] at hsome
      cases hsome
    | some path =>
      rw [hpath] at hd
      exact Declaration.comesFrom_of_mem (hpaths.listed source hsource path hpath) hd
  · intro current file answer hanswer d hd
    exact Declaration.comesFrom_of_mem (hpaths.answers current file answer hanswer) hd

/-- A source that has a path gives one to all that it amounts to. -/
theorem Source.Parses.path_isSome {source : Source} {s : Schema} (h : source.Parses importer s)
    (hpath : source.path.isSome = true) :
    ∀ kind name d, s.find? kind name = some d → d.trace.path.isSome = true := by
  refine h.forall_declarations ?_ ?_
  · intro d hd
    rwa [Outline.path_of_mem hd]
  · intro current file answer _ d hd
    rw [Outline.path_of_mem hd]
    rfl

/-- A schema in which no name has two kinds agrees with itself if its traces have paths. -/
theorem Schema.Apart.agrees_self {s : Schema} (h : s.Apart)
    (hpath : ∀ kind name d, s.find? kind name = some d → d.trace.path.isSome = true) :
    s.Agrees s := by
  intro name kind kind' d d' hd hd'
  obtain rfl := h name kind kind' (mem_keys_ofKind.mpr ⟨d, hd⟩) (mem_keys_ofKind.mpr ⟨d', hd'⟩)
  obtain rfl := Option.some.inj (hd.symm.trans hd')
  exact ⟨rfl, rfl, hpath kind name d hd⟩

theorem exists_of_forall₂ {α β : Type} {R : α → β → Prop} {as : List α} {bs : List β}
    (h : List.Forall₂ R as bs) : ∀ a ∈ as, ∃ b ∈ bs, R a b := by
  induction h with
  | nil => simp
  | cons hfirst _ ih =>
    refine List.forall_mem_cons.mpr ⟨⟨_, List.mem_cons_self, hfirst⟩, ?_⟩
    intro a ha
    obtain ⟨b, hb, hab⟩ := ih a ha
    exact ⟨b, List.mem_cons_of_mem _ hb, hab⟩

namespace Registry

variable {r : Registry} {sources sources' : List Source} {units units' : List Schema}

/-! ## Declarations of one name -/

/-- A batch that is taken in is one of schemas that keep their kinds apart and agree with
one another, whatever the registry held before. -/
theorem agrees_of_loadAllSources (h : (r.loadAllSources sources).2 = .ok ()) :
    ∃ units, List.Forall₂ (Source.Parses r.importer) sources units ∧
      (∀ s ∈ units, s.Apart) ∧ units.Pairwise Schema.Agrees := by
  have hload : r.loadAllSources sources = ((r.loadAllSources sources).1, .ok ()) :=
    Prod.ext rfl h
  obtain ⟨units, hparse, ⟨-, hstrict⟩, -⟩ := loadAllSources_eq_ok_iff.mp hload
  have hkeyed := Source.keyed_of_parses hparse
  have hannounced : ∀ s ∈ units, ∀ name ∈ s.names,
      name ∈ (r.nextBatch.takeAll .lazy units).tables.names := by
    intro s hs name hname
    exact (Tables.mem_names_commitAll r.nextBatch.tables units r.id r.nextBatch.batch).mpr
      (Or.inr ⟨s, hs, hname⟩)
  obtain ⟨hsound, -, hagree⟩ :=
    (passes_strict_iff (fun _ => Iff.rfl) hkeyed hannounced).mp hstrict
  exact ⟨units, hparse, fun s hs => (hsound s hs).apart, hagree⟩

/-- Where every path denotes one text, what the schemas of a batch that is taken in
declare under one name is one and the same declaration. -/
theorem declarations_eq_of_same_name (hpaths : PathsDenote texts r.importer sources)
    (hload : (r.loadAllSources sources).2 = .ok ()) :
    ∃ units, List.Forall₂ (Source.Parses r.importer) sources units ∧
      ∀ s ∈ units, ∀ s' ∈ units, ∀ name kind kind' d d',
        s.find? kind name = some d → s'.find? kind' name = some d' → kind = kind' ∧ d = d' := by
  obtain ⟨units, hparse, hapart, hagree⟩ := agrees_of_loadAllSources hload
  have hcomes : ∀ s ∈ units, ∀ kind name d, s.find? kind name = some d → d.ComesFrom texts := by
    intro s hs
    obtain ⟨source, hsource, hown⟩ := exists_of_forall₂ hparse.flip s hs
    exact Source.Parses.comesFrom hown hpaths hsource
  refine ⟨units, hparse, ?_⟩
  intro s hs s' hs' name kind kind' d d' hd hd'
  -- one schema has the name once; two different ones agree on where it stands
  by_cases heq : s = s'
  · subst heq
    obtain rfl := hapart s hs name kind kind' (Schema.mem_keys_ofKind.mpr ⟨d, hd⟩)
      (Schema.mem_keys_ofKind.mpr ⟨d', hd'⟩)
    exact ⟨rfl, Option.some.inj (hd.symm.trans hd')⟩
  · obtain ⟨hkind, htrace, hpath⟩ := hagree.forall hs hs' heq name kind kind' d d' hd hd'
    exact ⟨hkind, (hcomes s hs kind name d hd).eq (hcomes s' hs' kind' name d' hd') htrace hpath⟩

/-- A file with an enum, as a source of a batch. -/
def enumFile : Source := ⟨"enum E \x7b A \x7d", some "e"⟩

/-- A source that imports the file with the enum. -/
def enumImport : Source := ⟨"import \x22e\x22", none⟩

/-- A new registry that can import the file with the enum. -/
def withEnumFile : Registry := .new ⟨0⟩ .standard (.ofFile "e" enumFile.text)

/-- A file may be a source of a batch in which another source imports it. -/
theorem declarations_eq_of_imported_source :
    PathsDenote (fun _ => enumFile.text) withEnumFile.importer [enumImport, enumFile] ∧
    (withEnumFile.loadAllSources [enumImport, enumFile]).2 = .ok () ∧
    ∃ units,
      List.Forall₂ (Source.Parses withEnumFile.importer) [enumImport, enumFile] units ∧
      ∀ s ∈ units, ∀ s' ∈ units, ∀ name kind kind' d d',
        s.find? kind name = some d → s'.find? kind' name = some d' →
          kind = kind' ∧ d = d' := by
  have hpaths : PathsDenote (fun _ => enumFile.text) withEnumFile.importer
      [enumImport, enumFile] := by
    constructor
    · intro current file source hsource
      simp only [withEnumFile, Registry.new, Importer.ofFile, Importer.ofPaths] at hsource
      split at hsource <;> cases hsource
      rfl
    · intro source hsource path hpath
      simp only [List.mem_cons, List.not_mem_nil, or_false] at hsource
      rcases hsource with rfl | rfl
      · cases hpath
      · rfl
  have hload : (withEnumFile.loadAllSources [enumImport, enumFile]).2 = .ok () := by cbv
  exact ⟨hpaths, hload, declarations_eq_of_same_name hpaths hload⟩

/-! ## Batches that come to the same -/

/-- What is admitted depends on the schemas, not on their order, as long as they agree. -/
theorem Admits.of_members (ha : r.Admits units) (hmem : ∀ s, s ∈ units ↔ s ∈ units')
    (hagree : units'.Pairwise Schema.Agrees) : r.Admits units' where
  sound := by
    intro s hs
    have hsound := ha.sound s ((hmem s).mpr hs)
    simpa only [hmem] using hsound
  fresh := fun s hs => ha.fresh s ((hmem s).mpr hs)
  agree := hagree

theorem Admits.trace_eq (ha : r.Admits units) {s s' : Schema} (hs : s ∈ units)
    (hs' : s' ∈ units) {kind : DeclarationKind} {name : String} {d d' : Declaration}
    (hd : s.find? kind name = some d) (hd' : s'.find? kind name = some d') :
    d.trace = d'.trace := by
  by_cases heq : s = s'
  · subst heq
    rw [Option.some.inj (hd.symm.trans hd')]
  · exact (ha.agree.forall hs hs' heq name kind kind d d' hd hd').2.1

end Registry

/-- Tables with the same names of each kind and the same trace for each name. -/
structure Tables.SameTraces (t t' : Tables) : Prop where
  names : ∀ kind name, name ∈ (t.ofKind kind).keys ↔ name ∈ (t'.ofKind kind).keys
  traces : ∀ kind name e e', t.lookup? kind name = some e → t'.lookup? kind name = some e' →
    e.declaration.trace = e'.declaration.trace

namespace Registry

variable {r : Registry} {sources sources' : List Source} {units units' : List Schema}

theorem mem_keys_accept {kind : DeclarationKind} {name : String} :
    name ∈ ((r.accept units).tables.ofKind kind).keys ↔
      name ∈ (r.tables.ofKind kind).keys ∨ ∃ s ∈ units, name ∈ (s.ofKind kind).keys := by
  have hkeys : ((r.accept units).tables.ofKind kind).keys = _ :=
    Tables.keys_ofKind_commitAll r.tables units r.id (r.batch + 1) false kind
  rw [hkeys, List.mem_eraseDups, List.mem_append, List.mem_flatMap]

theorem Admits.accept_sameTraces (ha : r.Admits units) (hmem : ∀ s, s ∈ units ↔ s ∈ units') :
    (r.accept units).tables.SameTraces (r.accept units').tables where
  names := by
    intro kind name
    simp only [mem_keys_accept, hmem]
  traces := by
    intro kind name e e' he he'
    -- a name is new in both tables or old in both, because new names are fresh
    rcases lookup?_accept_cases he with ⟨s, hs, d, hd, rfl⟩ | hold
    · rcases lookup?_accept_cases he' with ⟨s', hs', d', hd', rfl⟩ | hold'
      · simp only [Tables.entryOf, Declaration.trace_bind]
        exact ha.trace_eq hs ((hmem s').mpr hs') hd hd'
      · exact absurd hold' (ha.not_registered hs hd)
    · rcases lookup?_accept_cases he' with ⟨s', hs', d', hd', -⟩ | hold'
      · exact absurd hold (ha.not_registered ((hmem s').mpr hs') hd')
      · rw [Option.some.inj (hold.symm.trans hold')]

/-- Whatever a registry takes in as one batch, it takes in as another, with the same
schemas. -/
def Absorbs (r : Registry) (sources sources' : List Source) : Prop :=
  ∀ units, List.Forall₂ (Source.Parses r.importer) sources units → r.Admits units →
    ∃ units', List.Forall₂ (Source.Parses r.importer) sources' units' ∧ r.Admits units' ∧
      ∀ s, s ∈ units ↔ s ∈ units'

theorem Absorbs.trans {sources'' : List Source} (h : r.Absorbs sources sources')
    (h' : r.Absorbs sources' sources'') : r.Absorbs sources sources'' := by
  intro units hparse ha
  obtain ⟨units', hparse', ha', hmem⟩ := h units hparse ha
  obtain ⟨units'', hparse'', ha'', hmem'⟩ := h' units' hparse' ha'
  exact ⟨units'', hparse'', ha'', fun s => (hmem s).trans (hmem' s)⟩

theorem absorbs_of_perm (h : sources.Perm sources') : r.Absorbs sources sources' := by
  intro units hparse ha
  obtain ⟨units', hparse', hperm⟩ := List.perm_comp_forall₂ h.symm hparse
  have hmem : ∀ s, s ∈ units ↔ s ∈ units' := fun s => hperm.mem_iff.symm
  have hagree : units'.Pairwise Schema.Agrees :=
    (hperm.pairwise_iff fun h => h.symm).mpr ha.agree
  exact ⟨units', hparse', ha.of_members hmem hagree, hmem⟩

/-- A source of the batch that has a path may be listed once more. -/
theorem absorbs_cons {source : Source} (hsource : source ∈ sources)
    (hpath : source.path.isSome = true) : r.Absorbs sources (source :: sources) := by
  intro units hparse ha
  obtain ⟨s, hs, hown⟩ := exists_of_forall₂ hparse source hsource
  have hmem : ∀ s', s' ∈ units ↔ s' ∈ s :: units := by
    intro s'
    rw [List.mem_cons]
    constructor
    · exact Or.inr
    · rintro (rfl | hs')
      · exact hs
      · exact hs'
  have hself : s.Agrees s := (ha.sound s hs).apart.agrees_self (hown.path_isSome hpath)
  refine ⟨s :: units, .cons hown hparse, ha.of_members hmem (.cons ?_ ha.agree), hmem⟩
  intro s' hs'
  by_cases heq : s = s'
  · rwa [← heq]
  · exact ha.agree.forall hs hs' heq

/-- A source that is listed once more may be left out. -/
theorem absorbs_of_cons {source : Source} (hsource : source ∈ sources) :
    r.Absorbs (source :: sources) sources := by
  intro units hparse ha
  cases hparse with
  | @cons _ s _ units hown hparse =>
    obtain ⟨s', hs', hagain⟩ := exists_of_forall₂ hparse source hsource
    obtain rfl := hown.unique hagain
    have hmem : ∀ s', s' ∈ s :: units ↔ s' ∈ units := by
      intro s'
      rw [List.mem_cons]
      constructor
      · rintro (rfl | hs)
        · exact hs'
        · exact hs
      · exact Or.inr
    exact ⟨units, hparse, ha.of_members hmem (List.pairwise_cons.mp ha.agree).2, hmem⟩

/-- Two batches that a registry takes in or refuses alike. When it takes them in, the same
names are registered with the same traces. -/
structure LoadsAlike (r : Registry) (sources sources' : List Source) : Prop where
  outcome : (r.loadAllSources sources).2 = .ok () ↔ (r.loadAllSources sources').2 = .ok ()
  registered : (r.loadAllSources sources).2 = .ok () →
    (r.loadAllSources sources).1.tables.SameTraces (r.loadAllSources sources').1.tables

theorem Settled.absorb (h : r.Settled) (hto : r.Absorbs sources sources')
    (hok : (r.loadAllSources sources).2 = .ok ()) :
    (r.loadAllSources sources').2 = .ok () ∧
      (r.loadAllSources sources).1.tables.SameTraces (r.loadAllSources sources').1.tables := by
  have hload : r.loadAllSources sources = ((r.loadAllSources sources).1, .ok ()) :=
    Prod.ext rfl hok
  obtain ⟨units, hparse, ha, hafter⟩ := h.loadAllSources_eq_ok_iff.mp hload
  obtain ⟨units', hparse', ha', hmem⟩ := hto units hparse ha
  have hload' : r.loadAllSources sources' = (r.accept units', .ok ()) :=
    h.loadAllSources_eq_ok_iff.mpr ⟨units', hparse', ha', rfl⟩
  rw [hafter, hload']
  exact ⟨rfl, ha.accept_sameTraces hmem⟩

theorem Settled.loadsAlike (h : r.Settled) (hto : r.Absorbs sources sources')
    (hfrom : r.Absorbs sources' sources) : r.LoadsAlike sources sources' where
  outcome := ⟨fun hok => (h.absorb hto hok).1, fun hok => (h.absorb hfrom hok).1⟩
  registered := fun hok => (h.absorb hto hok).2

/-- The order of a batch does not matter, and neither does it matter whether a source that
has a path is listed once more. -/
theorem loadAllSources_alike (h : r.Reachable) :
    (∀ sources sources', sources.Perm sources' → r.LoadsAlike sources sources') ∧
    ∀ before after source, source ∈ before ++ after → source.path.isSome = true →
      r.LoadsAlike (before ++ after) (before ++ source :: after) := by
  constructor
  · intro sources sources' hperm
    exact h.settled.loadsAlike (absorbs_of_perm hperm) (absorbs_of_perm hperm.symm)
  · intro before after source hsource hpath
    -- the repeated source may as well stand in front
    have hfront : (before ++ source :: after).Perm (source :: (before ++ after)) :=
      List.perm_middle
    exact h.settled.loadsAlike
      ((absorbs_cons hsource hpath).trans (absorbs_of_perm hfront.symm))
      ((absorbs_of_perm hfront).trans (absorbs_of_cons hsource))

/-- A file and a source that imports it make one batch in both orders, and with the file
listed twice. -/
theorem loadAllSources_alike_of_import :
    withEnumFile.Reachable ∧
    (withEnumFile.loadAllSources [enumImport, enumFile]).2 = .ok () ∧
    withEnumFile.LoadsAlike [enumImport, enumFile] [enumFile, enumImport] ∧
    withEnumFile.LoadsAlike [enumImport, enumFile] [enumFile, enumImport, enumFile] := by
  have hnew : withEnumFile.Reachable := .new _ _ _
  have hload : (withEnumFile.loadAllSources [enumImport, enumFile]).2 = .ok () := by cbv
  obtain ⟨hperm, hrepeat⟩ := loadAllSources_alike hnew
  exact ⟨hnew, hload, hperm _ _ (.swap _ _ _),
    hrepeat [] [enumImport, enumFile] enumFile (by simp) rfl⟩

end Registry

end SchemaLang
