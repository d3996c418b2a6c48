import Mathlib.Data.List.Forall2
import SchemaLang.Proofs.Registry.Tables
import SchemaLang.Proofs.Validation

/-!
# Facts about passes

A pass over sources goes through when every source parses and every schema passes its
check when its turn comes (`foldlM_loadPass_eq_ok_iff`). The checks look at tables that
the earlier sources of the pass have filled. What they ask of a whole list of schemas
can be said without that order: `passes_lazy_iff` and `passes_strict_iff`.
-/

namespace SchemaLang

/-- A source whose text amounts to a schema. -/
def Source.Parses (importer : Importer) (source : Source) (s : Schema) : Prop :=
  Schema.ofText (some importer) source.path source.text = .ok s

namespace Source

theorem Parses.keyed {importer : Importer} {source : Source} {s : Schema}
    (h : source.Parses importer s) : s.Keyed :=
  Schema.ofText_keyed h

theorem Parses.unique {importer : Importer} {source : Source} {s s' : Schema}
    (h : source.Parses importer s) (h' : source.Parses importer s') : s = s' :=
  Except.ok.inj (h.symm.trans h')

variable {importer : Importer} {sources : List Source} {units units' : List Schema}

theorem keyed_of_parses (h : List.Forall₂ (Parses importer) sources units) :
    ∀ s ∈ units, s.Keyed := by
  induction h with
  | nil => simp
  | cons hhead _ ih => exact List.forall_mem_cons.mpr ⟨hhead.keyed, ih⟩

theorem parses_unique (h : List.Forall₂ (Parses importer) sources units)
    (h' : List.Forall₂ (Parses importer) sources units') : units = units' := by
  induction h generalizing units' with
  | nil =>
    cases h'
    rfl
  | cons hhead _ ih =>
    cases h' with
    | cons hhead' hrest' => rw [hhead.unique hhead', ih hrest']

end Source

namespace Registry

/-! ## Passes -/

/-- The registry when it has taken in a schema. -/
def take (mode : ValidationMode) (r : Registry) (s : Schema) : Registry :=
  { r with tables := r.tables.commit s r.id (mode = .lazy) r.batch }

/-- The registry when it has taken in several schemas. -/
def takeAll (mode : ValidationMode) (r : Registry) (units : List Schema) : Registry :=
  { r with tables := r.tables.commitAll units r.id (mode = .lazy) r.batch }

/-- Every schema passes its check when its turn comes. -/
def Passes (mode : ValidationMode) (r : Registry) : List Schema → Prop
  | [] => True
  | s :: rest => r.check mode s = [] ∧ (r.take mode s).Passes mode rest

theorem loadPass_eq_ok_iff {mode : ValidationMode} {r after : Registry} {source : Source} :
    loadPass mode r source = .ok after ↔
      ∃ s, source.Parses r.importer s ∧ r.check mode s = [] ∧ after = r.take mode s := by
  rw [loadPass, Grammar.bind_eq_ok]
  refine exists_congr fun s => and_congr Iff.rfl ?_
  dsimp only
  split
  · next h => simp [h, take, eq_comm]
  · next h => simp [h]

theorem foldlM_loadPass_eq_ok_iff {mode : ValidationMode} {r after : Registry}
    {sources : List Source} :
    sources.foldlM (loadPass mode) r = .ok after ↔
      ∃ units, List.Forall₂ (Source.Parses r.importer) sources units ∧
        r.Passes mode units ∧ after = r.takeAll mode units := by
  induction sources generalizing r with
  | nil =>
    constructor
    · intro h
      cases h
      exact ⟨[], .nil, trivial, rfl⟩
    · rintro ⟨units, hparse, -, rfl⟩
      cases hparse
      rfl
  | cons source rest ih =>
    rw [List.foldlM_cons, Grammar.bind_eq_ok]
    constructor
    · rintro ⟨middle, hfirst, hrest⟩
      obtain ⟨s, hs, hcheck, rfl⟩ := loadPass_eq_ok_iff.mp hfirst
      obtain ⟨units, hparse, hpass, rfl⟩ := ih.mp hrest
      exact ⟨s :: units, .cons hs hparse, ⟨hcheck, hpass⟩, rfl⟩
    · rintro ⟨units, hparse, hpass, rfl⟩
      cases hparse with
      | @cons _ s _ units hs hparse =>
        exact ⟨r.take mode s, loadPass_eq_ok_iff.mpr ⟨s, hs, hpass.1, rfl⟩,
          ih.mpr ⟨units, hparse, hpass.2, rfl⟩⟩

/-! ## What a check asks of a schema -/

/-- Whatever is confirmed under a name of the schema is the same declaration of the same
file, confirmed by the load that is under way. -/
def Fits (r : Registry) (s : Schema) : Prop :=
  ∀ kind name d, s.find? kind name = some d →
    ∀ kind' e, r.tables.confirmed? kind' name = some e →
      kind' = kind ∧ e.declaration.trace = d.trace ∧ d.trace.path.isSome = true ∧
        e.batch = r.batch

theorem isDuplicate_eq_false_iff {r : Registry} {d : Declaration} :
    r.isDuplicate d = false ↔
      ∀ e, r.tables.confirmed? d.kind d.name = some e →
        e.declaration.trace = d.trace ∧ d.trace.path.isSome = true ∧ e.batch = r.batch := by
  rw [isDuplicate, Tables.confirmed?]
  cases r.tables.lookup? d.kind d.name with
  | none => simp
  | some e =>
    cases hlazy : e.lazy with
    | true => simp [Option.filter_some, hlazy]
    | false => simp [Option.filter_some, hlazy, and_assoc, and_left_comm]

theorem collisions_eq_nil_iff {r : Registry} {d : Declaration} :
    r.collisions d = [] ↔
      ∀ kind e, r.tables.confirmed? kind d.name = some e →
        kind = d.kind ∧ e.declaration.trace = d.trace ∧ d.trace.path.isSome = true ∧
          e.batch = r.batch := by
  have hrepeated : (if r.isDuplicate d = true then [d.duplicate] else []) = [] ↔
      r.isDuplicate d = false := by
    cases r.isDuplicate d <;> simp
  have hothers : (DeclarationKind.all.filter fun kind =>
      kind ≠ d.kind && r.tables.isConfirmed kind d.name) = [] ↔
        ∀ kind, kind ≠ d.kind → ∀ e, r.tables.confirmed? kind d.name ≠ some e := by
    rw [List.filter_eq_nil_iff]
    simp only [DeclarationKind.mem_all, true_imp_iff, Bool.and_eq_true, decide_eq_true_eq,
      Tables.isConfirmed_iff, not_and, not_exists]
  simp only [collisions, List.append_eq_nil_iff, List.map_eq_nil_iff, hrepeated, hothers,
    isDuplicate_eq_false_iff]
  constructor
  · rintro ⟨hsame, hother⟩ kind e he
    by_cases hk : kind = d.kind
    · subst hk
      exact ⟨rfl, hsame e he⟩
    · exact absurd he (hother kind hk e)
  · intro h
    exact ⟨fun e he => (h _ e he).2, fun kind hk e he => hk (h kind e he).1⟩

theorem check_lazy_eq_nil_iff {r : Registry} {s : Schema} (hs : s.Keyed) :
    r.check .lazy s = [] ↔ s.Apart ∧ ∀ d ∈ s.declarations, d.WellFormed :=
  Validator.validate_lazy_eq_nil_iff hs

theorem resolves_scope_iff {r : Registry} {s : Schema} {name : String} :
    (r.scope s).resolves name = true ↔
      isBaseType name = true ∨ name ∈ s.names ∨ name ∈ r.tables.names := by
  simp [scope, Scope.ofSchema, Scope.extend, Scope.resolves]

theorem check_strict_eq_nil_iff {r : Registry} {s : Schema} (hs : s.Keyed) :
    r.check .strict s = [] ↔
      s.redeclared = [] ∧ s.Apart ∧
        (∀ d ∈ s.declarations, d.WellFormed ∧ ∀ name ∈ d.typeNames,
          isBaseType name = true ∨ name ∈ s.names ∨ name ∈ r.tables.names) ∧
        r.Fits s := by
  have hfits : (∀ d ∈ s.declarations, r.collisions d = []) ↔ r.Fits s := by
    simp only [collisions_eq_nil_iff]
    constructor
    · intro h kind name d hd
      have hcollide := h d (Schema.mem_declarations_of_find? hd)
      rwa [hs _ _ _ hd, Schema.kind_of_find? hd] at hcollide
    · intro h d hd
      exact h d.kind d.name d (hs.find?_self hd)
  simp only [check, List.append_eq_nil_iff, Validator.validate_strict_eq_nil_iff hs,
    List.flatMap_eq_nil_iff, hfits, resolves_scope_iff, and_assoc]

end Registry

/-! ## What a pass asks of its schemas -/

namespace Schema

/-- A schema that keeps the rules: nothing is declared twice, no name has two kinds,
declarations are well formed, and every type name is that of a base type or known. -/
structure Sound (s : Schema) (known : String → Prop) : Prop where
  once : s.redeclared = []
  apart : s.Apart
  wellFormed : ∀ d ∈ s.declarations, d.WellFormed
  resolved : ∀ d ∈ s.declarations, ∀ name ∈ d.typeNames, isBaseType name = true ∨ known name

/-- What two schemas both declare is of one kind and stands at one place of one file. -/
def Agrees (s s' : Schema) : Prop :=
  ∀ name kind kind' d d', s.find? kind name = some d → s'.find? kind' name = some d' →
    kind = kind' ∧ d.trace = d'.trace ∧ d.trace.path.isSome = true

theorem Agrees.symm {s s' : Schema} (h : s.Agrees s') : s'.Agrees s := by
  intro name kind kind' d d' hd hd'
  obtain ⟨hk, htrace, hpath⟩ := h name kind' kind d' d hd' hd
  exact ⟨hk.symm, htrace.symm, by rw [← htrace]; exact hpath⟩

instance : Std.Symm Agrees := ⟨fun _ _ h => h.symm⟩

end Schema

namespace Registry

variable {r : Registry} {s s' : Schema} {units : List Schema}

theorem check_strict_iff_sound (hs : s.Keyed) :
    r.check .strict s = [] ↔
      s.Sound (fun name => name ∈ s.names ∨ name ∈ r.tables.names) ∧ r.Fits s := by
  rw [check_strict_eq_nil_iff hs]
  constructor
  · rintro ⟨honce, hapart, hdecl, hfits⟩
    exact ⟨⟨honce, hapart, fun d hd => (hdecl d hd).1, fun d hd => (hdecl d hd).2⟩, hfits⟩
  · rintro ⟨⟨honce, hapart, hwell, hresolved⟩, hfits⟩
    exact ⟨honce, hapart, fun d hd => ⟨hwell d hd, hresolved d hd⟩, hfits⟩

theorem passes_lazy_iff (hkeyed : ∀ s ∈ units, s.Keyed) :
    r.Passes .lazy units ↔ ∀ s ∈ units, s.Apart ∧ ∀ d ∈ s.declarations, d.WellFormed := by
  induction units generalizing r with
  | nil => simp [Passes]
  | cons s rest ih =>
    rw [List.forall_mem_cons] at hkeyed
    rw [Passes, check_lazy_eq_nil_iff hkeyed.1, ih hkeyed.2, List.forall_mem_cons]

/-- Once a schema is confirmed, another one fits when it did before and agrees with it. -/
theorem fits_take_iff (h : r.Fits s) :
    (r.take .strict s).Fits s' ↔ r.Fits s' ∧ s.Agrees s' := by
  have hconfirmed (kind : DeclarationKind) (name : String) :
      (r.take .strict s).tables.confirmed? kind name =
        ((s.find? kind name).map (Tables.entryOf r.id false r.batch)).or
          (r.tables.confirmed? kind name) :=
    Tables.confirmed?_commit_strict r.tables s r.id r.batch kind name
  constructor
  · intro hfits
    constructor
    · intro kind name d hd kind' e he
      cases hs : s.find? kind' name with
      | none => exact hfits kind name d hd kind' e (by rw [hconfirmed, hs, he]; rfl)
      | some own =>
        -- the entry was displaced by the schema's own declaration, which fitted it
        obtain ⟨hk, htrace, hpath, -⟩ := hfits kind name d hd kind' _
          (by rw [hconfirmed, hs]; rfl)
        obtain ⟨-, hsame, -, hbatch⟩ := h kind' name own hs kind' e he
        rw [Tables.entryOf, Declaration.trace_bind] at htrace
        exact ⟨hk, hsame.trans htrace, hpath, hbatch⟩
    · intro name kind kind' d d' hd hd'
      obtain ⟨hk, htrace, hpath, -⟩ := hfits kind' name d' hd' kind _
        (by rw [hconfirmed, hd]; rfl)
      rw [Tables.entryOf, Declaration.trace_bind] at htrace
      exact ⟨hk, htrace, by rw [htrace]; exact hpath⟩
  · rintro ⟨hfits, hagree⟩ kind name d hd kind' e he
    rw [hconfirmed] at he
    cases hs : s.find? kind' name with
    | none =>
      rw [hs] at he
      exact hfits kind name d hd kind' e he
    | some own =>
      rw [hs] at he
      cases he
      obtain ⟨hk, htrace, hpath⟩ := hagree name kind' kind own d hs hd
      rw [Tables.entryOf, Declaration.trace_bind]
      exact ⟨hk, htrace, by rw [← htrace]; exact hpath, rfl⟩

/-- A strict pass over schemas that are all announced asks of each that it is sound and
fits what is confirmed before the pass, and of any two that they agree. -/
theorem passes_strict_iff {known : String → Prop}
    (hknown : ∀ name, known name ↔ name ∈ r.tables.names)
    (hkeyed : ∀ s ∈ units, s.Keyed) (hannounced : ∀ s ∈ units, ∀ name ∈ s.names, known name) :
    r.Passes .strict units ↔
      (∀ s ∈ units, s.Sound known) ∧ (∀ s ∈ units, r.Fits s) ∧
        units.Pairwise Schema.Agrees := by
  induction units generalizing r with
  | nil => simp [Passes]
  | cons s rest ih =>
    rw [List.forall_mem_cons] at hkeyed hannounced
    have hscope : (fun name => name ∈ s.names ∨ name ∈ r.tables.names) = known := by
      funext name
      rw [← hknown, or_iff_right_of_imp (hannounced.1 name)]
    have hnext : ∀ name, known name ↔ name ∈ (r.take .strict s).tables.names := by
      intro name
      rw [take, Tables.mem_names_commit, ← hknown, or_iff_left_of_imp (hannounced.1 name)]
    rw [Passes, check_strict_iff_sound hkeyed.1, hscope, ih hnext hkeyed.2 hannounced.2,
      List.forall_mem_cons, List.forall_mem_cons, List.pairwise_cons]
    constructor
    · rintro ⟨⟨hsound, hfits⟩, hsounds, hrest, hpair⟩
      have hboth s' (hs' : s' ∈ rest) := (fits_take_iff hfits).mp (hrest s' hs')
      exact ⟨⟨hsound, hsounds⟩, ⟨hfits, fun s' hs' => (hboth s' hs').1⟩,
        fun s' hs' => (hboth s' hs').2, hpair⟩
    · rintro ⟨⟨hsound, hsounds⟩, ⟨hfits, hrest⟩, hagree, hpair⟩
      exact ⟨⟨hsound, hfits⟩, hsounds,
        fun s' hs' => (fits_take_iff hfits).mpr ⟨hrest s' hs', hagree s' hs'⟩, hpair⟩

end Registry

end SchemaLang
