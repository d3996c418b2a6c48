import Mathlib
import SchemaLang.Proofs.Registry.Run

/-!
# What a registry admits

Every registry that calls lead to is settled (`Reachable.settled`): all it holds is
confirmed, well formed and closed under the names it uses. A settled registry takes in
a batch exactly when the batch is admissible, and what that asks of the schemas does
not depend on their order (`loadAllSources_ok_iff_admits`).
-/

namespace SchemaLang

namespace Registry

/-! ## Admissible batches -/

/-- Schemas that a registry can take in as one batch: each keeps the rules when it may
use the names of all the others, none has a name that is taken, and what several of
them declare is one declaration of one file. -/
structure Admits (r : Registry) (units : List Schema) : Prop where
  sound : ∀ s ∈ units, s.Sound fun name =>
    name ∈ r.tables.names ∨ ∃ s' ∈ units, name ∈ s'.names
  fresh : ∀ s ∈ units, ∀ name ∈ s.names, name ∉ r.tables.names
  agree : units.Pairwise Schema.Agrees

/-- The registry when a load has taken in several schemas. -/
def accept (r : Registry) (units : List Schema) : Registry :=
  { r with
    tables := r.tables.commitAll units r.id false (r.batch + 1)
    errors := []
    batch := r.batch + 1 }

/-! ## Settled registries -/

/-- What a settled registry guarantees of the entry of a name. -/
structure Guarantees (r : Registry) (name : String) (e : Entry Declaration) : Prop where
  named : e.declaration.name = name
  confirmed : e.lazy = false
  earlier : e.batch ≤ r.batch
  owned : e.declaration.bind r.id = e.declaration
  wellFormed : e.declaration.WellFormed
  resolved : ∀ used ∈ e.declaration.typeNames, isBaseType used = true ∨ used ∈ r.tables.names

/-- A registry whose entries are all guaranteed and whose names have one kind each. -/
structure Settled (r : Registry) : Prop where
  entries : ∀ kind name e, r.tables.lookup? kind name = some e → r.Guarantees name e
  apart : ∀ name kind kind', name ∈ (r.tables.ofKind kind).keys →
    name ∈ (r.tables.ofKind kind').keys → kind = kind'

variable {r r' : Registry} {s : Schema} {units : List Schema}

theorem Guarantees.mono {name : String} {e : Entry Declaration} (h : r.Guarantees name e)
    (hid : r'.id = r.id) (hbatch : r.batch ≤ r'.batch)
    (hnames : ∀ used ∈ r.tables.names, used ∈ r'.tables.names) : r'.Guarantees name e where
  named := h.named
  confirmed := h.confirmed
  earlier := Nat.le_trans h.earlier hbatch
  owned := by rw [hid, h.owned]
  wellFormed := h.wellFormed
  resolved := fun used hused => (h.resolved used hused).imp_right (hnames used)

theorem settled_new (id : RegistryId) (config : Config) (importer : Importer) :
    (Registry.new id config importer).Settled := by
  have hempty : ∀ kind name,
      (Registry.new id config importer).tables.lookup? kind name = none := by
    intro kind name
    cases kind <;> rfl
  constructor
  · intro kind name e he
    rw [hempty] at he
    cases he
  · intro name kind kind' h
    obtain ⟨e, he⟩ := Tables.mem_keys_ofKind.mp h
    rw [hempty] at he
    cases he

theorem Settled.of_tables (h : r.Settled) (hid : r'.id = r.id) (htables : r'.tables = r.tables)
    (hbatch : r.batch ≤ r'.batch) : r'.Settled := by
  constructor
  · intro kind name e he
    rw [htables] at he
    exact (h.entries kind name e he).mono hid hbatch (by rw [htables]; exact fun _ hu => hu)
  · rw [htables]
    exact h.apart

/-- What a settled registry has under a name is confirmed. -/
theorem Settled.confirmed?_eq (h : r.Settled) (kind : DeclarationKind) (name : String) :
    r.tables.confirmed? kind name = r.tables.lookup? kind name := by
  cases he : r.tables.lookup? kind name with
  | none => rw [Tables.confirmed?, he]; rfl
  | some e => exact Tables.confirmed?_eq_some.mpr ⟨he, (h.entries kind name e he).confirmed⟩

/-! ## Admission -/

/-- Nothing that is there when a load begins carries its number, so only new names fit. -/
theorem Settled.fits_iff (h : r.Settled) :
    r.nextBatch.Fits s ↔ ∀ name ∈ s.names, name ∉ r.tables.names := by
  constructor
  · intro hfits name hname hold
    obtain ⟨kind, d, hd⟩ := Schema.mem_names.mp hname
    obtain ⟨kind', hkey⟩ := Tables.mem_names.mp hold
    obtain ⟨e, he⟩ := Tables.mem_keys_ofKind.mp hkey
    have hconfirmed : r.tables.confirmed? kind' name = some e := by rw [h.confirmed?_eq, he]
    obtain ⟨-, -, -, hbatch⟩ := hfits kind name d hd kind' e hconfirmed
    -- the entry would have to be of the load that has only just begun
    have hearlier : e.batch ≤ r.batch := (h.entries kind' name e he).earlier
    have hnext : e.batch = r.batch + 1 := hbatch
    omega
  · intro hfresh kind name d hd kind' e he
    have hname : name ∈ s.names := Schema.mem_names.mpr ⟨kind, d, hd⟩
    have hregistered : r.tables.lookup? kind' name = some e :=
      (Tables.confirmed?_eq_some.mp he).1
    exact absurd (Tables.mem_names_of_lookup? hregistered) (hfresh name hname)

/-- Announcements do not change what fits. -/
theorem fits_takeAll_lazy : (r.takeAll .lazy units).Fits s ↔ r.Fits s := by
  have hconfirmed (kind : DeclarationKind) (name : String) :
      (r.takeAll .lazy units).tables.confirmed? kind name = r.tables.confirmed? kind name :=
    Tables.confirmed?_commitAll_lazy r.tables units r.id r.batch kind name
  simp only [Fits, hconfirmed]
  rfl

theorem Settled.check_iff_admits (h : r.Settled) (hs : s.Keyed) :
    r.nextBatch.check .strict s = [] ↔ r.Admits [s] := by
  have hknown : (fun name => name ∈ s.names ∨ name ∈ r.nextBatch.tables.names) =
      fun name => name ∈ r.tables.names ∨ ∃ s' ∈ [s], name ∈ s'.names := by
    funext name
    simp [nextBatch, or_comm]
  rw [check_strict_iff_sound hs, h.fits_iff, hknown]
  constructor
  · rintro ⟨hsound, hfresh⟩
    exact ⟨List.forall_mem_singleton.mpr hsound, List.forall_mem_singleton.mpr hfresh,
      List.pairwise_singleton _ _⟩
  · rintro ⟨hsound, hfresh, -⟩
    exact ⟨hsound s (List.mem_singleton_self s), hfresh s (List.mem_singleton_self s)⟩

theorem Settled.passes_iff_admits (h : r.Settled) (hkeyed : ∀ s ∈ units, s.Keyed) :
    (r.nextBatch.Passes .lazy units ∧ (r.nextBatch.takeAll .lazy units).Passes .strict units) ↔
      r.Admits units := by
  have hknown : ∀ name, (name ∈ r.tables.names ∨ ∃ s ∈ units, name ∈ s.names) ↔
      name ∈ (r.nextBatch.takeAll .lazy units).tables.names := fun name =>
    (Tables.mem_names_commitAll r.tables units r.id (r.batch + 1)).symm
  rw [passes_lazy_iff hkeyed, passes_strict_iff hknown hkeyed fun s hs name hname =>
    Or.inr ⟨s, hs, hname⟩]
  simp only [fits_takeAll_lazy, h.fits_iff]
  constructor
  · rintro ⟨-, hsound, hfresh, hagree⟩
    exact ⟨hsound, hfresh, hagree⟩
  · -- what the lazy pass asks, the strict one asks again
    rintro ⟨hsound, hfresh, hagree⟩
    exact ⟨fun s hs => ⟨(hsound s hs).apart, (hsound s hs).wellFormed⟩, hsound, hfresh, hagree⟩

/-! ## What is taken in keeps a registry settled -/

theorem Admits.one_kind (ha : r.Admits units) {s' : Schema} (hs : s ∈ units) (hs' : s' ∈ units)
    {name : String} {kind kind' : DeclarationKind} {d d' : Declaration}
    (hd : s.find? kind name = some d) (hd' : s'.find? kind' name = some d') : kind = kind' := by
  by_cases heq : s = s'
  · subst heq
    exact (ha.sound s hs).apart name kind kind' (Schema.mem_keys_ofKind.mpr ⟨d, hd⟩)
      (Schema.mem_keys_ofKind.mpr ⟨d', hd'⟩)
  · exact (ha.agree.forall hs hs' heq name kind kind' d d' hd hd').1

theorem lookup?_accept (kind : DeclarationKind) (name : String) :
    (r.accept units).tables.lookup? kind name =
      ((Schema.last? units kind name).map (Tables.entryOf r.id false (r.batch + 1))).or
        (r.tables.lookup? kind name) :=
  Tables.lookup?_commitAll_strict r.tables units r.id (r.batch + 1) kind name

theorem mem_names_accept {name : String} :
    name ∈ (r.accept units).tables.names ↔
      name ∈ r.tables.names ∨ ∃ s ∈ units, name ∈ s.names :=
  Tables.mem_names_commitAll r.tables units r.id (r.batch + 1)

theorem Admits.guarantees (ha : r.Admits units) (hs : s ∈ units) (hkeyed : s.Keyed)
    {kind : DeclarationKind} {name : String} {d : Declaration}
    (hd : s.find? kind name = some d) :
    (r.accept units).Guarantees name (Tables.entryOf r.id false (r.batch + 1) d) where
  named := by rw [Tables.entryOf, Declaration.name_bind, hkeyed kind name d hd]
  confirmed := rfl
  earlier := Nat.le_refl _
  owned := Declaration.bind_bind r.id d
  wellFormed := (Declaration.wellFormed_bind r.id d).mpr
    ((ha.sound s hs).wellFormed d (Schema.mem_declarations_of_find? hd))
  resolved := by
    intro used hused
    rw [Tables.entryOf, Declaration.typeNames_bind] at hused
    rw [mem_names_accept]
    exact (ha.sound s hs).resolved d (Schema.mem_declarations_of_find? hd) used hused

/-- What is taken in goes behind what is there. -/
theorem Admits.contents_accept (ha : r.Admits units) (kind : DeclarationKind) :
    (r.accept units).tables.contents kind = r.tables.contents kind ++
      (Schema.collect units kind).map fun entry => (entry.1, entry.2.bind r.id) :=
  Tables.contents_commitAll r.tables units r.id (r.batch + 1) kind ha.fresh

/-- What stands under a name after a load is new, or it was there before. -/
theorem lookup?_accept_cases {kind : DeclarationKind} {name : String} {e : Entry Declaration}
    (h : (r.accept units).tables.lookup? kind name = some e) :
    (∃ s ∈ units, ∃ d, s.find? kind name = some d ∧
      e = Tables.entryOf r.id false (r.batch + 1) d) ∨
    r.tables.lookup? kind name = some e := by
  rw [lookup?_accept] at h
  cases hlast : Schema.last? units kind name with
  | none =>
    rw [hlast] at h
    exact Or.inr h
  | some d =>
    rw [hlast] at h
    cases h
    obtain ⟨s, hs, hd⟩ := Schema.exists_of_last? hlast
    exact Or.inl ⟨s, hs, d, hd, rfl⟩

theorem Admits.not_registered (ha : r.Admits units) (hs : s ∈ units)
    {kind kind' : DeclarationKind} {name : String} {d : Declaration} {e : Entry Declaration}
    (hd : s.find? kind name = some d) : r.tables.lookup? kind' name ≠ some e := by
  intro he
  have hname : name ∈ s.names := Schema.mem_names.mpr ⟨kind, d, hd⟩
  exact ha.fresh s hs name hname (Tables.mem_names_of_lookup? he)

theorem Settled.accept (h : r.Settled) (hkeyed : ∀ s ∈ units, s.Keyed) (ha : r.Admits units) :
    (r.accept units).Settled := by
  constructor
  · intro kind name e he
    rcases lookup?_accept_cases he with ⟨s, hs, d, hd, rfl⟩ | hold
    · exact ha.guarantees hs (hkeyed s hs) hd
    · exact (h.entries kind name e hold).mono rfl (Nat.le_succ _) fun used hused =>
        mem_names_accept.mpr (Or.inl hused)
  · -- a new name clashes neither with another new one nor with an old one
    intro name kind kind' hkey hkey'
    obtain ⟨e, he⟩ := Tables.mem_keys_ofKind.mp hkey
    obtain ⟨e', he'⟩ := Tables.mem_keys_ofKind.mp hkey'
    rcases lookup?_accept_cases he with ⟨s, hs, d, hd, -⟩ | hold
    · rcases lookup?_accept_cases he' with ⟨s', hs', d', hd', -⟩ | hold'
      · exact ha.one_kind hs hs' hd hd'
      · exact absurd hold' (ha.not_registered hs hd)
    · rcases lookup?_accept_cases he' with ⟨s', hs', d', hd', -⟩ | hold'
      · exact absurd hold (ha.not_registered hs' hd')
      · exact h.apart name kind kind' (Tables.mem_keys_ofKind.mpr ⟨e, hold⟩)
          (Tables.mem_keys_ofKind.mpr ⟨e', hold'⟩)

/-! ## Loads of a settled registry -/

theorem accept_eq_takeAll (r : Registry) (units : List Schema) :
    { (r.nextBatch.takeAll .lazy units).takeAll .strict units with errors := [] } =
      r.accept units := by
  have htables : (r.tables.commitAll units r.id true (r.batch + 1)).commitAll units r.id false
      (r.batch + 1) = r.tables.commitAll units r.id false (r.batch + 1) :=
    Tables.commitAll_lazy_strict r.tables units r.id (r.batch + 1)
  rw [accept, ← htables]
  rfl

/-- Loading one source is loading a batch of one. -/
theorem Settled.loadSource_eq_ok_iff (h : r.Settled) {after : Registry} {source : Source} :
    r.loadSource source = (after, .ok ()) ↔
      ∃ s, source.Parses r.importer s ∧ r.Admits [s] ∧ after = r.accept [s] := by
  rw [Registry.loadSource_eq_ok_iff]
  refine exists_congr fun s => and_congr_right fun hs => ?_
  rw [h.check_iff_admits hs.keyed]
  rfl

theorem Settled.loadAllSources_eq_ok_iff (h : r.Settled) {after : Registry}
    {sources : List Source} :
    r.loadAllSources sources = (after, .ok ()) ↔
      ∃ units, List.Forall₂ (Source.Parses r.importer) sources units ∧ r.Admits units ∧
        after = r.accept units := by
  rw [Registry.loadAllSources_eq_ok_iff]
  refine exists_congr fun units => and_congr_right fun hparse => ?_
  rw [h.passes_iff_admits (Source.keyed_of_parses hparse), accept_eq_takeAll]

/-- The ways a call on a settled registry can go. -/
theorem Settled.apply_cases (h : r.Settled) (c : Call) :
    (∃ importer, c.apply r = (r.setImporter importer, .ok ()) ∧ c.isLoad = false) ∨
    (∃ units, (∃ sources, List.Forall₂ (Source.Parses r.importer) sources units) ∧
      r.Admits units ∧ c.apply r = (r.accept units, .ok ())) ∨
    ∃ errors, errors ≠ [] ∧ c.apply r = r.refused errors := by
  have hsource (source : Source) :
      (∃ units, (∃ sources, List.Forall₂ (Source.Parses r.importer) sources units) ∧
        r.Admits units ∧ r.loadSource source = (r.accept units, .ok ())) ∨
      ∃ errors, errors ≠ [] ∧ r.loadSource source = r.refused errors := by
    rcases r.loadSource_cases source with ⟨after, hok⟩ | hrefused
    · obtain ⟨s, hs, ha, rfl⟩ := h.loadSource_eq_ok_iff.mp hok
      exact Or.inl ⟨[s], ⟨[source], .cons hs .nil⟩, ha, hok⟩
    · exact Or.inr hrefused
  have hsources (sources : List Source) :
      (∃ units, (∃ sources, List.Forall₂ (Source.Parses r.importer) sources units) ∧
        r.Admits units ∧ r.loadAllSources sources = (r.accept units, .ok ())) ∨
      ∃ errors, errors ≠ [] ∧ r.loadAllSources sources = r.refused errors := by
    rcases r.loadAllSources_cases sources with ⟨after, hok⟩ | hrefused
    · obtain ⟨units, hparse, ha, rfl⟩ := h.loadAllSources_eq_ok_iff.mp hok
      exact Or.inl ⟨units, ⟨sources, hparse⟩, ha, hok⟩
    · exact Or.inr hrefused
  cases c with
  | setImporter importer => exact Or.inl ⟨importer, rfl, rfl⟩
  | load text => exact Or.inr (hsource ⟨text, none⟩)
  | loadSource source => exact Or.inr (hsource source)
  | loadAll texts => exact Or.inr (hsources (texts.map fun text => ⟨text, none⟩))
  | loadAllSources sources => exact Or.inr (hsources sources)

theorem Settled.apply (h : r.Settled) (c : Call) : (c.apply r).1.Settled := by
  rcases h.apply_cases c with ⟨importer, hc, -⟩ | ⟨units, ⟨sources, hparse⟩, ha, hc⟩ |
    ⟨errors, -, hc⟩
  · rw [hc]
    exact h.of_tables rfl rfl (Nat.le_refl _)
  · rw [hc]
    exact h.accept (Source.keyed_of_parses hparse) ha
  · rw [hc]
    exact h.of_tables rfl rfl (Nat.le_succ _)

theorem Reachable.settled (h : r.Reachable) : r.Settled := by
  induction h with
  | new id config importer => exact settled_new id config importer
  | call _ c ih => exact ih.apply c

/-- A batch is taken in exactly when its sources parse to schemas that the registry
admits. The new names then stand behind the old ones, in the order of their first
occurrence, each with the declaration of the last schema that has it. -/
theorem loadAllSources_ok_iff_admits (h : r.Reachable) (sources : List Source) :
    ((r.loadAllSources sources).2 = .ok () ↔
      ∃ units, List.Forall₂ (Source.Parses r.importer) sources units ∧ r.Admits units) ∧
    ∀ units, List.Forall₂ (Source.Parses r.importer) sources units →
      (r.loadAllSources sources).2 = .ok () →
      ∀ kind, (r.loadAllSources sources).1.tables.contents kind =
        r.tables.contents kind ++
          (Schema.collect units kind).map fun entry => (entry.1, entry.2.bind r.id) := by
  have hok : (r.loadAllSources sources).2 = .ok () ↔
      ∃ units, List.Forall₂ (Source.Parses r.importer) sources units ∧ r.Admits units ∧
        (r.loadAllSources sources).1 = r.accept units := by
    rw [← h.settled.loadAllSources_eq_ok_iff, Prod.ext_iff]
    exact (and_iff_right rfl).symm
  constructor
  · rw [hok]
    constructor
    · rintro ⟨units, hparse, ha, -⟩
      exact ⟨units, hparse, ha⟩
    · rintro ⟨units, hparse, ha⟩
      have hload := h.settled.loadAllSources_eq_ok_iff.mpr ⟨units, hparse, ha, rfl⟩
      exact ⟨units, hparse, ha, by rw [hload]⟩
  · intro units hparse hsuccess kind
    obtain ⟨units', hparse', ha, hafter⟩ := hok.mp hsuccess
    obtain rfl := Source.parses_unique hparse hparse'
    rw [hafter]
    exact Tables.contents_commitAll r.tables units r.id (r.batch + 1) kind ha.fresh

/-- A typedef may use an enum that comes later in the batch. -/
theorem admits_typedef_before_enum :
    (Registry.new ⟨0⟩ .standard .none).Reachable ∧
    ∃ units, List.Forall₂ (Source.Parses .none)
        [⟨"typedef A B", none⟩, ⟨"enum B \x7b Y \x7d", none⟩] units ∧
      (Registry.new ⟨0⟩ .standard .none).Admits units ∧
      ∀ kind, ((Registry.new ⟨0⟩ .standard .none).loadAllSources
          [⟨"typedef A B", none⟩, ⟨"enum B \x7b Y \x7d", none⟩]).1.tables.contents kind =
        (Registry.new ⟨0⟩ .standard .none).tables.contents kind ++
          (Schema.collect units kind).map fun entry => (entry.1, entry.2.bind ⟨0⟩) := by
  have hnew : (Registry.new ⟨0⟩ .standard .none).Reachable := .new _ _ _
  have hload : ((Registry.new ⟨0⟩ .standard .none).loadAllSources
      [⟨"typedef A B", none⟩, ⟨"enum B \x7b Y \x7d", none⟩]).2 = .ok () := by cbv
  obtain ⟨haccepted, hcontents⟩ := loadAllSources_ok_iff_admits hnew
    [⟨"typedef A B", none⟩, ⟨"enum B \x7b Y \x7d", none⟩]
  obtain ⟨units, hparse, ha⟩ := haccepted.mp hload
  exact ⟨hnew, units, hparse, ha, hcontents units hparse hload⟩

end Registry

end SchemaLang
