import SchemaLang.Files
import SchemaLang.Proofs.Registry.Pass

/-!
# Runs of a registry

The calls that change a registry, their runs, and the registries that runs lead to.
Loads of files are such runs, too (`withRead_eq_run`, `loadDir_eq_run`). Each load
either takes in the schemas of its sources or leaves everything as it was but for
the reports and the number of loads (`loadSource_cases`, `loadAllSources_cases`).
-/

namespace SchemaLang

/-! ## Calls and runs -/

/-- A call that changes a registry. -/
inductive Call where
  | setImporter (importer : Importer)
  | load (text : String)
  | loadSource (source : Source)
  | loadAll (texts : List String)
  | loadAllSources (sources : List Source)

namespace Call

/-- The registry after a call, and what the call gives back. -/
def apply (r : Registry) : Call → Registry × Except RegistryError Unit
  | setImporter importer => (r.setImporter importer, .ok ())
  | load text => r.load text
  | loadSource source => r.loadSource source
  | loadAll texts => r.loadAll texts
  | loadAllSources sources => r.loadAllSources sources

/-- Whether a call loads something. -/
def isLoad : Call → Bool
  | setImporter _ => false
  | _ => true

end Call

namespace Registry

/-- The registry after a run of calls. -/
def run (r : Registry) (calls : List Call) : Registry :=
  calls.foldl (fun r call => (call.apply r).1) r

theorem run_concat (r : Registry) (calls : List Call) (c : Call) :
    r.run (calls ++ [c]) = (c.apply (r.run calls)).1 :=
  List.foldl_concat _ r c calls

/-- The registries that calls on a new registry lead to. -/
inductive Reachable : Registry → Prop where
  | new (id : RegistryId) (config : Config) (importer : Importer) :
    Reachable (.new id config importer)
  | call {r : Registry} (h : Reachable r) (c : Call) : Reachable (c.apply r).1

theorem Reachable.run {r : Registry} (h : r.Reachable) (calls : List Call) :
    (r.run calls).Reachable := by
  induction calls generalizing r with
  | nil => exact h
  | cons c rest ih => exact ih (h.call c)

/-! ## Loads of files -/

/-- A load of what may not be readable is a run of at most one call. -/
theorem withRead_eq_run {α : Type} (r : Registry) (read : Except RegistryError α) (c : α → Call) :
    ∃ calls, (r.withRead read fun value => (c value).apply r).1 = r.run calls := by
  cases read with
  | ok value => exact ⟨[c value], rfl⟩
  | error e => exact ⟨[], rfl⟩

theorem loadDir_eq_run (r : Registry) (files : Files) (directory : String) :
    ∃ calls, (r.loadDir files directory).1 = r.run calls := by
  unfold Registry.loadDir
  split
  · exact ⟨[], rfl⟩
  · next paths _ => exact r.withRead_eq_run (paths.mapM files.source) .loadAllSources

/-! ## What a load does -/

variable {r : Registry}

theorem loadPass_error_ne_nil {mode : ValidationMode} {source : Source}
    {errors : List Diagnostic} (h : loadPass mode r source = .error errors) : errors ≠ [] := by
  unfold loadPass at h
  cases hs : Schema.ofText (some r.importer) source.path source.text with
  | error faults =>
    rw [hs] at h
    cases h
    exact (Schema.ofText_error_iff.mp hs).1
  | ok s =>
    rw [hs] at h
    change (if r.check mode s = [] then _ else _) = _ at h
    split at h
    · cases h
    · next hne =>
      cases h
      exact hne

theorem foldlM_loadPass_error_ne_nil {mode : ValidationMode} {sources : List Source}
    {errors : List Diagnostic} (h : sources.foldlM (loadPass mode) r = .error errors) :
    errors ≠ [] := by
  induction sources generalizing r with
  | nil => cases h
  | cons source rest ih =>
    rw [List.foldlM_cons] at h
    cases hfirst : loadPass mode r source with
    | error faults =>
      rw [hfirst] at h
      cases h
      exact loadPass_error_ne_nil hfirst
    | ok middle =>
      rw [hfirst] at h
      exact ih h

theorem finish_eq_ok_iff {before after : Registry} {outcome : Except (List Diagnostic) Registry} :
    before.finish outcome = (after, .ok ()) ↔
      ∃ passed, outcome = .ok passed ∧ after = { passed with errors := [] } := by
  cases outcome with
  | ok passed => simp [finish, eq_comm]
  | error errors => simp [finish]

/-- Loading a source succeeds when the strict pass over it does. -/
theorem loadSource_eq_ok_iff {after : Registry} {source : Source} :
    r.loadSource source = (after, .ok ()) ↔
      ∃ s, source.Parses r.importer s ∧ r.nextBatch.check .strict s = [] ∧
        after = { r.nextBatch.take .strict s with errors := [] } := by
  rw [loadSource, finish_eq_ok_iff]
  constructor
  · rintro ⟨passed, hpass, rfl⟩
    obtain ⟨s, hs, hcheck, rfl⟩ := loadPass_eq_ok_iff.mp hpass
    exact ⟨s, hs, hcheck, rfl⟩
  · rintro ⟨s, hs, hcheck, rfl⟩
    exact ⟨_, loadPass_eq_ok_iff.mpr ⟨s, hs, hcheck, rfl⟩, rfl⟩

/-- Loading a batch succeeds when both passes over it do. -/
theorem loadAllSources_eq_ok_iff {after : Registry} {sources : List Source} :
    r.loadAllSources sources = (after, .ok ()) ↔
      ∃ units, List.Forall₂ (Source.Parses r.importer) sources units ∧
        (r.nextBatch.Passes .lazy units ∧
          (r.nextBatch.takeAll .lazy units).Passes .strict units) ∧
        after = { (r.nextBatch.takeAll .lazy units).takeAll .strict units with errors := [] } := by
  rw [loadAllSources, finish_eq_ok_iff]
  simp only [Grammar.bind_eq_ok, foldlM_loadPass_eq_ok_iff]
  constructor
  · rintro ⟨passed, ⟨announced, ⟨units, hparse, hlazy, rfl⟩, units', hparse', hstrict, rfl⟩, rfl⟩
    -- both passes read the same texts, so they take in the same schemas
    obtain rfl := Source.parses_unique hparse hparse'
    exact ⟨units, hparse, ⟨hlazy, hstrict⟩, rfl⟩
  · rintro ⟨units, hparse, ⟨hlazy, hstrict⟩, rfl⟩
    exact ⟨_, ⟨_, ⟨units, hparse, hlazy, rfl⟩, units, hparse, hstrict, rfl⟩, rfl⟩

/-- A refused load keeps the registry but for the reports and the number of loads. -/
def refused (r : Registry) (errors : List Diagnostic) : Registry × Except RegistryError Unit :=
  ({ r.nextBatch with errors }, .error (.load errors))

theorem loadSource_cases (r : Registry) (source : Source) :
    (∃ after, r.loadSource source = (after, .ok ())) ∨
      ∃ errors, errors ≠ [] ∧ r.loadSource source = r.refused errors := by
  unfold loadSource
  cases hpass : r.nextBatch.loadPass .strict source with
  | ok after => exact Or.inl ⟨_, rfl⟩
  | error errors => exact Or.inr ⟨errors, loadPass_error_ne_nil hpass, rfl⟩

theorem loadAllSources_cases (r : Registry) (sources : List Source) :
    (∃ after, r.loadAllSources sources = (after, .ok ())) ∨
      ∃ errors, errors ≠ [] ∧ r.loadAllSources sources = r.refused errors := by
  unfold loadAllSources
  cases hlazy : sources.foldlM (loadPass .lazy) r.nextBatch with
  | error errors => exact Or.inr ⟨errors, foldlM_loadPass_error_ne_nil hlazy, rfl⟩
  | ok announced =>
    show (∃ after, r.nextBatch.finish (sources.foldlM (loadPass .strict) announced) = _) ∨
      ∃ errors, _ ∧ r.nextBatch.finish (sources.foldlM (loadPass .strict) announced) = _
    cases hstrict : sources.foldlM (loadPass .strict) announced with
    | ok after => exact Or.inl ⟨_, rfl⟩
    | error errors => exact Or.inr ⟨errors, foldlM_loadPass_error_ne_nil hstrict, rfl⟩

end Registry

end SchemaLang
