import SchemaLang.Proofs.Registry.Admission

/-!
# Failed loads

A refused load changes nothing but the reports and the number of the loads to come.
Passes compare that number with those in the tables and use it for nothing else, so a
registry can be renumbered (`loadPass_renumber`). Hence settled registries with the
same contents behave alike (`Alike.apply`), and a run can do without any of the loads
that failed in it (`history_of_forgets`).
-/

namespace SchemaLang

/-! ## Other numbers for the loads -/

/-- The same registration by a load of another number. -/
def Entry.renumber {α : Type} (f : Nat → Nat) (e : Entry α) : Entry α :=
  { e with batch := f e.batch }

namespace Tables

/-- The tables with other numbers for the loads. -/
def renumber (f : Nat → Nat) (t : Tables) : Tables :=
  { models := t.models.mapValues fun _ e => e.renumber f
    enums := t.enums.mapValues fun _ e => e.renumber f
    typedefs := t.typedefs.mapValues fun _ e => e.renumber f }

variable (f : Nat → Nat) (t : Tables)

theorem ofKind_renumber (kind : DeclarationKind) :
    (t.renumber f).ofKind kind = (t.ofKind kind).mapValues fun _ e => e.renumber f := by
  cases kind <;> simp only [renumber, ofKind, OrderedMap.mapValues_mapValues] <;> rfl

@[simp] theorem lookup?_renumber (kind : DeclarationKind) (name : String) :
    (t.renumber f).lookup? kind name = (t.lookup? kind name).map (·.renumber f) := by
  rw [lookup?_eq, lookup?_eq, ofKind_renumber, OrderedMap.find?_mapValues]

@[simp] theorem names_renumber : (t.renumber f).names = t.names := by
  simp [names, renumber]

@[simp] theorem isConfirmed_renumber (kind : DeclarationKind) (name : String) :
    (t.renumber f).isConfirmed kind name = t.isConfirmed kind name := by
  rw [isConfirmed, isConfirmed, lookup?_renumber, Option.any_map]
  rfl

@[simp] theorem contents_renumber (kind : DeclarationKind) :
    (t.renumber f).contents kind = t.contents kind := by
  rw [contents, contents, ofKind_renumber, OrderedMap.mapValues, List.map_map]
  rfl

theorem commit_renumber (s : Schema) (id : RegistryId) (lazy : Bool) (batch : Nat) :
    (t.commit s id lazy batch).renumber f = (t.renumber f).commit s id lazy (f batch) := by
  have hmap {α : Type} (table entries : OrderedMap (Entry α)) :=
    registerAll_mapValues (g := Entry.renumber f) (fun _ => rfl) table entries
  simp only [renumber, commit, hmap, OrderedMap.mapValues_mapValues]
  rfl

end Tables

namespace Registry

/-- The registry with other numbers for its loads and without the reports. -/
def renumber (f : Nat → Nat) (r : Registry) : Registry :=
  { r with tables := r.tables.renumber f, errors := [], batch := f r.batch }

variable {f : Nat → Nat} {r r' : Registry}

/-- Whether a declaration is repeated depends only on which entries are of this load. -/
theorem isDuplicate_renumber (hf : ∀ n, f n = f r.batch → n = r.batch) (d : Declaration) :
    (r.renumber f).isDuplicate d = r.isDuplicate d := by
  have hbatch (e : Entry Declaration) : f e.batch = f r.batch ↔ e.batch = r.batch :=
    ⟨hf e.batch, congrArg f⟩
  rw [isDuplicate, isDuplicate, renumber, Tables.lookup?_renumber]
  cases r.tables.lookup? d.kind d.name with
  | none => rfl
  | some e => simp [Entry.renumber, hbatch]

theorem check_renumber (hf : ∀ n, f n = f r.batch → n = r.batch) (mode : ValidationMode)
    (s : Schema) : (r.renumber f).check mode s = r.check mode s := by
  have hscope : (r.renumber f).scope s = r.scope s := by
    simp [scope, renumber]
  have hcollisions : (r.renumber f).collisions = r.collisions := by
    funext d
    rw [collisions, collisions, isDuplicate_renumber hf]
    simp [renumber]
  cases mode with
  | lazy =>
    simp only [check, hscope]
    rfl
  | strict =>
    simp only [check, hscope, hcollisions]
    rfl

theorem take_renumber (mode : ValidationMode) (s : Schema) :
    (r.take mode s).renumber f = (r.renumber f).take mode s := by
  simp only [take, renumber, Tables.commit_renumber]

theorem loadPass_renumber (hf : ∀ n, f n = f r.batch → n = r.batch) (mode : ValidationMode)
    (source : Source) :
    loadPass mode (r.renumber f) source = (loadPass mode r source).map (renumber f) := by
  unfold loadPass
  rw [show (r.renumber f).importer = r.importer from rfl]
  cases Schema.ofText (some r.importer) source.path source.text with
  | error faults => rfl
  | ok s =>
    show (if (r.renumber f).check mode s = [] then Except.ok ((r.renumber f).take mode s)
      else .error ((r.renumber f).check mode s)) =
        (if r.check mode s = [] then Except.ok (r.take mode s)
          else .error (r.check mode s)).map (renumber f)
    rw [check_renumber hf, ← take_renumber]
    split <;> rfl

theorem foldlM_loadPass_renumber (hf : ∀ n, f n = f r.batch → n = r.batch)
    (mode : ValidationMode) (sources : List Source) :
    sources.foldlM (loadPass mode) (r.renumber f) =
      (sources.foldlM (loadPass mode) r).map (renumber f) := by
  induction sources generalizing r with
  | nil => rfl
  | cons source rest ih =>
    rw [List.foldlM_cons, List.foldlM_cons, loadPass_renumber hf]
    cases hpass : loadPass mode r source with
    | error errors => rfl
    | ok middle =>
      -- a pass does not change the number of the load
      obtain ⟨s, -, -, rfl⟩ := loadPass_eq_ok_iff.mp hpass
      exact ih hf

theorem bothPasses_renumber (hf : ∀ n, f n = f r.batch → n = r.batch) (sources : List Source) :
    (do
      let announced ← sources.foldlM (loadPass .lazy) (r.renumber f)
      sources.foldlM (loadPass .strict) announced) =
    (do
      let announced ← sources.foldlM (loadPass .lazy) r
      sources.foldlM (loadPass .strict) announced : Except _ Registry).map (renumber f) := by
  rw [foldlM_loadPass_renumber hf]
  cases hlazy : sources.foldlM (loadPass .lazy) r with
  | error errors => rfl
  | ok announced =>
    obtain ⟨units, -, -, rfl⟩ := foldlM_loadPass_eq_ok_iff.mp hlazy
    exact foldlM_loadPass_renumber (r := r.takeAll .lazy units) hf .strict sources

/-! ## Registries that behave alike -/

/-- Registries that differ at most in their reports and in the numbers of their loads. -/
structure Alike (r r' : Registry) : Prop where
  id : r.id = r'.id
  config : r.config = r'.config
  importer : r.importer = r'.importer
  contents : ∀ kind, r.tables.contents kind = r'.tables.contents kind

theorem Alike.refl (r : Registry) : Alike r r := ⟨rfl, rfl, rfl, fun _ => rfl⟩

theorem Alike.trans {r'' : Registry} (h : Alike r r') (h' : Alike r' r'') : Alike r r'' where
  id := h.id.trans h'.id
  config := h.config.trans h'.config
  importer := h.importer.trans h'.importer
  contents := fun kind => (h.contents kind).trans (h'.contents kind)

theorem Alike.of_renumber {f g : Nat → Nat} (h : r.renumber f = r'.renumber g) :
    Alike r r' := by
  have hfields := congrArg (fun x => (x.id, x.config, x.importer, x.tables)) h
  simp only [renumber, Prod.mk.injEq] at hfields
  obtain ⟨hid, hconfig, himporter, htables⟩ := hfields
  refine ⟨hid, hconfig, himporter, fun kind => ?_⟩
  rw [← Tables.contents_renumber f, htables, Tables.contents_renumber]

/-- One for the number of the load under way, zero for any other. -/
def current (batch n : Nat) : Nat :=
  if n = batch then 1 else 0

theorem eq_of_current (batch : Nat) :
    ∀ n, current batch n = current batch batch → n = batch := by
  intro n h
  by_cases hn : n = batch
  · exact hn
  · simp [current, hn] at h

/-- As a load begins, nothing in a settled registry bears its number. -/
theorem Settled.entries_renumber (h : r.Settled) (kind : DeclarationKind) :
    ((r.tables.renumber (current (r.batch + 1))).ofKind kind).entries =
      (r.tables.contents kind).map fun entry => (entry.1, ⟨entry.2, false, 0⟩) := by
  rw [Tables.ofKind_renumber, Tables.contents, List.map_map, OrderedMap.mapValues]
  apply List.map_congr_left
  rintro ⟨name, e⟩ hentry
  have hg : r.Guarantees name e :=
    h.entries kind name e (by rw [Tables.lookup?_eq, OrderedMap.find?_eq_some_iff]; exact hentry)
  -- so the entry gets the number zero, whatever load it came from
  have hbatch : e.batch ≠ r.batch + 1 := Nat.ne_of_lt (Nat.lt_succ_of_le hg.earlier)
  simp [Entry.renumber, current, hbatch, hg.confirmed]

theorem Alike.renumber_eq (ha : Alike r r') (h : r.Settled) (h' : r'.Settled) :
    r.nextBatch.renumber (current r.nextBatch.batch) =
      r'.nextBatch.renumber (current r'.nextBatch.batch) := by
  have htables : r.tables.renumber (current (r.batch + 1)) =
      r'.tables.renumber (current (r'.batch + 1)) := by
    apply Tables.ext_ofKind
    intro kind
    have hentries : ((r.tables.renumber (current (r.batch + 1))).ofKind kind).entries =
        ((r'.tables.renumber (current (r'.batch + 1))).ofKind kind).entries := by
      rw [h.entries_renumber, h'.entries_renumber, ha.contents]
    exact OrderedMap.mk.injEq _ _ _ _ ▸ hentries
  have hbatch : current (r.batch + 1) (r.batch + 1) = current (r'.batch + 1) (r'.batch + 1) := by
    simp [current]
  simp only [nextBatch, renumber, htables, hbatch, ha.id, ha.config, ha.importer]

theorem Alike.nextBatch (ha : Alike r r') : Alike r.nextBatch r'.nextBatch :=
  ⟨ha.id, ha.config, ha.importer, ha.contents⟩

theorem Alike.finish (ha : Alike r r') {f g : Nat → Nat}
    {passed passed' : Except (List Diagnostic) Registry}
    (h : passed.map (renumber f) = passed'.map (renumber g)) :
    (r.finish passed).2 = (r'.finish passed').2 ∧
      Alike (r.finish passed).1 (r'.finish passed').1 := by
  cases passed with
  | ok after =>
    cases passed' with
    | ok after' =>
      have hafter : Alike after after' := Alike.of_renumber (Except.ok.inj h)
      exact ⟨rfl, hafter.id, hafter.config, hafter.importer, hafter.contents⟩
    | error errors' => cases h
  | error errors =>
    cases passed' with
    | ok after' => cases h
    | error errors' =>
      obtain rfl : errors = errors' := Except.error.inj h
      exact ⟨rfl, ha.id, ha.config, ha.importer, ha.contents⟩

theorem Alike.loadSource (ha : Alike r r') (h : r.Settled) (h' : r'.Settled) (source : Source) :
    (r.loadSource source).2 = (r'.loadSource source).2 ∧
      Alike (r.loadSource source).1 (r'.loadSource source).1 := by
  apply ha.nextBatch.finish (f := current r.nextBatch.batch)
    (g := current r'.nextBatch.batch)
  rw [← loadPass_renumber (eq_of_current _), ← loadPass_renumber (eq_of_current _),
    ha.renumber_eq h h']

theorem Alike.loadAllSources (ha : Alike r r') (h : r.Settled) (h' : r'.Settled)
    (sources : List Source) :
    (r.loadAllSources sources).2 = (r'.loadAllSources sources).2 ∧
      Alike (r.loadAllSources sources).1 (r'.loadAllSources sources).1 := by
  apply ha.nextBatch.finish (f := current r.nextBatch.batch)
    (g := current r'.nextBatch.batch)
  rw [← bothPasses_renumber (eq_of_current _), ← bothPasses_renumber (eq_of_current _),
    ha.renumber_eq h h']

/-- A call on registries that are alike ends alike and leaves them so. -/
theorem Alike.apply (ha : Alike r r') (h : r.Settled) (h' : r'.Settled) (c : Call) :
    (c.apply r).2 = (c.apply r').2 ∧ Alike (c.apply r).1 (c.apply r').1 := by
  cases c with
  | setImporter importer => exact ⟨rfl, ha.id, ha.config, rfl, ha.contents⟩
  | load text => exact ha.loadSource h h' ⟨text, none⟩
  | loadSource source => exact ha.loadSource h h' source
  | loadAll texts => exact ha.loadAllSources h h' (texts.map fun text => ⟨text, none⟩)
  | loadAllSources sources => exact ha.loadAllSources h h' sources

/-- A call that fails leaves a registry like the one before it. -/
theorem Settled.alike_of_failed (h : r.Settled) {c : Call} (hc : (c.apply r).2 ≠ .ok ()) :
    Alike (c.apply r).1 r := by
  rcases h.apply_cases c with ⟨importer, hok, -⟩ | ⟨units, -, -, hok⟩ | ⟨errors, -, hrefused⟩
  · rw [hok] at hc
    exact absurd rfl hc
  · rw [hok] at hc
    exact absurd rfl hc
  · rw [hrefused]
    exact ⟨rfl, rfl, rfl, fun _ => rfl⟩

/-! ## Runs without their failures -/

/-- The calls of a run, each with what it gives back. -/
def history (r : Registry) : List Call → List (Call × Except RegistryError Unit)
  | [] => []
  | c :: rest => (c, (c.apply r).2) :: (c.apply r).1.history rest

/-- Some of a history, from which only failed calls are missing. -/
inductive Forgets : List (Call × Except RegistryError Unit) →
    List (Call × Except RegistryError Unit) → Prop where
  | done : Forgets [] []
  | keep {past kept : List (Call × Except RegistryError Unit)} (h : Forgets past kept)
    (event : Call × Except RegistryError Unit) : Forgets (event :: past) (event :: kept)
  | drop {past kept : List (Call × Except RegistryError Unit)} (h : Forgets past kept)
    {event : Call × Except RegistryError Unit} (failed : event.2 ≠ .ok ()) :
    Forgets (event :: past) kept

theorem Alike.history (ha : Alike r r') (h : r.Settled) (h' : r'.Settled) {calls : List Call}
    {kept : List (Call × Except RegistryError Unit)} (hkept : Forgets (r.history calls) kept) :
    r'.history (kept.map Prod.fst) = kept ∧
      Alike (r.run calls) (r'.run (kept.map Prod.fst)) := by
  induction calls generalizing r r' kept with
  | nil =>
    cases hkept
    exact ⟨rfl, ha⟩
  | cons c rest ih =>
    cases hkept with
    | keep hrest =>
      -- both runs make the call, and the induction goes on from where it leads them
      obtain ⟨hsame, hnext⟩ := ha.apply h h' c
      obtain ⟨hhistory, hrun⟩ := ih hnext (h.apply c) (h'.apply c) hrest
      refine ⟨?_, hrun⟩
      rw [List.map_cons, Registry.history, hhistory, hsame]
    | drop hrest hfailed =>
      -- the failed call has changed nothing that the other run could miss
      exact ih ((h.alike_of_failed hfailed).trans ha) (h.apply c) h' hrest

/-! ## Reports -/

/-- The reports that a call gives back. -/
def reports : Except RegistryError Unit → List Diagnostic
  | .ok () => []
  | .error e => e.diagnostics

theorem Settled.errors_apply (h : r.Settled) {c : Call} (hc : c.isLoad = true) :
    (c.apply r).1.errors = reports (c.apply r).2 ∧
      ((c.apply r).2 = .ok () ↔ (c.apply r).1.errors = []) := by
  rcases h.apply_cases c with ⟨importer, -, hset⟩ | ⟨units, -, -, hok⟩ | ⟨errors, hne, hrefused⟩
  · rw [hset] at hc
    cases hc
  · rw [hok]
    exact ⟨rfl, iff_of_true rfl rfl⟩
  · rw [hrefused]
    exact ⟨rfl, iff_of_false (nomatch ·) hne⟩

/-- A run can do without any of the calls that failed in it: the others end as they
did, and the same is registered in the end. After each load of the run the registry
holds the reports that the load gave back, which are none exactly when it succeeded. -/
theorem run_without_failures (h : r.Reachable) (calls : List Call) :
    (∀ kept, Forgets (r.history calls) kept →
      r.history (kept.map Prod.fst) = kept ∧
      ∀ kind, (r.run (kept.map Prod.fst)).tables.contents kind =
        (r.run calls).tables.contents kind) ∧
    ∀ before c after, calls = before ++ c :: after → c.isLoad = true →
      (r.run (before ++ [c])).errors = reports (c.apply (r.run before)).2 ∧
      ((c.apply (r.run before)).2 = .ok () ↔ (r.run (before ++ [c])).errors = []) := by
  constructor
  · intro kept hkept
    obtain ⟨hhistory, hrun⟩ := (Alike.refl r).history h.settled h.settled hkept
    exact ⟨hhistory, fun kind => (hrun.contents kind).symm⟩
  · intro before c after _ hc
    rw [run_concat]
    exact (h.run before).settled.errors_apply hc

/-- A text that declares an enum twice is refused, and the run can do without it. -/
theorem run_without_repeated_enum :
    (Registry.new ⟨0⟩ .standard .none).Reachable ∧
    ∃ kept, Forgets ((Registry.new ⟨0⟩ .standard .none).history
        [.load "enum A \x7b X \x7d enum A \x7b Y \x7d", .load "enum A \x7b Z \x7d"]) kept ∧
      kept.map Prod.fst = [.load "enum A \x7b Z \x7d"] ∧
      (Registry.new ⟨0⟩ .standard .none).history (kept.map Prod.fst) = kept ∧
      ((Registry.new ⟨0⟩ .standard .none).run
        [.load "enum A \x7b X \x7d enum A \x7b Y \x7d"]).errors ≠ [] := by
  have hnew : (Registry.new ⟨0⟩ .standard .none).Reachable := .new _ _ _
  have hrepeated : ((Schema.ofText (some .none) none "enum A \x7b X \x7d enum A \x7b Y \x7d").map
      fun s => s.redeclared.length) = .ok 1 := by cbv
  have hfailed : (Call.apply (Registry.new ⟨0⟩ .standard .none)
      (.load "enum A \x7b X \x7d enum A \x7b Y \x7d")).2 ≠ .ok () := by
    intro hok
    obtain ⟨s, hs, ha, -⟩ := hnew.settled.loadSource_eq_ok_iff.mp (Prod.ext rfl hok)
    rw [show Schema.ofText (some .none) none _ = .ok s from hs] at hrepeated
    have honce : s.redeclared = [] := (ha.sound s (List.mem_singleton_self s)).once
    have hlength : s.redeclared.length = 1 := Except.ok.inj hrepeated
    rw [honce] at hlength
    cases hlength
  obtain ⟨hforget, hreports⟩ := run_without_failures hnew
    [.load "enum A \x7b X \x7d enum A \x7b Y \x7d", .load "enum A \x7b Z \x7d"]
  have hkept : Forgets ((Registry.new ⟨0⟩ .standard .none).history
      [.load "enum A \x7b X \x7d enum A \x7b Y \x7d", .load "enum A \x7b Z \x7d"]) _ :=
    .drop (.keep .done _) hfailed
  refine ⟨hnew, _, hkept, rfl, (hforget _ hkept).1, fun herrors => ?_⟩
  exact hfailed ((hreports [] _ _ rfl rfl).2.mpr herrors)

end Registry

end SchemaLang
