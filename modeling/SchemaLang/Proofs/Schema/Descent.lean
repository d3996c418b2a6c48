import Mathlib
import SchemaLang.Proofs.Outline
import SchemaLang.Proofs.Schema

/-!
# Sources that are being read

Reading as a machine that takes one item at a time: an import sets its source to work before
the importing one goes on, and the end of a source hands its schema back. The machine ends
with what the source amounts to (`exists_after_eq_finished`), so what holds of the sources at
work at every moment holds of reading. When the answers of the importer use finitely many
paths, no more imported sources are at work than there are such paths, and a cycle is reported
for the imports that lead back to a source at work and for no others (`guard_exact`).
-/

namespace SchemaLang

namespace Importer

/-- The paths that a way to find sources answers with. -/
def answers (resolve : Option String → String → Option ImportedSource) : Set String :=
  {p | ∃ current file source, resolve current file = some source ∧ source.path = p}

/-- The importer of a function whose answers use finitely many paths. -/
def ofFinite (resolve : Option String → String → Option ImportedSource)
    (hfinite : (answers resolve).Finite) : Importer :=
  ⟨resolve, wellFounded_step fun current file source h =>
    Finset.mem_toList.mpr (hfinite.mem_toFinset.mpr ⟨current, file, source, h, rfl⟩)⟩

end Importer

/-- A source that is being read: the faults that end it, what has been read of it, and the items
still to come. -/
structure Level where
  path : Option String
  ending : List Diagnostic
  draft : Draft
  items : List Item

/-- The reading of a source at a moment: at work on a source, with those that import it, the
nearest first, or at its end. -/
inductive Descent where
  | reading (level : Level) (above : List Level)
  | finished (schema : Schema) (errors : List Diagnostic)

namespace Level

/-- An outline of which nothing has been read. -/
def ofOutline (path : Option String) (outline : Outline) : Level :=
  ⟨path, outline.errors, .empty, outline.items⟩

/-- The paths of sources that import one another, the outermost first. -/
def underway : List Level → List String
  | [] => []
  | level :: above => underway above ++ level.path.toList

end Level

namespace Descent

open Level (underway)

/-- The reading as it begins. -/
def start (path : Option String) (outline : Outline) : Descent :=
  .reading (.ofOutline path outline) []

/-- Goes back to the importing source with the schema of a source that has been read. -/
def leave (schema : Schema) : List Level → Descent
  | [] => .finished schema []
  | importing :: above =>
    .reading { importing with draft := importing.draft.addImport schema } above

/-- Gives everything up. Of what has been read the outermost source's draft is kept. -/
def abandon (errors : List Diagnostic) (draft : Draft) : List Level → Descent
  | [] => .finished draft.schema errors
  | importing :: above => abandon errors importing.draft above

/-- One step: the next item of the innermost source is read. -/
def step (importer : Option Importer) : Descent → Descent
  | .reading level above =>
    match level.items with
    | [] =>
      if level.ending = [] then leave level.draft.schema above
      else abandon level.ending level.draft above
    | .declaration d :: rest =>
      .reading { level with draft := level.draft.declare d, items := rest } above
    | .importFile file :: rest =>
      match Schema.findImport importer (underway above) level.path file.lexeme with
      | .error e => abandon [e.report file level.path] level.draft above
      | .ok source =>
        .reading (.ofOutline (some source.path) source.outline)
          ({ level with items := rest } :: above)
  | .finished schema errors => .finished schema errors

/-- The reading of a source after so many steps. -/
def after (importer : Option Importer) (path : Option String) (text : String) (n : Nat) :
    Descent :=
  (step importer)^[n] (start path (.ofText path text))

variable {importer : Option Importer}

theorem after_succ (path : Option String) (text : String) (n : Nat) :
    after importer path text (n + 1) = step importer (after importer path text n) :=
  Function.iterate_succ_apply' _ n _

/-- How the reading of a source goes on when its items have been read. -/
def conclude (result : Draft × List Diagnostic) (above : List Level) : Descent :=
  if result.2 = [] then leave result.1.schema above else abandon result.2 result.1 above

theorem step_enter (level : Level) {above : List Level} {file : Token}
    {rest : List Item} {source : ImportedSource} (hitems : level.items = .importFile file :: rest)
    (hsource : Schema.findImport importer (underway above) level.path file.lexeme = .ok source) :
    step importer (.reading level above) =
      .reading (.ofOutline (some source.path) source.outline)
        ({ level with items := rest } :: above) := by
  simp only [step, hitems, hsource]

theorem iterate_enter {path : Option String} {ending : List Diagnostic} {draft : Draft}
    {file : Token} {rest : List Item} {above : List Level} {source : ImportedSource}
    (hsource : Schema.findImport importer (underway above) path file.lexeme = .ok source)
    (n : Nat) :
    (step importer)^[n + 1] (.reading ⟨path, ending, draft, .importFile file :: rest⟩ above) =
      (step importer)^[n] (.reading (.ofOutline (some source.path) source.outline)
        (⟨path, ending, draft, rest⟩ :: above)) := by
  rw [Function.iterate_succ_apply,
    step_enter ⟨path, ending, draft, .importFile file :: rest⟩ rfl hsource]

/-- The machine goes through the items of a source as reading them at once does. -/
theorem iterate_conclude (importer : Option Importer) (path : Option String)
    (ending : List Diagnostic) (draft : Draft) (items : List Item) (above : List Level) :
    ∃ n, (step importer)^[n] (.reading ⟨path, ending, draft, items⟩ above) =
      conclude (Schema.readItems importer (underway above) path ending draft items) above := by
  generalize hchain : underway above = chain
  fun_induction Schema.readItems importer chain path ending draft items generalizing above with
  | case1 chain path ending draft => exact ⟨1, rfl⟩
  | case2 chain path ending draft d rest ih =>
    obtain ⟨n, hn⟩ := ih above hchain
    exact ⟨n + 1, hn⟩
  | case3 chain path ending draft file rest e hsource =>
    subst hchain
    exact ⟨1, by simp [step, hsource, conclude]⟩
  | case4 chain path ending draft file rest source hsource outline inner hok _ ihInner ihRest =>
    subst hchain
    -- into the imported source, back with its schema, and on
    obtain ⟨n, hn⟩ := ihInner (⟨path, ending, draft, rest⟩ :: above) rfl
    obtain ⟨m, hm⟩ := ihRest above rfl
    refine ⟨m + (n + 1), ?_⟩
    rw [Function.iterate_add_apply, (iterate_enter hsource n).trans hn, conclude, if_pos hok]
    exact hm
  | case5 chain path ending draft file rest source hsource outline inner hok ihInner =>
    subst hchain
    obtain ⟨n, hn⟩ := ihInner (⟨path, ending, draft, rest⟩ :: above) rfl
    refine ⟨n + 1, ((iterate_enter hsource n).trans hn).trans ?_⟩
    rw [conclude, if_neg hok, conclude, if_neg hok]
    rfl

theorem conclude_nil (result : Draft × List Diagnostic) :
    conclude result [] = .finished result.1.schema result.2 := by
  unfold conclude
  split
  · next hok => rw [hok, leave]
  · rfl

/-- The reading of a source comes to an end, with what the source amounts to. -/
theorem exists_after_eq_finished (importer : Option Importer) (path : Option String)
    (text : String) :
    ∃ n, after importer path text n =
      .finished (Schema.readOutline importer path (.ofText path text)).1
        (Schema.readOutline importer path (.ofText path text)).2 := by
  obtain ⟨n, hn⟩ := iterate_conclude importer path (Outline.ofText path text).errors .empty
    (Outline.ofText path text).items []
  exact ⟨n, hn.trans (conclude_nil _)⟩

theorem iterate_finished (schema : Schema) (errors : List Diagnostic) (n : Nat) :
    (step importer)^[n] (.finished schema errors) = .finished schema errors :=
  Function.iterate_fixed rfl n

/-- An end that is reached is never left. -/
theorem finished_unique {path : Option String} {text : String} {n m : Nat}
    {schema schema' : Schema} {errors errors' : List Diagnostic}
    (h : after importer path text n = .finished schema errors)
    (h' : after importer path text m = .finished schema' errors') :
    schema = schema' ∧ errors = errors' := by
  have hlater {k l : Nat} {s : Schema} {es : List Diagnostic} (hk : after importer path text k =
      .finished s es) (hkl : k ≤ l) : after importer path text l = .finished s es := by
    obtain ⟨d, rfl⟩ := Nat.exists_eq_add_of_le' hkl
    rw [after, Function.iterate_add_apply]
    exact (congrArg _ hk).trans (iterate_finished s es d)
  rcases Nat.le_total n m with hle | hle
  · exact Descent.finished.inj ((hlater h hle).symm.trans h')
  · exact Descent.finished.inj (h.symm.trans (hlater h' hle))

/-! ## The sources that are being read at once -/

section Moments

variable {resolve : Option String → String → Option ImportedSource}

/-- Levels of a reading: but for the outermost, each has a path that the importer has answered
with and that no level above it has. No source ends by itself with a fault of importing. -/
inductive Chained (resolve : Option String → String → Option ImportedSource) :
    List Level → Prop where
  | outermost {level : Level} (ending : ∀ e ∈ level.ending, e.code.kind ≠ .importing) :
    Chained resolve [level]
  | imported {level importing : Level} {above : List Level} {p : String}
    (outer : Chained resolve (importing :: above)) (own : level.path = some p)
    (answered : p ∈ Importer.answers resolve) (fresh : p ∉ underway (importing :: above))
    (ending : ∀ e ∈ level.ending, e.code.kind ≠ .importing) :
    Chained resolve (level :: importing :: above)

theorem Chained.ending {level : Level} {above : List Level}
    (h : Chained resolve (level :: above)) : ∀ e ∈ level.ending, e.code.kind ≠ .importing := by
  cases h with
  | outermost ending => exact ending
  | imported _ _ _ _ ending => exact ending

/-- Neither the draft nor the items of a level have a part in it. -/
theorem Chained.change {level : Level} {above : List Level}
    (h : Chained resolve (level :: above)) (draft : Draft) (items : List Item) :
    Chained resolve (⟨level.path, level.ending, draft, items⟩ :: above) := by
  cases h with
  | outermost ending => exact .outermost ending
  | imported outer own answered fresh ending => exact .imported outer own answered fresh ending

theorem Chained.nodup {levels : List Level} (h : Chained resolve levels) :
    (underway levels).Nodup := by
  induction h with
  | @outermost level _ => cases hp : level.path <;> simp [underway, hp]
  | imported outer own _ fresh _ ih =>
    rw [underway, own, Option.toList_some, List.nodup_append]
    refine ⟨ih, List.nodup_singleton _, ?_⟩
    rintro p hp q hq rfl
    rw [List.mem_singleton] at hq
    exact fresh (hq ▸ hp)

/-- Behind the path of the outermost level, if it has one, come those of the imported ones. -/
theorem Chained.underway_eq {level : Level} {above : List Level}
    (h : Chained resolve (level :: above)) :
    ∃ (outermost : Option String) (imported : List String),
      underway (level :: above) = outermost.toList ++ imported ∧
      imported.length = above.length ∧ ∀ p ∈ imported, p ∈ Importer.answers resolve := by
  induction above generalizing level with
  | nil => exact ⟨level.path, [], by simp [underway], rfl, by simp⟩
  | cons importing above ih =>
    obtain - | @⟨_, _, _, p, outer, own, answered, -, -⟩ := h
    obtain ⟨outermost, imported, hpaths, hlength, hanswers⟩ := ih outer
    refine ⟨outermost, imported ++ [p], ?_, ?_, ?_⟩
    · rw [underway, own, hpaths, List.append_assoc, Option.toList_some]
    · rw [List.length_append, hlength, List.length_singleton, List.length_cons]
    · intro q hq
      rcases List.mem_append.mp hq with hq | hq
      · exact hanswers q hq
      · rw [List.mem_singleton.mp hq]
        exact answered

/-- No more imported sources are being read than there are paths among the answers. -/
theorem Chained.length_le (hfinite : (Importer.answers resolve).Finite) {level : Level}
    {above : List Level} (h : Chained resolve (level :: above)) :
    above.length ≤ (Importer.answers resolve).ncard := by
  obtain ⟨outermost, imported, hpaths, hlength, hanswers⟩ := h.underway_eq
  have hnodup : imported.Nodup := by
    have hall := h.nodup
    rw [hpaths] at hall
    exact (List.nodup_append.mp hall).2.1
  calc above.length = imported.toFinset.card := by
        rw [List.toFinset_card_of_nodup hnodup, hlength]
    _ = (imported.toFinset : Set String).ncard := (Set.ncard_coe_finset _).symm
    _ ≤ (Importer.answers resolve).ncard :=
        Set.ncard_le_ncard (fun p hp => hanswers p (by simpa using hp)) hfinite

/-- What holds of a reading at every moment. -/
def Sound (resolve : Option String → String → Option ImportedSource) : Descent → Prop
  | .reading level above => Chained resolve (level :: above)
  | .finished _ _ => True

theorem exists_abandon_eq (errors : List Diagnostic) (draft : Draft) (above : List Level) :
    ∃ schema, abandon errors draft above = .finished schema errors := by
  induction above generalizing draft with
  | nil => exact ⟨draft.schema, rfl⟩
  | cons importing above ih => exact ih importing.draft

theorem sound_abandon (errors : List Diagnostic) (draft : Draft) (above : List Level) :
    (abandon errors draft above).Sound resolve := by
  obtain ⟨schema, hschema⟩ := exists_abandon_eq errors draft above
  rw [hschema]
  trivial

theorem sound_leave {level : Level} {above : List Level}
    (h : Chained resolve (level :: above)) (schema : Schema) :
    (leave schema above).Sound resolve := by
  cases h with
  | outermost => trivial
  | imported outer => exact outer.change _ _

theorem sound_start (path : Option String) (text : String) :
    (start path (.ofText path text)).Sound resolve :=
  Chained.outermost fun _ => Outline.kind_of_mem_errors

theorem Sound.step {finder : Importer} {d : Descent} (h : d.Sound finder.resolve) :
    (d.step (some finder)).Sound finder.resolve := by
  cases d with
  | finished schema errors => trivial
  | reading level above =>
    have hchained : Chained finder.resolve (level :: above) := h
    rw [Descent.step]
    split
    · -- the end of a source
      split
      · exact sound_leave hchained _
      · exact sound_abandon _ _ _
    · exact hchained.change _ _
    · split
      · exact sound_abandon _ _ _
      · next file rest _ source hsource =>
        obtain ⟨hfound, hfresh⟩ := Schema.findImport_ok hsource
        exact .imported (hchained.change _ _) rfl ⟨_, _, source, hfound, rfl⟩ hfresh
          fun _ => Outline.kind_of_mem_errors

theorem sound_after (finder : Importer) (path : Option String) (text : String) (n : Nat) :
    (after (some finder) path text n).Sound finder.resolve := by
  induction n with
  | zero => exact sound_start path text
  | succ n ih =>
    rw [after_succ]
    exact ih.step

/-! ## Cycles of imports -/

/-- The next item imports a source that is being read. -/
def Cyclic (resolve : Option String → String → Option ImportedSource) : Descent → Prop
  | .reading level above =>
    ∃ file rest source, level.items = .importFile file :: rest ∧
      resolve level.path file.lexeme = some source ∧ source.path ∈ underway (level :: above)
  | .finished _ _ => False

/-- The reading has been stopped by a cycle of imports. -/
def ReportsCycle : Descent → Prop
  | .reading _ _ => False
  | .finished _ errors => ∃ e ∈ errors, e.code = .importCycle

theorem reportsCycle_abandon {errors : List Diagnostic} {draft : Draft} {above : List Level} :
    (abandon errors draft above).ReportsCycle ↔ ∃ e ∈ errors, e.code = .importCycle := by
  obtain ⟨schema, hschema⟩ := exists_abandon_eq errors draft above
  rw [hschema]
  rfl

theorem not_reportsCycle_leave (schema : Schema) (above : List Level) :
    ¬ (leave schema above).ReportsCycle := by
  cases above with
  | nil => rintro ⟨e, he, -⟩; cases he
  | cons importing above => exact id

theorem step_cyclic {finder : Importer} {level : Level} {above : List Level} {file : Token}
    {rest : List Item} {source : ImportedSource} (hitems : level.items = .importFile file :: rest)
    (hfound : finder.resolve level.path file.lexeme = some source)
    (hunderway : source.path ∈ underway (level :: above)) :
    step (some finder) (.reading level above) =
      abandon [(ImportError.cycle (underway (level :: above) ++ [source.path])).report file
        level.path] level.draft above := by
  have hrefused : Schema.findImport (some finder) (underway above) level.path file.lexeme =
      .error (.cycle (underway (level :: above) ++ [source.path])) := by
    simp only [Schema.findImport, hfound]
    exact if_pos hunderway
  simp only [step, hitems, hrefused]

theorem cyclic_iff {level : Level} {above : List Level} {file : Token} {rest : List Item}
    (hitems : level.items = .importFile file :: rest) :
    (reading level above).Cyclic resolve ↔ ∃ source,
      resolve level.path file.lexeme = some source ∧
        source.path ∈ underway (level :: above) := by
  simp only [Cyclic, hitems]
  constructor
  · rintro ⟨_, _, source, heq, h⟩
    cases heq
    exact ⟨source, h⟩
  · rintro ⟨source, h⟩
    exact ⟨file, rest, source, rfl, h⟩

theorem step_fresh {finder : Importer} {level : Level} {above : List Level} {file : Token}
    {rest : List Item} {source : ImportedSource} (hitems : level.items = .importFile file :: rest)
    (hfound : finder.resolve level.path file.lexeme = some source)
    (hfresh : source.path ∉ underway (level :: above)) :
    step (some finder) (.reading level above) =
      .reading (.ofOutline (some source.path) source.outline)
        ({ level with items := rest } :: above) := by
  apply step_enter level hitems
  simp only [Schema.findImport, hfound]
  exact if_neg hfresh

/-- The reading is stopped by a cycle exactly when it comes to an import that leads back to a
source that is being read. -/
theorem Sound.step_reportsCycle_iff {finder : Importer} {level : Level} {above : List Level}
    (h : (reading level above).Sound finder.resolve) :
    ((reading level above).step (some finder)).ReportsCycle ↔
      (reading level above).Cyclic finder.resolve := by
  have hchained : Chained finder.resolve (level :: above) := h
  match hitems : level.items with
  | [] =>
    refine iff_of_false ?_ (by simp [Cyclic, hitems])
    simp only [Descent.step, hitems]
    split
    · exact not_reportsCycle_leave _ _
    · rw [reportsCycle_abandon]
      rintro ⟨e, he, hcode⟩
      exact hchained.ending e he (by rw [hcode]; rfl)
  | .declaration d :: rest =>
    refine iff_of_false ?_ (by simp [Cyclic, hitems])
    simp only [Descent.step, hitems]
    exact id
  | .importFile file :: rest =>
    rw [cyclic_iff hitems]
    cases hfound : finder.resolve level.path file.lexeme with
    | none =>
      have hrefused : Schema.findImport (some finder) (underway above) level.path file.lexeme =
          .error (.notFound file.lexeme) := by
        simp only [Schema.findImport, hfound]
      refine iff_of_false ?_ (by simp)
      simp only [Descent.step, hitems, hrefused]
      rw [reportsCycle_abandon]
      rintro ⟨e, he, hcode⟩
      rw [List.mem_singleton.mp he] at hcode
      cases hcode
    | some source =>
      by_cases hunderway : source.path ∈ underway (level :: above)
      · rw [step_cyclic hitems hfound hunderway, reportsCycle_abandon]
        exact iff_of_true ⟨_, List.mem_singleton.mpr rfl, rfl⟩ ⟨source, rfl, hunderway⟩
      · rw [step_fresh hitems hfound hunderway]
        refine iff_of_false id ?_
        rintro ⟨_, heq, hpath⟩
        cases heq
        exact hunderway hpath

variable {finder : Importer} {path : Option String} {text : String} {n : Nat}

theorem reportsCycle_succ_iff {level : Level} {above : List Level}
    (hn : after (some finder) path text n = .reading level above) :
    (after (some finder) path text (n + 1)).ReportsCycle ↔
      (after (some finder) path text n).Cyclic finder.resolve := by
  have hsound := sound_after finder path text n
  rw [hn] at hsound
  rw [after_succ, hn]
  exact hsound.step_reportsCycle_iff

/-- A cycle that has stopped a reading was the next import before. -/
theorem exists_cyclic_of_reportsCycle (h : (after (some finder) path text n).ReportsCycle) :
    ∃ m, (after (some finder) path text m).Cyclic finder.resolve := by
  induction n with
  | zero => exact h.elim
  | succ n ih =>
    cases hn : after (some finder) path text n with
    | finished schema errors =>
      rw [after_succ, hn] at h
      exact ih (hn ▸ h)
    | reading level above => exact ⟨n, (reportsCycle_succ_iff hn).mp h⟩

theorem Cyclic.reportsCycle_succ (h : (after (some finder) path text n).Cyclic finder.resolve) :
    (after (some finder) path text (n + 1)).ReportsCycle := by
  cases hn : after (some finder) path text n with
  | finished schema errors =>
    rw [hn] at h
    exact h.elim
  | reading level above => exact (reportsCycle_succ_iff hn).mpr h

/-- A cycle is among the faults of a source exactly when it stops the reading. -/
theorem exists_reportsCycle_iff :
    (∃ n, (after (some finder) path text n).ReportsCycle) ↔
      ∃ errors, Schema.ofText (some finder) path text = .error errors ∧
        ∃ e ∈ errors, e.code = .importCycle := by
  obtain ⟨last, hlast⟩ := exists_after_eq_finished (some finder) path text
  simp only [Schema.ofText_error_iff]
  constructor
  · rintro ⟨n, hn⟩
    cases hend : after (some finder) path text n with
    | reading level above =>
      rw [hend] at hn
      exact hn.elim
    | finished schema errors =>
      rw [hend] at hn
      obtain ⟨-, rfl⟩ := finished_unique hlast hend
      obtain ⟨e, he, hcode⟩ := hn
      exact ⟨_, ⟨List.ne_nil_of_mem he, rfl⟩, e, he, hcode⟩
  · rintro ⟨errors, ⟨-, rfl⟩, hcycle⟩
    refine ⟨last, ?_⟩
    rw [hlast]
    exact hcycle

end Moments

/-- A source whose imports are answered with finitely many paths is read to its end. At every
moment the sources being read have different paths, and no more of them are imported ones
than there are answers. An import is refused as a cycle exactly when it leads to one of those
sources, with their paths in the report; any other source is entered, whether or not it has
been read before. -/
theorem guard_exact {resolve : Option String → String → Option ImportedSource}
    (hfinite : (Importer.answers resolve).Finite) (path : Option String) (text : String) :
    let importer := some (Importer.ofFinite resolve hfinite)
    (∃ n schema errors, after importer path text n = .finished schema errors ∧
      Schema.ofText importer path text =
        if errors = [] then .ok schema else .error errors) ∧
    (∀ n level above, after importer path text n = .reading level above →
      above.length ≤ (Importer.answers resolve).ncard ∧
      (underway (level :: above)).Nodup ∧
      ((after importer path text (n + 1)).ReportsCycle ↔
        (after importer path text n).Cyclic resolve) ∧
      ∀ file rest source, level.items = .importFile file :: rest →
        resolve level.path file.lexeme = some source →
        (source.path ∈ underway (level :: above) →
          ∃ schema, after importer path text (n + 1) = .finished schema
            [⟨.importCycle, "import cycle detected: " ++
                " -> ".intercalate (underway (level :: above) ++ [source.path]),
              file.line, file.offset, level.path⟩]) ∧
        (source.path ∉ underway (level :: above) →
          after importer path text (n + 1) =
            .reading (.ofOutline (some source.path) source.outline)
              ({ level with items := rest } :: above))) ∧
    ((∃ errors, Schema.ofText importer path text = .error errors ∧
        ∃ e ∈ errors, e.code = .importCycle) ↔
      ∃ n, (after importer path text n).Cyclic resolve) := by
  intro importer
  obtain ⟨last, hlast⟩ := exists_after_eq_finished importer path text
  refine ⟨⟨last, _, _, hlast, rfl⟩, ?_, ?_⟩
  · intro n level above hn
    have hchained : Chained resolve (level :: above) := by
      have hsound := sound_after (Importer.ofFinite resolve hfinite) path text n
      rwa [hn] at hsound
    refine ⟨hchained.length_le hfinite, hchained.nodup, reportsCycle_succ_iff hn, ?_⟩
    intro file rest source hitems hfound
    rw [after_succ, hn]
    constructor
    · intro hunderway
      rw [step_cyclic hitems hfound hunderway]
      exact exists_abandon_eq _ _ _
    · exact step_fresh hitems hfound
  · rw [← exists_reportsCycle_iff]
    constructor
    · rintro ⟨n, hn⟩
      exact exists_cyclic_of_reportsCycle hn
    · rintro ⟨n, hn⟩
      exact ⟨n + 1, hn.reportsCycle_succ⟩

/-- The answers of an importer that knows one source, which imports itself. -/
def selfImport (_ : Option String) (_ : String) : Option ImportedSource :=
  some ⟨"a", "import \"a\""⟩

/-- A source that imports itself is entered once. -/
theorem guard_exact_selfImport :
    ∃ hfinite : (Importer.answers selfImport).Finite,
      ∃ errors, Schema.ofText (some (.ofFinite selfImport hfinite)) none "import \"a\"" =
        .error errors ∧ ∃ e ∈ errors, e.code = .importCycle := by
  have hfinite : (Importer.answers selfImport).Finite := by
    apply (Set.finite_singleton "a").subset
    rintro p ⟨current, file, source, h, rfl⟩
    cases h
    rfl
  refine ⟨hfinite, (guard_exact hfinite none "import \"a\"").2.2.mpr ⟨1, ?_⟩⟩
  have hnext : after (some (.ofFinite selfImport hfinite)) none "import \"a\"" 1 =
      .reading (.ofOutline (some "a") (.ofText (some "a") "import \"a\""))
        [⟨none, [], .empty, []⟩] := by
    cbv
  have hitems : (Outline.ofText (some "a") "import \"a\"").items =
      [.importFile ⟨.string, "a", 1, 8⟩] := by
    cbv
  rw [hnext]
  exact ⟨_, _, ⟨"a", "import \"a\""⟩, hitems, rfl, by simp [underway, Level.ofOutline]⟩

end Descent
end SchemaLang
