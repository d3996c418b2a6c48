import SchemaLang.Proofs.Registry.Pass
import SchemaLang.Proofs.Validation.Reports

/-!
# What lazy validation defers

Lazy validation gives the reports of strict validation but for those on unresolved types
and on repeated declarations (`validate_lazy_eq_filter_strict`). What it looks at is the
schema alone, so the scope does not matter, and what the lazy pass of a batch rejects is
rejected by any strict pass as well.
-/

namespace SchemaLang

namespace Validator

variable {scope : Scope} {suggestions : Bool} {s : Schema}

/-- The reports of the rules that look at nothing but the schema. -/
def structural (s : Schema) : List Diagnostic :=
  conflicts s ++ s.enums.values.flatMap validateEnum ++
    s.models.values.flatMap fun m => m.fields.values.flatMap shape

theorem validate_lazy : (Validator.mk scope .lazy suggestions).validate s = structural s := by
  have htypedefs : (s.typedefs.values.flatMap
      (Validator.mk scope .lazy suggestions).validateTypeDef) = [] :=
    List.flatMap_eq_nil_iff.mpr fun _ _ => rfl
  have hmodels : (Validator.mk scope .lazy suggestions).validateModel =
      fun m => m.fields.values.flatMap shape := by
    funext m
    simp [validateModel, unresolvedTypes]
  simp [validate, structural, redeclarations, htypedefs, hmodels]

theorem filter_validate_strict :
    (((Validator.mk scope .strict suggestions).validate s).filter
      fun d => d.code ≠ .unresolvedType ∧ d.code ≠ .duplicateDeclaration) = structural s := by
  rw [filter_validate _ _ fun code =>
    decide (code ≠ .unresolvedType ∧ code ≠ .duplicateDeclaration)]
  simp [structural]

end Validator

namespace Registry

variable {r r' : Registry} {source : Source} {errors : List Diagnostic}

theorem check_lazy_sublist (r r' : Registry) (s : Schema) :
    (r.check .lazy s).Sublist (r'.check .strict s) := by
  have hvalidate : ((Validator.mk (r.scope s) .lazy r.config.suggestions).validate s).Sublist
      ((Validator.mk (r'.scope s) .strict r'.config.suggestions).validate s) := by
    rw [Validator.validate_lazy, ← Validator.filter_validate_strict]
    exact List.filter_sublist
  exact hvalidate.trans (List.sublist_append_left _ _)

theorem loadPass_eq_error_iff {mode : ValidationMode} :
    r.loadPass mode source = .error errors ↔
      Schema.ofText (some r.importer) source.path source.text = .error errors ∨
        ∃ s, source.Parses r.importer s ∧ r.check mode s ≠ [] ∧ r.check mode s = errors := by
  unfold loadPass Source.Parses
  cases hread : Schema.ofText (some r.importer) source.path source.text with
  | error faults => simp [bind, Except.bind]
  | ok s =>
    by_cases hcheck : r.check mode s = [] <;> simp [bind, Except.bind, hcheck]

/-- A source that the lazy pass rejects is rejected by the strict pass, whatever either
registry holds: with the same faults of reading, or with the same reports among others. -/
theorem loadPass_strict_of_lazy_error (same : r'.importer = r.importer)
    (h : r.loadPass .lazy source = .error errors) :
    ∃ errors', r'.loadPass .strict source = .error errors' ∧ errors.Sublist errors' := by
  rcases loadPass_eq_error_iff.mp h with hread | ⟨s, hread, hcheck, rfl⟩
  · exact ⟨errors, loadPass_eq_error_iff.mpr (Or.inl (same ▸ hread)), .refl _⟩
  · have hsublist := check_lazy_sublist r r' s
    have hstrict : r'.check .strict s ≠ [] := fun hnil => by
      rw [hnil, List.sublist_nil] at hsublist
      exact hcheck hsublist
    exact ⟨_, loadPass_eq_error_iff.mpr (Or.inr ⟨s, same ▸ hread, hstrict, rfl⟩), hsublist⟩

theorem loadPass_importer {mode : ValidationMode} {after : Registry}
    (h : r.loadPass mode source = .ok after) : after.importer = r.importer := by
  obtain ⟨s, -, -, rfl⟩ := loadPass_eq_ok_iff.mp h
  rfl

/-- A pass fails over one source, behind others that it has taken in. -/
theorem exists_rejected_of_error {mode : ValidationMode} {sources : List Source}
    (h : sources.foldlM (loadPass mode) r = .error errors) :
    ∃ before source after middle, sources = before ++ source :: after ∧
      before.foldlM (loadPass mode) r = .ok middle ∧ middle.importer = r.importer ∧
      middle.loadPass mode source = .error errors := by
  induction sources generalizing r with
  | nil => cases h
  | cons source rest ih =>
    rw [List.foldlM_cons] at h
    cases hfirst : r.loadPass mode source with
    | error faults =>
      rw [hfirst] at h
      cases h
      exact ⟨[], source, rest, r, rfl, rfl, rfl, hfirst⟩
    | ok next =>
      rw [hfirst] at h
      obtain ⟨before, later, after, middle, rfl, hbefore, himporter, hlater⟩ := ih h
      refine ⟨source :: before, later, after, middle, rfl, ?_, ?_, hlater⟩
      · rw [List.foldlM_cons, hfirst]
        exact hbefore
      · rw [himporter, loadPass_importer hfirst]

end Registry

namespace Validator

/-- Lazy validation gives the reports of strict validation without those on unresolved types
and on repeated declarations, in the same order, and the same ones in every scope. So where
the lazy pass of a batch stops at a source, a strict pass rejects that source too, with at
least the same reports. -/
theorem validate_lazy_eq_filter_strict (s : Schema) (scope scope' : Scope)
    (suggestions : Bool) (r : Registry) (sources : List Source) :
    ((Validator.mk scope .lazy suggestions).validate s =
      ((Validator.mk scope .strict suggestions).validate s).filter
        fun d => d.code ≠ .unresolvedType ∧ d.code ≠ .duplicateDeclaration) ∧
    (Validator.mk scope .lazy suggestions).validate s =
      (Validator.mk scope' .lazy suggestions).validate s ∧
    ∀ errors, sources.foldlM (Registry.loadPass .lazy) r = .error errors →
      ∃ before source after middle, sources = before ++ source :: after ∧
        before.foldlM (Registry.loadPass .lazy) r = .ok middle ∧
        middle.loadPass .lazy source = .error errors ∧
        ∀ r' : Registry, r'.importer = r.importer →
          ∃ errors', r'.loadPass .strict source = .error errors' ∧ errors.Sublist errors' := by
  refine ⟨?_, ?_, fun errors h => ?_⟩
  · rw [validate_lazy, filter_validate_strict]
  · rw [validate_lazy, validate_lazy]
  · obtain ⟨before, source, after, middle, rfl, hbefore, himporter, hstop⟩ :=
      Registry.exists_rejected_of_error h
    refine ⟨before, source, after, middle, rfl, hbefore, hstop, fun r' same => ?_⟩
    exact Registry.loadPass_strict_of_lazy_error (same.trans himporter.symm) hstop

/-- A typedef of a type that nothing declares, and an enum that repeats a value. -/
def deferredAndRepeated : Schema :=
  ⟨.empty, .ofList [("E", ⟨"E", ["A", "A"], [⟨1, 22, none⟩, ⟨1, 25, none⟩], ⟨1, 13, none⟩⟩)],
    .ofList [("T", ⟨"T", .named "X", ⟨1, 1, none⟩⟩)], []⟩

/-- The lazy pass stops at the repeated value and passes over the type. -/
theorem validate_lazy_eq_filter_strict_batch :
    [⟨"typedef T X enum E \x7b A, A \x7d", none⟩].foldlM (Registry.loadPass .lazy)
        (Registry.new ⟨0⟩ .standard .none) =
      .error [⟨.duplicateEnumValue, "Duplicate value `A` in enum `E`", 1, 25, none⟩] ∧
    ∃ source errors, source ∈ [⟨"typedef T X enum E \x7b A, A \x7d", none⟩] ∧
      (Registry.new ⟨0⟩ .standard .none).loadPass .strict source = .error errors ∧
      [⟨.duplicateEnumValue, "Duplicate value `A` in enum `E`", 1, 25, none⟩].Sublist errors := by
  have hread : Schema.ofText (some .none) none "typedef T X enum E \x7b A, A \x7d" =
      .ok deferredAndRepeated := by
    cbv
  have hpass : (Registry.new ⟨0⟩ .standard .none).loadPass .lazy
      ⟨"typedef T X enum E \x7b A, A \x7d", none⟩ =
        .error [⟨.duplicateEnumValue, "Duplicate value `A` in enum `E`", 1, 25, none⟩] :=
    Registry.loadPass_eq_error_iff.mpr (Or.inr ⟨deferredAndRepeated, hread, by decide, by rfl⟩)
  have hlazy : [⟨"typedef T X enum E \x7b A, A \x7d", none⟩].foldlM (Registry.loadPass .lazy)
      (Registry.new ⟨0⟩ .standard .none) =
        .error [⟨.duplicateEnumValue, "Duplicate value `A` in enum `E`", 1, 25, none⟩] := by
    rw [List.foldlM_cons, hpass]
    rfl
  obtain ⟨-, -, hstops⟩ := validate_lazy_eq_filter_strict .empty ⟨[]⟩ ⟨[]⟩ true
    (Registry.new ⟨0⟩ .standard .none) [⟨"typedef T X enum E \x7b A, A \x7d", none⟩]
  obtain ⟨before, source, after, middle, hsources, -, -, hstrict⟩ := hstops _ hlazy
  obtain ⟨errors, hrejected, hsublist⟩ := hstrict (.new ⟨0⟩ .standard .none) rfl
  refine ⟨hlazy, source, errors, ?_, hrejected, hsublist⟩
  rw [hsources]
  exact List.mem_append_right _ List.mem_cons_self

end Validator

end SchemaLang
