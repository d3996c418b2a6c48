import SchemaLang.Proofs.Schema
import SchemaLang.Validation

/-!
# What validation accepts

The rules as predicates on schemas and declarations, without reports, and the two
equivalences: lazy validation reports nothing exactly when the names are kept apart
and every declaration is well formed (`validate_lazy_eq_nil_iff`), and strict
validation when besides nothing is repeated and every type name resolves
(`validate_strict_eq_nil_iff`).
-/

namespace SchemaLang

/-! ## The rules -/

/-- The fields of a model have the shapes of their types; the values of an enum differ. -/
def Declaration.WellFormed : Declaration → Prop
  | model m => ∀ f ∈ m.fields.values, f.shapeError? = none
  | enum e => e.values.Nodup
  | typeDef _ => True

/-- No name is declared as more than one kind. -/
def Schema.Apart (s : Schema) : Prop :=
  ∀ name kind kind', name ∈ (s.ofKind kind).keys → name ∈ (s.ofKind kind').keys →
    kind = kind'

@[simp] theorem Declaration.wellFormed_bind (id : RegistryId) (d : Declaration) :
    (d.bind id).WellFormed ↔ d.WellFormed := by
  cases d <;> rfl

namespace Validator

variable {v : Validator} {s : Schema}

/-! ## Values of enums -/

theorem map_fst_matchTraces (values : List String) (traces : List Trace) :
    (Enum.matchTraces values traces).map Prod.fst = values := by
  fun_induction Enum.matchTraces values traces with
  | case1 => rfl
  | case2 value values ih => rw [List.map_cons, ih]
  | case3 value values trace traces ih => rw [List.map_cons, ih]

theorem repeatedValues_eq_nil_iff {e : Enum} {seen : List String}
    {traced : List (String × Option Trace)} :
    repeatedValues e seen traced = [] ↔
      (traced.map Prod.fst).Nodup ∧ ∀ value ∈ traced.map Prod.fst, value ∉ seen := by
  fun_induction repeatedValues e seen traced with
  | case1 => simp
  | case2 seen value trace rest hseen ih =>
    constructor
    · intro h
      cases h
    · rintro ⟨-, hfresh⟩
      exact absurd hseen (hfresh value (by simp))
  | case3 seen value trace rest hseen ih =>
    rw [ih, List.map_cons, List.nodup_cons, List.forall_mem_cons]
    constructor
    · rintro ⟨hnd, hfresh⟩
      refine ⟨⟨fun h => hfresh value h List.mem_cons_self, hnd⟩, hseen, ?_⟩
      intro other hother hmem
      exact hfresh other hother (List.mem_cons_of_mem _ hmem)
    · rintro ⟨⟨hvalue, hnd⟩, -, hfresh⟩
      refine ⟨hnd, fun other hother hmem => ?_⟩
      rcases List.mem_cons.mp hmem with rfl | hmem
      · exact hvalue hother
      · exact hfresh other hother hmem

theorem validateEnum_eq_nil_iff {e : Enum} : validateEnum e = [] ↔ e.values.Nodup := by
  rw [validateEnum, repeatedValues_eq_nil_iff, Enum.tracedValues, map_fst_matchTraces]
  simp

/-! ## Types of fields and typedefs -/

theorem unresolvedTypes_eq_nil_iff {type : FieldType} {use : TypeUse} {trace : Trace} :
    v.unresolvedTypes type use trace = [] ↔
      (v.mode = .strict → ∀ name ∈ type.names, v.scope.resolves name = true) := by
  unfold unresolvedTypes
  cases v.mode with
  | lazy => simp
  | strict => simp [List.filter_eq_nil_iff]

theorem shape_eq_nil_iff {f : Field} : shape f = [] ↔ f.shapeError? = none := by
  rw [shape, List.map_eq_nil_iff, Option.toList_eq_nil_iff]

/-- The reports on one declaration. -/
def validateDeclaration (v : Validator) : Declaration → List Diagnostic
  | .model m => v.validateModel m
  | .enum e => validateEnum e
  | .typeDef t => v.validateTypeDef t

theorem validateDeclaration_eq_nil_iff {d : Declaration} :
    v.validateDeclaration d = [] ↔
      d.WellFormed ∧
        (v.mode = .strict → ∀ name ∈ d.typeNames, v.scope.resolves name = true) := by
  cases d with
  | model m =>
    simp only [validateDeclaration, validateModel, List.flatMap_eq_nil_iff,
      List.append_eq_nil_iff, shape_eq_nil_iff, unresolvedTypes_eq_nil_iff,
      Declaration.WellFormed, Declaration.typeNames, List.mem_flatMap]
    constructor
    · intro h
      refine ⟨fun f hf => (h f hf).1, ?_⟩
      rintro hmode name ⟨f, hf, hname⟩
      exact (h f hf).2 hmode name hname
    · rintro ⟨hshape, htypes⟩ f hf
      exact ⟨hshape f hf, fun hmode name hname => htypes hmode name ⟨f, hf, hname⟩⟩
  | enum e =>
    rw [validateDeclaration, validateEnum_eq_nil_iff]
    simp [Declaration.WellFormed, Declaration.typeNames]
  | typeDef t =>
    rw [validateDeclaration, validateTypeDef, unresolvedTypes_eq_nil_iff]
    simp [Declaration.WellFormed, Declaration.typeNames]

/-! ## Names -/

theorem conflicts_eq_nil_iff_values :
    conflicts s = [] ↔
      (∀ e ∈ s.enums.values, e.name ∉ s.models.keys) ∧
        ∀ t ∈ s.typedefs.values, t.name ∉ s.models.keys ∧ t.name ∉ s.enums.keys := by
  have hcontains {α : Type} (m : OrderedMap α) (name : String) :
      m.contains name = false ↔ name ∉ m.keys := by
    rw [← Bool.not_eq_true, OrderedMap.contains_iff]
  simp only [conflicts, List.append_eq_nil_iff, List.flatMap_eq_nil_iff, ← hcontains]
  refine and_congr (forall₂_congr fun e _ => ?_) (forall₂_congr fun t _ => ?_)
  · cases s.models.contains e.name <;> simp
  · cases s.models.contains t.name <;> cases s.enums.contains t.name <;> simp

theorem conflicts_eq_nil_iff (hs : s.Keyed) : conflicts s = [] ↔ s.Apart := by
  have henums := hs.forall_keys .enum fun name => name ∉ s.models.keys
  have htypedefs := hs.forall_keys .typeDef fun name =>
    name ∉ s.models.keys ∧ name ∉ s.enums.keys
  simp only [Schema.ofKind, OrderedMap.keys_mapValues, OrderedMap.values_mapValues,
    List.forall_mem_map, Declaration.name] at henums htypedefs
  rw [conflicts_eq_nil_iff_values, ← henums, ← htypedefs]
  constructor
  · rintro ⟨he, ht⟩ name kind kind' h h'
    cases kind <;> cases kind' <;>
      simp only [Schema.ofKind, OrderedMap.keys_mapValues] at h h'
    · rfl
    · exact absurd h (he name h')
    · exact absurd h (ht name h').1
    · exact absurd h' (he name h)
    · rfl
    · exact absurd h (ht name h').2
    · exact absurd h' (ht name h).1
    · exact absurd h' (ht name h).2
    · rfl
  · intro h
    have hmodels : s.models.keys = (s.ofKind .model).keys := by simp [Schema.ofKind]
    have henums : s.enums.keys = (s.ofKind .enum).keys := by simp [Schema.ofKind]
    have htypedefs : s.typedefs.keys = (s.ofKind .typeDef).keys := by simp [Schema.ofKind]
    rw [hmodels, henums, htypedefs]
    refine ⟨fun name he hm => ?_, fun name ht => ⟨fun hm => ?_, fun he => ?_⟩⟩
    · cases h name _ _ he hm
    · cases h name _ _ ht hm
    · cases h name _ _ ht he

/-! ## Whole schemas -/

theorem validate_eq_nil_iff (hs : s.Keyed) :
    v.validate s = [] ↔
      v.redeclarations s = [] ∧ s.Apart ∧ ∀ d ∈ s.declarations, v.validateDeclaration d = [] := by
  rw [← conflicts_eq_nil_iff hs]
  simp only [validate, List.append_eq_nil_iff, List.flatMap_eq_nil_iff, Schema.declarations,
    List.forall_mem_append, List.forall_mem_map, validateDeclaration, and_assoc]

/-- Lazy validation asks for names kept apart and well-formed declarations. -/
theorem validate_lazy_eq_nil_iff {scope : Scope} {suggestions : Bool} (hs : s.Keyed) :
    (Validator.mk scope .lazy suggestions).validate s = [] ↔
      s.Apart ∧ ∀ d ∈ s.declarations, d.WellFormed := by
  simp [validate_eq_nil_iff hs, validateDeclaration_eq_nil_iff, redeclarations]

/-- Strict validation asks besides that nothing is repeated and every type name resolves. -/
theorem validate_strict_eq_nil_iff {scope : Scope} {suggestions : Bool} (hs : s.Keyed) :
    (Validator.mk scope .strict suggestions).validate s = [] ↔
      s.redeclared = [] ∧ s.Apart ∧ ∀ d ∈ s.declarations,
        d.WellFormed ∧ ∀ name ∈ d.typeNames, scope.resolves name = true := by
  simp [validate_eq_nil_iff hs, validateDeclaration_eq_nil_iff, redeclarations]

end Validator

end SchemaLang
