import Mathlib
import SchemaLang.Proofs.Validation

/-!
# The reports of validation

Each rule reports under a code of its own, so the reports of some codes are those of some
rules (`filter_validate`). The reports on repeated values are given by the positions of
the values (`validateEnum_eq`), and with them strict validation is described in full
(`validate_strict_exact`).
-/

namespace SchemaLang

variable {s : Schema}

namespace Validator

variable {v : Validator} {d : Diagnostic}

/-! ## Codes -/

theorem code_of_mem_redeclarations (h : d ∈ v.redeclarations s) :
    d.code = .duplicateDeclaration := by
  unfold redeclarations at h
  split at h
  · cases h
  · obtain ⟨r, -, rfl⟩ := List.mem_map.mp h
    rfl

theorem code_of_mem_conflicts (h : d ∈ conflicts s) : d.code = .nameConflict := by
  rcases List.mem_append.mp h with h | h
  · obtain ⟨e, -, he⟩ := List.mem_flatMap.mp h
    split at he
    · cases List.mem_singleton.mp he
      rfl
    · cases he
  · obtain ⟨t, -, ht⟩ := List.mem_flatMap.mp h
    split at ht
    · cases List.mem_singleton.mp ht
      rfl
    · split at ht
      · cases List.mem_singleton.mp ht
        rfl
      · cases ht

theorem code_of_mem_repeatedValues {e : Enum} {seen : List String}
    {traced : List (String × Option Trace)} (h : d ∈ repeatedValues e seen traced) :
    d.code = .duplicateEnumValue := by
  fun_induction repeatedValues e seen traced with
  | case1 => cases h
  | case2 seen value trace rest hseen ih =>
    rcases List.mem_cons.mp h with rfl | h
    · rfl
    · exact ih h
  | case3 seen value trace rest hseen ih => exact ih h

theorem code_of_mem_unresolvedTypes {type : FieldType} {use : TypeUse} {trace : Trace}
    (h : d ∈ v.unresolvedTypes type use trace) : d.code = .unresolvedType := by
  unfold unresolvedTypes at h
  split at h
  · cases h
  · obtain ⟨name, -, rfl⟩ := List.mem_map.mp h
    rfl

theorem code_of_mem_shape {f : Field} (h : d ∈ shape f) : d.code = .invalidFieldShape := by
  obtain ⟨e, -, rfl⟩ := List.mem_map.mp h
  rfl

/-- Reports of one code are kept together or left out together. -/
theorem filter_of_code (reports : List Diagnostic) {code : Diagnostic.Code}
    (h : ∀ d ∈ reports, d.code = code) (keep : Diagnostic.Code → Bool) :
    (reports.filter fun d => keep d.code) = if keep code then reports else [] := by
  split
  · next hkeep => exact List.filter_eq_self.mpr fun d hd => by rw [h d hd, hkeep]
  · next hkeep => exact List.filter_eq_nil_iff.mpr fun d hd => by rwa [h d hd]

/-- The reports of some codes are those of the rules that report under them. -/
theorem filter_validate (v : Validator) (s : Schema) (keep : Diagnostic.Code → Bool) :
    ((v.validate s).filter fun d => keep d.code) =
      (if keep .duplicateDeclaration then v.redeclarations s else []) ++
      (if keep .nameConflict then conflicts s else []) ++
      (s.enums.values.flatMap fun e =>
        if keep .duplicateEnumValue then validateEnum e else []) ++
      (s.typedefs.values.flatMap fun t =>
        if keep .unresolvedType then v.validateTypeDef t else []) ++
      (s.models.values.flatMap fun m => m.fields.values.flatMap fun f =>
        (if keep .invalidFieldShape then shape f else []) ++
          if keep .unresolvedType then v.unresolvedTypes f.type (.field m.name f.name) f.trace
          else []) := by
  have henum (e : Enum) :=
    filter_of_code (validateEnum e) (fun _ => code_of_mem_repeatedValues) keep
  have htype (type use trace) :=
    filter_of_code (v.unresolvedTypes type use trace) (fun _ => code_of_mem_unresolvedTypes) keep
  have hshape (f : Field) := filter_of_code (shape f) (fun _ => code_of_mem_shape) keep
  simp only [validate, validateTypeDef, validateModel, List.filter_append, List.filter_flatMap,
    filter_of_code _ (fun _ => code_of_mem_redeclarations) keep,
    filter_of_code _ (fun _ => code_of_mem_conflicts) keep, henum, htype, hshape]

end Validator

/-! ## Names of the three kinds -/

theorem Schema.apart_iff_disjoint :
    s.Apart ↔ s.models.keys.Disjoint s.enums.keys ∧ s.models.keys.Disjoint s.typedefs.keys ∧
      s.enums.keys.Disjoint s.typedefs.keys := by
  have hkeys : (s.ofKind .model).keys = s.models.keys ∧ (s.ofKind .enum).keys = s.enums.keys ∧
      (s.ofKind .typeDef).keys = s.typedefs.keys := by
    simp [Schema.ofKind]
  obtain ⟨hmodels, henums, htypedefs⟩ := hkeys
  rw [← hmodels, ← henums, ← htypedefs]
  constructor
  · intro h
    refine ⟨fun name hm he => ?_, fun name hm ht => ?_, fun name he ht => ?_⟩
    · cases h name _ _ hm he
    · cases h name _ _ hm ht
    · cases h name _ _ he ht
  · rintro ⟨hme, hmt, het⟩ name kind kind' h h'
    cases kind with
    | model =>
      cases kind' with
      | model => rfl
      | enum => exact absurd h' (hme h)
      | typeDef => exact absurd h' (hmt h)
    | enum =>
      cases kind' with
      | model => exact absurd h (hme h')
      | enum => rfl
      | typeDef => exact absurd h' (het h)
    | typeDef =>
      cases kind' with
      | model => exact absurd h (hmt h')
      | enum => exact absurd h (het h')
      | typeDef => rfl

/-! ## Repeated values -/

namespace Enum

/-- The positions of the values that the enum has listed before. -/
def repeatedAt (e : Enum) : List (Fin e.values.length) :=
  (List.finRange e.values.length).filter fun i => e.values[i] ∈ e.values.take i

/-- The report that the value at a position is a repeated one. It is about the place of the
value, or about that of the enum when there is no other. -/
def repetition (e : Enum) (i : Fin e.values.length) : Diagnostic :=
  (ValidationError.duplicateValue e.values[i] e.name).report
    (e.valueTraces[i.val]?.getD e.trace)

end Enum

namespace Validator

theorem matchTraces_cons (value : String) (values : List String) (traces : List Trace) :
    Enum.matchTraces (value :: values) traces =
      (value, traces[0]?) :: Enum.matchTraces values traces.tail := by
  cases traces <;> rfl

/-- The positions of the values that have been seen, or that the list itself has before. -/
def repeatedBehind (seen values : List String) : List (Fin values.length) :=
  (List.finRange values.length).filter fun i => values[i] ∈ seen ∨ values[i] ∈ values.take i

theorem repeatedBehind_congr {seen seen' : List String} (values : List String)
    (h : ∀ x, x ∈ seen ↔ x ∈ seen') : repeatedBehind seen values = repeatedBehind seen' values := by
  simp only [repeatedBehind, h]

/-- Behind the first value the rest is read with that value among those seen. -/
theorem repeatedBehind_cons (seen : List String) (value : String) (values : List String) :
    repeatedBehind seen (value :: values) =
      (if value ∈ seen then [0] else []) ++
        (repeatedBehind (value :: seen) values).map Fin.succ := by
  have hpositions : List.finRange (value :: values).length =
      0 :: (List.finRange values.length).map Fin.succ := List.finRange_succ
  have hrest : ((List.finRange values.length).map Fin.succ).filter
      (fun i : Fin (value :: values).length =>
        (value :: values)[i] ∈ seen ∨ (value :: values)[i] ∈ (value :: values).take i) =
      (repeatedBehind (value :: seen) values).map Fin.succ := by
    rw [List.filter_map, repeatedBehind]
    congr 1
    refine List.filter_congr fun i _ => decide_eq_decide.mpr ?_
    change values[i] ∈ seen ∨ values[i] ∈ value :: values.take i ↔
      values[i] ∈ value :: seen ∨ values[i] ∈ values.take i
    rw [List.mem_cons, List.mem_cons, or_left_comm, or_assoc]
  rw [repeatedBehind, hpositions, ← hrest]
  by_cases hseen : value ∈ seen
  · rw [if_pos hseen, List.filter_cons_of_pos (by simpa using hseen)]
    rfl
  · rw [if_neg hseen, List.filter_cons_of_neg (by simpa using hseen)]
    rfl

/-- The values that are reported are those at repeated positions. -/
theorem repeatedValues_matchTraces (e : Enum) (seen values : List String)
    (traces : List Trace) :
    repeatedValues e seen (Enum.matchTraces values traces) =
      (repeatedBehind seen values).map fun i : Fin values.length =>
        (ValidationError.duplicateValue values[i] e.name).report
          (traces[i.val]?.getD e.trace) := by
  induction values generalizing seen traces with
  | nil => rfl
  | cons value values ih =>
    have htrace (i : Fin values.length) : traces[i.succ.val]? = traces.tail[i.val]? := by
      cases traces <;> rfl
    rw [matchTraces_cons, repeatedValues, repeatedBehind_cons, List.map_append, List.map_map]
    by_cases hseen : value ∈ seen
    · have hsame (x : String) : x ∈ seen ↔ x ∈ value :: seen :=
        ⟨List.mem_cons_of_mem _, fun hx => (List.mem_cons.mp hx).elim (fun heq => heq ▸ hseen) id⟩
      rw [if_pos hseen, if_pos hseen, ih, repeatedBehind_congr values hsame]
      simp only [Function.comp_def, htrace]
      rfl
    · rw [if_neg hseen, if_neg hseen, ih]
      simp only [Function.comp_def, htrace]
      rfl

/-- There is one report for each position at which a value occurs again, in order. -/
theorem validateEnum_eq (e : Enum) : validateEnum e = e.repeatedAt.map e.repetition := by
  rw [validateEnum, Enum.tracedValues, repeatedValues_matchTraces, repeatedBehind]
  simp only [List.not_mem_nil, false_or]
  rfl

/-! ## Strict validation -/

/-- Strict validation of a schema that sources amount to has nothing to report exactly when
the rules are kept. Its reports on repeated values are one for each position at which a value
of an enum occurs again, enum by enum and in order. -/
theorem validate_strict_exact (scope : Scope) (suggestions : Bool) (h : s.Assembled) :
    ((Validator.mk scope .strict suggestions).validate s = [] ↔
      s.redeclared = [] ∧
      (s.models.keys.Disjoint s.enums.keys ∧ s.models.keys.Disjoint s.typedefs.keys ∧
        s.enums.keys.Disjoint s.typedefs.keys) ∧
      (∀ e ∈ s.enums.values, e.values.Nodup) ∧
      (∀ t ∈ s.typedefs.values, ∀ name ∈ t.type.names,
        isBaseType name = true ∨ name ∈ scope.names) ∧
      ∀ m ∈ s.models.values, ∀ f ∈ m.fields.values,
        (∀ name ∈ f.type.names, isBaseType name = true ∨ name ∈ scope.names) ∧
          f.shapeError? = none) ∧
    (((Validator.mk scope .strict suggestions).validate s).filter
        fun d => d.code = .duplicateEnumValue) =
      s.enums.values.flatMap (fun e => e.repeatedAt.map e.repetition) ∧
    ∀ e, validateEnum e = e.repeatedAt.map e.repetition := by
  refine ⟨?_, ?_, validateEnum_eq⟩
  · have hfields (m : Model) (known : String → Prop) :
        ((∀ f ∈ m.fields.values, f.shapeError? = none) ∧
          ∀ name ∈ m.fields.values.flatMap (fun f => f.type.names), known name) ↔
        ∀ f ∈ m.fields.values, (∀ name ∈ f.type.names, known name) ∧ f.shapeError? = none := by
      simp only [List.mem_flatMap]
      constructor
      · rintro ⟨hshape, hnames⟩ f hf
        exact ⟨fun name hname => hnames name ⟨f, hf, hname⟩, hshape f hf⟩
      · refine fun h => ⟨fun f hf => (h f hf).2, ?_⟩
        rintro name ⟨f, hf, hname⟩
        exact (h f hf).1 name hname
    rw [validate_strict_eq_nil_iff h.keyed, Schema.apart_iff_disjoint]
    simp only [Schema.declarations, List.forall_mem_append, List.forall_mem_map,
      Declaration.WellFormed, Declaration.typeNames, Scope.resolves, Bool.or_eq_true,
      List.contains_iff_mem, List.not_mem_nil, false_imp_iff, implies_true, and_true, true_and,
      hfields, and_assoc]
  · rw [filter_validate _ _ fun code => decide (code = .duplicateEnumValue)]
    simp [validateEnum_eq]

/-- An enum that repeats its first value. -/
def repeatingEnum : Schema :=
  ⟨.empty, .ofList [("E", ⟨"E", ["A", "B", "A"],
    [⟨1, 10, none⟩, ⟨1, 13, none⟩, ⟨1, 16, none⟩], ⟨1, 1, none⟩⟩)], .empty, []⟩

/-- A typedef of that enum. -/
def enumAlias : Schema :=
  ⟨.empty, .empty, .ofList [("T", ⟨"T", .named "E", ⟨1, 1, none⟩⟩)], []⟩

/-- Of two merged texts the first one repeats a value. -/
theorem validate_strict_exact_merged :
    (repeatingEnum.merge enumAlias).Assembled ∧
      (Validator.mk ⟨["E"]⟩ .strict true).validate (repeatingEnum.merge enumAlias) ≠ [] ∧
      (((Validator.mk ⟨["E"]⟩ .strict true).validate (repeatingEnum.merge enumAlias)).filter
        fun d => d.code = .duplicateEnumValue) =
          [⟨.duplicateEnumValue, "Duplicate value `A` in enum `E`", 1, 16, none⟩] := by
  have henum : Schema.ofText none none "enum E \x7b A, B, A \x7d" = .ok repeatingEnum := by
    cbv
  have halias : Schema.ofText none none "typedef T E" = .ok enumAlias := by
    cbv
  have hassembled : (repeatingEnum.merge enumAlias).Assembled := .merge (.text henum) (.text halias)
  obtain ⟨haccepts, hreports, -⟩ :=
    validate_strict_exact ⟨["E"]⟩ true hassembled
  refine ⟨hassembled, fun hnone => ?_, hreports.trans (by rfl)⟩
  obtain ⟨-, -, hdistinct, -⟩ := haccepts.mp hnone
  exact absurd hdistinct (by decide)

end Validator

end SchemaLang
