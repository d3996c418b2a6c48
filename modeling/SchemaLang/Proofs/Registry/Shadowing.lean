import SchemaLang.Proofs.Registry.Stability

/-!
# Names of base types that are taken

Nothing reserves the names of base types. Validation looks at the base types first and takes
such a name for one of them, whatever else is registered under it; building looks at the
registry first. A field is therefore built to its declared type only if nothing gets in the
way (`build_base_iff_unshadowed`): a model or an enum of the name always does, a typedef unless
the type is more than a name or the aliases come round to the name again.
-/

namespace SchemaLang

namespace Registry

variable {r : Registry}

/-! ## Aliases that come round -/

theorem Aliases.unique {name target target' : String} (h : r.Aliases name target)
    (h' : r.Aliases name target') : target = target' := by
  obtain ⟨d, hd, htype⟩ := h
  obtain ⟨d', hd', htype'⟩ := h'
  obtain rfl : d = d' := Option.some.inj (hd.symm.trans hd')
  simpa [FieldType.named] using htype.symm.trans htype'

/-- An alias for another name than a given one. -/
def AliasesPast (r : Registry) (goal name target : String) : Prop :=
  r.Aliases name target ∧ target ≠ goal

/-- Aliases that lead to a name do not go in circles past it, since each name has one alias. -/
theorem not_circles_past {goal name : String} (h : Relation.TransGen r.Aliases name goal) :
    ¬Relation.TransGen (r.AliasesPast goal) name name := by
  induction h using Relation.TransGen.head_induction_on with
  | single hlast =>
    intro hcircle
    obtain ⟨target, ⟨hstep, hpast⟩, -⟩ := Relation.TransGen.head'_iff.mp hcircle
    exact hpast (hstep.unique hlast)
  | head hfirst _ ih =>
    intro hcircle
    obtain ⟨target, hstep, hback⟩ := Relation.TransGen.head'_iff.mp hcircle
    obtain rfl := hstep.1.unique hfirst
    exact ih (Relation.TransGen.tail' hback hstep)

/-- A bare type whose name leads to another one is an alias, and leads there by its target. -/
theorem alias?_of_reaches {t : FieldType} {goal : String} (hbare : t.isBare = true)
    (h : Relation.TransGen r.Aliases t.name goal) :
    ∃ d, r.alias? t = some d ∧ d.type.isBare = true ∧ r.Aliases t.name d.type.name ∧
      Relation.ReflTransGen r.Aliases d.type.name goal := by
  obtain ⟨target, hstep, hback⟩ := Relation.TransGen.head'_iff.mp h
  obtain ⟨d, hd, htype⟩ := hstep
  have hname : d.type.name = target := by rw [htype]; rfl
  refine ⟨d, alias?_eq_some_iff.mpr ⟨hbare, hd⟩, by rw [htype]; rfl, ?_, by rwa [hname]⟩
  exact ⟨d, hd, by rw [hname, htype]⟩

/-- Followed on its circle, a name is the first that comes up a second time. -/
theorem resolveFrom_of_circle {goal : String} (hcircle : Relation.TransGen r.Aliases goal goal)
    (field : String) (seen : List String) (t : FieldType) (hbare : t.isBare = true)
    (hreach : Relation.TransGen r.Aliases t.name goal) (hgoal : goal ∈ seen)
    (hseen : t.name ≠ goal → ∀ name ∈ seen, name ≠ goal →
      Relation.TransGen (r.AliasesPast goal) name t.name) :
    r.resolveFrom field seen t = .type (.named goal) := by
  fun_induction r.resolveFrom field seen t with
  | case1 seen t hnone =>
    obtain ⟨d, halias, -⟩ := alias?_of_reaches hbare hreach
    cases hnone.symm.trans halias
  | case2 seen t d halias hfollowed =>
    by_cases hname : t.name = goal
    · rw [t.isBare_iff.mp hbare, hname]
    · -- the name has been followed before, so there is a circle that leaves out the goal
      exact absurd (hseen hname t.name hfollowed hname) (not_circles_past hreach)
  | case3 seen t d halias hfresh ih =>
    obtain ⟨d', halias', hbare', hstep, hback⟩ := alias?_of_reaches hbare hreach
    obtain rfl : d = d' := Option.some.inj (halias.symm.trans halias')
    have hname : t.name ≠ goal := fun heq => hfresh (heq ▸ hgoal)
    refine ih hbare' (Relation.TransGen.trans_right hback hcircle)
      (List.mem_cons_of_mem _ hgoal) ?_
    intro hpast name hmem hother
    have hone : r.AliasesPast goal t.name d.type.name := ⟨hstep, hpast⟩
    rcases List.mem_cons.mp hmem with rfl | hmem
    · exact .single hone
    · exact (hseen hname name hmem hother).tail hone

/-! ## Types that resolve to themselves -/

theorem classify_eq_type_iff {field : String} {t u : FieldType} :
    r.classify field t = .type u ↔
      t = u ∧ r.has .model t.name = false ∧ r.has .enum t.name = false := by
  rw [has_enum, has, classify]
  cases r.tables.models.contains t.name <;> cases r.enum? t.name <;> simp

/-- A type that another one resolves to is no alias, or one that comes round to itself. -/
theorem resolveFrom_eq_type {field : String} {seen : List String} {t u : FieldType}
    (h : r.resolveFrom field seen t = .type u) (hseen : r.LeadTo seen t) :
    (r.alias? u = none ∧ r.classify field u = .type u) ∨
      Relation.TransGen r.Aliases u.name u.name := by
  fun_induction r.resolveFrom field seen t with
  | case1 seen t halias =>
    obtain ⟨rfl, -⟩ := classify_eq_type_iff.mp h
    exact Or.inl ⟨halias, h⟩
  | case2 seen t d halias hfollowed =>
    obtain rfl : t = u := ResolvedType.type.inj h
    exact Or.inr (hseen.cycle halias hfollowed)
  | case3 seen t d halias hfresh ih => exact ih h (hseen.follow halias)

/-- Nothing that is registered under the name of a type gets in its way: there is a typedef at
most, and if the type is only a name, the aliases that begin with it come round to it. -/
def Unshadowed (r : Registry) (t : FieldType) : Prop :=
  ∀ kind, r.has kind t.name = true →
    kind = .typeDef ∧ (t.isBare = true → Relation.TransGen r.Aliases t.name t.name)

theorem Separated.resolve_eq_self_iff (h : r.Separated) (field : String) (t : FieldType) :
    r.resolve field t = .type t ↔ r.Unshadowed t := by
  constructor
  · intro hself kind hkind
    rcases resolveFrom_eq_type hself (leadTo_nil t) with ⟨halias, hclassify⟩ | hcircle
    · obtain ⟨-, hmodel, henum⟩ := classify_eq_type_iff.mp hclassify
      cases kind with
      | model => cases hmodel.symm.trans hkind
      | enum => cases henum.symm.trans hkind
      | typeDef =>
        refine ⟨rfl, fun hbare => ?_⟩
        obtain ⟨d, hd⟩ := contains_iff_declared.mp hkind
        exact absurd ⟨hbare, hd⟩ (alias?_eq_none_iff.mp halias d)
    · obtain ⟨target, ⟨d, hd, -⟩, -⟩ := Relation.TransGen.head'_iff.mp hcircle
      have htypeDef : r.has .typeDef t.name = true := by
        rw [has_typeDef, hd]
        rfl
      exact ⟨h.oneKind t.name kind .typeDef hkind htypeDef, fun _ => hcircle⟩
  · intro hfree
    unfold resolve
    cases halias : r.alias? t with
    | none =>
      have hother {kind : DeclarationKind} (hkind : kind ≠ .typeDef) :
          r.has kind t.name = false := by
        by_contra hhas
        exact hkind (hfree kind (by simpa using hhas)).1
      rw [resolveFrom, halias]
      exact classify_eq_type_iff.mpr ⟨rfl, hother (by decide), hother (by decide)⟩
    | some d =>
      have hbare : t.isBare = true := (alias?_eq_some_iff.mp halias).bare
      have hcircle := (hfree .typeDef (has_typeDef_of_alias? halias)).2 hbare
      obtain ⟨d', halias', hbare', -, hback⟩ := alias?_of_reaches hbare hcircle
      obtain rfl : d = d' := Option.some.inj (halias.symm.trans halias')
      have hfollow : r.resolveFrom field [] t = r.resolveFrom field [t.name] d.type := by
        rw [resolveFrom, halias]
        exact dif_neg (List.not_mem_nil)
      rw [hfollow, resolveFrom_of_circle hcircle field [t.name] d.type hbare'
        (Relation.TransGen.trans_right hback hcircle) (List.mem_singleton_self _)
        (fun _ name hname hother => absurd (List.mem_singleton.mp hname) hother),
        ← t.isBare_iff.mp hbare]

/-! ## Fields of base types -/

/-- Every scope resolves the name of a base type. A field of a registered model that has such a
type is built to exactly that type when nothing of the name gets in the way, and only then. -/
theorem build_base_iff_unshadowed (h : r.Reachable) {name key : String} {m : Model} {f : Field}
    (hm : r.model? name = some m) (hf : m.fields.find? key = some f)
    (hbase : isBaseType f.type.name = true) :
    (∀ scope : Scope, scope.resolves f.type.name = true) ∧
    ∃ built b, m.build r = .ok built ∧ built.fields.find? key = some b ∧
      (b.type = .type f.type ↔ r.Unshadowed f.type) := by
  have hregistered : m ∈ r.models := mem_declared.mpr ⟨name, hm⟩
  refine ⟨fun scope => by simp [Scope.resolves, hbase], _, f.build key r,
    build_eq_ok (h.settled.closed.bound m hregistered), ?_, ?_⟩
  · rw [OrderedMap.find?_mapValues, hf]
    rfl
  · exact h.settled.separated.resolve_eq_self_iff key f.type

/-- A field of a base type under whose name nothing is registered. -/
theorem build_base_iff_unshadowed_integer :
    withIntegerModel.Reachable ∧ ∃ m f, withIntegerModel.model? "M" = some m ∧
      m.fields.find? "x" = some f ∧ f.type = .named "integer" ∧
      withIntegerModel.Unshadowed f.type ∧ ∃ built b, m.build withIntegerModel = .ok built ∧
        built.fields.find? "x" = some b ∧ b.type = .type (.named "integer") := by
  have hreachable : withIntegerModel.Reachable := .call (.new _ _ _) _
  have hfree : ∀ kind, withIntegerModel.has kind "integer" = false := by
    rw [withIntegerModel_eq]
    intro kind
    cases kind <;> cbv
  have hunshadowed : withIntegerModel.Unshadowed integerField.type := by
    intro kind hkind
    cases (hfree kind).symm.trans hkind
  obtain ⟨-, built, b, hbuilt, hb, hiff⟩ := build_base_iff_unshadowed hreachable
    withIntegerModel_model? registeredIntegerModel_find? (by decide)
  exact ⟨hreachable, _, _, withIntegerModel_model?, registeredIntegerModel_find?, rfl,
    hunshadowed, built, b, hbuilt, hb, hiff.mpr hunshadowed⟩

/-- A field of a base type is not always built to it: an enum can have taken the name. -/
theorem not_forall_build_base :
    ¬∀ (r : Registry) (name key : String) (m : Model) (f : Field), r.Reachable →
      r.model? name = some m → m.fields.find? key = some f → isBaseType f.type.name = true →
        ∃ built b, m.build r = .ok built ∧ built.fields.find? key = some b ∧
          b.type = .type f.type := by
  intro hall
  have hreachable : withIntegerModel.Reachable := .call (.new _ _ _) _
  have hlater : withIntegerModel.Later withIntegerEnum := .call .now _
  have hbuilds : (registeredIntegerModel.build withIntegerEnum).toOption.bind (fun built =>
      (built.fields.find? "x").map BuiltField.type) = some (.enumeration "integer" ["A"]) := by
    rw [withIntegerEnum, withIntegerModel_eq]
    cbv
  have hm : withIntegerEnum.model? "M" = some registeredIntegerModel := by
    have hmodel : withIntegerModel.has .model "M" = true := by
      rw [has_model, withIntegerModel_model?]
      rfl
    rw [(hreachable.agree_of_has hlater hmodel).model?, withIntegerModel_model?]
  obtain ⟨built, b, hbuilt, hb, hkept⟩ := hall withIntegerEnum "M" "x" _ _ (.call hreachable _) hm
    registeredIntegerModel_find? (by decide)
  rw [hbuilt, show (Except.ok built).toOption = some built from rfl, Option.bind_some, hb,
    Option.map_some, hkept] at hbuilds
  cases hbuilds

end Registry

end SchemaLang
