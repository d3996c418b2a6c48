import SchemaLang.Proofs.Outline.Relocation
import SchemaLang.Proofs.Registry.Shadowing

/-!
# Shapes of built fields

The rules for the shape of a field are about its type as it is written. They hold of what the
field is built to unless it is declared through an alias (`build_shapes`): the type of a typedef,
which takes the place of the alias, is under no such rule, and each of the rules can be broken in
this way (`exists_shapeError_through_alias`).
-/

namespace SchemaLang

/-- The rules for a type of a field that has such a default: a string has options, an array no
default, a custom type options and no parameter, a reference a parameter and no options. -/
structure FieldType.WellShaped (t : FieldType) (default : Option Value) : Prop where
  string : t.name = "string" → t.options ≠ none
  array : t.name = "array" → default = none
  custom : t.name = "custom" → t.options ≠ none ∧ t.parameter? = none
  ref : t.name = "ref" → t.parameter? ≠ none ∧ t.options = none

theorem Field.shapeError?_eq_none_iff {f : Field} :
    f.shapeError? = none ↔ f.type.WellShaped f.default := by
  constructor
  · intro h
    unfold Field.shapeError? at h
    constructor
    case string =>
      intro hname
      simpa [hname] using h
    case array =>
      intro hname
      simpa [hname] using h
    case custom =>
      intro hname
      cases hparameter : f.type.parameter? <;> cases hoptions : f.type.options <;>
        simp [hname, hparameter, hoptions] at h ⊢
    case ref =>
      intro hname
      cases hparameter : f.type.parameter? <;> cases hoptions : f.type.options <;>
        simp [hname, hparameter, hoptions] at h ⊢
  · rintro ⟨hstring, harray, hcustom, href⟩
    unfold Field.shapeError?
    split
    · next hname => rw [if_neg (hstring hname)]
    · split
      · next hname => simp [harray hname]
      · split
        · next hname => simp [hcustom hname]
        · split
          · next hname => simp [href hname]
          · rfl

namespace Registry

variable {r : Registry}

/-- A bare name of a typedef and the type that the typedef gives it. -/
def Targets (r : Registry) (t u : FieldType) : Prop :=
  ∃ d, r.alias? t = some d ∧ d.type = u

/-- A type that another one resolves to is what a chain of aliases gives. -/
theorem reflTransGen_targets_of_resolveFrom {field : String} {seen : List String}
    {t u : FieldType} (h : r.resolveFrom field seen t = .type u) :
    Relation.ReflTransGen r.Targets t u := by
  fun_induction r.resolveFrom field seen t with
  | case1 seen t halias =>
    obtain ⟨rfl, -⟩ := classify_eq_type_iff.mp h
    exact .refl
  | case2 seen t d halias hfollowed =>
    cases h
    exact .refl
  | case3 seen t d halias hfresh ih => exact .head ⟨d, halias, rfl⟩ (ih h)

/-- An alias is not what it resolves to, but what its typedef or a later one gives. -/
theorem transGen_targets_of_resolve {field : String} {t u : FieldType} {d : TypeDef}
    (halias : r.alias? t = some d) (h : r.resolve field t = .type u) :
    Relation.TransGen r.Targets t u := by
  have hfollow : r.resolve field t = r.resolveFrom field [t.name] d.type := by
    rw [resolve, resolveFrom, halias]
    exact dif_neg List.not_mem_nil
  rw [hfollow] at h
  exact .head' ⟨d, halias, rfl⟩ (reflTransGen_targets_of_resolveFrom h)

/-- The shape of a field and of what it is built to, when that is a type. -/
structure KeepsShape (r : Registry) (f : Field) (built : BuiltField) : Prop where
  declared : f.type.WellShaped f.default
  direct : r.alias? f.type = none →
    ∀ t, built.type = .type t → t = f.type ∧ t.WellShaped built.default
  aliased : ∀ d, r.alias? f.type = some d →
    ∀ t, built.type = .type t → Relation.TransGen r.Targets f.type t

theorem Closed.keepsShape (h : r.Closed) {m : Model} (hm : m ∈ r.models) {f : Field}
    (hf : f ∈ m.fields.values) (key : String) : r.KeepsShape f (f.build key r) := by
  have hdeclared : f.type.WellShaped f.default :=
    Field.shapeError?_eq_none_iff.mp (h.shapes m hm f hf)
  constructor
  case declared => exact hdeclared
  case direct =>
    intro hnone t ht
    have hself : r.resolve key f.type = r.classify key f.type := by
      rw [resolve, resolveFrom, hnone]
    obtain ⟨rfl, -⟩ := classify_eq_type_iff.mp (hself.symm.trans ht)
    exact ⟨rfl, hdeclared⟩
  case aliased => exact fun d hd t ht => transGen_targets_of_resolve hd ht

/-- The fields of a registered model keep the rules for their shapes. So does what a field is
built to, when its type is no alias and comes out as a type. An alias comes out as the type that
a typedef at the end of a chain of aliases gives, whatever shape that has. -/
theorem build_shapes (h : r.Reachable) {name : String} {m : Model}
    (hm : r.model? name = some m) :
    ∃ built, m.build r = .ok built ∧
      List.Forall₂ r.KeepsShape m.fields.values built.fields.values := by
  have hclosed : r.Closed := h.settled.closed
  have hregistered : m ∈ r.models := mem_declared.mpr ⟨name, hm⟩
  refine ⟨_, build_eq_ok (hclosed.bound m hregistered), ?_⟩
  have hfields : ∀ entry ∈ m.fields.entries, r.KeepsShape entry.2 (entry.2.build entry.1 r) :=
    fun entry hentry => hclosed.keepsShape hregistered (List.mem_map_of_mem hentry) entry.1
  simpa [OrderedMap.values, OrderedMap.mapValues, List.forall₂_map_left_iff,
    List.forall₂_map_right_iff, List.forall₂_same] using hfields

/-- Typedefs of types that break a rule, one for each rule, and a model with a field of each and
one more. The typedef of an array breaks its rule together with the default of the field. -/
def aliasText : String :=
  "typedef S string typedef A array typedef C custom
typedef P custom<S>(k) typedef R ref typedef O ref<M>(k)
model M \x7b S s; A a = \"v\"; C c; P p; R r; O o; ref<M> m; \x7d"

/-- The tokens of the text. -/
def aliasTokens : List Token :=
  [⟨.keyword (.declare .typeDef), "typedef", 1, 1⟩, ⟨.identifier, "S", 1, 9⟩,
    ⟨.identifier, "string", 1, 11⟩, ⟨.keyword (.declare .typeDef), "typedef", 1, 18⟩,
    ⟨.identifier, "A", 1, 26⟩, ⟨.identifier, "array", 1, 28⟩,
    ⟨.keyword (.declare .typeDef), "typedef", 1, 34⟩, ⟨.identifier, "C", 1, 42⟩,
    ⟨.identifier, "custom", 1, 44⟩, ⟨.keyword (.declare .typeDef), "typedef", 2, 1⟩,
    ⟨.identifier, "P", 2, 9⟩, ⟨.identifier, "custom", 2, 11⟩, ⟨.symbol .lessThan, "<", 2, 17⟩,
    ⟨.identifier, "S", 2, 18⟩, ⟨.symbol .greaterThan, ">", 2, 19⟩,
    ⟨.symbol .parenOpen, "(", 2, 20⟩, ⟨.identifier, "k", 2, 21⟩,
    ⟨.symbol .parenClose, ")", 2, 22⟩, ⟨.keyword (.declare .typeDef), "typedef", 2, 24⟩,
    ⟨.identifier, "R", 2, 32⟩, ⟨.identifier, "ref", 2, 34⟩,
    ⟨.keyword (.declare .typeDef), "typedef", 2, 38⟩, ⟨.identifier, "O", 2, 46⟩,
    ⟨.identifier, "ref", 2, 48⟩, ⟨.symbol .lessThan, "<", 2, 51⟩, ⟨.identifier, "M", 2, 52⟩,
    ⟨.symbol .greaterThan, ">", 2, 53⟩, ⟨.symbol .parenOpen, "(", 2, 54⟩,
    ⟨.identifier, "k", 2, 55⟩, ⟨.symbol .parenClose, ")", 2, 56⟩,
    ⟨.keyword (.declare .model), "model", 3, 1⟩, ⟨.identifier, "M", 3, 7⟩,
    ⟨.symbol .braceOpen, "\x7b", 3, 9⟩, ⟨.identifier, "S", 3, 11⟩, ⟨.identifier, "s", 3, 13⟩,
    ⟨.symbol .semicolon, ";", 3, 14⟩, ⟨.identifier, "A", 3, 16⟩, ⟨.identifier, "a", 3, 18⟩,
    ⟨.symbol .equals, "=", 3, 20⟩, ⟨.string, "v", 3, 22⟩, ⟨.symbol .semicolon, ";", 3, 25⟩,
    ⟨.identifier, "C", 3, 27⟩, ⟨.identifier, "c", 3, 29⟩, ⟨.symbol .semicolon, ";", 3, 30⟩,
    ⟨.identifier, "P", 3, 32⟩, ⟨.identifier, "p", 3, 34⟩, ⟨.symbol .semicolon, ";", 3, 35⟩,
    ⟨.identifier, "R", 3, 37⟩, ⟨.identifier, "r", 3, 39⟩, ⟨.symbol .semicolon, ";", 3, 40⟩,
    ⟨.identifier, "O", 3, 42⟩, ⟨.identifier, "o", 3, 44⟩, ⟨.symbol .semicolon, ";", 3, 45⟩,
    ⟨.identifier, "ref", 3, 47⟩, ⟨.symbol .lessThan, "<", 3, 50⟩, ⟨.identifier, "M", 3, 51⟩,
    ⟨.symbol .greaterThan, ">", 3, 52⟩, ⟨.identifier, "m", 3, 54⟩,
    ⟨.symbol .semicolon, ";", 3, 55⟩, ⟨.symbol .braceClose, "\x7d", 3, 57⟩,
    ⟨.endOfInput, "", 3, 58⟩]

/-- The typedefs of the text. -/
def aliasTypeDefs : List TypeDef :=
  [⟨"S", .named "string", ⟨1, 1, none⟩⟩, ⟨"A", .named "array", ⟨1, 18, none⟩⟩,
    ⟨"C", .named "custom", ⟨1, 34, none⟩⟩,
    ⟨"P", .parametric "custom" (.named "S") (some (.text "k")), ⟨2, 1, none⟩⟩,
    ⟨"R", .named "ref", ⟨2, 24, none⟩⟩,
    ⟨"O", .parametric "ref" (.named "M") (some (.text "k")), ⟨2, 38, none⟩⟩]

/-- The model of the text. -/
def aliasModel : Model :=
  ⟨"M", none, .ofList
    [("s", ⟨"s", .named "S", .privateField, none, ⟨3, 11, none⟩⟩),
      ("a", ⟨"a", .named "A", .privateField, some (.text "v"), ⟨3, 16, none⟩⟩),
      ("c", ⟨"c", .named "C", .privateField, none, ⟨3, 27, none⟩⟩),
      ("p", ⟨"p", .named "P", .privateField, none, ⟨3, 32, none⟩⟩),
      ("r", ⟨"r", .named "R", .privateField, none, ⟨3, 37, none⟩⟩),
      ("o", ⟨"o", .named "O", .privateField, none, ⟨3, 42, none⟩⟩),
      ("m", ⟨"m", .parametric "ref" (.named "M") none, .privateField, none, ⟨3, 47, none⟩⟩)],
    ⟨3, 1, none⟩, none⟩

/-- The schema of the text. -/
def aliasSchema : Schema where
  models := .ofList [("M", aliasModel)]
  enums := .empty
  typedefs := .ofList (aliasTypeDefs.map fun t => (t.name, t))
  redeclared := []

theorem ofText_aliasText : Schema.ofText (some .none) none aliasText = .ok aliasSchema := by
  have hscan : Scan.ofText aliasText none = ⟨aliasTokens, []⟩ := by
    cbv
  have htokens : (TokenStream.ofTokens aliasTokens).tokens =
      aliasTokens.take 30 ++ (aliasTokens.drop 30).dropLast := by
    cbv
  have htypedefs : Grammar.items none (aliasTokens.take 30) =
      (aliasTypeDefs.map fun t => .declaration (.typeDef t), none) := by
    cbv
  have hmodel : Grammar.item none (aliasTokens.drop 30).dropLast =
      .ok (.declaration (.model aliasModel), []) := by
    cbv
  obtain ⟨phrase, hphrase, hitem⟩ := Grammar.item_sound hmodel
  rw [List.append_nil] at hphrase
  have hunit : Grammar.UnitPhrase none (TokenStream.ofTokens aliasTokens).tokens
      (aliasTypeDefs.map (fun t => .declaration (.typeDef t)) ++
        [.declaration (.model aliasModel)]) := by
    have hlast := Grammar.Sequence.cons hitem .nil
    rw [htokens, hphrase]
    rw [List.append_nil] at hlast
    exact (Grammar.items_eq_iff.mp htypedefs).append hlast
  have houtline : Outline.ofText none aliasText = ⟨_, []⟩ :=
    Outline.ofText_eq_iff.mpr ⟨by rw [hscan]; rfl, by rw [hscan]; exact hunit⟩
  rw [Schema.ofText, houtline]
  cbv

/-- A registry that has taken it in. -/
def withAliases : Registry :=
  ((Call.load aliasText).apply (.new ⟨0⟩ .standard .none)).1

theorem withAliases_eq : withAliases =
    { (Registry.new ⟨0⟩ .standard .none).nextBatch.take .strict aliasSchema with
      errors := [] } := by
  have hcheck : (Registry.new ⟨0⟩ .standard .none).nextBatch.check .strict aliasSchema = [] := by
    cbv
  have hload : (Registry.new ⟨0⟩ .standard .none).loadSource ⟨aliasText, none⟩ = (_, .ok ()) :=
    loadSource_eq_ok_iff.mpr ⟨aliasSchema, ofText_aliasText, hcheck, rfl⟩
  exact congrArg Prod.fst hload

/-- What the fields of the model are built to, with their defaults: the targets of the aliases,
and the type that is declared without one. -/
theorem exists_build_withAliases :
    ∃ m built, withAliases.model? "M" = some m ∧ m.build withAliases = .ok built ∧
      built.fields.values.map (fun b => (b.type, b.default)) =
        [(.type (.named "string"), none), (.type (.named "array"), some (.text "v")),
          (.type (.named "custom"), none),
          (.type (.parametric "custom" (.named "S") (some (.text "k"))), none),
          (.type (.named "ref"), none),
          (.type (.parametric "ref" (.named "M") (some (.text "k"))), none),
          (.type (.parametric "ref" (.named "M") none), none)] := by
  rw [withAliases_eq]
  refine ⟨_, _, rfl, rfl, ?_⟩
  cbv

/-- Fields with an alias for a type and a field without one. -/
theorem build_shapes_withAliases :
    withAliases.Reachable ∧ ∃ m built, withAliases.model? "M" = some m ∧
      m.build withAliases = .ok built ∧
      List.Forall₂ withAliases.KeepsShape m.fields.values built.fields.values := by
  have hreachable : withAliases.Reachable := .call (.new _ _ _) _
  obtain ⟨m, -, hm, -⟩ := exists_build_withAliases
  obtain ⟨built, hbuilt, hfields⟩ := build_shapes hreachable hm
  exact ⟨hreachable, m, built, hm, hbuilt, hfields⟩

/-- Through an alias a registered model can break each of the rules. -/
theorem exists_shapeError_through_alias (error : ShapeError) :
    ∃ (r : Registry) (name : String) (m : Model) (built : BuiltModel), r.Reachable ∧
      r.model? name = some m ∧ m.build r = .ok built ∧
      ∃ b ∈ built.fields.values, ∃ t, b.type = .type t ∧
        (Field.mk b.name t b.visibility b.default b.trace).shapeError? = some error := by
  obtain ⟨m, built, hm, hbuilt, hfields⟩ := exists_build_withAliases
  refine ⟨withAliases, "M", m, built, .call (.new _ _ _) _, hm, hbuilt, ?_⟩
  have hbroken (t : FieldType) (default : Option Value)
      (hmem : (.type t, default) ∈ built.fields.values.map (fun b => (b.type, b.default)))
      (herror : (Field.mk "" t .privateField default ⟨1, 1, none⟩).shapeError? = some error) :
      ∃ b ∈ built.fields.values, ∃ t, b.type = .type t ∧
        (Field.mk b.name t b.visibility b.default b.trace).shapeError? = some error := by
    obtain ⟨b, hb, heq⟩ := List.mem_map.mp hmem
    obtain ⟨htype, rfl⟩ := Prod.mk.inj heq
    exact ⟨b, hb, t, htype, herror⟩
  rw [hfields] at hbroken
  cases error with
  | stringWithoutLength => exact hbroken (.named "string") none (by simp) rfl
  | arrayWithDefault => exact hbroken (.named "array") (some (.text "v")) (by simp) rfl
  | customWithoutType => exact hbroken (.named "custom") none (by simp) rfl
  | customWithParameter =>
    exact hbroken (.parametric "custom" (.named "S") (some (.text "k"))) none (by simp) rfl
  | refWithoutModel => exact hbroken (.named "ref") none (by simp) rfl
  | refWithOptions =>
    exact hbroken (.parametric "ref" (.named "M") (some (.text "k"))) none (by simp) rfl

/-- Not every type that a field is built to keeps the rules for a declared one. -/
theorem not_forall_build_shape :
    ¬∀ (r : Registry) (name : String) (m : Model) (built : BuiltModel), r.Reachable →
      r.model? name = some m → m.build r = .ok built →
        ∀ b ∈ built.fields.values, ∀ t, b.type = .type t → t.WellShaped b.default := by
  intro hall
  obtain ⟨r, name, m, built, hreachable, hm, hbuilt, b, hb, t, htype, herror⟩ :=
    exists_shapeError_through_alias .stringWithoutLength
  have hshaped := hall r name m built hreachable hm hbuilt b hb t htype
  have hnone : (Field.mk b.name t b.visibility b.default b.trace).shapeError? = none :=
    Field.shapeError?_eq_none_iff.mpr hshaped
  cases herror.symm.trans hnone

end Registry

end SchemaLang
