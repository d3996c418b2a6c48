import SchemaLang.Proofs.Registry.Batch
import SchemaLang.Proofs.Registry.Consistency

/-!
# Built models

The types of a built model name nothing that the registry does not know
(`build_grounded`). A type is resolved by following aliases, which may lead into declarations
of other sources and other batches; all of them use known names only, and the one way to end
at an alias is to have come round to it.
-/

namespace SchemaLang

theorem Declaration.FieldsNamed.bind {d : Declaration} (h : d.FieldsNamed) (id : RegistryId) :
    (d.bind id).FieldsNamed := by
  cases d <;> exact h

namespace Registry

variable {r : Registry}

/-! ## Declarations that were read -/

/-- What can be said of every declaration that a text lists, and is not lost when a registry
takes the declaration in, holds of all that is registered. -/
theorem Reachable.forall_declarations {P : Declaration → Prop} (h : r.Reachable)
    (hlisted : ∀ path text d, .declaration d ∈ (Outline.ofText path text).items → P d)
    (hbind : ∀ id d, P d → P (d.bind id)) :
    ∀ kind name e, r.tables.lookup? kind name = some e → P e.declaration := by
  induction h with
  | new id config importer =>
    intro kind name e he
    cases kind <;> cases he
  | @call r h c ih =>
    rcases h.settled.apply_cases c with ⟨importer, hc, -⟩ | ⟨units, ⟨sources, hparse⟩, -, hc⟩ |
      ⟨errors, -, hc⟩
    · rw [hc]
      exact ih
    · rw [hc]
      intro kind name e he
      rcases lookup?_accept_cases he with ⟨s, hs, d, hd, rfl⟩ | hold
      · obtain ⟨source, -, hown⟩ := exists_of_forall₂ hparse.flip s hs
        exact hbind r.id d (Source.Parses.forall_declarations hown (hlisted _ _)
          (fun _ _ answer _ => hlisted (some answer.path) answer.text) kind name d hd)
      · exact ih kind name e hold
    · rw [hc]
      exact ih

theorem Reachable.fieldsNamed (h : r.Reachable) {name : String} {m : Model}
    (hm : r.model? name = some m) : ∀ entry ∈ m.fields.entries, entry.1 = entry.2.name := by
  obtain ⟨e, he, hd⟩ := exists_entry (f := .model) hm
  have hfields := h.forall_declarations (fun _ _ _ => Outline.fieldsNamed_of_mem)
    (fun id _ hd => hd.bind id) .model name e he
  rwa [hd] at hfields

/-! ## Aliases -/

/-- A type that is the bare name of a typedef. -/
structure IsAlias (r : Registry) (t : FieldType) (d : TypeDef) : Prop where
  bare : t.isBare = true
  registered : r.typeDef? t.name = some d

theorem alias?_eq_some_iff {t : FieldType} {d : TypeDef} :
    r.alias? t = some d ↔ r.IsAlias t d := by
  unfold alias?
  split
  · next hbare => exact ⟨fun hd => ⟨hbare, hd⟩, IsAlias.registered⟩
  · next hbare => exact ⟨nofun, fun h => absurd h.bare hbare⟩

theorem alias?_eq_none_iff {t : FieldType} : r.alias? t = none ↔ ∀ d, ¬r.IsAlias t d := by
  simp only [Option.eq_none_iff_forall_ne_some, ne_eq, alias?_eq_some_iff]

theorem IsAlias.eq_named {t : FieldType} {d : TypeDef} (h : r.IsAlias t d) : t = .named t.name :=
  t.isBare_iff.mp h.bare

/-! ## What a name means -/

/-- What a type means by its name alone: the model of this name, the enum if there is no model,
and itself if there is neither. -/
inductive Means (r : Registry) (field : String) (t : FieldType) : ResolvedType → Prop where
  | model {m : Model} (registered : r.model? t.name = some m) :
    Means r field t (.reference t.name field)
  | enum {e : Enum} (noModel : r.model? t.name = none) (registered : r.enum? t.name = some e) :
    Means r field t (.enumeration t.name e.values)
  | itself (noModel : r.model? t.name = none) (noEnum : r.enum? t.name = none) :
    Means r field t (.type t)

theorem contains_iff_declared {α : Type} {table : OrderedMap (Entry α)} {name : String} :
    table.contains name = true ↔ ∃ x, (table.find? name).map (·.declaration) = some x := by
  simp only [OrderedMap.contains, Option.isSome_iff_exists, Option.map_eq_some_iff,
    exists_comm (α := α), exists_eq_right']

theorem means_classify (r : Registry) (field : String) (t : FieldType) :
    r.Means field t (r.classify field t) := by
  unfold classify
  split
  · next hmodel =>
    obtain ⟨m, hm⟩ := contains_iff_declared.mp hmodel
    exact .model hm
  · next hmodel =>
    have hnone : r.model? t.name = none := by
      rw [Option.eq_none_iff_forall_ne_some]
      exact fun m hm => hmodel (contains_iff_declared.mpr ⟨m, hm⟩)
    split
    · next e he => exact .enum hnone he
    · next he => exact .itself hnone he

theorem Means.unique {field : String} {t : FieldType} {result other : ResolvedType}
    (h : r.Means field t result) (h' : r.Means field t other) : other = result := by
  cases h with
  | model hm =>
    cases h' with
    | model => rfl
    | enum hnone => cases hnone.symm.trans hm
    | itself hnone => cases hnone.symm.trans hm
  | enum hnone he =>
    cases h' with
    | model hm => cases hnone.symm.trans hm
    | enum _ he' =>
      cases he.symm.trans he'
      rfl
    | itself _ hnone' => cases hnone'.symm.trans he
  | itself hnone hnone' =>
    cases h' with
    | model hm => cases hnone.symm.trans hm
    | enum _ he => cases hnone'.symm.trans he
    | itself => rfl

theorem means_iff {field : String} {t : FieldType} {result : ResolvedType} :
    r.Means field t result ↔ r.classify field t = result :=
  ⟨fun h => h.unique (r.means_classify field t), fun h => h ▸ r.means_classify field t⟩

/-! ## Resolved types -/

/-- A typedef that only gives a name another one. -/
def Aliases (r : Registry) (name target : String) : Prop :=
  ∃ d, r.typeDef? name = some d ∧ d.type = .named target

/-- A resolved type of a field that names nothing unknown: a model, an enum with its values, a
base type, a typedef that is given a parameter or options, or a typedef that is an alias of
itself. -/
inductive Grounded (r : Registry) (field : String) : ResolvedType → Prop where
  | reference {name : String} {m : Model} (registered : r.model? name = some m) :
    Grounded r field (.reference name field)
  | enumeration {name : String} {e : Enum} (registered : r.enum? name = some e) :
    Grounded r field (.enumeration name e.values)
  | base {t : FieldType} (base : isBaseType t.name = true) : Grounded r field (.type t)
  | applied {t : FieldType} {d : TypeDef} (registered : r.typeDef? t.name = some d)
    (used : t.parameter?.isSome = true ∨ t.options.isSome = true) : Grounded r field (.type t)
  | cyclic {t : FieldType} {d : TypeDef} (registered : r.typeDef? t.name = some d)
    (bare : t = .named t.name) (cycle : Relation.TransGen r.Aliases t.name t.name) :
    Grounded r field (.type t)

/-- What a type that is no alias means, when its name is known. -/
theorem grounded_classify {t : FieldType} (halias : r.alias? t = none)
    (hknown : isBaseType t.name = true ∨ ∃ kind, r.has kind t.name = true) (field : String) :
    r.Grounded field (r.classify field t) := by
  have hmeans := r.means_classify field t
  generalize r.classify field t = result at hmeans ⊢
  cases hmeans with
  | model hm => exact .reference hm
  | enum _ he => exact .enumeration he
  | itself hmodel henum =>
    rcases hknown with hbase | ⟨kind, hkind⟩
    · exact .base hbase
    · cases kind with
      | model =>
        obtain ⟨m, hm⟩ := contains_iff_declared.mp hkind
        cases hm.symm.trans hmodel
      | enum =>
        obtain ⟨e, he⟩ := contains_iff_declared.mp hkind
        cases he.symm.trans henum
      | typeDef =>
        obtain ⟨d, hd⟩ := contains_iff_declared.mp hkind
        have hused : t.isBare = false := by
          by_contra hbare
          exact alias?_eq_none_iff.mp halias d ⟨by simpa using hbare, hd⟩
        refine .applied hd ?_
        cases hparameter : t.parameter? with
        | some _ => exact Or.inl rfl
        | none => exact Or.inr (by simpa [FieldType.isBare, hparameter] using hused)

/-- Each of the names that have been followed leads to a type that is only a name. -/
def LeadTo (r : Registry) (seen : List String) (t : FieldType) : Prop :=
  t.isBare = true → ∀ name ∈ seen, Relation.TransGen r.Aliases name t.name

theorem leadTo_nil (t : FieldType) : r.LeadTo [] t := by simp [LeadTo]

theorem LeadTo.follow {seen : List String} {t : FieldType} {d : TypeDef} (h : r.LeadTo seen t)
    (halias : r.alias? t = some d) : r.LeadTo (t.name :: seen) d.type := by
  obtain ⟨hbare, hd⟩ := alias?_eq_some_iff.mp halias
  intro htarget name hname
  have hstep : r.Aliases t.name d.type.name := ⟨d, hd, d.type.isBare_iff.mp htarget⟩
  rcases List.mem_cons.mp hname with rfl | hname
  · exact .single hstep
  · exact (h hbare name hname).tail hstep

/-- A name that has been followed before leads back to itself. -/
theorem LeadTo.cycle {seen : List String} {t : FieldType} {d : TypeDef} (h : r.LeadTo seen t)
    (halias : r.alias? t = some d) (hfollowed : t.name ∈ seen) :
    Relation.TransGen r.Aliases t.name t.name :=
  h (alias?_eq_some_iff.mp halias).bare t.name hfollowed

/-- What a known type means, when each alias that has been followed leads to it. -/
theorem Closed.grounded_resolveFrom (h : r.Closed) (field : String) (seen : List String)
    (t : FieldType) (hknown : isBaseType t.name = true ∨ ∃ kind, r.has kind t.name = true)
    (hseen : r.LeadTo seen t) : r.Grounded field (r.resolveFrom field seen t) := by
  fun_induction r.resolveFrom field seen t with
  | case1 seen t halias => exact grounded_classify halias hknown field
  | case2 seen t d halias hfollowed =>
    have hbare : r.IsAlias t d := alias?_eq_some_iff.mp halias
    exact .cyclic hbare.registered hbare.eq_named (hseen.cycle halias hfollowed)
  | case3 seen t d halias hfresh ih =>
    have hd : d ∈ r.typedefs := mem_declared.mpr ⟨_, (alias?_eq_some_iff.mp halias).registered⟩
    exact ih (h.typedefTypes d hd _ d.type.name_mem_names) (hseen.follow halias)

/-! ## Built models -/

/-- A field and what it is built to: all but the type is kept, and the type names nothing
unknown. -/
structure BuildsTo (r : Registry) (f : Field) (built : BuiltField) : Prop where
  name : built.name = f.name
  visibility : built.visibility = f.visibility
  default : built.default = f.default
  trace : built.trace = f.trace
  type : r.Grounded f.name built.type

/-- Every registered model can be built, field by field in the order of the fields, and what
it is built to names nothing that the registry does not know. -/
theorem build_grounded (h : r.Reachable) {name : String} {m : Model}
    (hm : r.model? name = some m) :
    ∃ built, m.build r = .ok built ∧ built.name = m.name ∧ built.table = m.table ∧
      built.trace = m.trace ∧ built.fields.keys = m.fields.keys ∧
      List.Forall₂ r.BuildsTo m.fields.values built.fields.values := by
  have hclosed : r.Closed := h.settled.closed
  have hregistered : m ∈ r.models := mem_declared.mpr ⟨name, hm⟩
  refine ⟨⟨m.name, m.table, m.trace, m.fields.mapValues fun key f => f.build key r⟩, ?_, rfl, rfl,
    rfl, OrderedMap.keys_mapValues (fun key f => f.build key r) m.fields, ?_⟩
  · simp [Model.build, hclosed.bound m hregistered]
  · have hfields : ∀ entry ∈ m.fields.entries, r.BuildsTo entry.2 (entry.2.build entry.1 r) := by
      intro entry hentry
      have hknown : isBaseType entry.2.type.name = true ∨
          ∃ kind, r.has kind entry.2.type.name = true :=
        hclosed.fieldTypes m hregistered entry.2 (List.mem_map_of_mem hentry) _
          entry.2.type.name_mem_names
      refine ⟨rfl, rfl, rfl, rfl, ?_⟩
      rw [← h.fieldsNamed hm entry hentry]
      exact hclosed.grounded_resolveFrom entry.1 [] entry.2.type hknown (leadTo_nil _)
    simpa [OrderedMap.values, OrderedMap.mapValues, List.forall₂_map_left_iff,
      List.forall₂_map_right_iff, List.forall₂_same] using hfields

/-- A typedef that is an alias of itself, and a model that uses it. -/
def selfAlias : Schema where
  models := .ofList [("M", ⟨"M", none,
    .ofList [("a", ⟨"a", .named "A", .privateField, none, ⟨1, 23, none⟩⟩)], ⟨1, 13, none⟩, none⟩)]
  enums := .empty
  typedefs := .ofList [("A", ⟨"A", .named "A", ⟨1, 1, none⟩⟩)]
  redeclared := []

theorem ofText_selfAlias :
    Schema.ofText (some .none) none "typedef A A model M \x7b A a; \x7d" = .ok selfAlias := by
  have htokens : (TokenStream.ofTokens
      (Scan.ofText "typedef A A model M \x7b A a; \x7d" none).tokens).tokens =
        [⟨.keyword (.declare .typeDef), "typedef", 1, 1⟩, ⟨.identifier, "A", 1, 9⟩,
          ⟨.identifier, "A", 1, 11⟩, ⟨.keyword (.declare .model), "model", 1, 13⟩,
          ⟨.identifier, "M", 1, 19⟩, ⟨.symbol .braceOpen, "\x7b", 1, 21⟩,
          ⟨.identifier, "A", 1, 23⟩, ⟨.identifier, "a", 1, 25⟩,
          ⟨.symbol .semicolon, ";", 1, 26⟩, ⟨.symbol .braceClose, "\x7d", 1, 28⟩] := by
    cbv
  have houtline : Outline.ofText none "typedef A A model M \x7b A a; \x7d" =
      ⟨[.declaration (.typeDef ⟨"A", .named "A", ⟨1, 1, none⟩⟩),
        .declaration (.model ⟨"M", none,
          .ofList [("a", ⟨"a", .named "A", .privateField, none, ⟨1, 23, none⟩⟩)],
          ⟨1, 13, none⟩, none⟩)], []⟩ := by
    refine Outline.ofText_eq_iff.mpr ⟨by cbv, ?_⟩
    rw [htokens]
    exact Grammar.Sequence.cons
      (Grammar.ItemPhrase.typeDef (.intro rfl rfl (.plain rfl .absent) .absent))
      (.cons (Grammar.ItemPhrase.model (.intro rfl rfl .absent rfl
        (.cons (.intro .absent (.plain rfl .absent) rfl .absent rfl rfl) .nil) rfl .absent
        (OrderedMap.collects_ofList _))) .nil)
  rw [Schema.ofText, houtline]
  cbv

/-- A registry that has taken it in. -/
def withSelfAlias : Registry :=
  ((Call.load "typedef A A model M \x7b A a; \x7d").apply (.new ⟨0⟩ .standard .none)).1

/-- A type that is an alias of itself is what the field is built to. -/
theorem build_grounded_self_alias :
    withSelfAlias.Reachable ∧ ∃ m built, withSelfAlias.model? "M" = some m ∧
      m.build withSelfAlias = .ok built ∧
      built.fields.values.map (·.type) = [.type (.named "A")] ∧
      List.Forall₂ withSelfAlias.BuildsTo m.fields.values built.fields.values := by
  have hreachable : withSelfAlias.Reachable := .call (.new _ _ _) _
  have hcheck : (Registry.new ⟨0⟩ .standard .none).nextBatch.check .strict selfAlias = [] := by
    cbv
  have hload : (Registry.new ⟨0⟩ .standard .none).loadSource
      ⟨"typedef A A model M \x7b A a; \x7d", none⟩ =
        ({ (Registry.new ⟨0⟩ .standard .none).nextBatch.take .strict selfAlias with errors := [] },
          .ok ()) :=
    loadSource_eq_ok_iff.mpr ⟨selfAlias, ofText_selfAlias, hcheck, rfl⟩
  have hregistry : withSelfAlias =
      { (Registry.new ⟨0⟩ .standard .none).nextBatch.take .strict selfAlias with errors := [] } :=
    congrArg Prod.fst hload
  have hbuilt : ((withSelfAlias.model? "M").bind fun m => (m.build withSelfAlias).toOption).map
      (fun built => built.fields.values.map (·.type)) = some [.type (.named "A")] := by
    rw [hregistry]
    cbv
  cases hm : withSelfAlias.model? "M" with
  | none =>
    rw [hm] at hbuilt
    cases hbuilt
  | some m =>
    obtain ⟨built, hok, -, -, -, -, hfields⟩ := build_grounded hreachable hm
    rw [hm, Option.bind_some, hok] at hbuilt
    exact ⟨hreachable, m, built, rfl, hok, Option.some.inj hbuilt, hfields⟩

end Registry

end SchemaLang
