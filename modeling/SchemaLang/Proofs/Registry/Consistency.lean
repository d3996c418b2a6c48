import SchemaLang.Proofs.Registry.Admission
import SchemaLang.Registry.Build

/-!
# What a registry can be relied on for

What being settled means for those who ask a registry. The declarations it gives out
are closed and well formed and its models can be built (`closed_run`), and every name
has one kind and one declaration (`separated_run`). Both hold after every run of calls
on a new registry, whatever loads of the run were refused.
-/

namespace SchemaLang

namespace Registry

/-- Whether a name is registered as a kind. -/
def has (r : Registry) : DeclarationKind → String → Bool
  | .model, name => r.tables.models.contains name
  | .enum, name => r.tables.enums.contains name
  | .typeDef, name => r.tables.typedefs.contains name

/-- A registry whose declarations use no name that it does not know, keep the rules of
their kind and stand under their own names, and whose models it can build. -/
structure Closed (r : Registry) : Prop where
  fieldTypes : ∀ m ∈ r.models, ∀ f ∈ m.fields.values, ∀ used ∈ f.type.names,
    isBaseType used = true ∨ ∃ kind, r.has kind used = true
  typedefTypes : ∀ t ∈ r.typedefs, ∀ used ∈ t.type.names,
    isBaseType used = true ∨ ∃ kind, r.has kind used = true
  shapes : ∀ m ∈ r.models, ∀ f ∈ m.fields.values, f.shapeError? = none
  values : ∀ e ∈ r.enums, e.values.Nodup
  modelNames : ∀ name m, r.model? name = some m → m.name = name
  enumNames : ∀ name e, r.enum? name = some e → e.name = name
  typedefNames : ∀ name t, r.typeDef? name = some t → t.name = name
  bound : ∀ m ∈ r.models, m.registry = some r.id
  builds : ∀ m ∈ r.models, ∃ built, m.build r = .ok built

/-- A registry in which no name has two kinds, nothing is merely announced, and each
name stands for one declaration. -/
structure Separated (r : Registry) : Prop where
  oneKind : ∀ name kind kind', r.has kind name = true → r.has kind' name = true →
    kind = kind'
  confirmed : ∀ kind name e, r.tables.lookup? kind name = some e → e.lazy = false
  found : ∀ name, (r.declaration? name).isSome = true ↔ ∃! kind, r.has kind name = true
  listed : r.declarations.map Declaration.name = r.tables.names
  once : r.tables.names.Nodup

variable {r : Registry}

/-! ## Queries and tables -/

theorem has_iff {kind : DeclarationKind} {name : String} :
    r.has kind name = true ↔ name ∈ (r.tables.ofKind kind).keys := by
  cases kind <;> simp [has, OrderedMap.contains_iff, Tables.ofKind]

theorem mem_names_iff_has {name : String} :
    name ∈ r.tables.names ↔ ∃ kind, r.has kind name = true := by
  simp only [Tables.mem_names, has_iff]

section OneTable

variable {α : Type} {table : OrderedMap (Entry α)}

theorem mem_declared {x : α} :
    x ∈ table.values.map (·.declaration) ↔
      ∃ name, (table.find? name).map (·.declaration) = some x := by
  simp only [List.mem_map, OrderedMap.mem_values_iff, Option.map_eq_some_iff]
  constructor
  · rintro ⟨e, ⟨name, he⟩, rfl⟩
    exact ⟨name, e, he, rfl⟩
  · rintro ⟨name, e, he, rfl⟩
    exact ⟨e, ⟨name, he⟩, rfl⟩

theorem exists_entry {f : α → Declaration} {name : String} {x : α}
    (h : (table.find? name).map (·.declaration) = some x) :
    ∃ e, (table.find? name).map (·.map f) = some e ∧ e.declaration = f x := by
  obtain ⟨e, he, rfl⟩ := Option.map_eq_some_iff.mp h
  exact ⟨e.map f, by rw [he]; rfl, rfl⟩

theorem map_name_declared {f : α → Declaration}
    (h : ∀ name e, (table.find? name).map (·.map f) = some e → e.declaration.name = name) :
    ((table.values.map (·.declaration)).map f).map Declaration.name = table.keys := by
  rw [OrderedMap.values, OrderedMap.keys, List.map_map, List.map_map, List.map_map]
  apply List.map_congr_left
  intro entry hentry
  have hfind : table.find? entry.1 = some entry.2 := OrderedMap.find?_eq_some_iff.mpr hentry
  exact h entry.1 (entry.2.map f) (by rw [hfind]; rfl)

end OneTable

theorem declaration?_isSome_iff {name : String} :
    (r.declaration? name).isSome = true ↔ ∃ kind, r.has kind name = true := by
  simp only [declaration?, Option.isSome_or, Option.isSome_map, Bool.or_eq_true, model?, enum?,
    typeDef?]
  constructor
  · rintro (h | h | h)
    · exact ⟨.model, h⟩
    · exact ⟨.enum, h⟩
    · exact ⟨.typeDef, h⟩
  · rintro ⟨kind, h⟩
    cases kind with
    | model => exact Or.inl h
    | enum => exact Or.inr (Or.inl h)
    | typeDef => exact Or.inr (Or.inr h)

/-! ## Settled registries -/

theorem Settled.model (h : r.Settled) {name : String} {m : Model}
    (hm : r.model? name = some m) : ∃ e, r.Guarantees name e ∧ e.declaration = .model m := by
  obtain ⟨e, he, hd⟩ := exists_entry (f := .model) hm
  exact ⟨e, h.entries .model name e he, hd⟩

theorem Settled.enum (h : r.Settled) {name : String} {enum : Enum}
    (he : r.enum? name = some enum) : ∃ e, r.Guarantees name e ∧ e.declaration = .enum enum := by
  obtain ⟨e, he, hd⟩ := exists_entry (f := .enum) he
  exact ⟨e, h.entries .enum name e he, hd⟩

theorem Settled.typeDef (h : r.Settled) {name : String} {t : TypeDef}
    (ht : r.typeDef? name = some t) : ∃ e, r.Guarantees name e ∧ e.declaration = .typeDef t := by
  obtain ⟨e, he, hd⟩ := exists_entry (f := .typeDef) ht
  exact ⟨e, h.entries .typeDef name e he, hd⟩

theorem build_eq_ok {m : Model} (h : m.registry = some r.id) :
    m.build r = .ok ⟨m.name, m.table, m.trace, m.fields.mapValues fun key f => f.build key r⟩ := by
  simp [Model.build, h]

theorem Settled.closed (h : r.Settled) : r.Closed := by
  have hmodel : ∀ m ∈ r.models, ∃ name e, r.Guarantees name e ∧ e.declaration = .model m := by
    intro m hm
    obtain ⟨name, hname⟩ := mem_declared.mp hm
    exact ⟨name, h.model hname⟩
  have hbound : ∀ m ∈ r.models, m.registry = some r.id := by
    intro m hm
    obtain ⟨name, e, hg, hd⟩ := hmodel m hm
    have howned : (Declaration.model m).bind r.id = .model m := by rw [← hd, hg.owned]
    rw [← Declaration.model.inj howned]
    rfl
  constructor
  case fieldTypes =>
    intro m hm f hf used hused
    obtain ⟨name, e, hg, hd⟩ := hmodel m hm
    rw [← mem_names_iff_has]
    apply hg.resolved
    rw [hd]
    exact List.mem_flatMap.mpr ⟨f, hf, hused⟩
  case typedefTypes =>
    intro t ht used hused
    obtain ⟨name, hname⟩ := mem_declared.mp ht
    obtain ⟨e, hg, hd⟩ := h.typeDef hname
    rw [← mem_names_iff_has]
    apply hg.resolved
    rw [hd]
    exact hused
  case shapes =>
    intro m hm
    obtain ⟨name, e, hg, hd⟩ := hmodel m hm
    have hwell := hg.wellFormed
    rw [hd] at hwell
    exact hwell
  case values =>
    intro enum he
    obtain ⟨name, hname⟩ := mem_declared.mp he
    obtain ⟨e, hg, hd⟩ := h.enum hname
    have hwell := hg.wellFormed
    rw [hd] at hwell
    exact hwell
  case modelNames =>
    intro name m hm
    obtain ⟨e, hg, hd⟩ := h.model hm
    rw [← hg.named, hd]
    rfl
  case enumNames =>
    intro name enum he
    obtain ⟨e, hg, hd⟩ := h.enum he
    rw [← hg.named, hd]
    rfl
  case typedefNames =>
    intro name t ht
    obtain ⟨e, hg, hd⟩ := h.typeDef ht
    rw [← hg.named, hd]
    rfl
  case bound => exact hbound
  case builds => exact fun m hm => ⟨_, build_eq_ok (hbound m hm)⟩

theorem Settled.separated (h : r.Settled) : r.Separated := by
  have hone : ∀ name kind kind', r.has kind name = true → r.has kind' name = true →
      kind = kind' := by
    intro name kind kind' hk hk'
    exact h.apart name kind kind' (has_iff.mp hk) (has_iff.mp hk')
  constructor
  case oneKind => exact hone
  case confirmed => exact fun kind name e he => (h.entries kind name e he).confirmed
  case found =>
    intro name
    rw [declaration?_isSome_iff]
    constructor
    · rintro ⟨kind, hk⟩
      exact ⟨kind, hk, fun kind' hk' => hone name kind' kind hk' hk⟩
    · rintro ⟨kind, hk, -⟩
      exact ⟨kind, hk⟩
  case listed =>
    have hnames := fun kind name e he => (h.entries kind name e he).named
    rw [declarations, Tables.names, List.map_append, List.map_append]
    congr 1
    · congr 1
      · exact map_name_declared (hnames .model)
      · exact map_name_declared (hnames .enum)
    · exact map_name_declared (hnames .typeDef)
  case once =>
    have hkinds : DeclarationKind.all.Nodup := by decide
    rw [Tables.names_eq, List.nodup_flatMap]
    refine ⟨fun kind _ => OrderedMap.keys_nodup _, hkinds.imp fun hne name hk hk' => ?_⟩
    exact hne (h.apart name _ _ hk hk')

/-- After any run of calls a registry is closed under the names it uses. -/
theorem closed_run (id : RegistryId) (config : Config) (importer : Importer)
    (calls : List Call) : ((Registry.new id config importer).run calls).Closed :=
  ((Reachable.new id config importer).run calls).settled.closed

/-- After any run of calls every name of a registry stands for one declaration. -/
theorem separated_run (id : RegistryId) (config : Config) (importer : Importer)
    (calls : List Call) : ((Registry.new id config importer).run calls).Separated :=
  ((Reachable.new id config importer).run calls).settled.separated

end Registry

end SchemaLang
