import SchemaLang.Proofs.Registry.Growth
import SchemaLang.Proofs.Registry.Resolution

/-!
# Built models and later loads

What a model is built to stays what it is while more is loaded (`build_later`). A name that
is registered keeps its declaration and its kind, so a type that is followed through
registered names ends where it did. The one name on the way that may not be registered is a
base type at the end, and base type names are reserved nowhere: a later declaration can take
one and so change what it means (`Captured`).
-/

namespace SchemaLang

namespace Registry

variable {r r' : Registry}

/-! ## Later registries -/

/-- The registries that calls on a registry lead to, loads of files among them. -/
inductive Later (r : Registry) : Registry → Prop where
  | now : Later r r
  | call {r' : Registry} (h : Later r r') (c : Call) : Later r (c.apply r').1
  | loadFile {r' : Registry} (h : Later r r') (files : Files) (path : String) :
    Later r (r'.loadFile files path).1
  | loadFileAsync {r' : Registry} (h : Later r r') (files : Files) (path : String) :
    Later r (r'.loadFileAsync files path).1
  | loadAllFiles {r' : Registry} (h : Later r r') (files : Files) (paths : List String) :
    Later r (r'.loadAllFiles files paths).1
  | loadAllFilesAsync {r' : Registry} (h : Later r r') (files : Files) (paths : List String) :
    Later r (r'.loadAllFilesAsync files paths).1
  | loadDir {r' : Registry} (h : Later r r') (files : Files) (directory : String) :
    Later r (r'.loadDir files directory).1

theorem Later.exists_run (h : r.Later r') : ∃ calls, r' = r.run calls := by
  have hextend {middle after : Registry} (hmiddle : ∃ calls, middle = r.run calls)
      (hafter : ∃ calls, after = middle.run calls) : ∃ calls, after = r.run calls := by
    obtain ⟨calls, rfl⟩ := hmiddle
    obtain ⟨calls', rfl⟩ := hafter
    exact ⟨calls ++ calls', (List.foldl_append).symm⟩
  induction h with
  | now => exact ⟨[], rfl⟩
  | call _ c ih => exact hextend ih ⟨[c], rfl⟩
  | @loadFile r' _ files path ih =>
    exact hextend ih (r'.withRead_eq_run (files.source path) .loadSource)
  | @loadFileAsync r' _ files path ih =>
    exact hextend ih (r'.withRead_eq_run (files.source path) .loadSource)
  | @loadAllFiles r' _ files paths ih =>
    exact hextend ih (r'.withRead_eq_run (paths.mapM files.source) .loadAllSources)
  | @loadAllFilesAsync r' _ files paths ih =>
    exact hextend ih (r'.withRead_eq_run (files.readInTurn [] paths) .loadAllSources)
  | @loadDir r' _ files directory ih => exact hextend ih (r'.loadDir_eq_run files directory)

/-! ## Names that mean the same -/

/-- The declaration that is registered under a name as a kind. -/
def declared? (r : Registry) (kind : DeclarationKind) (name : String) : Option Declaration :=
  (r.tables.lookup? kind name).map (·.declaration)

theorem declared?_model (name : String) :
    r.declared? .model name = (r.model? name).map .model := by
  simp [declared?, Tables.lookup?, model?, Function.comp_def, Entry.map]

theorem declared?_enum (name : String) : r.declared? .enum name = (r.enum? name).map .enum := by
  simp [declared?, Tables.lookup?, enum?, Function.comp_def, Entry.map]

theorem declared?_typeDef (name : String) :
    r.declared? .typeDef name = (r.typeDef? name).map .typeDef := by
  simp [declared?, Tables.lookup?, typeDef?, Function.comp_def, Entry.map]

theorem has_eq_isSome (kind : DeclarationKind) (name : String) :
    r.has kind name = (r.declared? kind name).isSome := by
  cases kind <;> simp [has, declared?, Tables.lookup?, OrderedMap.contains]

theorem has_model (name : String) : r.has .model name = (r.model? name).isSome := by
  rw [has_eq_isSome, declared?_model, Option.isSome_map]

theorem has_enum (name : String) : r.has .enum name = (r.enum? name).isSome := by
  rw [has_eq_isSome, declared?_enum, Option.isSome_map]

theorem has_typeDef (name : String) : r.has .typeDef name = (r.typeDef? name).isSome := by
  rw [has_eq_isSome, declared?_typeDef, Option.isSome_map]

/-- A name under which two registries have the same. -/
def Agree (r r' : Registry) (name : String) : Prop :=
  ∀ kind, r'.declared? kind name = r.declared? kind name

namespace Agree

variable {name : String} {t : FieldType}

theorem model? (h : Agree r r' name) : r'.model? name = r.model? name := by
  have hmodel := h .model
  rw [declared?_model, declared?_model] at hmodel
  exact Option.map_injective (fun _ _ he => Declaration.model.inj he) hmodel

theorem enum? (h : Agree r r' name) : r'.enum? name = r.enum? name := by
  have henum := h .enum
  rw [declared?_enum, declared?_enum] at henum
  exact Option.map_injective (fun _ _ he => Declaration.enum.inj he) henum

theorem typeDef? (h : Agree r r' name) : r'.typeDef? name = r.typeDef? name := by
  have htypeDef := h .typeDef
  rw [declared?_typeDef, declared?_typeDef] at htypeDef
  exact Option.map_injective (fun _ _ he => Declaration.typeDef.inj he) htypeDef

theorem alias? (h : Agree r r' t.name) : r'.alias? t = r.alias? t := by
  rw [Registry.alias?, Registry.alias?, h.typeDef?]

theorem has (h : Agree r r' name) (kind : DeclarationKind) :
    r'.has kind name = r.has kind name := by
  rw [has_eq_isSome, has_eq_isSome, h kind]

theorem classify (h : Agree r r' t.name) (field : String) :
    r'.classify field t = r.classify field t := by
  have hmodel : r'.tables.models.contains t.name = r.tables.models.contains t.name :=
    h.has .model
  rw [Registry.classify, Registry.classify, hmodel, h.enum?]

end Agree

theorem Settled.declared?_kept (h : r.Settled) (hlater : r.Later r') {kind : DeclarationKind}
    {name : String} {d : Declaration} (hd : r.declared? kind name = some d) :
    r'.declared? kind name = some d := by
  obtain ⟨calls, rfl⟩ := hlater.exists_run
  obtain ⟨e, he, rfl⟩ := Option.map_eq_some_iff.mp hd
  obtain ⟨e', he', hsame⟩ := h.declaration_kept calls he
  rw [declared?, he', Option.map_some, hsame]

/-- What is registered under a name is all that will ever be registered under it. -/
theorem Reachable.agree_of_has (h : r.Reachable) (hlater : r.Later r') {kind : DeclarationKind}
    {name : String} (hkind : r.has kind name = true) : Agree r r' name := by
  have hseparated : r'.Separated := by
    obtain ⟨calls, rfl⟩ := hlater.exists_run
    exact (h.run calls).settled.separated
  have hkept : r'.has kind name = true := by
    rw [has_eq_isSome] at hkind ⊢
    obtain ⟨d, hd⟩ := Option.isSome_iff_exists.mp hkind
    rw [h.settled.declared?_kept hlater hd]
    rfl
  intro kind'
  cases hbefore : r.declared? kind' name with
  | some d => exact h.settled.declared?_kept hlater hbefore
  | none =>
    -- a declaration of another kind would have to share the name with the one that was kept
    by_contra hnew
    obtain ⟨d, hd⟩ := Option.ne_none_iff_exists'.mp hnew
    have hother : r'.has kind' name = true := by rw [has_eq_isSome, hd]; rfl
    obtain rfl : kind' = kind := hseparated.oneKind name kind' kind hother hkept
    rw [has_eq_isSome, hbefore] at hkind
    cases hkind

/-! ## Resolved types -/

/-- A type with the name of a base type, under which nothing was registered in one registry
and something is in another. -/
structure Captured (r r' : Registry) (t : FieldType) : Prop where
  base : isBaseType t.name = true
  free : ∀ kind, r.has kind t.name = false
  taken : ∃ kind, r'.has kind t.name = true

/-- A known name keeps its meaning, unless it is that of a base type and a later declaration
has taken it. -/
theorem Reachable.agree_or_captured (h : r.Reachable) (hlater : r.Later r') {t : FieldType}
    (hknown : isBaseType t.name = true ∨ ∃ kind, r.has kind t.name = true) :
    Agree r r' t.name ∨ Captured r r' t := by
  by_cases hbefore : ∃ kind, r.has kind t.name = true
  · obtain ⟨kind, hkind⟩ := hbefore
    exact Or.inl (h.agree_of_has hlater hkind)
  · have hfree : ∀ kind, r.has kind t.name = false := by simpa using hbefore
    by_cases hafter : ∃ kind, r'.has kind t.name = true
    · exact Or.inr ⟨hknown.resolve_right hbefore, hfree, hafter⟩
    · refine Or.inl fun kind => ?_
      have hnone : r.declared? kind t.name = none := by
        simpa [has_eq_isSome] using hfree kind
      have hnone' : r'.declared? kind t.name = none := by
        simpa [has_eq_isSome] using not_exists.mp hafter kind
      rw [hnone, hnone']

theorem Captured.classify {t : FieldType} (h : Captured r r' t) (field : String) :
    r.classify field t = .type t := by
  have hmodel : r.model? t.name = none := by
    simpa only [has_model, Option.isSome_eq_false_iff, Option.isNone_iff_eq_none] using
      h.free .model
  have henum : r.enum? t.name = none := by
    simpa only [has_enum, Option.isSome_eq_false_iff, Option.isNone_iff_eq_none] using h.free .enum
  exact means_iff.mp (.itself hmodel henum)

theorem has_typeDef_of_alias? {t : FieldType} {d : TypeDef} (h : r.alias? t = some d) :
    r.has .typeDef t.name = true := by
  rw [has_typeDef, (alias?_eq_some_iff.mp h).registered]
  rfl

/-- What a known type means is what it meant, unless it ended at a captured name. -/
theorem Reachable.resolveFrom_later (h : r.Reachable) (hlater : r.Later r') (field : String)
    (seen : List String) (t : FieldType)
    (hknown : isBaseType t.name = true ∨ ∃ kind, r.has kind t.name = true) :
    r'.resolveFrom field seen t = r.resolveFrom field seen t ∨
      ∃ u, r.resolveFrom field seen t = .type u ∧ Captured r r' u := by
  fun_induction r.resolveFrom field seen t with
  | case1 seen t halias =>
    rcases h.agree_or_captured hlater hknown with hagree | hcaptured
    · left
      rw [resolveFrom, hagree.alias?, halias]
      exact hagree.classify field
    · exact Or.inr ⟨t, hcaptured.classify field, hcaptured⟩
  | case2 seen t d halias hfollowed =>
    have hagree := h.agree_of_has hlater (has_typeDef_of_alias? halias)
    left
    rw [resolveFrom, hagree.alias?, halias]
    exact dif_pos hfollowed
  | case3 seen t d halias hfresh ih =>
    -- the alias is the same in both registries, so both go on from the same type
    have hagree := h.agree_of_has hlater (has_typeDef_of_alias? halias)
    have hstep : r'.resolveFrom field seen t = r'.resolveFrom field (t.name :: seen) d.type := by
      rw [resolveFrom, hagree.alias?, halias]
      exact dif_neg hfresh
    have hd : d ∈ r.typedefs := mem_declared.mpr ⟨_, (alias?_eq_some_iff.mp halias).registered⟩
    rw [hstep]
    exact ih (h.settled.closed.typedefTypes d hd _ d.type.name_mem_names)

/-! ## Built models -/

/-- A built field and what it is built to later: all is kept but for a captured type. -/
structure Keeps (r r' : Registry) (built later : BuiltField) : Prop where
  name : later.name = built.name
  visibility : later.visibility = built.visibility
  default : later.default = built.default
  trace : later.trace = built.trace
  type : later.type = built.type ∨ ∃ t, built.type = .type t ∧ Captured r r' t

/-- Whatever is loaded later, a registered model stays registered and is built to what it was
built to, field by field. Only a field that was a base type of a name that was free can become
something else, by a declaration that takes the name. -/
theorem build_later (h : r.Reachable) (hlater : r.Later r') {name : String} {m : Model}
    (hm : r.model? name = some m) :
    r'.model? name = some m ∧ ∃ built later, m.build r = .ok built ∧ m.build r' = .ok later ∧
      later.name = built.name ∧ later.table = built.table ∧ later.trace = built.trace ∧
      later.fields.keys = built.fields.keys ∧
      List.Forall₂ (Keeps r r') built.fields.values later.fields.values := by
  have hregistered : m ∈ r.models := mem_declared.mpr ⟨name, hm⟩
  have hhas : r.has .model name = true := by
    rw [has_model, hm]
    rfl
  have hm' : r'.model? name = some m := by rw [(h.agree_of_has hlater hhas).model?, hm]
  have hclosed' : r'.Closed := by
    obtain ⟨calls, rfl⟩ := hlater.exists_run
    exact (h.run calls).settled.closed
  have hbuilt := build_eq_ok (h.settled.closed.bound m hregistered)
  have hlater' := build_eq_ok (hclosed'.bound m (mem_declared.mpr ⟨name, hm'⟩))
  refine ⟨hm', _, _, hbuilt, hlater', rfl, rfl, rfl, by simp only [OrderedMap.keys_mapValues], ?_⟩
  have hfields : ∀ entry ∈ m.fields.entries,
      Keeps r r' (entry.2.build entry.1 r) (entry.2.build entry.1 r') := by
    intro entry hentry
    have hknown : isBaseType entry.2.type.name = true ∨
        ∃ kind, r.has kind entry.2.type.name = true :=
      h.settled.closed.fieldTypes m hregistered entry.2 (List.mem_map_of_mem hentry) _
        entry.2.type.name_mem_names
    exact ⟨rfl, rfl, rfl, rfl, h.resolveFrom_later hlater entry.1 [] entry.2.type hknown⟩
  simpa [OrderedMap.values, OrderedMap.mapValues, List.forall₂_map_left_iff,
    List.forall₂_map_right_iff, List.forall₂_same] using hfields

/-- A field of a base type. -/
def integerField : Field := ⟨"x", .named "integer", .privateField, none, ⟨1, 11, none⟩⟩

/-- A model with no other field. -/
def integerModel : Schema where
  models := .ofList [("M", ⟨"M", none, .ofList [("x", integerField)], ⟨1, 1, none⟩, none⟩)]
  enums := .empty
  typedefs := .empty
  redeclared := []

theorem ofText_integerModel :
    Schema.ofText (some .none) none "model M \x7b integer x; \x7d" = .ok integerModel := by
  have htokens : (TokenStream.ofTokens
      (Scan.ofText "model M \x7b integer x; \x7d" none).tokens).tokens =
        [⟨.keyword (.declare .model), "model", 1, 1⟩, ⟨.identifier, "M", 1, 7⟩,
          ⟨.symbol .braceOpen, "\x7b", 1, 9⟩, ⟨.identifier, "integer", 1, 11⟩,
          ⟨.identifier, "x", 1, 19⟩, ⟨.symbol .semicolon, ";", 1, 20⟩,
          ⟨.symbol .braceClose, "\x7d", 1, 22⟩] := by
    cbv
  have houtline : Outline.ofText none "model M \x7b integer x; \x7d" =
      ⟨[.declaration (.model ⟨"M", none, .ofList [("x", integerField)], ⟨1, 1, none⟩, none⟩)],
        []⟩ := by
    refine Outline.ofText_eq_iff.mpr ⟨by cbv, ?_⟩
    rw [htokens]
    exact Grammar.Sequence.cons
      (Grammar.ItemPhrase.model (.intro rfl rfl .absent rfl
        (.cons (.intro .absent (.plain rfl .absent) rfl .absent rfl rfl) .nil) rfl .absent
        (OrderedMap.collects_ofList _))) .nil
  rw [Schema.ofText, houtline]
  cbv

/-- A registry that has taken it in. -/
def withIntegerModel : Registry :=
  ((Call.load "model M \x7b integer x; \x7d").apply (.new ⟨0⟩ .standard .none)).1

/-- The registry with an enum that takes the name of the base type. -/
def withIntegerEnum : Registry :=
  ((Call.load "enum integer \x7b A \x7d").apply withIntegerModel).1

theorem withIntegerModel_eq : withIntegerModel =
    { (Registry.new ⟨0⟩ .standard .none).nextBatch.take .strict integerModel with
      errors := [] } := by
  have hcheck : (Registry.new ⟨0⟩ .standard .none).nextBatch.check .strict integerModel = [] := by
    cbv
  have hload : (Registry.new ⟨0⟩ .standard .none).loadSource
      ⟨"model M \x7b integer x; \x7d", none⟩ = (_, .ok ()) :=
    loadSource_eq_ok_iff.mpr ⟨integerModel, ofText_integerModel, hcheck, rfl⟩
  exact congrArg Prod.fst hload

/-- The model as it is registered. -/
def registeredIntegerModel : Model :=
  ⟨"M", none, .ofList [("x", integerField)], ⟨1, 1, none⟩, some ⟨0⟩⟩

theorem registeredIntegerModel_find? :
    registeredIntegerModel.fields.find? "x" = some integerField := by
  cbv

theorem withIntegerModel_model? : withIntegerModel.model? "M" = some registeredIntegerModel := by
  rw [withIntegerModel_eq]
  rfl

/-- A field of a base type becomes an enumeration when an enum takes the name. -/
theorem build_later_integer_enum :
    withIntegerModel.Reachable ∧ withIntegerModel.Later withIntegerEnum ∧
    ∃ m built later, withIntegerModel.model? "M" = some m ∧ m.build withIntegerModel = .ok built ∧
      m.build withIntegerEnum = .ok later ∧
      built.fields.values.map (·.type) = [.type (.named "integer")] ∧
      later.fields.values.map (·.type) = [.enumeration "integer" ["A"]] ∧
      List.Forall₂ (Keeps withIntegerModel withIntegerEnum) built.fields.values
        later.fields.values := by
  have hreachable : withIntegerModel.Reachable := .call (.new _ _ _) _
  have hlater : withIntegerModel.Later withIntegerEnum := .call .now _
  have htypes : (registeredIntegerModel.build withIntegerModel).toOption.map
      (fun built => built.fields.values.map (·.type)) = some [.type (.named "integer")] := by
    rw [withIntegerModel_eq]
    cbv
  have htypes' : (registeredIntegerModel.build withIntegerEnum).toOption.map
      (fun built => built.fields.values.map (·.type)) = some [.enumeration "integer" ["A"]] := by
    rw [withIntegerEnum, withIntegerModel_eq]
    cbv
  obtain ⟨-, built, later, hbuilt, hbuilt', -, -, -, -, hfields⟩ :=
    build_later hreachable hlater withIntegerModel_model?
  rw [hbuilt] at htypes
  rw [hbuilt'] at htypes'
  exact ⟨hreachable, hlater, _, built, later, withIntegerModel_model?, hbuilt, hbuilt',
    Option.some.inj htypes, Option.some.inj htypes', hfields⟩

end Registry

end SchemaLang
