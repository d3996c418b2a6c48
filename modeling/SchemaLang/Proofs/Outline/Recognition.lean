import SchemaLang.Proofs.Outline.Phrase

/-!
# Recognition

The functions of the grammar find its phrases, and find all of them. For each function
one lemma says that what it takes off the head of a token list is a phrase, and one that
a phrase at the head is taken off. A phrase that may end early is taken whole only when
the token behind it could not belong to it: a type is not followed by `<` or `(`, a
top-level construct not by `;`.

The items of a token list are a unit, and the whole list is one exactly when reading it
finds no fault (`items_eq_iff`). So a token list is a unit in one way only
(`UnitPhrase.unique`).
-/

namespace SchemaLang.Grammar

/-! ## Single tokens -/

theorem expect_eq_ok_iff {kind : Token.Kind} {tokens rest : List Token} {t : Token} :
    expect kind tokens = .ok (t, rest) ↔ tokens = t :: rest ∧ t.kind = kind := by
  cases tokens with
  | nil => simp [expect]
  | cons u tail =>
    by_cases hu : u.kind = kind
    · simp only [expect, if_pos hu, Except.ok.injEq, Prod.mk.injEq, List.cons.injEq]
      constructor
      · rintro ⟨rfl, rfl⟩
        exact ⟨⟨rfl, rfl⟩, hu⟩
      · exact And.left
    · simp only [expect, if_neg hu, reduceCtorEq, List.cons.injEq, false_iff]
      rintro ⟨⟨rfl, -⟩, ht⟩
      exact hu ht

theorem expect_cons {t : Token} {kind : Token.Kind} (h : t.kind = kind) (rest : List Token) :
    expect kind (t :: rest) = .ok (t, rest) :=
  expect_eq_ok_iff.mpr ⟨rfl, h⟩

theorem accept?_eq_some_iff {mark : Symbol} {tokens rest : List Token} :
    accept? mark tokens = some rest ↔ ∃ t, tokens = t :: rest ∧ t.kind = .symbol mark := by
  cases tokens with
  | nil => simp [accept?]
  | cons u tail =>
    by_cases hu : u.kind = .symbol mark
    · simp only [accept?, if_pos hu, Option.some.injEq, List.cons.injEq]
      constructor
      · rintro rfl
        exact ⟨u, ⟨rfl, rfl⟩, hu⟩
      · rintro ⟨t, ⟨-, rfl⟩, -⟩
        rfl
    · simp only [accept?, if_neg hu, reduceCtorEq, List.cons.injEq, false_iff]
      rintro ⟨t, ⟨rfl, -⟩, ht⟩
      exact hu ht

theorem accept?_cons {t : Token} {mark : Symbol} (h : t.kind = .symbol mark)
    (rest : List Token) : accept? mark (t :: rest) = some rest :=
  accept?_eq_some_iff.mpr ⟨t, rfl, h⟩

theorem accept?_cons_of_ne {t : Token} {mark : Symbol} (h : t.kind ≠ .symbol mark)
    (rest : List Token) : accept? mark (t :: rest) = none :=
  if_neg h

theorem skip_sound (mark : Symbol) (tokens : List Token) :
    ∃ phrase, tokens = phrase ++ skip mark tokens ∧ OptionalMark mark phrase := by
  unfold skip
  cases h : accept? mark tokens with
  | none => exact ⟨[], rfl, .absent⟩
  | some rest =>
    obtain ⟨t, rfl, ht⟩ := accept?_eq_some_iff.mp h
    exact ⟨[t], rfl, .present ht⟩

theorem skip_complete {mark : Symbol} {phrase rest : List Token}
    (h : OptionalMark mark phrase) (hrest : accept? mark rest = none) :
    skip mark (phrase ++ rest) = rest := by
  cases h with
  | absent => rw [List.nil_append, skip, hrest, Option.getD_none]
  | present ht => rw [List.singleton_append, skip, accept?_cons ht, Option.getD_some]

/-! ## Values and types -/

theorem value_eq_ok_iff {tokens rest : List Token} {v : Value} :
    value tokens = .ok (v, rest) ↔ ∃ t, tokens = t :: rest ∧ IsLiteral t v := by
  constructor
  · intro h
    cases tokens with
    | nil => cases h
    | cons t tail =>
      simp only [value] at h
      split at h
      · next hkind =>
        cases h
        exact ⟨t, rfl, .text hkind⟩
      · next hkind =>
        cases h
        exact ⟨t, rfl, .boolean hkind⟩
      · next hkind =>
        split at h
        · next x hx =>
          cases h
          exact ⟨t, rfl, .number hkind (Numeral.read?_eq_some_iff.mp hx)⟩
        · cases h
      · cases h
  · rintro ⟨t, rfl, h⟩
    cases h with
    | text hkind => simp [value, hkind]
    | number hkind hx => simp [value, hkind, Numeral.read?_eq_some_iff.mpr hx]
    | boolean hkind => simp [value, hkind]

theorem IsLiteral.kind_ne {t : Token} {v : Value} (h : IsLiteral t v) :
    t.kind ≠ .identifier := by
  cases h <;> simp [*]

theorem optionValue_eq_ok_iff {tokens rest : List Token} {v : Value} :
    optionValue tokens = .ok (v, rest) ↔ ∃ t, tokens = t :: rest ∧ IsOption t v := by
  cases tokens with
  | nil => simp [optionValue, value]
  | cons u tail =>
    by_cases hu : u.kind = .identifier
    · simp only [optionValue, if_pos hu, Except.ok.injEq, Prod.mk.injEq, List.cons.injEq]
      constructor
      · rintro ⟨rfl, rfl⟩
        exact ⟨u, ⟨rfl, rfl⟩, .name hu⟩
      · rintro ⟨t, ⟨rfl, rfl⟩, h⟩
        cases h with
        | name => exact ⟨rfl, rfl⟩
        | literal h => exact absurd hu h.kind_ne
    · rw [optionValue, if_neg hu, value_eq_ok_iff]
      constructor
      · rintro ⟨t, ht, h⟩
        exact ⟨t, ht, .literal h⟩
      · rintro ⟨t, ht, h⟩
        obtain ⟨rfl, rfl⟩ := List.cons.inj ht
        cases h with
        | name hkind => exact absurd hkind hu
        | literal h => exact ⟨u, rfl, h⟩

theorem options_sound {tokens rest : List Token} {chosen : Option Value}
    (h : options tokens = .ok (chosen, rest)) :
    ∃ phrase, tokens = phrase ++ rest ∧ OptionsPhrase phrase chosen := by
  unfold options at h
  split at h
  · cases h
    exact ⟨[], rfl, .absent⟩
  · next inner hopen =>
    obtain ⟨⟨v, r⟩, hv, h⟩ := bind_eq_ok.mp h
    obtain ⟨⟨closing, r'⟩, hclose, h⟩ := bind_eq_ok.mp h
    cases h
    obtain ⟨opening, rfl, hopens⟩ := accept?_eq_some_iff.mp hopen
    obtain ⟨t, rfl, hchosen⟩ := optionValue_eq_ok_iff.mp hv
    obtain ⟨rfl, hcloses⟩ := expect_eq_ok_iff.mp hclose
    exact ⟨[opening, t, closing], rfl, .present hopens hchosen hcloses⟩

theorem options_complete {phrase rest : List Token} {chosen : Option Value}
    (h : OptionsPhrase phrase chosen) (hrest : accept? .parenOpen rest = none) :
    options (phrase ++ rest) = .ok (chosen, rest) := by
  cases h with
  | absent => simp [options, hrest]
  | @present opening t closing v hopens hchosen hcloses =>
    have hread : optionValue (t :: closing :: rest) = .ok (v, closing :: rest) :=
      optionValue_eq_ok_iff.mpr ⟨t, rfl, hchosen⟩
    simp only [List.cons_append, List.nil_append, options, accept?_cons hopens]
    exact bind_eq_ok.mpr ⟨_, hread, bind_eq_ok.mpr ⟨_, expect_cons hcloses rest, rfl⟩⟩

theorem type_plain {name : Token} {rest after : List Token} {chosen : Option Value}
    (hname : name.kind = .identifier) (hless : accept? .lessThan rest = none)
    (hoptions : options rest = .ok (chosen, after)) :
    type (name :: rest) = .ok (.plain name.lexeme chosen, after) := by
  cases rest with
  | nil =>
    cases hoptions
    simp [type, hname]
  | cons mark inner =>
    have hmark : mark.kind ≠ .symbol .lessThan := by
      intro hkind
      rw [accept?_cons hkind] at hless
      cases hless
    rw [type, if_pos hname, if_neg hmark]
    exact bind_eq_ok.mpr ⟨_, hoptions, rfl⟩

theorem type_parametric {name opening closing : Token} {inner rest after : List Token}
    {parameter : FieldType} {chosen : Option Value} (hname : name.kind = .identifier)
    (hopens : opening.kind = .symbol .lessThan)
    (hinner : type inner = .ok (parameter, closing :: rest))
    (hcloses : closing.kind = .symbol .greaterThan)
    (hoptions : options rest = .ok (chosen, after)) :
    type (name :: opening :: inner) = .ok (.parametric name.lexeme parameter chosen, after) := by
  rw [type, if_pos hname, if_pos hopens]
  exact bind_eq_ok.mpr ⟨_, hinner, bind_eq_ok.mpr ⟨_, expect_cons hcloses rest,
    bind_eq_ok.mpr ⟨_, hoptions, rfl⟩⟩⟩

theorem type_sound {tokens rest : List Token} {t : FieldType}
    (h : type tokens = .ok (t, rest)) :
    ∃ phrase, tokens = phrase ++ rest ∧ TypePhrase phrase t := by
  fun_induction type tokens generalizing t rest with
  | case1 => cases h
  | case2 name hname =>
    cases h
    exact ⟨[name], rfl, .plain hname .absent⟩
  | case3 => cases h
  | case4 name mark inner hname hmark ih =>
    obtain ⟨⟨parameter, r⟩, hparameter, h⟩ := bind_eq_ok.mp h
    obtain ⟨⟨closing, r'⟩, hclose, h⟩ := bind_eq_ok.mp h
    obtain ⟨⟨chosen, r''⟩, hoptions, h⟩ := bind_eq_ok.mp h
    cases h
    obtain ⟨typed, rfl, htyped⟩ := ih hparameter
    obtain ⟨rfl, hcloses⟩ := expect_eq_ok_iff.mp hclose
    obtain ⟨optional, rfl, hoptional⟩ := options_sound hoptions
    refine ⟨_, ?_, .parametric hname hmark htyped hcloses hoptional⟩
    simp
  | case5 name mark inner hname hmark =>
    obtain ⟨⟨chosen, r⟩, hoptions, h⟩ := bind_eq_ok.mp h
    cases h
    obtain ⟨optional, hsplit, hoptional⟩ := options_sound hoptions
    exact ⟨name :: optional, by rw [hsplit, List.cons_append], .plain hname hoptional⟩
  | case6 => cases h

/-- Options are no parameter. -/
theorem OptionsPhrase.accept?_lessThan {phrase rest : List Token} {chosen : Option Value}
    (h : OptionsPhrase phrase chosen) (hrest : accept? .lessThan rest = none) :
    accept? .lessThan (phrase ++ rest) = none := by
  cases h with
  | absent => exact hrest
  | present hopens => exact accept?_cons_of_ne (by simp [hopens]) _

theorem type_complete {phrase rest : List Token} {t : FieldType} (h : TypePhrase phrase t)
    (hless : accept? .lessThan rest = none) (hparen : accept? .parenOpen rest = none) :
    type (phrase ++ rest) = .ok (t, rest) := by
  induction h generalizing rest with
  | plain hname hoptional =>
    rw [List.cons_append]
    exact type_plain hname (hoptional.accept?_lessThan hless) (options_complete hoptional hparen)
  | parametric hname hopens _ hcloses hoptional ih =>
    -- the mark that closes the parameter could not go on with it
    rw [List.cons_append, List.cons_append, List.append_assoc, List.cons_append]
    refine type_parametric hname hopens (ih ?_ ?_) hcloses (options_complete hoptional hparen)
    · exact accept?_cons_of_ne (by simp [hcloses]) _
    · exact accept?_cons_of_ne (by simp [hcloses]) _

/-- The first token of a type is a name. -/
theorem TypePhrase.head {phrase : List Token} {t : FieldType} (h : TypePhrase phrase t) :
    ∃ name rest, phrase = name :: rest ∧ name.kind = .identifier := by
  cases h with
  | plain hname => exact ⟨_, _, rfl, hname⟩
  | parametric hname => exact ⟨_, _, rfl, hname⟩

theorem TypePhrase.head?_append {phrase : List Token} {t : FieldType}
    (h : TypePhrase phrase t) (before : List Token) :
    ∃ first, (before ++ phrase).head? = some first := by
  obtain ⟨name, rest, rfl, -⟩ := h.head
  cases before with
  | nil => exact ⟨name, rfl⟩
  | cons first tail => exact ⟨first, rfl⟩

/-! ## Fields -/

theorem visibility?_eq_some_iff {tokens rest : List Token} {v : Visibility} :
    visibility? tokens = some (v, rest) ↔
      ∃ t, tokens = t :: rest ∧ t.kind = .keyword (.visibility v) := by
  constructor
  · intro h
    cases tokens with
    | nil => cases h
    | cons t tail =>
      simp only [visibility?] at h
      split at h
      · next hkind =>
        cases h
        exact ⟨t, rfl, hkind⟩
      · cases h
  · rintro ⟨t, rfl, hkind⟩
    simp [visibility?, hkind]

theorem visibility_sound (tokens : List Token) :
    ∃ phrase, tokens = phrase ++ ((visibility? tokens).getD (.privateField, tokens)).2 ∧
      VisibilityPhrase phrase ((visibility? tokens).getD (.privateField, tokens)).1 := by
  cases h : visibility? tokens with
  | none => exact ⟨[], rfl, .absent⟩
  | some found =>
    obtain ⟨v, rest⟩ := found
    obtain ⟨t, rfl, hkind⟩ := visibility?_eq_some_iff.mp h
    exact ⟨[t], rfl, .present hkind⟩

/-- A visibility is told from the name that opens a type. -/
theorem visibility_complete {phrase rest : List Token} {v : Visibility} {name : Token}
    (h : VisibilityPhrase phrase v) (hname : name.kind = .identifier) :
    (visibility? (phrase ++ name :: rest)).getD (.privateField, phrase ++ name :: rest) =
      (v, name :: rest) := by
  cases h with
  | absent => simp [visibility?, hname]
  | present hkind => simp [visibility?, hkind]

theorem defaultValue_sound {tokens rest : List Token} {default : Option Value}
    (h : defaultValue tokens = .ok (default, rest)) :
    ∃ phrase, tokens = phrase ++ rest ∧ DefaultPhrase phrase default := by
  unfold defaultValue at h
  split at h
  · cases h
    exact ⟨[], rfl, .absent⟩
  · next inner hmark =>
    obtain ⟨⟨v, r⟩, hv, h⟩ := bind_eq_ok.mp h
    cases h
    obtain ⟨mark, rfl, hmarked⟩ := accept?_eq_some_iff.mp hmark
    obtain ⟨t, rfl, hliteral⟩ := value_eq_ok_iff.mp hv
    exact ⟨[mark, t], rfl, .present hmarked hliteral⟩

theorem defaultValue_complete {phrase rest : List Token} {default : Option Value}
    (h : DefaultPhrase phrase default) (hrest : accept? .equals rest = none) :
    defaultValue (phrase ++ rest) = .ok (default, rest) := by
  cases h with
  | absent => simp [defaultValue, hrest]
  | @present mark t v hmarked hliteral =>
    have hread : value (t :: rest) = .ok (v, rest) := value_eq_ok_iff.mpr ⟨t, rfl, hliteral⟩
    simp only [List.cons_append, List.nil_append, defaultValue, accept?_cons hmarked]
    exact bind_eq_ok.mpr ⟨_, hread, rfl⟩

/-- A field ends with its semicolon, whatever follows. -/
theorem field_eq_ok_iff {path : Option String} {tokens rest : List Token} {f : Field} :
    field path tokens = .ok (f, rest) ↔
      ∃ phrase, tokens = phrase ++ rest ∧ FieldPhrase path phrase f := by
  constructor
  · intro h
    unfold field at h
    have hvisible := visibility_sound tokens
    generalize (visibility? tokens).getD (.privateField, tokens) = seen at h hvisible
    obtain ⟨visible, hsplit, hvisible⟩ := hvisible
    obtain ⟨⟨type, r1⟩, htype, h⟩ := bind_eq_ok.mp h
    obtain ⟨⟨name, r2⟩, hname, h⟩ := bind_eq_ok.mp h
    obtain ⟨⟨default, r3⟩, hdefault, h⟩ := bind_eq_ok.mp h
    obtain ⟨⟨closing, r4⟩, hclose, h⟩ := bind_eq_ok.mp h
    cases h
    obtain ⟨typed, htyped, hphrase⟩ := type_sound htype
    obtain ⟨rfl, hnamed⟩ := expect_eq_ok_iff.mp hname
    obtain ⟨defaulted, rfl, hdefaulted⟩ := defaultValue_sound hdefault
    obtain ⟨rfl, hcloses⟩ := expect_eq_ok_iff.mp hclose
    rw [htyped, ← List.append_assoc] at hsplit
    -- the trace is that of the first token, which belongs to the visibility or to the type
    obtain ⟨first, hfirst⟩ := hphrase.head?_append visible
    have hhead : tokens.head? = some first := by
      rw [hsplit, List.head?_append, hfirst, Option.some_or]
    rw [hhead]
    refine ⟨_, ?_, .intro hvisible hphrase hnamed hdefaulted hcloses hfirst⟩
    simp [hsplit]
  · -- the mark behind each part is one that the part cannot take
    rintro ⟨phrase, rfl, h⟩
    cases h with
    | @intro visible typed defaulted name closing first v t d hvisible htyped hname hdefaulted
        hcloses hfirst =>
      have htype : type (typed ++ name :: (defaulted ++ closing :: rest)) =
          .ok (t, name :: (defaulted ++ closing :: rest)) :=
        type_complete htyped (accept?_cons_of_ne (by simp [hname]) _)
          (accept?_cons_of_ne (by simp [hname]) _)
      have hdefault : defaultValue (defaulted ++ closing :: rest) = .ok (d, closing :: rest) :=
        defaultValue_complete hdefaulted (accept?_cons_of_ne (by simp [hcloses]) _)
      have hhead : (visible ++ (typed ++ name :: (defaulted ++ closing :: rest))).head? =
          some first := by
        rw [← List.append_assoc, List.head?_append, hfirst, Option.some_or]
      obtain ⟨lead, tail, rfl, hlead⟩ := htyped.head
      simp only [List.append_assoc, List.cons_append, List.nil_append] at htype hhead ⊢
      rw [field, visibility_complete hvisible hlead, hhead]
      exact bind_eq_ok.mpr ⟨_, htype, bind_eq_ok.mpr ⟨_, expect_cons hname _,
        bind_eq_ok.mpr ⟨_, hdefault, bind_eq_ok.mpr ⟨_, expect_cons hcloses _, rfl⟩⟩⟩⟩

/-- A field begins with a word, never with a mark. -/
theorem FieldPhrase.accept?_eq_none {path : Option String} {phrase : List Token} {f : Field}
    (h : FieldPhrase path phrase f) (mark : Symbol) (rest : List Token) :
    accept? mark (phrase ++ rest) = none := by
  cases h with
  | intro hvisible htyped =>
    obtain ⟨lead, tail, rfl, hlead⟩ := htyped.head
    cases hvisible with
    | absent => exact accept?_cons_of_ne (by simp [hlead]) _
    | present hkind => exact accept?_cons_of_ne (by simp [hkind]) _

theorem fields_cons {path : Option String} {tokens after rest : List Token} {f : Field}
    {fs : List Field} (hopen : accept? .braceClose tokens = none)
    (hfirst : field path tokens = .ok (f, after)) (hothers : fields path after = .ok (fs, rest)) :
    fields path tokens = .ok (f :: fs, rest) := by
  rw [fields, hopen]
  dsimp only
  split
  · next hfault =>
    rw [hfirst] at hfault
    cases hfault
  · next found hfound =>
    rw [hfirst] at hfound
    cases hfound
    exact bind_eq_ok.mpr ⟨_, hothers, rfl⟩

theorem fields_eq_ok_iff {path : Option String} {tokens rest : List Token} {fs : List Field} :
    fields path tokens = .ok (fs, rest) ↔
      ∃ members closing, tokens = members ++ closing :: rest ∧
        Sequence (FieldPhrase path) members fs ∧ closing.kind = .symbol .braceClose := by
  constructor
  · intro h
    fun_induction fields path tokens generalizing fs rest with
    | case1 tokens after hclose =>
      cases h
      obtain ⟨closing, rfl, hcloses⟩ := accept?_eq_some_iff.mp hclose
      exact ⟨[], closing, rfl, .nil, hcloses⟩
    | case2 => cases h
    | case3 tokens hopen first after hfirst ih =>
      obtain ⟨⟨others, r⟩, hothers, h⟩ := bind_eq_ok.mp h
      cases h
      obtain ⟨phrase, rfl, hphrase⟩ := field_eq_ok_iff.mp hfirst
      obtain ⟨members, closing, rfl, hmembers, hcloses⟩ := ih hothers
      exact ⟨phrase ++ members, closing, (List.append_assoc _ _ _).symm,
        .cons hphrase hmembers, hcloses⟩
  · rintro ⟨members, closing, rfl, hmembers, hcloses⟩
    induction hmembers with
    | nil => rw [List.nil_append, fields, accept?_cons hcloses]
    | @cons phrase members f fs hphrase _ ih =>
      have hfirst : field path (phrase ++ (members ++ closing :: rest)) =
          .ok (f, members ++ closing :: rest) :=
        field_eq_ok_iff.mpr ⟨phrase, rfl, hphrase⟩
      rw [List.append_assoc]
      -- the first token of a field is not the brace that would end the list
      exact fields_cons (hphrase.accept?_eq_none _ _) hfirst ih

/-! ## Models -/

theorem table_sound {tokens rest : List Token} {t : Option String}
    (h : table tokens = .ok (t, rest)) :
    ∃ phrase, tokens = phrase ++ rest ∧ TablePhrase phrase t := by
  unfold table at h
  split at h
  · cases h
    exact ⟨[], rfl, .absent⟩
  · next inner hmark =>
    obtain ⟨⟨name, r⟩, hname, h⟩ := bind_eq_ok.mp h
    cases h
    obtain ⟨mark, rfl, hmarked⟩ := accept?_eq_some_iff.mp hmark
    obtain ⟨rfl, hnamed⟩ := expect_eq_ok_iff.mp hname
    exact ⟨[mark, name], rfl, .present hmarked hnamed⟩

theorem table_complete {phrase rest : List Token} {t : Option String}
    (h : TablePhrase phrase t) (hrest : accept? .colon rest = none) :
    table (phrase ++ rest) = .ok (t, rest) := by
  cases h with
  | absent => simp [table, hrest]
  | present hmarked hnamed =>
    simp only [List.cons_append, List.nil_append, table, accept?_cons hmarked]
    exact bind_eq_ok.mpr ⟨_, expect_cons hnamed rest, rfl⟩

theorem foldl_insertField (m : Model) (fs : List Field) :
    fs.foldl Model.insertField m =
      { m with fields := m.fields.insertAll (fs.map fun f => (f.name, f)) } := by
  induction fs generalizing m with
  | nil => rfl
  | cons f fs ih =>
    rw [List.foldl_cons, ih]
    rfl

/-- A model that is put together field by field holds what the fields collect to. -/
theorem foldl_insertField_new (name : String) (table : Option String) (trace : Trace)
    (fs : List Field) :
    fs.foldl Model.insertField (.new name table trace) =
      ⟨name, table, .ofList (fs.map fun f => (f.name, f)), trace, none⟩ :=
  foldl_insertField _ fs

theorem model_sound {path : Option String} {keyword : Token} {tokens rest : List Token}
    {m : Model} (hkind : keyword.kind = .keyword (.declare .model))
    (h : model path keyword tokens = .ok (m, rest)) :
    ∃ phrase, keyword :: tokens = phrase ++ rest ∧ ModelPhrase path phrase m := by
  unfold model at h
  obtain ⟨⟨name, r1⟩, hname, h⟩ := bind_eq_ok.mp h
  obtain ⟨⟨table, r2⟩, htable, h⟩ := bind_eq_ok.mp h
  obtain ⟨⟨opening, r3⟩, hopen, h⟩ := bind_eq_ok.mp h
  obtain ⟨⟨written, r4⟩, hfields, h⟩ := bind_eq_ok.mp h
  cases h
  obtain ⟨rfl, hnamed⟩ := expect_eq_ok_iff.mp hname
  obtain ⟨tabled, rfl, htabled⟩ := table_sound htable
  obtain ⟨rfl, hopens⟩ := expect_eq_ok_iff.mp hopen
  obtain ⟨members, closing, rfl, hmembers, hcloses⟩ := fields_eq_ok_iff.mp hfields
  obtain ⟨ending, hending, hends⟩ := skip_sound .semicolon r4
  rw [foldl_insertField_new]
  refine ⟨_, ?_, .intro hkind hnamed htabled hopens hmembers hcloses hends
    (OrderedMap.collects_ofList _)⟩
  conv_lhs => rw [hending]
  simp

theorem model_complete {path : Option String} {phrase rest : List Token} {m : Model}
    (h : ModelPhrase path phrase m) (hrest : accept? .semicolon rest = none) :
    ∃ keyword inner, phrase = keyword :: inner ∧
      keyword.kind = .keyword (.declare .model) ∧
      model path keyword (inner ++ rest) = .ok (m, rest) := by
  cases h with
  | @intro keyword name opening closing tabled members ending table written fields hkind hname
      htabled hopens hmembers hcloses hends hcollected =>
    refine ⟨keyword, _, rfl, hkind, ?_⟩
    have htable : Grammar.table (tabled ++ opening :: (members ++ closing :: (ending ++ rest))) =
        .ok (table, opening :: (members ++ closing :: (ending ++ rest))) :=
      table_complete htabled (accept?_cons_of_ne (by simp [hopens]) _)
    have hfields : Grammar.fields path (members ++ closing :: (ending ++ rest)) =
        .ok (written, ending ++ rest) :=
      fields_eq_ok_iff.mpr ⟨members, closing, rfl, hmembers, hcloses⟩
    simp only [List.cons_append, List.append_assoc]
    rw [model, hcollected.eq_ofList]
    refine bind_eq_ok.mpr ⟨_, expect_cons hname _, bind_eq_ok.mpr ⟨_, htable,
      bind_eq_ok.mpr ⟨_, expect_cons hopens _, bind_eq_ok.mpr ⟨_, hfields, ?_⟩⟩⟩⟩
    dsimp only
    rw [foldl_insertField_new, skip_complete hends hrest]

/-! ## Enums, typedefs and inclusions -/

theorem enumValues_eq_ok_iff {path : Option String} {tokens rest : List Token}
    {values : List (String × Trace)} :
    enumValues path tokens = .ok (values, rest) ↔
      ∃ members closing, tokens = members ++ closing :: rest ∧
        ValuesPhrase path members values ∧ closing.kind = .symbol .braceClose := by
  constructor
  · intro h
    fun_induction enumValues path tokens generalizing values rest with
    | case1 => cases h
    | case2 closing hcloses =>
      cases h
      exact ⟨[], closing, rfl, .none, hcloses⟩
    | case3 => cases h
    | case4 => cases h
    | case5 closing mark after hcloses =>
      cases h
      exact ⟨[], closing, rfl, .none, hcloses⟩
    | case6 t mark after hbrace hname hcomma ih =>
      obtain ⟨⟨others, r⟩, hothers, h⟩ := bind_eq_ok.mp h
      cases h
      obtain ⟨members, closing, rfl, hmembers, hcloses⟩ := ih hothers
      exact ⟨t :: mark :: members, closing, rfl, .more hname hcomma hmembers, hcloses⟩
    | case7 t mark after hbrace hname hcomma =>
      obtain ⟨⟨closing, r⟩, hclose, h⟩ := bind_eq_ok.mp h
      cases h
      obtain ⟨hsplit, hcloses⟩ := expect_eq_ok_iff.mp hclose
      exact ⟨[t], closing, by rw [hsplit]; rfl, .last hname, hcloses⟩
    | case8 => cases h
  · rintro ⟨members, closing, rfl, hmembers, hcloses⟩
    induction hmembers with
    | none =>
      -- the closing brace may be the last token of all
      cases rest <;> simp [enumValues, hcloses]
    | last hname =>
      have hclose := expect_cons hcloses rest
      simp only [List.cons_append, List.nil_append, enumValues, hname, hcloses, reduceCtorEq,
        Token.Kind.symbol.injEq, if_true, if_false]
      exact bind_eq_ok.mpr ⟨_, hclose, rfl⟩
    | more hname hmarked _ ih =>
      simp only [List.cons_append, enumValues, hname, hmarked, reduceCtorEq, if_true, if_false]
      exact bind_eq_ok.mpr ⟨_, ih, rfl⟩

theorem enum_sound {path : Option String} {keyword : Token} {tokens rest : List Token}
    {e : Enum} (hkind : keyword.kind = .keyword (.declare .enum))
    (h : enum path keyword tokens = .ok (e, rest)) :
    ∃ phrase, keyword :: tokens = phrase ++ rest ∧ EnumPhrase path phrase e := by
  unfold enum at h
  obtain ⟨⟨name, r1⟩, hname, h⟩ := bind_eq_ok.mp h
  obtain ⟨⟨opening, r2⟩, hopen, h⟩ := bind_eq_ok.mp h
  obtain ⟨⟨values, r3⟩, hvalues, h⟩ := bind_eq_ok.mp h
  cases h
  obtain ⟨rfl, hnamed⟩ := expect_eq_ok_iff.mp hname
  obtain ⟨rfl, hopens⟩ := expect_eq_ok_iff.mp hopen
  obtain ⟨members, closing, rfl, hmembers, hcloses⟩ := enumValues_eq_ok_iff.mp hvalues
  obtain ⟨ending, hending, hends⟩ := skip_sound .semicolon r3
  refine ⟨_, ?_, .intro hkind hnamed hopens hmembers hcloses hends⟩
  conv_lhs => rw [hending]
  simp

theorem enum_complete {path : Option String} {phrase rest : List Token} {e : Enum}
    (h : EnumPhrase path phrase e) (hrest : accept? .semicolon rest = none) :
    ∃ keyword inner, phrase = keyword :: inner ∧
      keyword.kind = .keyword (.declare .enum) ∧
      enum path keyword (inner ++ rest) = .ok (e, rest) := by
  cases h with
  | @intro keyword name opening closing members ending values hkind hname hopens hmembers hcloses
      hends =>
    refine ⟨keyword, _, rfl, hkind, ?_⟩
    have hvalues : enumValues path (members ++ closing :: (ending ++ rest)) =
        .ok (values, ending ++ rest) :=
      enumValues_eq_ok_iff.mpr ⟨members, closing, rfl, hmembers, hcloses⟩
    simp only [List.cons_append, List.append_assoc]
    rw [enum]
    refine bind_eq_ok.mpr ⟨_, expect_cons hname _, bind_eq_ok.mpr ⟨_, expect_cons hopens _,
      bind_eq_ok.mpr ⟨_, hvalues, ?_⟩⟩⟩
    dsimp only
    rw [skip_complete hends hrest]

theorem typeDef_sound {path : Option String} {keyword : Token} {tokens rest : List Token}
    {t : TypeDef} (hkind : keyword.kind = .keyword (.declare .typeDef))
    (h : typeDef path keyword tokens = .ok (t, rest)) :
    ∃ phrase, keyword :: tokens = phrase ++ rest ∧ TypeDefPhrase path phrase t := by
  unfold typeDef at h
  obtain ⟨⟨name, r1⟩, hname, h⟩ := bind_eq_ok.mp h
  obtain ⟨⟨type, r2⟩, htype, h⟩ := bind_eq_ok.mp h
  cases h
  obtain ⟨rfl, hnamed⟩ := expect_eq_ok_iff.mp hname
  obtain ⟨typed, rfl, htyped⟩ := type_sound htype
  obtain ⟨ending, hending, hends⟩ := skip_sound .semicolon r2
  refine ⟨_, ?_, .intro hkind hnamed htyped hends⟩
  conv_lhs => rw [hending]
  simp

/-- A typedef has no mark of its own at its end, so no mark that could go on with its
type may follow it. -/
theorem typeDef_complete {path : Option String} {phrase rest : List Token} {t : TypeDef}
    (h : TypeDefPhrase path phrase t) (hrest : ∀ mark, accept? mark rest = none) :
    ∃ keyword inner, phrase = keyword :: inner ∧
      keyword.kind = .keyword (.declare .typeDef) ∧
      typeDef path keyword (inner ++ rest) = .ok (t, rest) := by
  cases h with
  | @intro keyword name typed ending type hkind hname htyped hends =>
    refine ⟨keyword, _, rfl, hkind, ?_⟩
    -- whether or not a semicolon follows, nothing that belongs to the type does
    have hopen : ∀ mark, mark ≠ .semicolon → accept? mark (ending ++ rest) = none := by
      intro mark hmark
      cases hends with
      | absent => exact hrest mark
      | present hmarked => exact accept?_cons_of_ne (by simp [hmarked, Ne.symm hmark]) rest
    have htype : Grammar.type (typed ++ (ending ++ rest)) = .ok (type, ending ++ rest) :=
      type_complete htyped (hopen _ (by decide)) (hopen _ (by decide))
    simp only [List.cons_append, List.append_assoc]
    rw [typeDef]
    refine bind_eq_ok.mpr ⟨_, expect_cons hname _, bind_eq_ok.mpr ⟨_, htype, ?_⟩⟩
    dsimp only
    rw [skip_complete hends (hrest _)]

theorem importFile_sound {keyword : Token} {tokens rest : List Token} {file : Token}
    (hkind : keyword.kind = .keyword .importFile) (h : importFile tokens = .ok (file, rest)) :
    ∃ phrase, keyword :: tokens = phrase ++ rest ∧ InclusionPhrase phrase file := by
  unfold importFile at h
  obtain ⟨⟨name, r1⟩, hname, h⟩ := bind_eq_ok.mp h
  cases h
  obtain ⟨rfl, hnamed⟩ := expect_eq_ok_iff.mp hname
  obtain ⟨ending, hending, hends⟩ := skip_sound .semicolon r1
  refine ⟨_, ?_, .intro hkind hnamed hends⟩
  conv_lhs => rw [hending]
  simp

theorem importFile_complete {phrase rest : List Token} {file : Token}
    (h : InclusionPhrase phrase file) (hrest : accept? .semicolon rest = none) :
    ∃ keyword inner, phrase = keyword :: inner ∧
      keyword.kind = .keyword .importFile ∧ importFile (inner ++ rest) = .ok (file, rest) := by
  cases h with
  | @intro keyword _ ending hkind hnamed hends =>
    refine ⟨keyword, _, rfl, hkind, ?_⟩
    rw [List.cons_append, importFile]
    refine bind_eq_ok.mpr ⟨_, expect_cons hnamed _, ?_⟩
    dsimp only
    rw [skip_complete hends hrest]

/-! ## Items -/

theorem item_sound {path : Option String} {tokens rest : List Token} {i : Item}
    (h : item path tokens = .ok (i, rest)) :
    ∃ phrase, tokens = phrase ++ rest ∧ ItemPhrase path phrase i := by
  cases tokens with
  | nil => cases h
  | cons keyword tail =>
    simp only [item] at h
    split at h
    · next hkind =>
      obtain ⟨⟨m, r⟩, hm, h⟩ := bind_eq_ok.mp h
      cases h
      obtain ⟨phrase, hsplit, hphrase⟩ := model_sound hkind hm
      exact ⟨phrase, hsplit, .model hphrase⟩
    · next hkind =>
      obtain ⟨⟨e, r⟩, he, h⟩ := bind_eq_ok.mp h
      cases h
      obtain ⟨phrase, hsplit, hphrase⟩ := enum_sound hkind he
      exact ⟨phrase, hsplit, .enum hphrase⟩
    · next hkind =>
      obtain ⟨⟨t, r⟩, ht, h⟩ := bind_eq_ok.mp h
      cases h
      obtain ⟨phrase, hsplit, hphrase⟩ := typeDef_sound hkind ht
      exact ⟨phrase, hsplit, .typeDef hphrase⟩
    · next hkind =>
      obtain ⟨⟨file, r⟩, hfile, h⟩ := bind_eq_ok.mp h
      cases h
      obtain ⟨phrase, hsplit, hphrase⟩ := importFile_sound hkind hfile
      exact ⟨phrase, hsplit, .inclusion hphrase⟩
    · cases h

theorem item_complete {path : Option String} {phrase rest : List Token} {i : Item}
    (h : ItemPhrase path phrase i) (hrest : ∀ mark, accept? mark rest = none) :
    item path (phrase ++ rest) = .ok (i, rest) := by
  cases h with
  | model h =>
    obtain ⟨keyword, inner, rfl, hkind, hread⟩ := model_complete h (hrest _)
    simp only [List.cons_append, item, hkind]
    exact bind_eq_ok.mpr ⟨_, hread, rfl⟩
  | enum h =>
    obtain ⟨keyword, inner, rfl, hkind, hread⟩ := enum_complete h (hrest _)
    simp only [List.cons_append, item, hkind]
    exact bind_eq_ok.mpr ⟨_, hread, rfl⟩
  | typeDef h =>
    obtain ⟨keyword, inner, rfl, hkind, hread⟩ := typeDef_complete h hrest
    simp only [List.cons_append, item, hkind]
    exact bind_eq_ok.mpr ⟨_, hread, rfl⟩
  | inclusion h =>
    obtain ⟨keyword, inner, rfl, hkind, hread⟩ := importFile_complete h (hrest _)
    simp only [List.cons_append, item, hkind]
    exact bind_eq_ok.mpr ⟨_, hread, rfl⟩

/-- An item begins with a reserved word. -/
theorem ItemPhrase.head {path : Option String} {phrase : List Token} {i : Item}
    (h : ItemPhrase path phrase i) :
    ∃ keyword rest word, phrase = keyword :: rest ∧ keyword.kind = .keyword word := by
  cases h with
  | model h =>
    cases h with
    | intro hkind => exact ⟨_, _, _, rfl, hkind⟩
  | enum h =>
    cases h with
    | intro hkind => exact ⟨_, _, _, rfl, hkind⟩
  | typeDef h =>
    cases h with
    | intro hkind => exact ⟨_, _, _, rfl, hkind⟩
  | inclusion h =>
    cases h with
    | intro hkind => exact ⟨_, _, _, rfl, hkind⟩

/-- A unit begins with a reserved word, if it has any tokens. -/
theorem UnitPhrase.accept?_eq_none {path : Option String} {tokens : List Token} {is : List Item}
    (h : UnitPhrase path tokens is) (mark : Symbol) : accept? mark tokens = none := by
  cases h with
  | nil => rfl
  | cons hfirst =>
    obtain ⟨keyword, rest, word, rfl, hkind⟩ := hfirst.head
    exact accept?_cons_of_ne (by simp [hkind]) _

/-! ## Units -/

/-- The items that are read are a unit, also when a fault ends the reading. Without one
the unit takes every token. -/
theorem items_sound (path : Option String) (tokens : List Token) :
    ∃ phrase rest, tokens = phrase ++ rest ∧ UnitPhrase path phrase (items path tokens).1 ∧
      ((items path tokens).2 = none → rest = []) := by
  fun_induction items path tokens with
  | case1 => exact ⟨[], [], rfl, .nil, fun _ => rfl⟩
  | case2 t tail e hfault => exact ⟨[], t :: tail, rfl, .nil, fun h => by cases h⟩
  | case3 t tail first after hfirst others failure hothers ih =>
    obtain ⟨phrase, hsplit, hphrase⟩ := item_sound hfirst
    obtain ⟨unit, rest, rfl, hunit, hend⟩ := ih
    rw [hothers] at hunit hend
    exact ⟨phrase ++ unit, rest, by rw [hsplit, List.append_assoc], .cons hphrase hunit, hend⟩

theorem items_complete {path : Option String} {tokens : List Token} {is : List Item}
    (h : UnitPhrase path tokens is) : items path tokens = (is, none) := by
  induction h with
  | nil => simp [items]
  | @cons phrase rest i is hfirst hothers ih =>
    obtain ⟨keyword, tail, word, rfl, -⟩ := hfirst.head
    -- the next item begins with a word, so it cannot lengthen this one
    have hitem := item_complete hfirst (UnitPhrase.accept?_eq_none hothers)
    rw [List.cons_append] at hitem
    rw [List.cons_append, items]
    split
    · next hfault =>
      rw [hitem] at hfault
      cases hfault
    · next found after hfound =>
      rw [hitem] at hfound
      cases hfound
      rw [ih]

/-- Reading finds no fault exactly in a unit, and then finds its items. -/
theorem items_eq_iff {path : Option String} {tokens : List Token} {is : List Item} :
    items path tokens = (is, none) ↔ UnitPhrase path tokens is := by
  constructor
  · intro h
    obtain ⟨phrase, rest, hsplit, hunit, hend⟩ := items_sound path tokens
    rw [h] at hunit hend
    rw [hsplit, hend rfl, List.append_nil]
    exact hunit
  · exact items_complete

theorem UnitPhrase.unique {path : Option String} {tokens : List Token} {is is' : List Item}
    (h : UnitPhrase path tokens is) (h' : UnitPhrase path tokens is') : is = is' :=
  (Prod.mk.inj ((items_complete h).symm.trans (items_complete h'))).1

/-- What a sequence holds is a phrase of its own within the tokens. -/
theorem Sequence.exists_of_mem {α : Type} {P : List Token → α → Prop} {tokens : List Token}
    {as : List α} {a : α} (h : Sequence P tokens as) (ha : a ∈ as) :
    ∃ phrase, P phrase a ∧ phrase ⊆ tokens := by
  induction h with
  | nil => cases ha
  | @cons phrase rest first others hfirst _ ih =>
    rcases List.mem_cons.mp ha with rfl | ha
    · exact ⟨phrase, hfirst, List.subset_append_left _ _⟩
    · obtain ⟨inner, hinner, hsub⟩ := ih ha
      exact ⟨inner, hinner, fun t ht => List.mem_append_right _ (hsub ht)⟩

/-- Where no word asks for an import, all items are declarations. -/
theorem UnitPhrase.exists_declarations {path : Option String} {tokens : List Token}
    {is : List Item} (h : UnitPhrase path tokens is)
    (himports : ∀ t ∈ tokens, t.kind ≠ .keyword .importFile) :
    ∃ ds : List Declaration, is = ds.map .declaration := by
  induction h with
  | nil => exact ⟨[], rfl⟩
  | @cons phrase rest i is hfirst _ ih =>
    obtain ⟨ds, rfl⟩ := ih fun t ht => himports t (List.mem_append_right _ ht)
    cases hfirst with
    | model => exact ⟨_ :: ds, rfl⟩
    | enum => exact ⟨_ :: ds, rfl⟩
    | typeDef => exact ⟨_ :: ds, rfl⟩
    | inclusion hphrase =>
      cases hphrase with
      | intro hkind => exact absurd hkind (himports _ (by simp))

/-- The trace of a declaration is that of a word in it. -/
theorem ItemPhrase.exists_trace {path : Option String} {phrase : List Token} {d : Declaration}
    (h : ItemPhrase path phrase (.declaration d)) :
    ∃ t ∈ phrase, d.trace = t.trace path := by
  cases h with
  | model h =>
    cases h
    exact ⟨_, List.mem_cons_self, rfl⟩
  | enum h =>
    cases h
    exact ⟨_, List.mem_cons_self, rfl⟩
  | typeDef h =>
    cases h
    exact ⟨_, List.mem_cons_self, rfl⟩

/-- When no two tokens start at one place, the trace of a declaration tells it from all
others of the unit. -/
theorem UnitPhrase.eq_of_trace {path : Option String} {tokens : List Token} {is : List Item}
    (h : UnitPhrase path tokens is) (hplaced : tokens.Pairwise fun t u => t.position ≠ u.position)
    {d d' : Declaration} (hd : .declaration d ∈ is) (hd' : .declaration d' ∈ is)
    (htrace : d.trace = d'.trace) : d = d' := by
  -- a word of one item and a word of a later one stand at different places
  have hapart {phrase rest : List Token} {e e' : Declaration} {others : List Item}
      (hplaced : (phrase ++ rest).Pairwise fun t u => t.position ≠ u.position)
      (hfirst : ItemPhrase path phrase (.declaration e)) (hothers : UnitPhrase path rest others)
      (he' : .declaration e' ∈ others) : e.trace ≠ e'.trace := by
    obtain ⟨t, ht, hte⟩ := hfirst.exists_trace
    obtain ⟨inner, hinner, hsub⟩ := hothers.exists_of_mem he'
    obtain ⟨u, hu, hue⟩ := hinner.exists_trace
    have hne := (List.pairwise_append.mp hplaced).2.2 t ht u (hsub hu)
    rw [hte, hue]
    intro heq
    obtain ⟨hline, hoffset, -⟩ := Trace.mk.inj heq
    exact hne (congrArg₂ Position.mk hline hoffset)
  induction h with
  | nil => cases hd
  | cons hfirst hothers ih =>
    rcases List.mem_cons.mp hd with heq | hlater
    · rcases List.mem_cons.mp hd' with heq' | hlater'
      · exact Item.declaration.inj (heq.trans heq'.symm)
      · rw [← heq] at hfirst
        exact absurd htrace (hapart hplaced hfirst hothers hlater')
    · rcases List.mem_cons.mp hd' with heq' | hlater'
      · rw [← heq'] at hfirst
        exact absurd htrace.symm (hapart hplaced hfirst hothers hlater)
      · exact ih (List.pairwise_append.mp hplaced).2.1 hlater hlater'

end SchemaLang.Grammar
