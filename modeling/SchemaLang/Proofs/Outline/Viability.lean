import SchemaLang.Proofs.Outline.Lookahead

/-!
# Where faults of syntax are found

Reading stops at the first token that cannot go on with a unit. What stands before it can be
completed to one (`StopsWithin`); no unit begins with this and the token itself, since a fault
depends on nothing behind the token that it is found at.
-/

namespace SchemaLang

/-- A token of a kind that stands anywhere. -/
def Token.ofKind (kind : Token.Kind) : Token := .ofPosition kind "" .start

theorem Token.kind_ofKind (kind : Token.Kind) : (ofKind kind).kind = kind := rfl

namespace Grammar

variable {α : Type} {path : Option String} {tokens : List Token} {e : SyntaxFailure}

/-- Tokens with which a phrase can begin. -/
def Viable (P : List Token → α → Prop) (tokens : List Token) : Prop :=
  ∃ more a, P (tokens ++ more) a

theorem Viable.of_append {P : List Token → α → Prop} {more : List Token}
    (h : Viable P (tokens ++ more)) : Viable P tokens := by
  obtain ⟨rest, a, h⟩ := h
  rw [List.append_assoc] at h
  exact ⟨more ++ rest, a, h⟩

/-- A fault with only such tokens before it that a phrase can begin with them. -/
def StopsWithin (P : List Token → α → Prop) (tokens : List Token) (e : SyntaxFailure) : Prop :=
  ∃ before, tokens = before ++ e.rest ∧ Viable P before

theorem stopsWithin {P : List Token → α → Prop} {phrase : List Token} {a : α}
    (before more : List Token) (hsplit : tokens = before ++ e.rest) (hphrase : P phrase a)
    (heq : before ++ more = phrase) : StopsWithin P tokens e :=
  ⟨before, hsplit, more, a, by rwa [heq]⟩

theorem bind_eq_error {ε β γ : Type} {x : Except ε β} {f : β → Except ε γ} {e : ε}
    (h : x >>= f = .error e) : x = .error e ∨ ∃ b, x = .ok b ∧ f b = .error e := by
  cases x with
  | error e' =>
    cases h
    exact .inl rfl
  | ok b => exact .inr ⟨b, rfl, h⟩

/-! ## Single tokens -/

theorem expect_fault {kind : Token.Kind} (h : expect kind tokens = .error e) :
    tokens = e.rest := by
  cases tokens with
  | nil =>
    cases h
    rfl
  | cons t tail =>
    simp only [expect] at h
    split at h
    · cases h
    · cases h
      rfl

theorem value_fault (h : value tokens = .error e) : tokens = e.rest := by
  cases tokens with
  | nil =>
    cases h
    rfl
  | cons t tail =>
    simp only [value] at h
    repeat' split at h
    all_goals cases h
    all_goals rfl

theorem optionValue_fault (h : optionValue tokens = .error e) : tokens = e.rest := by
  cases tokens with
  | nil => exact value_fault h
  | cons t tail =>
    simp only [optionValue] at h
    split at h
    · cases h
    · exact value_fault h

/-- A part that need not be there has a fault behind the mark that it begins with. -/
theorem fault_behind_mark {read present : List Token → Except SyntaxFailure (Parsed α)}
    {mark : Symbol} {a : α} (hread : read tokens =
      match accept? mark tokens with
      | none => .ok (a, tokens)
      | some inner => present inner) (h : read tokens = .error e) :
    ∃ t inner, tokens = t :: inner ∧ t.kind = .symbol mark ∧ present inner = .error e := by
  rw [hread] at h
  cases hmark : accept? mark tokens with
  | none =>
    rw [hmark] at h
    cases h
  | some inner =>
    rw [hmark] at h
    obtain ⟨t, rfl, ht⟩ := accept?_eq_some_iff.mp hmark
    exact ⟨t, inner, rfl, ht, h⟩

/-! ## Types -/

theorem options_fault (h : options tokens = .error e) : StopsWithin OptionsPhrase tokens e := by
  obtain ⟨opening, inner, rfl, hopens, h⟩ := fault_behind_mark rfl h
  rcases bind_eq_error h with hvalue | ⟨⟨v, rest⟩, hvalue, h'⟩
  · have hphrase := OptionsPhrase.present hopens (.name (Token.kind_ofKind _))
      (Token.kind_ofKind _)
    exact stopsWithin [opening] _ (congrArg _ (optionValue_fault hvalue)) hphrase rfl
  · obtain ⟨t, rfl, hchosen⟩ := optionValue_eq_ok_iff.mp hvalue
    rcases bind_eq_error h' with hclose | ⟨_, _, h''⟩
    · have hphrase := OptionsPhrase.present hopens hchosen (Token.kind_ofKind _)
      exact stopsWithin [opening, t] _ (congrArg ([opening, t] ++ ·) (expect_fault hclose))
        hphrase rfl
    · cases h''

theorem type_fault (h : type tokens = .error e) : StopsWithin TypePhrase tokens e := by
  have hnone : Viable TypePhrase [] := ⟨_, _, .plain (Token.kind_ofKind _) .absent⟩
  fun_induction type tokens generalizing e with
  | case1 =>
    cases h
    exact ⟨[], rfl, hnone⟩
  | case2 => cases h
  | case3 name hname =>
    cases h
    exact ⟨[], rfl, hnone⟩
  | case4 name mark inner hname hmark ih =>
    rcases bind_eq_error h with hparameter | ⟨⟨parameter, rest⟩, hparameter, h'⟩
    · obtain ⟨before, hsplit, more, parameter, htyped⟩ := ih hparameter
      have hphrase := TypePhrase.parametric hname hmark htyped (Token.kind_ofKind _) .absent
      exact stopsWithin (name :: mark :: before) (more ++ [.ofKind (.symbol .greaterThan)])
        (by rw [hsplit]; rfl) hphrase (by simp)
    · obtain ⟨typed, rfl, htyped⟩ := type_sound hparameter
      rcases bind_eq_error h' with hclose | ⟨⟨closing, rest'⟩, hclose, h''⟩
      · have hphrase := TypePhrase.parametric hname hmark htyped (Token.kind_ofKind _) .absent
        exact stopsWithin (name :: mark :: typed) [_] (by rw [expect_fault hclose]; rfl) hphrase
          rfl
      · obtain ⟨rfl, hcloses⟩ := expect_eq_ok_iff.mp hclose
        rcases bind_eq_error h'' with hoptions | ⟨_, _, h'''⟩
        · obtain ⟨before, rfl, more, chosen, hoptional⟩ := options_fault hoptions
          have hphrase := TypePhrase.parametric hname hmark htyped hcloses hoptional
          exact stopsWithin (name :: mark :: (typed ++ closing :: before)) more (by simp) hphrase
            (by simp)
        · cases h'''
  | case5 name mark inner hname hmark =>
    rcases bind_eq_error h with hoptions | ⟨_, _, h'⟩
    · obtain ⟨before, hsplit, more, chosen, hoptional⟩ := options_fault hoptions
      exact ⟨name :: before, congrArg _ hsplit, more, _, .plain hname hoptional⟩
    · cases h'
  | case6 name mark inner hname =>
    cases h
    exact ⟨[], rfl, hnone⟩

/-! ## Fields -/

theorem defaultValue_fault (h : defaultValue tokens = .error e) :
    StopsWithin DefaultPhrase tokens e := by
  obtain ⟨mark, inner, rfl, hmarked, h⟩ := fault_behind_mark rfl h
  rcases bind_eq_error h with hvalue | ⟨_, _, h'⟩
  · have hphrase := DefaultPhrase.present hmarked (.text (Token.kind_ofKind _))
    exact stopsWithin [mark] _ (congrArg _ (value_fault hvalue)) hphrase rfl
  · cases h'

theorem field_fault (h : field path tokens = .error e) :
    StopsWithin (FieldPhrase path) tokens e := by
  unfold field at h
  have hvisible := visibility_sound tokens
  generalize (visibility? tokens).getD (.privateField, tokens) = seen at h hvisible
  obtain ⟨visible, hsplit, hvisible⟩ := hvisible
  rcases bind_eq_error h with htype | ⟨⟨type, rest⟩, htype, h1⟩
  · obtain ⟨before, hbefore, more, t, htyped⟩ := type_fault htype
    obtain ⟨first, hfirst⟩ := htyped.head?_append visible
    have hphrase : FieldPhrase path _ _ := .intro hvisible htyped
      (Token.kind_ofKind .identifier) .absent (Token.kind_ofKind _) hfirst
    exact stopsWithin (visible ++ before)
      (more ++ [.ofKind .identifier, .ofKind (.symbol .semicolon)])
      (by rw [hsplit, hbefore, List.append_assoc]) hphrase (by simp)
  · obtain ⟨typed, htyped, hoftype⟩ := type_sound htype
    obtain ⟨first, hfirst⟩ := hoftype.head?_append visible
    rcases bind_eq_error h1 with hname | ⟨⟨name, rest'⟩, hname, h2⟩
    · have hphrase : FieldPhrase path _ _ := .intro hvisible hoftype
        (Token.kind_ofKind .identifier) .absent (Token.kind_ofKind _) hfirst
      exact stopsWithin (visible ++ typed) [.ofKind .identifier, .ofKind (.symbol .semicolon)]
        (by rw [hsplit, htyped, expect_fault hname, List.append_assoc]) hphrase (by simp)
    · obtain ⟨rfl, hnamed⟩ := expect_eq_ok_iff.mp hname
      rcases bind_eq_error h2 with hdefault | ⟨⟨default, rest''⟩, hdefault, h3⟩
      · obtain ⟨before, rfl, more, default, hdefaulted⟩ := defaultValue_fault hdefault
        have hphrase : FieldPhrase path _ _ := .intro hvisible hoftype hnamed hdefaulted
          (Token.kind_ofKind _) hfirst
        exact stopsWithin (visible ++ (typed ++ name :: before))
          (more ++ [.ofKind (.symbol .semicolon)]) (by simp [hsplit, htyped]) hphrase (by simp)
      · obtain ⟨defaulted, rfl, hdefaulted⟩ := defaultValue_sound hdefault
        rcases bind_eq_error h3 with hclose | ⟨_, _, h4⟩
        · have hphrase : FieldPhrase path _ _ := .intro hvisible hoftype hnamed hdefaulted
            (Token.kind_ofKind _) hfirst
          exact stopsWithin (visible ++ (typed ++ name :: defaulted))
            [.ofKind (.symbol .semicolon)] (by simp [hsplit, htyped, expect_fault hclose]) hphrase
            (by simp)
        · cases h4

theorem fields_fault (h : fields path tokens = .error e) :
    StopsWithin (Sequence (FieldPhrase path)) tokens e := by
  fun_induction fields path tokens with
  | case1 => cases h
  | case2 tokens hopen e' hfault =>
    cases h
    obtain ⟨before, hsplit, more, f, hphrase⟩ := field_fault hfault
    exact stopsWithin before more hsplit (.cons hphrase .nil) (List.append_nil _).symm
  | case3 tokens hopen first after hfirst ih =>
    rcases bind_eq_error h with hothers | ⟨_, _, h'⟩
    · obtain ⟨phrase, rfl, hphrase⟩ := field_eq_ok_iff.mp hfirst
      obtain ⟨before, hsplit, more, fs, hmembers⟩ := ih hothers
      exact stopsWithin (phrase ++ before) more (by rw [hsplit, List.append_assoc])
        (.cons hphrase hmembers) (List.append_assoc ..)
    · cases h'

/-! ## Models -/

theorem table_fault (h : table tokens = .error e) : StopsWithin TablePhrase tokens e := by
  obtain ⟨mark, inner, rfl, hmarked, h⟩ := fault_behind_mark rfl h
  rcases bind_eq_error h with hname | ⟨_, _, h'⟩
  · have hphrase := TablePhrase.present hmarked (Token.kind_ofKind _)
    exact stopsWithin [mark] _ (congrArg _ (expect_fault hname)) hphrase rfl
  · cases h'

/-- Whatever fields are written, some model has them. -/
theorem exists_modelPhrase (path : Option String) {keyword name opening closing : Token}
    {tabled members : List Token} {table : Option String} {written : List Field}
    (hkind : keyword.kind = .keyword (.declare .model)) (hnamed : name.kind = .identifier)
    (htabled : TablePhrase tabled table) (hopens : opening.kind = .symbol .braceOpen)
    (hmembers : Sequence (FieldPhrase path) members written)
    (hcloses : closing.kind = .symbol .braceClose) :
    ∃ m, ModelPhrase path (keyword :: name :: (tabled ++ opening :: (members ++ [closing]))) m :=
  ⟨_, .intro hkind hnamed htabled hopens hmembers hcloses .absent (OrderedMap.collects_ofList _)⟩

theorem model_fault {keyword : Token} (hkind : keyword.kind = .keyword (.declare .model))
    (h : model path keyword tokens = .error e) :
    StopsWithin (ModelPhrase path) (keyword :: tokens) e := by
  have hopens := Token.kind_ofKind (.symbol .braceOpen)
  have hcloses := Token.kind_ofKind (.symbol .braceClose)
  unfold model at h
  rcases bind_eq_error h with hname | ⟨⟨name, rest⟩, hname, h1⟩
  · obtain ⟨m, hphrase⟩ := exists_modelPhrase path hkind
      (Token.kind_ofKind .identifier) .absent hopens .nil hcloses
    exact stopsWithin [keyword] _ (congrArg _ (expect_fault hname)) hphrase rfl
  · obtain ⟨rfl, hnamed⟩ := expect_eq_ok_iff.mp hname
    rcases bind_eq_error h1 with htable | ⟨⟨table, rest'⟩, htable, h2⟩
    · obtain ⟨before, rfl, more, table, htabled⟩ := table_fault htable
      obtain ⟨m, hphrase⟩ :=
        exists_modelPhrase path hkind hnamed htabled hopens .nil hcloses
      exact stopsWithin (keyword :: name :: before)
        (more ++ [.ofKind (.symbol .braceOpen), .ofKind (.symbol .braceClose)]) rfl hphrase
        (by simp)
    · obtain ⟨tabled, rfl, htabled⟩ := table_sound htable
      rcases bind_eq_error h2 with hopen | ⟨⟨opening, rest''⟩, hopen, h3⟩
      · obtain ⟨m, hphrase⟩ :=
          exists_modelPhrase path hkind hnamed htabled hopens .nil hcloses
        exact stopsWithin (keyword :: name :: tabled)
          [.ofKind (.symbol .braceOpen), .ofKind (.symbol .braceClose)]
          (by rw [expect_fault hopen]; rfl) hphrase (by simp)
      · obtain ⟨rfl, hopened⟩ := expect_eq_ok_iff.mp hopen
        rcases bind_eq_error h3 with hfields | ⟨_, _, h4⟩
        · obtain ⟨before, rfl, more, written, hmembers⟩ := fields_fault hfields
          obtain ⟨m, hphrase⟩ :=
            exists_modelPhrase path hkind hnamed htabled hopened hmembers hcloses
          exact stopsWithin (keyword :: name :: (tabled ++ opening :: before))
            (more ++ [.ofKind (.symbol .braceClose)]) (by simp) hphrase (by simp)
        · cases h4

/-! ## Enums, typedefs and inclusions -/

theorem enumValues_fault (h : enumValues path tokens = .error e) :
    StopsWithin (ValuesPhrase path) tokens e := by
  fun_induction enumValues path tokens generalizing e with
  | case1 =>
    cases h
    exact stopsWithin [] [] rfl .none rfl
  | case2 => cases h
  | case3 t hbrace hname =>
    cases h
    exact stopsWithin [t] [] rfl (.last hname) rfl
  | case4 t hbrace hname =>
    cases h
    exact stopsWithin [] [] rfl .none rfl
  | case5 => cases h
  | case6 t mark rest hbrace hname hcomma ih =>
    rcases bind_eq_error h with hothers | ⟨_, _, h'⟩
    · obtain ⟨before, hsplit, more, values, hmembers⟩ := ih hothers
      exact stopsWithin (t :: mark :: before) more (congrArg ([t, mark] ++ ·) hsplit)
        (.more hname hcomma hmembers) rfl
    · cases h'
  | case7 t mark rest hbrace hname hcomma =>
    rcases bind_eq_error h with hclose | ⟨_, _, h'⟩
    · exact stopsWithin [t] [] (congrArg _ (expect_fault hclose)) (.last hname) rfl
    · cases h'
  | case8 t mark rest hbrace hname =>
    cases h
    exact stopsWithin [] [] rfl .none rfl

theorem enum_fault {keyword : Token} (hkind : keyword.kind = .keyword (.declare .enum))
    (h : enum path keyword tokens = .error e) :
    StopsWithin (EnumPhrase path) (keyword :: tokens) e := by
  have hcloses := Token.kind_ofKind (.symbol .braceClose)
  unfold enum at h
  rcases bind_eq_error h with hname | ⟨⟨name, rest⟩, hname, h1⟩
  · have hphrase : EnumPhrase path _ _ := .intro hkind (Token.kind_ofKind .identifier)
      (Token.kind_ofKind _) .none hcloses .absent
    exact stopsWithin [keyword] _ (congrArg _ (expect_fault hname)) hphrase rfl
  · obtain ⟨rfl, hnamed⟩ := expect_eq_ok_iff.mp hname
    rcases bind_eq_error h1 with hopen | ⟨⟨opening, rest'⟩, hopen, h2⟩
    · have hphrase : EnumPhrase path _ _ := .intro hkind hnamed (Token.kind_ofKind _) .none
        hcloses .absent
      exact stopsWithin [keyword, name] _ (congrArg ([keyword, name] ++ ·) (expect_fault hopen))
        hphrase rfl
    · obtain ⟨rfl, hopens⟩ := expect_eq_ok_iff.mp hopen
      rcases bind_eq_error h2 with hvalues | ⟨_, _, h3⟩
      · obtain ⟨before, rfl, more, values, hmembers⟩ := enumValues_fault hvalues
        have hphrase := EnumPhrase.intro hkind hnamed hopens hmembers hcloses .absent
        exact stopsWithin (keyword :: name :: opening :: before)
          (more ++ [.ofKind (.symbol .braceClose)]) rfl hphrase (by simp)
      · cases h3

theorem typeDef_fault {keyword : Token} (hkind : keyword.kind = .keyword (.declare .typeDef))
    (h : typeDef path keyword tokens = .error e) :
    StopsWithin (TypeDefPhrase path) (keyword :: tokens) e := by
  unfold typeDef at h
  rcases bind_eq_error h with hname | ⟨⟨name, rest⟩, hname, h1⟩
  · have hphrase : TypeDefPhrase path _ _ := .intro hkind (Token.kind_ofKind .identifier)
      (.plain (Token.kind_ofKind .identifier) .absent) .absent
    exact stopsWithin [keyword] _ (congrArg _ (expect_fault hname)) hphrase rfl
  · obtain ⟨rfl, hnamed⟩ := expect_eq_ok_iff.mp hname
    rcases bind_eq_error h1 with htype | ⟨_, _, h2⟩
    · obtain ⟨before, rfl, more, type, htyped⟩ := type_fault htype
      have hphrase : TypeDefPhrase path _ _ := .intro hkind hnamed htyped .absent
      exact stopsWithin (keyword :: name :: before) more rfl hphrase (by simp)
    · cases h2

theorem importFile_fault {keyword : Token} (hkind : keyword.kind = .keyword .importFile)
    (h : importFile tokens = .error e) : StopsWithin InclusionPhrase (keyword :: tokens) e := by
  unfold importFile at h
  rcases bind_eq_error h with hfile | ⟨_, _, h'⟩
  · have hphrase := InclusionPhrase.intro hkind (Token.kind_ofKind .string) .absent
    exact stopsWithin [keyword] _ (congrArg _ (expect_fault hfile)) hphrase rfl
  · cases h'

/-! ## Items and units -/

theorem StopsWithin.imp {β : Type} {P : List Token → α → Prop} {Q : List Token → β → Prop}
    (h : StopsWithin P tokens e) (himp : ∀ phrase a, P phrase a → ∃ b, Q phrase b) :
    StopsWithin Q tokens e := by
  obtain ⟨before, hsplit, more, a, hphrase⟩ := h
  obtain ⟨b, hb⟩ := himp _ _ hphrase
  exact ⟨before, hsplit, more, b, hb⟩

theorem item_fault (h : item path tokens = .error e) :
    StopsWithin (ItemPhrase path) tokens e := by
  -- where nothing is begun, a typedef can follow
  have hnone : Viable (ItemPhrase path) [] :=
    ⟨_, _, .typeDef (.intro (Token.kind_ofKind _) (Token.kind_ofKind .identifier)
      (.plain (Token.kind_ofKind .identifier) .absent) .absent)⟩
  cases tokens with
  | nil =>
    cases h
    exact ⟨[], rfl, hnone⟩
  | cons keyword tail =>
    simp only [item] at h
    split at h
    · next hkind =>
      rcases bind_eq_error h with hmodel | ⟨_, _, h'⟩
      · exact (model_fault hkind hmodel).imp fun _ _ hphrase => ⟨_, .model hphrase⟩
      · cases h'
    · next hkind =>
      rcases bind_eq_error h with henum | ⟨_, _, h'⟩
      · exact (enum_fault hkind henum).imp fun _ _ hphrase => ⟨_, .enum hphrase⟩
      · cases h'
    · next hkind =>
      rcases bind_eq_error h with htypeDef | ⟨_, _, h'⟩
      · exact (typeDef_fault hkind htypeDef).imp fun _ _ hphrase => ⟨_, .typeDef hphrase⟩
      · cases h'
    · next hkind =>
      rcases bind_eq_error h with hfile | ⟨_, _, h'⟩
      · exact (importFile_fault hkind hfile).imp fun _ _ hphrase => ⟨_, .inclusion hphrase⟩
      · cases h'
    · cases h
      exact ⟨[], rfl, hnone⟩

theorem items_stopsWithin {is : List Item} (h : items path tokens = (is, some e)) :
    StopsWithin (UnitPhrase path) tokens e := by
  fun_induction items path tokens generalizing is e with
  | case1 => cases h
  | case2 t tail e' hfault =>
    cases h
    obtain ⟨before, hsplit, more, i, hphrase⟩ := item_fault hfault
    exact stopsWithin before more hsplit (.cons hphrase .nil) (List.append_nil _).symm
  | case3 t tail first after hfirst others failure hothers ih =>
    cases h
    obtain ⟨phrase, hphrase, hitem⟩ := item_sound hfirst
    obtain ⟨before, hsplit, more, is, hunit⟩ := ih hothers
    exact stopsWithin (phrase ++ before) more (by rw [hphrase, hsplit, List.append_assoc])
      (.cons hitem hunit) (List.append_assoc ..)

/-- What stands before a fault is the longest head of the tokens that a unit can begin with: it
is no unit itself, and cannot be gone on with by the token that the fault is found at. -/
theorem items_fault_earliest {is : List Item} (h : items path tokens = (is, some e)) :
    ∃ before, tokens = before ++ e.rest ∧ Viable (UnitPhrase path) before ∧
      (∀ x after, e.rest = x :: after → ¬Viable (UnitPhrase path) (before ++ [x])) ∧
      (e.rest = [] → ∀ items, ¬UnitPhrase path before items) := by
  obtain ⟨before, hsplit, hviable⟩ := items_stopsWithin h
  obtain ⟨before', hsplit', hsame⟩ := items_fault h
  obtain rfl : before = before' := List.append_cancel_right (hsplit.symm.trans hsplit')
  refine ⟨before, hsplit, hviable, ?_, ?_⟩
  · rintro x after hrest ⟨more, unit, hunit⟩
    rw [List.append_assoc] at hunit
    have hfault := hsame ([x] ++ more) (by rw [hrest]; rfl)
    cases hfault.symm.trans (items_complete hunit)
  · intro hrest unit hunit
    have hfault := hsame [] (by rw [hrest])
    rw [List.append_nil] at hfault
    cases hfault.symm.trans (items_complete hunit)

/-! ## The earliest place -/

/-- The place of the first token that no unit begins with, given the tokens before it. It is
the end of the input when all tokens can be completed to a unit without being one. -/
inductive FirstUnviable (path : Option String) (stream : TokenStream) : Position → Prop where
  | token {before after : List Token} {x : Token} (split : stream.tokens = before ++ x :: after)
    (viable : Viable (UnitPhrase path) before) (dead : ¬Viable (UnitPhrase path) (before ++ [x])) :
    FirstUnviable path stream x.position
  | finish (viable : Viable (UnitPhrase path) stream.tokens)
    (incomplete : ∀ items, ¬UnitPhrase path stream.tokens items) :
    FirstUnviable path stream stream.finish

/-- A head of the tokens that a unit can begin with ends before the first token that no unit
can go on with. -/
theorem length_le_of_viable {P : List Token → α → Prop} {before before' after after' : List Token}
    {x : Token} (hsplit : tokens = before ++ x :: after) (hsplit' : tokens = before' ++ after')
    (hdead : ¬Viable P (before ++ [x])) (hviable : Viable P before') :
    before'.length ≤ before.length := by
  by_contra hlonger
  refine hdead ?_
  have hhead : before ++ [x] <+: tokens := ⟨after, by rw [hsplit, List.append_assoc]; rfl⟩
  have hhead' : before' <+: tokens := ⟨after', hsplit'.symm⟩
  have hlength : (before ++ [x]).length ≤ before'.length := by
    rw [List.length_append, List.length_singleton]
    omega
  obtain ⟨more, rfl⟩ := List.prefix_of_prefix_length_le hhead hhead' hlength
  exact hviable.of_append

theorem FirstUnviable.unique {stream : TokenStream} {p q : Position}
    (hp : FirstUnviable path stream p) (hq : FirstUnviable path stream q) : p = q := by
  cases hp with
  | @token before after x hsplit hviable hdead =>
    cases hq with
    | @token before' after' x' hsplit' hviable' hdead' =>
      have hlength : before.length = before'.length :=
        Nat.le_antisymm (length_le_of_viable hsplit' hsplit hdead' hviable)
          (length_le_of_viable hsplit hsplit' hdead hviable')
      obtain ⟨-, heq⟩ := List.append_inj (hsplit.symm.trans hsplit') hlength
      obtain ⟨rfl, -⟩ := List.cons.inj heq
      rfl
    | finish hviable' =>
      have hlength := length_le_of_viable hsplit (List.append_nil _).symm hdead hviable'
      rw [hsplit, List.length_append, List.length_cons] at hlength
      omega
  | finish hviable =>
    cases hq with
    | token hsplit' _ hdead' =>
      have hlength := length_le_of_viable hsplit' (List.append_nil _).symm hdead' hviable
      rw [hsplit', List.length_append, List.length_cons] at hlength
      omega
    | finish => rfl

end Grammar

namespace Outline

/-- A fault of syntax is the only one, and found at the first token that no unit can go on
with. -/
theorem ofStream_errors (path : Option String) {stream : TokenStream}
    (h : (ofStream path stream).errors ≠ []) :
    ∃ e, (ofStream path stream).errors = [e] ∧ e.code.kind = .syntactic ∧ e.path = path ∧
      Grammar.FirstUnviable path stream ⟨e.line, e.offset⟩ := by
  cases hread : Grammar.items path stream.tokens with
  | mk is failure =>
    have herrors : (ofStream path stream).errors =
        failure.toList.map (·.report path stream.finish) := by
      rw [ofStream, hread]
    cases failure with
    | none => exact absurd herrors h
    | some f =>
      obtain ⟨before, hsplit, hviable, hdead, hincomplete⟩ := Grammar.items_fault_earliest hread
      refine ⟨f.report path stream.finish, herrors, ?_, rfl, ?_⟩
      · show f.error.code.kind = .syntactic
        cases f.error <;> rfl
      · show Grammar.FirstUnviable path stream (f.position stream.finish)
        cases hrest : f.rest with
        | nil =>
          rw [hrest, List.append_nil] at hsplit
          rw [SyntaxFailure.position, hrest]
          subst hsplit
          exact .finish hviable (hincomplete hrest)
        | cons x after =>
          rw [hrest] at hsplit
          rw [SyntaxFailure.position, hrest]
          exact .token hsplit hviable (hdead x after hrest)

end Outline

end SchemaLang
