import SchemaLang.Proofs.Outline.Recognition

/-!
# One token of lookahead

A function of the grammar goes past some tokens and stops in front of the others, with a
meaning or with a fault. What it does is settled by the tokens that it goes past and the one
that it stops in front of: when others stand behind these, it does the same (`LooksAhead`).
-/

namespace SchemaLang.Grammar

variable {α β : Type} {tokens : List Token}

theorem head?_append_of_head? {rest rest' : List Token} (h : rest.head? = rest'.head?)
    (phrase : List Token) : (phrase ++ rest).head? = (phrase ++ rest').head? := by
  rw [List.head?_append, List.head?_append, h]

/-! ## Readers that look one token ahead -/

/-- The tokens in front of which reading stops. -/
def left : Except SyntaxFailure (Parsed α) → List Token
  | .ok (_, rest) => rest
  | .error e => e.rest

/-- The same outcome in front of other tokens. -/
def inFrontOf (rest : List Token) :
    Except SyntaxFailure (Parsed α) → Except SyntaxFailure (Parsed α)
  | .ok (a, _) => .ok (a, rest)
  | .error e => .error ⟨e.error, rest⟩

/-- The outcome on a token list is the same whatever stands behind the token at which reading
stops. -/
def LooksAhead (read : List Token → Except SyntaxFailure (Parsed α)) (tokens : List Token) :
    Prop :=
  ∃ phrase, tokens = phrase ++ left (read tokens) ∧
    ∀ rest, rest.head? = (left (read tokens)).head? →
      read (phrase ++ rest) = inFrontOf rest (read tokens)

theorem looksAhead_ok (a : α) (tokens : List Token) :
    LooksAhead (fun tokens => .ok (a, tokens)) tokens :=
  ⟨[], rfl, fun _ _ => rfl⟩

theorem looksAhead_error (e : SyntaxError) (tokens : List Token) :
    LooksAhead (α := α) (fun tokens => .error ⟨e, tokens⟩) tokens :=
  ⟨[], rfl, fun _ _ => rfl⟩

theorem LooksAhead.bind {read : List Token → Except SyntaxFailure (Parsed α)}
    {next : Parsed α → Except SyntaxFailure (Parsed β)} (h : LooksAhead read tokens)
    (hnext : ∀ a rest, read tokens = .ok (a, rest) → LooksAhead (fun rest => next (a, rest)) rest) :
    LooksAhead (fun tokens => read tokens >>= next) tokens := by
  obtain ⟨phrase, hsplit, hsame⟩ := h
  cases hread : read tokens with
  | error e =>
    rw [hread] at hsplit hsame
    have hboth : (read tokens >>= next) = .error e := by rw [hread]; rfl
    refine ⟨phrase, ?_, fun rest hrest => ?_⟩
    · dsimp only
      rw [hboth]
      exact hsplit
    · dsimp only at hrest ⊢
      rw [hboth] at hrest ⊢
      rw [hsame rest hrest]
      rfl
  | ok found =>
    obtain ⟨a, after⟩ := found
    rw [hread] at hsplit hsame
    obtain ⟨more, hmore, hsame'⟩ := hnext a after hread
    have hboth : (read tokens >>= next) = next (a, after) := by rw [hread]; rfl
    refine ⟨phrase ++ more, ?_, fun rest hrest => ?_⟩
    · dsimp only
      rw [hboth, List.append_assoc, ← hmore]
      exact hsplit
    · dsimp only at hrest ⊢
      rw [hboth] at hrest ⊢
      -- the tokens behind the first part begin as before, so it is read as before
      have hhead : (more ++ rest).head? = after.head? := by
        conv_rhs => rw [hmore]
        exact head?_append_of_head? hrest more
      rw [List.append_assoc, hsame (more ++ rest) hhead]
      exact hsame' rest hrest

/-- What is made of a meaning takes no tokens. -/
theorem LooksAhead.map {read : List Token → Except SyntaxFailure (Parsed α)} (f : α → β)
    (h : LooksAhead read tokens) : LooksAhead (fun tokens => do
      let (a, rest) ← read tokens
      .ok (f a, rest)) tokens :=
  h.bind fun _ rest _ => looksAhead_ok _ rest

/-- What is read alike on tokens that begin alike. -/
theorem LooksAhead.congr {read read' : List Token → Except SyntaxFailure (Parsed α)}
    (h : LooksAhead read tokens)
    (heq : ∀ tokens', tokens'.head? = tokens.head? → read' tokens' = read tokens') :
    LooksAhead read' tokens := by
  obtain ⟨phrase, hsplit, hsame⟩ := h
  have hself : read' tokens = read tokens := heq tokens rfl
  refine ⟨phrase, by rw [hself]; exact hsplit, fun rest hrest => ?_⟩
  rw [hself] at hrest ⊢
  have hhead : (phrase ++ rest).head? = tokens.head? := by
    conv_rhs => rw [hsplit]
    exact head?_append_of_head? hrest phrase
  rw [heq _ hhead]
  exact hsame rest hrest

/-- What goes past the first token and reads on. -/
theorem LooksAhead.cons {read read' : List Token → Except SyntaxFailure (Parsed α)}
    (h : LooksAhead read tokens) {t : Token}
    (heq : ∀ tokens', tokens'.head? = tokens.head? → read' (t :: tokens') = read tokens') :
    LooksAhead read' (t :: tokens) := by
  have hbehind : LooksAhead (fun tokens => read' (t :: tokens)) tokens := h.congr heq
  obtain ⟨phrase, hsplit, hsame⟩ := hbehind
  exact ⟨t :: phrase, by rw [List.cons_append, ← hsplit], hsame⟩

/-! ## Single tokens -/

section Head

variable {read : List Token → Except SyntaxFailure (Parsed α)} {t : Token}

theorem looksAhead_nil {e : SyntaxError} (h : read [] = .error ⟨e, []⟩) : LooksAhead read [] := by
  refine (looksAhead_error e []).congr fun tokens' hhead => ?_
  rw [List.head?_eq_none_iff.mp hhead, h]

theorem looksAhead_refused {e : SyntaxError}
    (h : ∀ tail, read (t :: tail) = .error ⟨e, t :: tail⟩) (tail : List Token) :
    LooksAhead read (t :: tail) := by
  refine (looksAhead_error e (t :: tail)).congr fun tokens' hhead => ?_
  obtain ⟨tail', rfl⟩ := List.head?_eq_some_iff.mp hhead
  exact h tail'

theorem looksAhead_taken {a : α} (h : ∀ tail, read (t :: tail) = .ok (a, tail))
    (tail : List Token) : LooksAhead read (t :: tail) :=
  (looksAhead_ok a tail).cons fun tokens' _ => h tokens'

end Head

theorem accept?_head {mark : Symbol} {tokens' : List Token} (h : tokens'.head? = tokens.head?)
    (hnone : accept? mark tokens = none) : accept? mark tokens' = none := by
  cases tokens with
  | nil => rw [List.head?_eq_none_iff.mp h, accept?]
  | cons t tail =>
    obtain ⟨tail', rfl⟩ := List.head?_eq_some_iff.mp h
    simpa [accept?] using hnone

/-- A mark that need not be there leads in another part, or takes the place of one. -/
theorem looksAhead_accept {read absent present : List Token → Except SyntaxFailure (Parsed α)}
    {mark : Symbol} (hread : ∀ tokens, read tokens =
      match accept? mark tokens with
      | none => absent tokens
      | some rest => present rest)
    (habsent : accept? mark tokens = none → LooksAhead absent tokens)
    (hpresent : ∀ rest, accept? mark tokens = some rest → LooksAhead present rest) :
    LooksAhead read tokens := by
  cases h : accept? mark tokens with
  | none =>
    refine (habsent h).congr fun tokens' hhead => ?_
    rw [hread, accept?_head hhead h]
  | some rest =>
    have hrest := hpresent rest h
    obtain ⟨t, rfl, ht⟩ := accept?_eq_some_iff.mp h
    refine hrest.cons fun tokens' _ => ?_
    rw [hread, accept?_cons ht]

theorem looksAhead_skip (mark : Symbol) (a : α) (tokens : List Token) :
    LooksAhead (fun tokens => .ok (a, skip mark tokens)) tokens := by
  have hskip : ∀ tokens, Except.ok (a, skip mark tokens) =
      match accept? mark tokens with
      | none => (Except.ok (a, tokens) : Except SyntaxFailure (Parsed α))
      | some rest => .ok (a, rest) := by
    intro tokens
    cases h : accept? mark tokens <;> simp [skip, h]
  exact looksAhead_accept hskip (fun _ => looksAhead_ok a _) (fun rest _ => looksAhead_ok a rest)

theorem looksAhead_expect (kind : Token.Kind) (tokens : List Token) :
    LooksAhead (expect kind) tokens := by
  cases tokens with
  | nil => exact looksAhead_nil rfl
  | cons t tail =>
    by_cases ht : t.kind = kind
    · exact looksAhead_taken (fun tail => expect_cons ht tail) tail
    · exact looksAhead_refused (fun tail => if_neg ht) tail

/-! ## Values and types -/

/-- A token that is no literal is refused, whatever stands behind it. -/
theorem value_of_not_literal {t : Token} (h : ∀ v, ¬IsLiteral t v) :
    ∃ e, ∀ tail, value (t :: tail) = .error ⟨e, t :: tail⟩ := by
  cases hkind : t.kind with
  | string => exact absurd (.text hkind) (h _)
  | boolean => exact absurd (.boolean hkind) (h _)
  | number =>
    cases hread : Numeral.read? t.lexeme with
    | some x => exact absurd (.number hkind (Numeral.read?_eq_some_iff.mp hread)) (h _)
    | none => exact ⟨.invalidNumber t.lexeme, fun tail => by simp [value, hkind, hread]⟩
  | _ => exact ⟨.expectedValue, fun tail => by simp [value, hkind]⟩

theorem looksAhead_value (tokens : List Token) : LooksAhead value tokens := by
  cases tokens with
  | nil => exact looksAhead_nil rfl
  | cons t tail =>
    by_cases hliteral : ∃ v, IsLiteral t v
    · obtain ⟨v, hv⟩ := hliteral
      exact looksAhead_taken (fun tail => value_eq_ok_iff.mpr ⟨t, rfl, hv⟩) tail
    · obtain ⟨e, he⟩ := value_of_not_literal (not_exists.mp hliteral)
      exact looksAhead_refused he tail

theorem looksAhead_optionValue (tokens : List Token) : LooksAhead optionValue tokens := by
  cases tokens with
  | nil => exact looksAhead_nil rfl
  | cons t tail =>
    by_cases ht : t.kind = .identifier
    · exact looksAhead_taken (a := .text t.lexeme) (fun tail => if_pos ht) tail
    · refine (looksAhead_value (t :: tail)).congr fun tokens' hhead => ?_
      obtain ⟨tail', rfl⟩ := List.head?_eq_some_iff.mp hhead
      exact if_neg ht

theorem looksAhead_options (tokens : List Token) : LooksAhead options tokens := by
  refine looksAhead_accept (fun _ => rfl) (fun _ => looksAhead_ok none tokens) fun inner _ => ?_
  exact (looksAhead_optionValue inner).bind fun _ rest _ =>
    (looksAhead_expect _ rest).bind fun _ rest _ => looksAhead_ok _ rest

/-- A type in angle brackets behind a name, when what the brackets hold is read so. -/
theorem LooksAhead.parametric (name : String) (h : LooksAhead type tokens) :
    LooksAhead (fun tokens => do
      let (parameter, rest) ← type tokens
      let (_, rest) ← expect (.symbol .greaterThan) rest
      let (chosen, rest) ← options rest
      .ok (FieldType.parametric name parameter chosen, rest)) tokens :=
  h.bind fun _ rest _ => (looksAhead_expect _ rest).bind fun _ rest _ =>
    (looksAhead_options rest).bind fun _ rest _ => looksAhead_ok _ rest

theorem looksAhead_type (tokens : List Token) : LooksAhead type tokens := by
  fun_induction type tokens with
  | case1 => exact looksAhead_nil rfl
  | case2 name hname =>
    refine (looksAhead_ok (.plain name.lexeme none) []).cons fun tokens' hhead => ?_
    rw [List.head?_eq_none_iff.mp hhead, type, if_pos hname]
  | case3 name hname =>
    refine looksAhead_refused (e := .expectedToken .identifier) (fun tail => ?_) []
    cases tail <;> rw [type, if_neg hname]
  | case4 name mark inner hname hmark ih =>
    have hbehind : LooksAhead (fun tokens => type (name :: tokens)) (mark :: inner) := by
      refine (ih.parametric name.lexeme).cons fun tokens' _ => ?_
      dsimp only
      rw [type, if_pos hname, if_pos hmark]
    exact hbehind.cons fun _ _ => rfl
  | case5 name mark inner hname hmark =>
    have hbehind := (looksAhead_options (mark :: inner)).map (FieldType.plain name.lexeme)
    refine hbehind.cons fun tokens' hhead => ?_
    obtain ⟨inner', rfl⟩ := List.head?_eq_some_iff.mp hhead
    rw [type, if_pos hname, if_neg hmark]
  | case6 name mark inner hname =>
    refine looksAhead_refused (e := .expectedToken .identifier) (fun tail => ?_) (mark :: inner)
    cases tail <;> rw [type, if_neg hname]

/-! ## Fields -/

theorem looksAhead_defaultValue (tokens : List Token) : LooksAhead defaultValue tokens := by
  refine looksAhead_accept (fun _ => rfl) (fun _ => looksAhead_ok none tokens) fun inner _ => ?_
  exact (looksAhead_value inner).bind fun _ rest _ => looksAhead_ok _ rest

/-- A field of a visibility and a trace, without the word for the visibility. -/
def fieldBody (visibility : Visibility) (trace : Trace) (tokens : List Token) :
    Except SyntaxFailure (Parsed Field) := do
  let (type, rest) ← type tokens
  let (name, rest) ← expect .identifier rest
  let (default, rest) ← defaultValue rest
  let (_, rest) ← expect (.symbol .semicolon) rest
  .ok (⟨name.lexeme, type, visibility, default, trace⟩, rest)

theorem field_eq (path : Option String) (tokens : List Token) :
    field path tokens =
      fieldBody ((visibility? tokens).getD (.privateField, tokens)).1
        (.ofPosition ((tokens.head?.map Token.position).getD .start) path)
        ((visibility? tokens).getD (.privateField, tokens)).2 :=
  rfl

theorem looksAhead_fieldBody (visibility : Visibility) (trace : Trace) (tokens : List Token) :
    LooksAhead (fieldBody visibility trace) tokens :=
  (looksAhead_type tokens).bind fun _ rest _ => (looksAhead_expect _ rest).bind fun _ rest _ =>
    (looksAhead_defaultValue rest).bind fun _ rest _ =>
      (looksAhead_expect _ rest).bind fun _ rest _ => looksAhead_ok _ rest

theorem visibility?_head {tokens' : List Token} (h : tokens'.head? = tokens.head?)
    (hnone : visibility? tokens = none) : visibility? tokens' = none := by
  rw [Option.eq_none_iff_forall_ne_some]
  rintro ⟨v, rest⟩ hsome
  obtain ⟨t, rfl, ht⟩ := visibility?_eq_some_iff.mp hsome
  obtain ⟨tail, rfl⟩ := List.head?_eq_some_iff.mp h.symm
  cases hnone.symm.trans (visibility?_eq_some_iff.mpr ⟨t, rfl, ht⟩)

theorem looksAhead_field (path : Option String) (tokens : List Token) :
    LooksAhead (field path) tokens := by
  cases h : visibility? tokens with
  | none =>
    refine (looksAhead_fieldBody .privateField
      (.ofPosition ((tokens.head?.map Token.position).getD .start) path) tokens).congr
      fun tokens' hhead => ?_
    rw [field_eq, visibility?_head hhead h, hhead]
    rfl
  | some found =>
    obtain ⟨v, rest⟩ := found
    obtain ⟨t, rfl, ht⟩ := visibility?_eq_some_iff.mp h
    refine (looksAhead_fieldBody v (t.trace path) rest).cons fun tokens' _ => ?_
    rw [field_eq, visibility?_eq_some_iff.mpr ⟨t, rfl, ht⟩]
    rfl

theorem fields_eq (path : Option String) (tokens : List Token) :
    fields path tokens =
      match accept? .braceClose tokens with
      | none => field path tokens >>= fun found =>
          fields path found.2 >>= fun others => .ok (found.1 :: others.1, others.2)
      | some rest => .ok ([], rest) := by
  cases h : accept? .braceClose tokens with
  | some rest => rw [fields, h]
  | none =>
    rw [fields, h]
    dsimp only
    split
    · next e he => rw [he]; rfl
    · next found rest hfound => rw [hfound]; rfl

theorem looksAhead_fields (path : Option String) (tokens : List Token) :
    LooksAhead (fields path) tokens := by
  refine looksAhead_accept (fields_eq path) (fun _ => ?_) (fun rest _ => looksAhead_ok [] rest)
  exact (looksAhead_field path tokens).bind fun f rest hfield =>
    (looksAhead_fields path rest).bind fun fs rest _ => looksAhead_ok (f :: fs) rest
termination_by tokens.length
decreasing_by exact length_field hfield

/-! ## Items -/

theorem looksAhead_table (tokens : List Token) : LooksAhead table tokens := by
  refine looksAhead_accept (fun _ => rfl) (fun _ => looksAhead_ok none tokens) fun inner _ => ?_
  exact (looksAhead_expect .string inner).bind fun _ rest _ => looksAhead_ok _ rest

theorem looksAhead_model (path : Option String) (keyword : Token) (tokens : List Token) :
    LooksAhead (model path keyword) tokens :=
  (looksAhead_expect _ tokens).bind fun _ rest _ => (looksAhead_table rest).bind fun _ rest _ =>
    (looksAhead_expect _ rest).bind fun _ rest _ => (looksAhead_fields path rest).bind
      fun _ rest _ => looksAhead_skip _ _ rest

theorem looksAhead_enumValues (path : Option String) (tokens : List Token) :
    LooksAhead (enumValues path) tokens := by
  fun_induction enumValues path tokens with
  | case1 => exact looksAhead_nil rfl
  | case2 t hbrace =>
    refine looksAhead_taken (a := []) (fun tail => ?_) []
    cases tail <;> rw [enumValues, if_pos hbrace]
  | case3 t hbrace hname =>
    have hbehind : LooksAhead (fun tokens => enumValues path (t :: tokens)) [] :=
      looksAhead_nil (e := .expectedToken (.symbol .braceClose)) (by
        rw [enumValues, if_neg hbrace, if_pos hname])
    exact hbehind.cons fun _ _ => rfl
  | case4 t hbrace hname =>
    refine looksAhead_refused (e := .expectedToken .identifier) (fun tail => ?_) []
    cases tail <;> rw [enumValues, if_neg hbrace, if_neg hname]
  | case5 t mark rest hbrace =>
    refine looksAhead_taken (a := []) (fun tail => ?_) (mark :: rest)
    cases tail <;> rw [enumValues, if_pos hbrace]
  | case6 t mark rest hbrace hname hcomma ih =>
    have hothers := ih.map ((t.lexeme, t.trace path) :: ·)
    have hbehind : LooksAhead (fun tokens => enumValues path (t :: tokens)) (mark :: rest) := by
      refine hothers.cons fun tokens' _ => ?_
      dsimp only
      rw [enumValues, if_neg hbrace, if_pos hname, if_pos hcomma]
    exact hbehind.cons fun _ _ => rfl
  | case7 t mark rest hbrace hname hcomma =>
    have hclose := (looksAhead_expect (.symbol .braceClose) (mark :: rest)).map
      fun _ => [(t.lexeme, t.trace path)]
    refine hclose.cons fun tokens' hhead => ?_
    obtain ⟨rest', rfl⟩ := List.head?_eq_some_iff.mp hhead
    rw [enumValues, if_neg hbrace, if_pos hname, if_neg hcomma]
  | case8 t mark rest hbrace hname =>
    refine looksAhead_refused (e := .expectedToken .identifier) (fun tail => ?_) (mark :: rest)
    cases tail <;> rw [enumValues, if_neg hbrace, if_neg hname]

theorem looksAhead_enum (path : Option String) (keyword : Token) (tokens : List Token) :
    LooksAhead (enum path keyword) tokens :=
  (looksAhead_expect _ tokens).bind fun _ rest _ => (looksAhead_expect _ rest).bind
    fun _ rest _ => (looksAhead_enumValues path rest).bind fun _ rest _ => looksAhead_skip _ _ rest

theorem looksAhead_typeDef (path : Option String) (keyword : Token) (tokens : List Token) :
    LooksAhead (typeDef path keyword) tokens :=
  (looksAhead_expect _ tokens).bind fun _ rest _ => (looksAhead_type rest).bind
    fun _ rest _ => looksAhead_skip _ _ rest

theorem looksAhead_importFile (tokens : List Token) : LooksAhead importFile tokens :=
  (looksAhead_expect _ tokens).bind fun _ rest _ => looksAhead_skip _ _ rest

theorem looksAhead_item (path : Option String) (tokens : List Token) :
    LooksAhead (item path) tokens := by
  cases tokens with
  | nil => exact looksAhead_nil rfl
  | cons keyword tail =>
    match hkind : keyword.kind with
    | .keyword (.declare .model) =>
      have hbehind := (looksAhead_model path keyword tail).map fun m => Item.declaration (.model m)
      exact hbehind.cons fun tokens' _ => by simp only [item, hkind]
    | .keyword (.declare .enum) =>
      have hbehind := (looksAhead_enum path keyword tail).map fun e => Item.declaration (.enum e)
      exact hbehind.cons fun tokens' _ => by simp only [item, hkind]
    | .keyword (.declare .typeDef) =>
      have hbehind := (looksAhead_typeDef path keyword tail).map fun t =>
        Item.declaration (.typeDef t)
      exact hbehind.cons fun tokens' _ => by simp only [item, hkind]
    | .keyword .importFile =>
      have hbehind := (looksAhead_importFile tail).map Item.importFile
      exact hbehind.cons fun tokens' _ => by simp only [item, hkind]
    | .keyword (.visibility _) | .string | .number | .boolean | .identifier | .symbol _
    | .endOfInput =>
      exact looksAhead_refused (e := .expectedDeclaration)
        (fun tail => by simp only [item, hkind]) tail

/-! ## Units -/

variable {path : Option String}

theorem items_of_fault {t : Token} {tail : List Token} {e : SyntaxFailure}
    (h : item path (t :: tail) = .error e) : items path (t :: tail) = ([], some e) := by
  rw [items]
  split
  · next e' he' =>
    rw [h] at he'
    cases he'
    rfl
  · next he' =>
    rw [h] at he'
    cases he'

theorem items_of_item {i : Item} {after : List Token} (h : item path tokens = .ok (i, after)) :
    items path tokens = (i :: (items path after).1, (items path after).2) := by
  cases tokens with
  | nil => cases h
  | cons t tail =>
    rw [items]
    split
    · next e' he' =>
      rw [h] at he'
      cases he'
    · next he' =>
      rw [h] at he'
      cases he'
      rfl

/-- A fault is found again, behind the same items, whatever stands behind the token that it is
found at. -/
theorem items_fault {is : List Item} {e : SyntaxFailure} (h : items path tokens = (is, some e)) :
    ∃ before, tokens = before ++ e.rest ∧ ∀ rest, rest.head? = e.rest.head? →
      items path (before ++ rest) = (is, some ⟨e.error, rest⟩) := by
  fun_induction items path tokens generalizing is e with
  | case1 => cases h
  | case2 t tail e' hfault =>
    cases h
    obtain ⟨before, hsplit, hsame⟩ := looksAhead_item path (t :: tail)
    rw [hfault] at hsplit hsame
    refine ⟨before, hsplit, fun rest hrest => ?_⟩
    have hread := hsame rest hrest
    have hhead : (before ++ rest).head? = (t :: tail).head? := by
      rw [hsplit]
      exact head?_append_of_head? hrest before
    obtain ⟨tail', htail'⟩ := List.head?_eq_some_iff.mp hhead
    rw [htail'] at hread ⊢
    exact items_of_fault hread
  | case3 t tail first after hfirst others failure hothers ih =>
    cases h
    obtain ⟨phrase, hsplit, hsame⟩ := looksAhead_item path (t :: tail)
    rw [hfirst] at hsplit hsame
    obtain ⟨before, hbefore, hbehind⟩ := ih hothers
    refine ⟨phrase ++ before, ?_, fun rest hrest => ?_⟩
    · rw [hsplit, List.append_assoc, ← hbefore]
      rfl
    · have hhead : (before ++ rest).head? = after.head? := by
        rw [hbefore]
        exact head?_append_of_head? hrest before
      rw [List.append_assoc, items_of_item (hsame _ hhead), hbehind rest hrest]

end SchemaLang.Grammar
