import SchemaLang.Number.Numeral
import SchemaLang.Outline

/-!
# The grammar

Recognition of the constructs of the language at the head of a token list:

```text
unit        := (model | enum | typedef | inclusion)*
model       := 'model' IDENT (':' STRING)? '{' field* '}' ';'?
field       := visibility? type IDENT ('=' value)? ';'
type        := IDENT ('<' type '>')? ('(' (value | IDENT) ')')?
enum        := 'enum' IDENT '{' (IDENT (',' IDENT)* ','?)? '}' ';'?
typedef     := 'typedef' IDENT type ';'?
inclusion   := 'import' STRING ';'?
value       := STRING | NUMBER | BOOLEAN
```

Each function gives what it has recognised and the tokens behind it, or the fault
and the tokens from the offending one on. One token of lookahead decides.
-/

namespace SchemaLang.Grammar

/-- The meaning of a construct and the tokens behind it. -/
abbrev Parsed (α : Type) := α × List Token

/-! ## Single tokens -/

/-- The token at the head, which has to be of a kind. -/
def expect (kind : Token.Kind) : List Token → Except SyntaxFailure (Parsed Token)
  | [] => .error ⟨.expectedToken kind, []⟩
  | t :: rest =>
    if t.kind = kind then .ok (t, rest) else .error ⟨.expectedToken kind, t :: rest⟩

/-- The tokens behind a mark, if it is at the head. -/
def accept? (mark : Symbol) : List Token → Option (List Token)
  | [] => none
  | t :: rest => if t.kind = .symbol mark then some rest else none

/-- The tokens without a mark at the head. -/
def skip (mark : Symbol) (tokens : List Token) : List Token :=
  (accept? mark tokens).getD tokens

theorem length_expect {kind : Token.Kind} {tokens rest : List Token} {t : Token}
    (h : expect kind tokens = .ok (t, rest)) : rest.length < tokens.length := by
  cases tokens with
  | nil => simp [expect] at h
  | cons u tail =>
    simp only [expect] at h
    split at h
    · cases h
      simp
    · cases h

theorem length_accept {mark : Symbol} {tokens rest : List Token}
    (h : accept? mark tokens = some rest) : rest.length < tokens.length := by
  cases tokens with
  | nil => simp [accept?] at h
  | cons u tail =>
    simp only [accept?] at h
    split at h
    · cases h
      simp
    · cases h

theorem length_skip (mark : Symbol) (tokens : List Token) :
    (skip mark tokens).length ≤ tokens.length := by
  unfold skip
  cases h : accept? mark tokens with
  | none => simp
  | some rest => exact Nat.le_of_lt (length_accept h)

/-! ## Values and types -/

/-- A literal. -/
def value : List Token → Except SyntaxFailure (Parsed Value)
  | [] => .error ⟨.expectedValue, []⟩
  | t :: rest =>
    match t.kind with
    | .string => .ok (.text t.lexeme, rest)
    | .boolean => .ok (.boolean (Keyword.lowerCase t.lexeme = "true"), rest)
    | .number =>
      match Numeral.read? t.lexeme with
      | some x => .ok (.number x, rest)
      | none => .error ⟨.invalidNumber t.lexeme, t :: rest⟩
    | _ => .error ⟨.expectedValue, t :: rest⟩

/-- What stands between the parentheses of a type: a name, read as text, or a literal. -/
def optionValue : List Token → Except SyntaxFailure (Parsed Value)
  | [] => value []
  | t :: rest =>
    if t.kind = .identifier then .ok (.text t.lexeme, rest) else value (t :: rest)

/-- The options of a type, if there are any. -/
def options (tokens : List Token) : Except SyntaxFailure (Parsed (Option Value)) :=
  match accept? .parenOpen tokens with
  | none => .ok (none, tokens)
  | some inner => do
    let (chosen, rest) ← optionValue inner
    let (_, rest) ← expect (.symbol .parenClose) rest
    .ok (some chosen, rest)

/-- A type, to any depth of parameters. -/
def type : List Token → Except SyntaxFailure (Parsed FieldType)
  | [] => .error ⟨.expectedToken .identifier, []⟩
  | [name] =>
    if name.kind = .identifier then .ok (.plain name.lexeme none, [])
    else .error ⟨.expectedToken .identifier, [name]⟩
  | name :: mark :: inner =>
    if name.kind = .identifier then
      if mark.kind = .symbol .lessThan then do
        let (parameter, rest) ← type inner
        let (_, rest) ← expect (.symbol .greaterThan) rest
        let (chosen, rest) ← options rest
        .ok (.parametric name.lexeme parameter chosen, rest)
      else do
        let (chosen, rest) ← options (mark :: inner)
        .ok (.plain name.lexeme chosen, rest)
    else .error ⟨.expectedToken .identifier, name :: mark :: inner⟩

/-! ## Fields and models -/

/-- A visibility, if there is one. -/
def visibility? : List Token → Option (Visibility × List Token)
  | [] => none
  | t :: rest =>
    match t.kind with
    | .keyword (.visibility v) => some (v, rest)
    | _ => none

/-- The default of a field, if there is one. -/
def defaultValue (tokens : List Token) : Except SyntaxFailure (Parsed (Option Value)) :=
  match accept? .equals tokens with
  | none => .ok (none, tokens)
  | some inner => do
    let (literal, rest) ← value inner
    .ok (some literal, rest)

/-- A field, private unless it says otherwise. Its trace is that of its first token. -/
def field (path : Option String) (tokens : List Token) : Except SyntaxFailure (Parsed Field) := do
  let (visibility, inner) := (visibility? tokens).getD (.privateField, tokens)
  let (type, rest) ← type inner
  let (name, rest) ← expect .identifier rest
  let (default, rest) ← defaultValue rest
  let (_, rest) ← expect (.symbol .semicolon) rest
  let position := (tokens.head?.map Token.position).getD .start
  .ok (⟨name.lexeme, type, visibility, default, .ofPosition position path⟩, rest)

theorem bind_eq_ok {ε α β : Type} {x : Except ε α} {f : α → Except ε β} {b : β} :
    (x >>= f) = .ok b ↔ ∃ a, x = .ok a ∧ f a = .ok b := by
  cases x with
  | error e => simp [bind, Except.bind]
  | ok a => simp [bind, Except.bind]

theorem length_value {tokens rest : List Token} {v : Value}
    (h : value tokens = .ok (v, rest)) : rest.length < tokens.length := by
  cases tokens with
  | nil => simp [value] at h
  | cons t tail =>
    simp only [value] at h
    repeat' split at h
    all_goals cases h
    all_goals simp

theorem length_optionValue {tokens rest : List Token} {v : Value}
    (h : optionValue tokens = .ok (v, rest)) : rest.length < tokens.length := by
  cases tokens with
  | nil => exact length_value h
  | cons t tail =>
    simp only [optionValue] at h
    split at h
    · cases h
      simp
    · exact length_value h

theorem length_options {tokens rest : List Token} {v : Option Value}
    (h : options tokens = .ok (v, rest)) : rest.length ≤ tokens.length := by
  unfold options at h
  split at h
  · cases h
    exact Nat.le_refl _
  · next inner hi =>
    obtain ⟨⟨w, r⟩, hv, h⟩ := bind_eq_ok.1 h
    obtain ⟨⟨t, r'⟩, he, h⟩ := bind_eq_ok.1 h
    cases h
    have h1 := length_accept hi
    have h2 := length_optionValue hv
    have h3 := length_expect he
    omega

theorem length_type {tokens rest : List Token} {t : FieldType}
    (h : type tokens = .ok (t, rest)) : rest.length < tokens.length := by
  fun_induction type tokens generalizing t rest with
  | case1 => cases h
  | case2 name hk =>
    cases h
    simp
  | case3 => cases h
  | case4 name mark inner hk hm ih =>
    obtain ⟨⟨p, r⟩, hp, h⟩ := bind_eq_ok.1 h
    obtain ⟨⟨u, r'⟩, he, h⟩ := bind_eq_ok.1 h
    obtain ⟨⟨o, r''⟩, ho, h⟩ := bind_eq_ok.1 h
    cases h
    have h1 := ih hp
    have h2 := length_expect he
    have h3 := length_options ho
    simp only [List.length_cons]
    omega
  | case5 name mark inner hk hm =>
    obtain ⟨⟨o, r⟩, ho, h⟩ := bind_eq_ok.1 h
    cases h
    have h1 := length_options ho
    simp only [List.length_cons] at h1 ⊢
    omega
  | case6 => cases h

theorem length_visibility {tokens rest : List Token} {v : Visibility}
    (h : visibility? tokens = some (v, rest)) : rest.length < tokens.length := by
  cases tokens with
  | nil => simp [visibility?] at h
  | cons t tail =>
    simp only [visibility?] at h
    split at h
    · cases h
      simp
    · cases h

theorem length_defaultValue {tokens rest : List Token} {v : Option Value}
    (h : defaultValue tokens = .ok (v, rest)) : rest.length ≤ tokens.length := by
  unfold defaultValue at h
  split at h
  · cases h
    exact Nat.le_refl _
  · next inner hi =>
    obtain ⟨⟨w, r⟩, hv, h⟩ := bind_eq_ok.1 h
    cases h
    have h1 := length_accept hi
    have h2 := length_value hv
    omega

theorem length_field {path : Option String} {tokens rest : List Token} {f : Field}
    (h : field path tokens = .ok (f, rest)) : rest.length < tokens.length := by
  unfold field at h
  obtain ⟨⟨t, r⟩, ht, h⟩ := bind_eq_ok.1 h
  obtain ⟨⟨n, r1⟩, hn, h⟩ := bind_eq_ok.1 h
  obtain ⟨⟨d, r2⟩, hd, h⟩ := bind_eq_ok.1 h
  obtain ⟨⟨s, r3⟩, hs, h⟩ := bind_eq_ok.1 h
  cases h
  have h1 := length_type ht
  have h2 := length_expect hn
  have h3 := length_defaultValue hd
  have h4 := length_expect hs
  cases hv : visibility? tokens with
  | none =>
    simp only [hv] at h1
    omega
  | some vr =>
    have h5 := length_visibility hv
    simp only [hv] at h1
    omega

/-- The fields up to the closing brace. -/
def fields (path : Option String) (tokens : List Token) :
    Except SyntaxFailure (Parsed (List Field)) :=
  match accept? .braceClose tokens with
  | some rest => .ok ([], rest)
  | none =>
    match _h : field path tokens with
    | .error e => .error e
    | .ok (first, rest) => do
      let (others, rest) ← fields path rest
      .ok (first :: others, rest)
termination_by tokens.length
decreasing_by exact length_field _h

/-- The table of a model, if it names one. -/
def table (tokens : List Token) : Except SyntaxFailure (Parsed (Option String)) :=
  match accept? .colon tokens with
  | none => .ok (none, tokens)
  | some inner => do
    let (name, rest) ← expect .string inner
    .ok (some name.lexeme, rest)

/-- A model, behind the word that opens it. Of fields with one name the last counts,
at the place of the first. -/
def model (path : Option String) (keyword : Token) (tokens : List Token) :
    Except SyntaxFailure (Parsed Model) := do
  let (name, rest) ← expect .identifier tokens
  let (table, rest) ← table rest
  let (_, rest) ← expect (.symbol .braceOpen) rest
  let (fields, rest) ← fields path rest
  let empty := Model.new name.lexeme table (keyword.trace path)
  .ok (fields.foldl Model.insertField empty, skip .semicolon rest)

/-! ## Enums, typedefs and imports -/

/-- The values up to the closing brace, each with its trace. A comma may follow the
last one. -/
def enumValues (path : Option String) :
    List Token → Except SyntaxFailure (Parsed (List (String × Trace)))
  | [] => .error ⟨.expectedToken .identifier, []⟩
  | [t] =>
    if t.kind = .symbol .braceClose then .ok ([], [])
    else if t.kind = .identifier then .error ⟨.expectedToken (.symbol .braceClose), []⟩
    else .error ⟨.expectedToken .identifier, [t]⟩
  | t :: mark :: rest =>
    if t.kind = .symbol .braceClose then .ok ([], mark :: rest)
    else if t.kind = .identifier then
      if mark.kind = .symbol .comma then do
        let (others, rest) ← enumValues path rest
        .ok ((t.lexeme, t.trace path) :: others, rest)
      else do
        let (_, rest) ← expect (.symbol .braceClose) (mark :: rest)
        .ok ([(t.lexeme, t.trace path)], rest)
    else .error ⟨.expectedToken .identifier, t :: mark :: rest⟩

/-- An enum, behind the word that opens it. -/
def enum (path : Option String) (keyword : Token) (tokens : List Token) :
    Except SyntaxFailure (Parsed Enum) := do
  let (name, rest) ← expect .identifier tokens
  let (_, rest) ← expect (.symbol .braceOpen) rest
  let (values, rest) ← enumValues path rest
  .ok (⟨name.lexeme, values.map Prod.fst, values.map Prod.snd, keyword.trace path⟩,
    skip .semicolon rest)

/-- A typedef, behind the word that opens it. -/
def typeDef (path : Option String) (keyword : Token) (tokens : List Token) :
    Except SyntaxFailure (Parsed TypeDef) := do
  let (name, rest) ← expect .identifier tokens
  let (type, rest) ← type rest
  .ok (⟨name.lexeme, type, keyword.trace path⟩, skip .semicolon rest)

/-- An import, behind the word that opens it. -/
def importFile (tokens : List Token) : Except SyntaxFailure (Parsed Token) := do
  let (file, rest) ← expect .string tokens
  .ok (file, skip .semicolon rest)

/-! ## Whole sources -/

/-- A top-level construct. -/
def item (path : Option String) : List Token → Except SyntaxFailure (Parsed Item)
  | [] => .error ⟨.expectedDeclaration, []⟩
  | keyword :: rest =>
    match keyword.kind with
    | .keyword (.declare .model) => do
      let (m, rest) ← model path keyword rest
      .ok (.declaration (.model m), rest)
    | .keyword (.declare .enum) => do
      let (e, rest) ← enum path keyword rest
      .ok (.declaration (.enum e), rest)
    | .keyword (.declare .typeDef) => do
      let (t, rest) ← typeDef path keyword rest
      .ok (.declaration (.typeDef t), rest)
    | .keyword .importFile => do
      let (file, rest) ← importFile rest
      .ok (.importFile file, rest)
    | _ => .error ⟨.expectedDeclaration, keyword :: rest⟩

theorem length_fields {path : Option String} {tokens rest : List Token} {fs : List Field}
    (h : fields path tokens = .ok (fs, rest)) : rest.length < tokens.length := by
  fun_induction fields path tokens generalizing fs rest with
  | case1 tokens r ha =>
    cases h
    exact length_accept ha
  | case2 => cases h
  | case3 tokens ha first r hf ih =>
    obtain ⟨⟨others, r'⟩, ho, h⟩ := bind_eq_ok.1 h
    cases h
    have h1 := ih ho
    have h2 := length_field hf
    omega

theorem length_table {tokens rest : List Token} {t : Option String}
    (h : table tokens = .ok (t, rest)) : rest.length ≤ tokens.length := by
  unfold table at h
  split at h
  · cases h
    exact Nat.le_refl _
  · next inner hi =>
    obtain ⟨⟨w, r⟩, hv, h⟩ := bind_eq_ok.1 h
    cases h
    have h1 := length_accept hi
    have h2 := length_expect hv
    omega

theorem length_model {path : Option String} {keyword : Token} {tokens rest : List Token}
    {m : Model} (h : model path keyword tokens = .ok (m, rest)) :
    rest.length < tokens.length := by
  unfold model at h
  obtain ⟨⟨n, r⟩, hn, h⟩ := bind_eq_ok.1 h
  obtain ⟨⟨t, r1⟩, ht, h⟩ := bind_eq_ok.1 h
  obtain ⟨⟨b, r2⟩, hb, h⟩ := bind_eq_ok.1 h
  obtain ⟨⟨fs, r3⟩, hf, h⟩ := bind_eq_ok.1 h
  cases h
  have h1 := length_expect hn
  have h2 := length_table ht
  have h3 := length_expect hb
  have h4 := length_fields hf
  have h5 := length_skip .semicolon r3
  omega

theorem length_enumValues {path : Option String} {tokens rest : List Token}
    {vs : List (String × Trace)} (h : enumValues path tokens = .ok (vs, rest)) :
    rest.length < tokens.length := by
  fun_induction enumValues path tokens generalizing vs rest with
  | case1 => cases h
  | case2 =>
    cases h
    simp
  | case3 => cases h
  | case4 => cases h
  | case5 =>
    cases h
    simp
  | case6 t mark tail hb hi hc ih =>
    obtain ⟨⟨others, r⟩, ho, h⟩ := bind_eq_ok.1 h
    cases h
    have h1 := ih ho
    simp only [List.length_cons]
    omega
  | case7 t mark tail hb hi hc =>
    obtain ⟨⟨u, r⟩, he, h⟩ := bind_eq_ok.1 h
    cases h
    have h1 := length_expect he
    simp only [List.length_cons] at h1 ⊢
    omega
  | case8 => cases h

theorem length_enum {path : Option String} {keyword : Token} {tokens rest : List Token}
    {e : Enum} (h : enum path keyword tokens = .ok (e, rest)) :
    rest.length < tokens.length := by
  unfold enum at h
  obtain ⟨⟨n, r⟩, hn, h⟩ := bind_eq_ok.1 h
  obtain ⟨⟨b, r1⟩, hb, h⟩ := bind_eq_ok.1 h
  obtain ⟨⟨vs, r2⟩, hv, h⟩ := bind_eq_ok.1 h
  cases h
  have h1 := length_expect hn
  have h2 := length_expect hb
  have h3 := length_enumValues hv
  have h4 := length_skip .semicolon r2
  omega

theorem length_typeDef {path : Option String} {keyword : Token} {tokens rest : List Token}
    {t : TypeDef} (h : typeDef path keyword tokens = .ok (t, rest)) :
    rest.length < tokens.length := by
  unfold typeDef at h
  obtain ⟨⟨n, r⟩, hn, h⟩ := bind_eq_ok.1 h
  obtain ⟨⟨ty, r1⟩, ht, h⟩ := bind_eq_ok.1 h
  cases h
  have h1 := length_expect hn
  have h2 := length_type ht
  have h3 := length_skip .semicolon r1
  omega

theorem length_importFile {tokens rest : List Token} {file : Token}
    (h : importFile tokens = .ok (file, rest)) : rest.length < tokens.length := by
  unfold importFile at h
  obtain ⟨⟨n, r⟩, hn, h⟩ := bind_eq_ok.1 h
  cases h
  have h1 := length_expect hn
  have h2 := length_skip .semicolon r
  omega

/-- An item takes at least one token. -/
theorem length_item {path : Option String} {tokens rest : List Token} {i : Item}
    (h : item path tokens = .ok (i, rest)) : rest.length < tokens.length := by
  cases tokens with
  | nil => cases h
  | cons keyword tail =>
    simp only [item] at h
    split at h
    · obtain ⟨⟨m, r⟩, hm, h⟩ := bind_eq_ok.1 h
      cases h
      exact Nat.lt_succ_of_lt (length_model hm)
    · obtain ⟨⟨e, r⟩, he, h⟩ := bind_eq_ok.1 h
      cases h
      exact Nat.lt_succ_of_lt (length_enum he)
    · obtain ⟨⟨t, r⟩, ht, h⟩ := bind_eq_ok.1 h
      cases h
      exact Nat.lt_succ_of_lt (length_typeDef ht)
    · obtain ⟨⟨f, r⟩, hf, h⟩ := bind_eq_ok.1 h
      cases h
      exact Nat.lt_succ_of_lt (length_importFile hf)
    · cases h

/-- The items of a token list up to its end or to the first fault. -/
def items (path : Option String) (tokens : List Token) :
    List Item × Option SyntaxFailure :=
  match tokens with
  | [] => ([], none)
  | t :: rest =>
    match _h : item path (t :: rest) with
    | .error e => ([], some e)
    | .ok (first, after) =>
      let (others, failure) := items path after
      (first :: others, failure)
termination_by tokens.length
decreasing_by exact length_item _h

end SchemaLang.Grammar

namespace SchemaLang

namespace Outline

/-- The outline of a token stream in the source of a path. -/
def ofStream (path : Option String) (stream : TokenStream) : Outline :=
  let (items, failure) := Grammar.items path stream.tokens
  ⟨items, failure.toList.map (·.report path stream.finish)⟩

/-- The outline of a text in the source of a path. A text that does not scan has no
items. -/
def ofText (path : Option String) (text : String) : Outline :=
  let scan := Scan.ofText text path
  if scan.ok then ofStream path (.ofTokens scan.tokens) else ⟨[], scan.errors⟩

end Outline

end SchemaLang
