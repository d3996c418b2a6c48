import SchemaLang.Proofs.Number.Display
import SchemaLang.Proofs.Schema.Reading
import SchemaLang.Proofs.Token.Printing

/-!
# Displayed fields

A field is displayed as it is written in a source. Put into a model, the text is read back as
the same field (`Schema.ofText_render`), as long as the names in it are names, its numbers are
digits, and the text of its default has no character for which quotes have no escape but a code
point.
-/

namespace SchemaLang

open Grammar

/-! ## What is read back -/

/-- A word of the language. -/
structure IsWord (word : String) : Prop where
  starts : word.toList.head?.any Segment.isWordStart = true
  continued : word.toList.all Segment.isWordChar = true

/-- A word that is neither reserved nor a truth value. -/
structure IsName (name : String) : Prop extends IsWord name where
  unreserved : Token.Classifies name.toList .identifier

/-- A number that is displayed by its digits. -/
structure Binary64.IsPlain (x : Binary64) : Prop where
  finite : x.isFinite = true
  unsigned : x.isNegative = false

/-- Options of a type that read as what they are: text has to be a name, as there are no
quotes around it. -/
inductive Value.ReadableOption : Value → Prop where
  | name {name : String} (named : IsName name) : ReadableOption (.text name)
  | number {x : Binary64} (plain : x.IsPlain) : ReadableOption (.number x)
  | boolean (b : Bool) : ReadableOption (.boolean b)

/-- A character whose form between quotes is no code point. -/
def Text.Readable (c : Char) : Prop :=
  quoteChar c ≠ ['\\', '0'] ∧ ¬['\\', 'u', '\x7b'] <+: quoteChar c

instance : DecidablePred Text.Readable :=
  fun _ => inferInstanceAs (Decidable (_ ∧ _))

/-- A character between quotes is escaped, or it stands for itself. -/
theorem Text.Readable.cases {c : Char} (h : Readable c) :
    (∃ e, quoteChar c = ['\\', e] ∧ Segment.unescape e = c) ∨
      quoteChar c = [c] ∧ c ≠ '\x22' ∧ c ≠ '\\' := by
  unfold Readable at h
  revert h
  fun_cases quoteChar c with
  | case1 => exact fun h => absurd rfl h.1
  | case2 _ htab => exact fun _ => Or.inl ⟨'t', rfl, htab.symm⟩
  | case3 _ _ hreturn => exact fun _ => Or.inl ⟨'r', rfl, hreturn.symm⟩
  | case4 _ _ _ hfeed => exact fun _ => Or.inl ⟨'n', rfl, hfeed.symm⟩
  | case5 _ _ _ _ hquote => exact fun _ => Or.inl ⟨'\x22', rfl, hquote.symm⟩
  | case6 _ _ _ _ _ hescape => exact fun _ => Or.inl ⟨'\\', rfl, hescape.symm⟩
  | case7 =>
    rw [List.append_assoc]
    exact fun h => absurd (List.prefix_append _ _) h.2
  | case8 _ _ _ _ hquote hescape _ => exact fun _ => Or.inr ⟨rfl, hquote, hescape⟩

/-- Defaults that read as what they are. -/
inductive Value.ReadableDefault : Value → Prop where
  | text {text : String} (readable : ∀ c ∈ text.toList, Text.Readable c) :
    ReadableDefault (.text text)
  | number {x : Binary64} (plain : x.IsPlain) : ReadableDefault (.number x)
  | boolean (b : Bool) : ReadableDefault (.boolean b)

/-- Types that read as what they are, at every depth. -/
inductive FieldType.Readable : FieldType → Prop where
  | plain {name : String} {options : Option Value} (named : IsName name)
    (chosen : ∀ v ∈ options, v.ReadableOption) : Readable (.plain name options)
  | parametric {name : String} {parameter : FieldType} {options : Option Value}
    (named : IsName name) (typed : parameter.Readable)
    (chosen : ∀ v ∈ options, v.ReadableOption) : Readable (.parametric name parameter options)

/-- Fields that read as what they are. -/
structure Field.Readable (f : Field) : Prop where
  named : IsName f.name
  typed : f.type.Readable
  byDefault : ∀ v ∈ f.default, v.ReadableDefault

/-! ## Names -/

theorem IsName.kind_eq {name : String} (h : IsName name) :
    Token.Kind.ofWord name = .identifier := by
  have hclassified := Token.classifies_ofWord name.toList
  rw [String.ofList_toList] at hclassified
  generalize Token.Kind.ofWord name = kind at hclassified
  cases h.unreserved with
  | identifier hunreserved huntrue hunfalse =>
    cases hclassified with
    | keyword hspelled => exact absurd hspelled (hunreserved _)
    | boolean hspelled => exact absurd hspelled (not_or.mpr ⟨huntrue, hunfalse⟩)
    | identifier => rfl

theorem IsWord.isName {name : String} (h : IsWord name)
    (hkind : Token.Kind.ofWord name = .identifier) : IsName name where
  toIsWord := h
  unreserved := by
    have hclassified := Token.classifies_ofWord name.toList
    rwa [String.ofList_toList, hkind] at hclassified

namespace Segment

/-! ## Texts and their tokens -/

/-- A text falls into segments with tokens of a sort, wherever it stands. -/
def Prints (text : List Char) (P : Position → List Token → Prop) : Prop :=
  ∃ ss, Divides text ss ∧ ∀ p, P p (tokens p ss)

variable {text more : List Char} {P Q : Position → List Token → Prop}

theorem prints_nil : Prints [] fun _ ts => ts = [] :=
  ⟨[], divides_nil, fun _ => rfl⟩

theorem Prints.mono (h : Prints text P) (hmono : ∀ p ts, P p ts → Q p ts) : Prints text Q := by
  obtain ⟨ss, hdivides, htokens⟩ := h
  exact ⟨ss, hdivides, fun p => hmono p _ (htokens p)⟩

theorem Prints.join {s : Segment} (h : Prints text P) (hs : s.Isolated) (h' : Prints more Q) :
    Prints (text ++ (s.chars ++ more)) fun p ts => ∃ before after,
      ts = before ++ ((s.token? (p.advance text)).toList ++ after) ∧ P p before ∧
        Q (p.advance (text ++ s.chars)) after := by
  obtain ⟨ss, hdivides, htokens⟩ := h
  obtain ⟨ss', hdivides', htokens'⟩ := h'
  refine ⟨_, hdivides.join hs hdivides', fun p => ⟨_, _, ?_, htokens p, htokens' _⟩⟩
  rw [tokens_append, tokens_cons, ← hdivides.segments_eq, chars_segments,
    Position.advance_append]

/-- Texts with a mark between them. -/
theorem Prints.symbol (h : Prints text P) (m : Symbol) (h' : Prints more Q) :
    Prints (text ++ m.char :: more) fun p ts => ∃ before t after, ts = before ++ t :: after ∧
      t.kind = .symbol m ∧ P p before ∧ Q (p.advance (text ++ [m.char])) after :=
  (h.join (isolated_symbol m) h').mono fun _ _ ⟨before, after, hts, hbefore, hafter⟩ =>
    ⟨before, _, after, hts, rfl, hbefore, hafter⟩

/-- Texts with a space between them. -/
theorem Prints.space (h : Prints text P) (h' : Prints more Q) :
    Prints (text ++ ' ' :: more) fun p ts => ∃ before after, ts = before ++ after ∧
      P p before ∧ Q (p.advance (text ++ [' '])) after :=
  (h.join (isolated_skipped (by decide)) h').mono fun _ _ ⟨before, after, hts, hbefore, hafter⟩ =>
    ⟨before, after, hts, hbefore, hafter⟩

theorem Prints.symbol_before (h : Prints more Q) (m : Symbol) :
    Prints (m.char :: more) fun p ts => ∃ t after, ts = t :: after ∧ t.kind = .symbol m ∧
      Q (p.advance [m.char]) after :=
  (prints_nil.symbol m h).mono fun _ _ ⟨_, t, after, hts, ht, hnil, hafter⟩ =>
    ⟨t, after, by rw [hts, hnil, List.nil_append], ht, hafter⟩

theorem Prints.space_before (h : Prints more Q) :
    Prints (' ' :: more) fun p ts => Q (p.advance [' ']) ts :=
  (prints_nil.space h).mono fun _ _ ⟨_, _, hts, hnil, hafter⟩ => by
    rwa [hts, hnil, List.nil_append]

theorem Prints.scan {source : String} (h : Prints source.toList P) (path : Option String) :
    (Scan.ofText source path).ok = true ∧
      P .start (TokenStream.ofTokens (Scan.ofText source path).tokens).tokens := by
  obtain ⟨ss, hdivides, htokens⟩ := h
  rw [Scan.ok_iff, Scan.stream_tokens, hdivides.segments_eq]
  exact ⟨hdivides.closed, htokens .start⟩

/-! ## Single tokens -/

theorem prints_word {word : String} (h : IsWord word) :
    Prints word.toList fun p ts => ts = [.ofPosition (.ofWord word) word p] := by
  have hdivides : Divides word.toList [.word word.toList] := by
    obtain ⟨hstarts, hcontinued⟩ := h
    generalize word.toList = chars at hstarts hcontinued
    cases chars with
    | nil => cases hstarts
    | cons c rest =>
      rw [List.all_cons, Bool.and_eq_true, List.all_eq_true] at hcontinued
      exact (Lexeme.word c rest hstarts hcontinued.2).divides
  refine ⟨_, hdivides, fun p => ?_⟩
  rw [tokens_cons]
  simp [token?, tokens, place]

theorem prints_number {x : Binary64} (h : x.IsPlain) :
    Prints x.render.toList fun _ ts => ∃ t, ts = [t] ∧ IsLiteral t (.number x) := by
  obtain ⟨d, hwrites, -⟩ := Numeral.writes_render h.finite h.unsigned
  obtain ⟨c, rest, htext, hc, hrest⟩ := hwrites.exists_cons
  have hcontinued : ∀ e ∈ rest, isNumberChar e = true := by
    intro e he
    rw [isNumberChar, Bool.or_eq_true, decide_eq_true_eq]
    exact hrest e he
  have hdivides : Divides x.render.toList [.number x.render.toList] := by
    rw [htext]
    exact (Lexeme.number c rest hc hcontinued).divides
  refine ⟨_, hdivides, fun p => ⟨_, rfl, .number rfl ?_⟩⟩
  show Numeral.IsNumeral (String.ofList x.render.toList).toList x
  rw [String.toList_ofList]
  exact Numeral.isNumeral_render h.finite h.unsigned

/-- Between quotes a character is read back from its form, if that is no code point. -/
theorem content_quote {text : String} (h : ∀ c ∈ text.toList, Text.Readable c) :
    Content (text.toList.flatMap Text.quoteChar) text.toList := by
  refine content_flatMap fun c hc body content hbody => ?_
  rcases (h c hc).cases with ⟨e, hform, rfl⟩ | ⟨hform, hquote, hescape⟩
  · rw [hform]
    exact .escape hbody
  · rw [hform]
    exact .plain hquote hescape hbody

theorem prints_quoted {text : String} (h : ∀ c ∈ text.toList, Text.Readable c) :
    Prints (Text.quote text).toList fun _ ts => ∃ t, ts = [t] ∧ IsLiteral t (.text text) := by
  have hcontent := content_quote h
  have htext : (Text.quote text).toList =
      (quoted (text.toList.flatMap Text.quoteChar)).chars := String.toList_ofList
  rw [htext]
  refine ⟨_, divides_segment fun rest _ => .quoted hcontent rest, fun p => ⟨_, rfl, ?_⟩⟩
  have hlexeme : String.ofList (decode (text.toList.flatMap Text.quoteChar)) = text := by
    rw [hcontent.decode_eq, String.ofList_toList]
  show IsLiteral ⟨.string, String.ofList (decode _), p.line, p.offset⟩ (.text text)
  rw [hlexeme]
  exact .text rfl

theorem prints_boolean (b : Bool) :
    Prints (Value.boolean b).render.toList fun _ ts =>
      ∃ t, ts = [t] ∧ IsLiteral t (.boolean b) := by
  obtain ⟨hword, hkind, hvalue⟩ : IsWord (Value.boolean b).render ∧
      Token.Kind.ofWord (Value.boolean b).render = .boolean ∧
      decide (Keyword.lowerCase (Value.boolean b).render = "true") = b := by
    cases b
    · exact ⟨⟨rfl, rfl⟩, by decide, by decide⟩
    · exact ⟨⟨rfl, rfl⟩, by decide, by decide⟩
  refine (prints_word hword).mono fun p ts hts => ⟨_, hts, ?_⟩
  have hliteral : IsLiteral
      (.ofPosition (.ofWord (Value.boolean b).render) (Value.boolean b).render p)
      (.boolean (Keyword.lowerCase (Value.boolean b).render = "true")) := .boolean hkind
  rwa [hvalue] at hliteral

theorem prints_keyword (k : Keyword) :
    Prints k.name.toList fun p ts => ts = [.ofPosition (.keyword k) k.name p] := by
  have hword : IsWord k.name := by
    rcases k with kind | _ | v
    · cases kind <;> exact ⟨rfl, rfl⟩
    · exact ⟨rfl, rfl⟩
    · cases v <;> exact ⟨rfl, rfl⟩
  have hprints := prints_word hword
  rwa [Token.Kind.ofWord, Keyword.ofWord?_name] at hprints

theorem prints_name {name : String} (h : IsName name) :
    Prints name.toList fun p ts => ts = [.ofPosition .identifier name p] := by
  have hword := prints_word h.toIsWord
  rwa [h.kind_eq] at hword

/-! ## Options, types and fields -/

theorem prints_option {v : Value} (h : v.ReadableOption) :
    Prints v.render.toList fun _ ts => ∃ t, ts = [t] ∧ IsOption t v := by
  cases h with
  | name named => exact (prints_name named).mono fun p ts hts => ⟨_, hts, .name rfl⟩
  | number plain =>
    exact (prints_number plain).mono fun _ _ ⟨t, hts, ht⟩ => ⟨t, hts, .literal ht⟩
  | boolean b =>
    exact (prints_boolean b).mono fun _ _ ⟨t, hts, ht⟩ => ⟨t, hts, .literal ht⟩

/-- A text with options behind it. -/
theorem Prints.options (h : Prints text P) {options : Option Value}
    (hoptions : ∀ v ∈ options, v.ReadableOption) :
    Prints (text ++ (FieldType.renderOptions options).toList) fun p ts => ∃ before after,
      ts = before ++ after ∧ P p before ∧ OptionsPhrase after options := by
  cases options with
  | none =>
    simpa [FieldType.renderOptions] using h.mono fun p ts hts => ⟨ts, [], by simp, hts, .absent⟩
  | some v =>
    have hclosed := (prints_option (hoptions v rfl)).symbol .parenClose prints_nil
    have htext : text ++ (FieldType.renderOptions (some v)).toList =
        text ++ Symbol.parenOpen.char :: (v.render.toList ++ Symbol.parenClose.char :: []) := by
      simp [FieldType.renderOptions, Symbol.char]
    rw [htext]
    refine (h.symbol .parenOpen hclosed).mono ?_
    rintro p _ ⟨before, opening, _, rfl, hopens, hbefore, _, closing, _, rfl, hcloses,
      ⟨t, rfl, ht⟩, rfl⟩
    exact ⟨before, _, rfl, hbefore, .present hopens ht hcloses⟩

theorem prints_type {t : FieldType} (h : t.Readable) :
    Prints t.render.toList fun _ ts => TypePhrase ts t := by
  induction h with
  | @plain name options named chosen =>
    have htext : (FieldType.plain name options).render.toList =
        name.toList ++ (FieldType.renderOptions options).toList := String.toList_append
    rw [htext]
    refine ((prints_name named).options chosen).mono ?_
    rintro p _ ⟨_, after, rfl, rfl, hafter⟩
    exact .plain rfl hafter
  | @parametric name parameter options named typed chosen ih =>
    have htext : (FieldType.parametric name parameter options).render.toList =
        (name.toList ++ Symbol.lessThan.char :: (parameter.render.toList ++
          Symbol.greaterThan.char :: [])) ++ (FieldType.renderOptions options).toList := by
      simp [FieldType.render, Symbol.char]
    have hparameter := (prints_name named).symbol .lessThan (ih.symbol .greaterThan prints_nil)
    rw [htext]
    refine (hparameter.options chosen).mono ?_
    rintro p _ ⟨_, after, rfl, ⟨_, opening, _, rfl, hopens, rfl, inner, closing, _, rfl, hcloses,
      hinner, rfl⟩, hafter⟩
    have hphrase : TypePhrase
        (.ofPosition .identifier name p :: opening :: (inner ++ closing :: after))
        (.parametric name parameter options) := .parametric rfl hopens hinner hcloses hafter
    simpa using hphrase

theorem prints_default {v : Value} (h : v.ReadableDefault) :
    Prints v.renderQuoted.toList fun _ ts => ∃ t, ts = [t] ∧ IsLiteral t v := by
  cases h with
  | text readable => exact prints_quoted readable
  | number plain => exact prints_number plain
  | boolean b => exact prints_boolean b

/-- The text of a default, with the mark that stands before it. -/
def defaultText (default : Option Value) : List Char :=
  match default with
  | some v => ' ' :: Symbol.equals.char :: ' ' :: v.renderQuoted.toList
  | none => []

theorem Prints.default (h : Prints text P) {default : Option Value}
    (hdefault : ∀ v ∈ default, v.ReadableDefault) :
    Prints (text ++ defaultText default) fun p ts => ∃ before after,
      ts = before ++ after ∧ P p before ∧ DefaultPhrase after default := by
  cases default with
  | none =>
    simpa [defaultText] using h.mono fun p ts hts => ⟨ts, [], by simp, hts, .absent⟩
  | some v =>
    have hvalue := (prints_default (hdefault v rfl)).space_before.symbol_before .equals
    refine (h.space hvalue).mono ?_
    rintro p _ ⟨before, _, rfl, hbefore, mark, _, rfl, hmarked, t, rfl, ht⟩
    exact ⟨before, _, rfl, hbefore, .present hmarked ht⟩

theorem prints_field {f : Field} (h : f.Readable) (path : Option String) :
    Prints f.render.toList fun p ts => ∀ closing : Token, closing.kind = .symbol .semicolon →
      FieldPhrase path (ts ++ [closing]) { f with trace := .ofPosition p path } := by
  have htext : f.render.toList = (f.visibility.name.toList ++
      ' ' :: (f.type.render.toList ++ ' ' :: f.name.toList)) ++ defaultText f.default := by
    unfold Field.render
    cases f.default <;> simp [defaultText, Symbol.char, toString]
  have hdeclared := (prints_keyword (.visibility f.visibility)).space
    ((prints_type h.typed).space (prints_name h.named))
  rw [htext]
  refine (hdeclared.default h.byDefault).mono ?_
  rintro p _ ⟨_, defaulted, rfl, ⟨_, _, rfl, rfl, typed, _, rfl, htyped, rfl⟩, hdefaulted⟩ closing
    hcloses
  simpa [Token.ofPosition, Token.trace, Trace.ofPosition] using
    (.intro (.present rfl) htyped rfl hdefaulted hcloses rfl : FieldPhrase path _ _)

theorem isName_m : IsName "M" :=
  IsWord.isName ⟨rfl, rfl⟩ (by decide)

/-- A model of one field. -/
theorem prints_model {f : Field} (h : f.Readable) (path : Option String) :
    Prints ("model M \x7b " ++ f.render ++ "; \x7d").toList fun p ts => ModelPhrase path ts
      ⟨"M", none, .ofList [(f.name, { f with
        trace := .ofPosition (p.advance "model M \x7b ".toList) path })], .ofPosition p path,
        none⟩ := by
  have htext : ("model M \x7b " ++ f.render ++ "; \x7d").toList =
      (Keyword.declare .model).name.toList ++ ' ' :: ("M".toList ++ ' ' ::
        Symbol.braceOpen.char :: ' ' :: (f.render.toList ++ Symbol.semicolon.char ::
          ' ' :: Symbol.braceClose.char :: [])) := by
    simp [Keyword.name, DeclarationKind.name, Symbol.char]
  have hending := (prints_nil.symbol_before .braceClose).space_before
  have hmembers := (prints_field h path).symbol .semicolon hending
  have hmodel := (prints_keyword (.declare .model)).space
    ((prints_name isName_m).space (hmembers.space_before.symbol_before .braceOpen))
  rw [htext]
  refine hmodel.mono ?_
  rintro p _ ⟨_, _, rfl, rfl, _, _, rfl, rfl, opening, _, rfl, hopens, members, semicolon, _, rfl,
    hsemicolon, hfield, closing, _, rfl, hcloses, rfl⟩
  have hplace : (((p.advance ((Keyword.declare .model).name.toList ++ [' '])).advance
      ("M".toList ++ [' '])).advance [Symbol.braceOpen.char]).advance [' '] =
        p.advance "model M \x7b ".toList := rfl
  rw [hplace] at hfield
  have hlists := Sequence.cons (hfield semicolon hsemicolon) .nil
  simpa [Token.ofPosition, Token.trace, Trace.ofPosition] using
    (.intro rfl rfl .absent hopens hlists hcloses .absent (OrderedMap.collects_ofList _) :
      ModelPhrase path
        (.ofPosition (.keyword (.declare .model)) (Keyword.declare .model).name p :: _) _)

end Segment

/-- A field that is displayed, put into a model, is read back: the model has this field and no
other, with the same name, visibility, type and default. -/
theorem Schema.ofText_render {f : Field} (h : f.Readable) (importer : Option Importer)
    (path : Option String) :
    ofText importer path ("model M \x7b " ++ f.render ++ "; \x7d") = .ok
      { models := .ofList [("M", ⟨"M", none,
          .ofList [(f.name, { f with trace := ⟨1, 11, path⟩ })], ⟨1, 1, path⟩, none⟩)]
        enums := .empty
        typedefs := .empty
        redeclared := [] } := by
  obtain ⟨hok, hphrase⟩ := (Segment.prints_model h path).scan path
  have hunit := Sequence.cons (ItemPhrase.model hphrase) .nil
  rw [List.append_nil] at hunit
  have houtline := Outline.ofText_eq_iff.mpr ⟨hok, hunit⟩
  rw [ofText_ok_iff, houtline, readOutline, readItems, readItems]
  rfl

/-- An array of custom values, with options at both depths and a default that needs escapes. -/
def quotedField : Field where
  name := "xs"
  type := .parametric "array" (.plain "custom" (some (.text "Foo")))
    (some (.number ⟨0x3ff8000000000000⟩))
  visibility := .secretField
  default := some (.text "say \"hi\"\n")
  trace := ⟨7, 3, none⟩

theorem readable_quotedField : quotedField.Readable where
  named := IsWord.isName ⟨rfl, rfl⟩ (by decide)
  typed := .parametric (IsWord.isName ⟨rfl, rfl⟩ (by decide))
    (.plain (IsWord.isName ⟨rfl, rfl⟩ (by decide)) fun _ hv =>
      Option.some.inj hv ▸ .name (IsWord.isName ⟨rfl, rfl⟩ (by decide)))
    fun _ hv => Option.some.inj hv ▸ .number ⟨by decide, by decide⟩
  byDefault := by
    have hreadable : "say \"hi\"\n".toList.all (fun c => Text.Readable c) = true := by decide
    rw [List.all_eq_true] at hreadable
    exact fun _ hv => Option.some.inj hv ▸ .text fun c hc => of_decide_eq_true (hreadable c hc)

theorem Schema.ofText_render_quotedField :
    quotedField.Readable ∧
      quotedField.render = "secret array<custom(Foo)>(1.5) xs = \"say \\\"hi\\\"\\n\"" ∧
      ofText none none ("model M \x7b " ++ quotedField.render ++ "; \x7d") = .ok
        { models := .ofList [("M", ⟨"M", none,
            .ofList [("xs", { quotedField with trace := ⟨1, 11, none⟩ })], ⟨1, 1, none⟩, none⟩)]
          enums := .empty
          typedefs := .empty
          redeclared := [] } :=
  ⟨readable_quotedField, by decide +kernel, ofText_render readable_quotedField none none⟩

end SchemaLang
