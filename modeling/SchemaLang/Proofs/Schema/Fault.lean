import SchemaLang.Proofs.Outline.Viability
import SchemaLang.Proofs.Schema.Reading
import SchemaLang.Proofs.Token.Lexical

/-!
# Reports on faulty sources

A source that is refused is refused with one report. It points into the source that is at
fault, which may be one that others import (`ofText_report`), and a fault of syntax is found
as early as it can be (`readTokens_report`).
-/

namespace SchemaLang

/-! ## Places in a text -/

/-- The place of a character of a text, or of its end. -/
def Position.IsIn (p : Position) (text : List Char) : Prop :=
  ∃ before, before <+: text ∧ p = behind before

theorem Position.behind_isIn (before after : List Char) : (behind before).IsIn (before ++ after) :=
  ⟨before, List.prefix_append _ _, rfl⟩

theorem Segment.isIn_of_mem_place {before : List Char} {ss : List Segment} {p : Position}
    {s : Segment} (h : (p, s) ∈ place (.behind before) ss) :
    p.IsIn (before ++ ss.flatMap chars) := by
  induction ss generalizing before with
  | nil => cases h
  | cons first rest ih =>
    rcases List.mem_cons.mp h with heq | h
    · cases heq
      exact Position.behind_isIn _ _
    · rw [Position.behind_advance] at h
      rw [List.flatMap_cons, ← List.append_assoc]
      exact ih h

/-- A report on a source and a place in its text. -/
structure Diagnostic.PointsInto (e : Diagnostic) (path : Option String) (text : String) :
    Prop where
  path : e.path = path
  place : (Position.mk e.line e.offset).IsIn text.toList

namespace Scan

variable {source : String} {path : Option String}

theorem isIn_of_mem_place {p : Position} {s : Segment}
    (h : (p, s) ∈ Segment.place .start (Segment.segments source.toList)) :
    p.IsIn source.toList := by
  have hin : p.IsIn ([] ++ (Segment.segments source.toList).flatMap Segment.chars) :=
    Segment.isIn_of_mem_place h
  rwa [List.nil_append, Segment.chars_segments] at hin

theorem isIn_of_mem_tokens {t : Token} (h : t ∈ (ofText source path).tokens) :
    t.position.IsIn source.toList := by
  rcases List.mem_append.mp h with h | h
  · obtain ⟨⟨p, s⟩, hplace, ht⟩ := List.mem_filterMap.mp h
    rw [Segment.position_of_token? ht]
    exact isIn_of_mem_place hplace
  · rw [List.mem_singleton.mp h, Position.advance_start]
    have hend := Position.behind_isIn source.toList []
    rwa [List.append_nil] at hend

/-- Scanning finds one fault at most. -/
theorem errors_cases (source : String) (path : Option String) :
    (ofText source path).errors = [] ∨
      ∃ p, (ofText source path).errors = [unterminatedString path p] ∧ p.IsIn source.toList := by
  have hsplits := Segment.splits_segments source.toList
  rcases List.eq_nil_or_concat (Segment.segments source.toList) with hnil | ⟨init, last, hss⟩
  · left
    simp [ofText, hnil, Segment.place]
  · rw [List.concat_eq_append] at hss
    have htext := Segment.chars_segments source.toList
    rw [hss, List.flatMap_append] at htext
    rw [hss] at hsplits
    rw [errors_of_splits path hsplits]
    split
    · right
      refine ⟨_, rfl, ?_⟩
      rw [← htext]
      exact Position.behind_isIn _ _
    · exact Or.inl rfl

end Scan

/-! ## Faults of one source -/

namespace TokenStream

/-- The end of the input is where one of the tokens stands. -/
theorem finish_ofTokens {tokens : List Token} (h : tokens ≠ []) :
    ∃ t ∈ tokens, (ofTokens tokens).finish = t.position := by
  unfold ofTokens
  dsimp only
  split
  · next t ht => exact ⟨t, List.mem_of_find?_eq_some ht, rfl⟩
  · refine ⟨tokens.getLast h, List.getLast_mem h, ?_⟩
    rw [List.getLast?_eq_some_getLast h]
    rfl

theorem tokens_ofTokens_subset (tokens : List Token) : (ofTokens tokens).tokens ⊆ tokens :=
  (List.takeWhile_sublist _).subset

end TokenStream

namespace Outline

variable {path : Option String} {text : String}

theorem isIn_of_mem_stream {t : Token}
    (h : t ∈ (TokenStream.ofTokens (Scan.ofText text path).tokens).tokens) :
    t.position.IsIn text.toList :=
  Scan.isIn_of_mem_tokens (TokenStream.tokens_ofTokens_subset _ h)

/-- An outline has one fault at most, and the fault is in the text. -/
theorem ofText_errors_cases (path : Option String) (text : String) :
    (ofText path text).errors = [] ∨ ∃ e, (ofText path text).errors = [e] ∧
      e.code.kind ≠ .semantic ∧ e.PointsInto path text := by
  by_cases hnone : (ofText path text).errors = []
  · exact Or.inl hnone
  right
  unfold ofText at hnone ⊢
  dsimp only at hnone ⊢
  split at hnone
  · next hok =>
    rw [if_pos hok]
    obtain ⟨e, herrors, hkind, hpath, hfirst⟩ := ofStream_errors path hnone
    refine ⟨e, herrors, by rw [hkind]; decide, hpath, ?_⟩
    generalize hp : Position.mk e.line e.offset = p at hfirst
    cases hfirst with
    | @token before after x hsplit =>
      have hx : x ∈ (TokenStream.ofTokens (Scan.ofText text path).tokens).tokens := by
        rw [hsplit]
        exact List.mem_append_right _ List.mem_cons_self
      exact isIn_of_mem_stream hx
    | finish =>
      have hne : (Scan.ofText text path).tokens ≠ [] :=
        List.append_ne_nil_of_right_ne_nil _ (List.cons_ne_nil _ _)
      obtain ⟨t, ht, hfinish⟩ := TokenStream.finish_ofTokens hne
      rw [hfinish]
      exact Scan.isIn_of_mem_tokens ht
  · next hok =>
    rw [if_neg hok]
    rcases Scan.errors_cases text path with hnil | ⟨p, herrors, hp⟩
    · exact absurd hnil hnone
    · have hkind : Diagnostic.Code.unterminatedString.kind ≠ .semantic := by decide
      exact ⟨_, herrors, hkind, rfl, hp⟩

/-- The path that an import asks for stands in the text. -/
theorem isIn_of_importFile_mem {file : Token} (h : .importFile file ∈ (ofText path text).items) :
    file.position.IsIn text.toList := by
  unfold ofText at h
  dsimp only at h
  split at h
  · obtain ⟨phrase, rest, hsplit, hunit⟩ := ofStream_items path _
    obtain ⟨inner, hinner, hsub⟩ := hunit.exists_of_mem h
    have hfile : file ∈ inner := by
      cases hinner with
      | inclusion hphrase =>
        cases hphrase
        simp
    have hstream : file ∈ (TokenStream.ofTokens (Scan.ofText text path).tokens).tokens := by
      rw [hsplit]
      exact List.mem_append_left _ (hsub hfile)
    exact isIn_of_mem_stream hstream
  · cases h

end Outline

namespace Schema

/-! ## Faults of a source and those that it imports -/

/-- The sources that reading one can lead to: the source itself, and whatever the imports in
one of them are answered with. -/
inductive Reached (resolve : Option String → String → Option ImportedSource)
    (path : Option String) (text : String) : Option String → String → Prop where
  | root : Reached resolve path text path text
  | imported {current : Option String} {within : String} {file : Token} {source : ImportedSource}
    (reached : Reached resolve path text current within)
    (asked : .importFile file ∈ (Outline.ofText current within).items)
    (found : resolve current file.lexeme = some source) :
    Reached resolve path text (some source.path) source.text

/-- Nothing to report, or one fault of one of the sources that are reached. -/
def ReportsOne (resolve : Option String → String → Option ImportedSource)
    (path : Option String) (text : String) (errors : List Diagnostic) : Prop :=
  errors = [] ∨ ∃ e current within, errors = [e] ∧ e.code.kind ≠ .semantic ∧
    Reached resolve path text current within ∧ e.PointsInto current within

/-- What ends the reading of a source that is reached is no fault, one of its own, or one of a
source that it imports. The induction follows the reading into imported sources. -/
theorem readItems_reportsOne {importer : Option Importer} {path : Option String} {text : String}
    (chain : List String) (current : Option String) (ending : List Diagnostic) (draft : Draft)
    (items : List Item) :
    ∀ within, Reached (importer.getD .none).resolve path text current within →
      items ⊆ (Outline.ofText current within).items →
      (Outline.ofText current within).errors = ending →
      ReportsOne (importer.getD .none).resolve path text
        (readItems importer chain current ending draft items).2 := by
  fun_induction readItems importer chain current ending draft items with
  | case1 chain current ending draft =>
    rintro within hreached - rfl
    rcases Outline.ofText_errors_cases current within with hnone | ⟨e, herrors, hkind, hplace⟩
    · exact Or.inl hnone
    · exact Or.inr ⟨e, current, within, herrors, hkind, hreached, hplace⟩
  | case2 chain current ending draft d rest ih =>
    intro within hreached hitems hending
    exact ih within hreached (List.subset_of_cons_subset hitems) hending
  | case3 chain current ending draft file rest e hmissing =>
    intro within hreached hitems hending
    have hfile := Outline.isIn_of_importFile_mem (hitems List.mem_cons_self)
    have hkind : e.code.kind ≠ .semantic := by
      cases e <;> simp [ImportError.code, Diagnostic.Code.kind]
    exact Or.inr ⟨_, current, within, rfl, hkind, hreached, rfl, hfile⟩
  | case4 chain current ending draft file rest source hsource outline inner hok _ _ ihRest =>
    intro within hreached hitems hending
    exact ihRest within hreached (List.subset_of_cons_subset hitems) hending
  | case5 chain current ending draft file rest source hsource outline inner hfaulty ihInner =>
    intro within hreached hitems hending
    have hinner := hreached.imported (hitems List.mem_cons_self) (findImport_ok hsource).1
    exact ihInner source.text hinner (List.Subset.refl _) rfl

/-- A text that is refused is refused with one report, which is of words, of syntax or of an
import, never of what declarations mean. It carries the path of the text itself or of a source
reached through imports, and points to a character of the text of that very source or to its
end. -/
theorem ofText_report {importer : Option Importer} {path : Option String} {text : String}
    {errors : List Diagnostic} (h : ofText importer path text = .error errors) :
    ∃ e current within, errors = [e] ∧ e.code.kind ≠ .semantic ∧
      Reached (importer.getD .none).resolve path text current within ∧ e.path = current ∧
      ∃ before after, within.toList = before ++ after ∧
        (⟨e.line, e.offset⟩ : Position) = .behind before := by
  obtain ⟨hne, hread⟩ := ofText_error_iff.mp h
  have hroot : Reached (importer.getD .none).resolve path text path text := .root
  have hreports : ReportsOne (importer.getD .none).resolve path text
      (readOutline importer path (.ofText path text)).2 :=
    readItems_reportsOne [] path _ .empty _ text hroot (List.Subset.refl _) rfl
  rw [hread] at hreports
  rcases hreports with hnone | ⟨e, current, within, herrors, hkind, hreached, hpath, hplace⟩
  · exact absurd hnone hne
  · obtain ⟨before, ⟨after, hwithin⟩, hposition⟩ := hplace
    exact ⟨e, current, within, herrors, hkind, hreached, hpath, before, after, hwithin.symm,
      hposition⟩

/-- The answers of an importer that knows one source, in which a quote is missing. -/
def faultySource (_ : Option String) (_ : String) : Option ImportedSource :=
  some ⟨"a", "model A \x7b\n  string(8) x = \"y;\n\x7d"⟩

/-- A fault in a source that is imported is reported there, not at the import. -/
theorem ofText_report_faultySource :
    let importer := Importer.ofPaths faultySource ["a"] (by rintro _ _ _ ⟨⟩; simp)
    ∃ errors, ofText (some importer) none "import \"a\"" = .error errors ∧
      ∃ e within, errors = [e] ∧ e.code = .unterminatedString ∧ e.path = some "a" ∧
        Reached faultySource none "import \"a\"" (some "a") within ∧
        ∃ before after, within.toList = before ++ after ∧
          (⟨2, 17⟩ : Position) = .behind before := by
  intro importer
  have hread : ofText (some importer) none "import \"a\"" =
      .error [⟨.unterminatedString, "string not terminated", 2, 17, some "a"⟩] := by
    cbv
  obtain ⟨e, current, within, herrors, -, hreached, hpath, hplace⟩ := ofText_report hread
  cases herrors
  cases hpath
  exact ⟨_, hread, _, within, rfl, rfl, rfl, hreached, hplace⟩

/-! ## Faults of syntax are found early -/

/-- Tokens without imports that are refused are refused with one report, which is of syntax
and stands at the first token that no unit begins with, given the tokens before it: these can
be completed to a unit, these and the token cannot. When all tokens can be completed it stands
at the end of the input. There is only one such place. -/
theorem readTokens_report {importer : Option Importer} {path : Option String}
    {tokens : List Token}
    (himports : ∀ t ∈ tokens.takeWhile (·.kind ≠ .endOfInput), t.kind ≠ .keyword .importFile)
    (hfaulty : (readTokens importer path tokens).2 ≠ []) :
    ∃ e, (readTokens importer path tokens).2 = [e] ∧ e.code.kind = .syntactic ∧ e.path = path ∧
      ∀ p, Grammar.FirstUnviable path (.ofTokens tokens) p ↔ p = ⟨e.line, e.offset⟩ := by
  obtain ⟨-, -, -, herrors⟩ := readTokens_of_no_imports importer path himports
  rw [herrors] at hfaulty ⊢
  obtain ⟨e, hone, hkind, hpath, hfirst⟩ := Outline.ofStream_errors path hfaulty
  refine ⟨e, hone, hkind, hpath, fun p => ⟨fun hp => hp.unique hfirst, ?_⟩⟩
  rintro rfl
  exact hfirst

/-- The tokens of an enum without a comma between its values. -/
def unseparatedTokens : List Token :=
  [⟨.keyword (.declare .enum), "enum", 1, 1⟩, ⟨.identifier, "E", 1, 6⟩,
    ⟨.symbol .braceOpen, "\x7b", 1, 8⟩, ⟨.identifier, "A", 1, 10⟩, ⟨.identifier, "B", 1, 12⟩,
    ⟨.symbol .braceClose, "\x7d", 1, 14⟩, ⟨.endOfInput, "", 1, 15⟩]

/-- A missing comma is found at the value behind it. -/
theorem readTokens_report_unseparated :
    (∀ t ∈ unseparatedTokens.takeWhile (·.kind ≠ .endOfInput),
      t.kind ≠ .keyword .importFile) ∧
    (readTokens none none unseparatedTokens).2 ≠ [] ∧
    ∀ p, Grammar.FirstUnviable none (.ofTokens unseparatedTokens) p ↔ p = ⟨1, 12⟩ := by
  have himports : ∀ t ∈ unseparatedTokens.takeWhile (·.kind ≠ .endOfInput),
      t.kind ≠ .keyword .importFile := by
    decide
  have hitems : Grammar.items none (TokenStream.ofTokens unseparatedTokens).tokens =
      ([], some ⟨.expectedToken (.symbol .braceClose),
        [⟨.identifier, "B", 1, 12⟩, ⟨.symbol .braceClose, "\x7d", 1, 14⟩]⟩) := by
    cbv
  have hread : (readTokens none none unseparatedTokens).2 =
      [.ofTrace .unexpectedToken
        ((SyntaxError.expectedToken (.symbol .braceClose)).message .identifier) ⟨1, 12, none⟩] := by
    rw [readTokens, readOutline, Outline.ofStream, hitems, readItems]
    rfl
  have hfaulty : (readTokens none none unseparatedTokens).2 ≠ [] := by
    rw [hread]
    exact List.cons_ne_nil _ _
  obtain ⟨e, hone, -, -, hfirst⟩ := readTokens_report himports hfaulty
  cases hread.symm.trans hone
  exact ⟨himports, hfaulty, hfirst⟩

end Schema

end SchemaLang
