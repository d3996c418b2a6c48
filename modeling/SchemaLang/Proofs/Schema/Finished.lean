import Mathlib
import SchemaLang.Proofs.Outline.Lookahead
import SchemaLang.Schema.Read

/-!
# What a refused source leaves

The reading of a token list stops at the first top-level construct that fails. The schema read
so far is that of the constructs before it, as a reading of them alone gives it
(`readTokens_finished`): nothing of the construct that fails is in it, nor of a source that it
imports.
-/

namespace SchemaLang

namespace Schema

variable {importer : Option Importer} {path : Option String} {finish : Position}
  {tokens after : List Token} {draft : Draft}

/-! ## Reading construct by construct -/

/-- Reads tokens on top of a draft as the source of a path. -/
def readOn (importer : Option Importer) (path : Option String) (finish : Position) (draft : Draft)
    (tokens : List Token) : Draft × List Diagnostic :=
  let outline := Outline.ofStream path ⟨tokens, finish⟩
  readItems importer [] path outline.errors draft outline.items

/-- What reading the source of an import gives. -/
def readImport (importer : Option Importer) (path : Option String) (source : ImportedSource) :
    Draft × List Diagnostic :=
  readItems importer path.toList (some source.path) source.outline.errors .empty
    source.outline.items

theorem readTokens_eq (importer : Option Importer) (path : Option String) (tokens : List Token) :
    readTokens importer path tokens =
      ((readOn importer path (TokenStream.ofTokens tokens).finish .empty
          (tokens.takeWhile (·.kind ≠ .endOfInput))).1.schema,
        (readOn importer path (TokenStream.ofTokens tokens).finish .empty
          (tokens.takeWhile (·.kind ≠ .endOfInput))).2) :=
  rfl

theorem readOn_nil : readOn importer path finish draft [] = (draft, []) := by
  simp [readOn, Outline.ofStream, Grammar.items, readItems]

theorem readOn_fault {t : Token} {tail : List Token} {f : SyntaxFailure}
    (h : Grammar.item path (t :: tail) = .error f) :
    readOn importer path finish draft (t :: tail) = (draft, [f.report path finish]) := by
  rw [readOn, Outline.ofStream, Grammar.items_of_fault h, readItems]
  rfl

/-- A construct is read, and then what follows it. -/
theorem ofStream_of_item {i : Item} (h : Grammar.item path tokens = .ok (i, after)) :
    Outline.ofStream path ⟨tokens, finish⟩ =
      ⟨i :: (Outline.ofStream path ⟨after, finish⟩).items,
        (Outline.ofStream path ⟨after, finish⟩).errors⟩ := by
  rw [Outline.ofStream, Grammar.items_of_item h]
  rfl

theorem readOn_declaration {d : Declaration}
    (h : Grammar.item path tokens = .ok (.declaration d, after)) :
    readOn importer path finish draft tokens =
      readOn importer path finish (draft.declare d) after := by
  rw [readOn, ofStream_of_item h, readItems]
  rfl

theorem readOn_unfound {file : Token} {e : ImportError}
    (h : Grammar.item path tokens = .ok (.importFile file, after))
    (hmissing : findImport importer [] path file.lexeme = .error e) :
    readOn importer path finish draft tokens = (draft, [e.report file path]) := by
  rw [readOn, ofStream_of_item h, readItems]
  split
  · next e' he' =>
    cases he'.symm.trans hmissing
    rfl
  · next source hsource => cases hsource.symm.trans hmissing

theorem readOn_found {file : Token} {source : ImportedSource}
    (h : Grammar.item path tokens = .ok (.importFile file, after))
    (hfound : findImport importer [] path file.lexeme = .ok source) :
    readOn importer path finish draft tokens =
      if (readImport importer path source).2 = [] then
        readOn importer path finish (draft.addImport (readImport importer path source).1.schema)
          after
      else (draft, (readImport importer path source).2) := by
  rw [readOn, ofStream_of_item h, readItems]
  split
  · next e he => cases he.symm.trans hfound
  · next source' hsource =>
    cases hsource.symm.trans hfound
    rfl

/-! ## The first failure -/

/-- What is wrong with the top-level construct at the head of the tokens: it is malformed, or
it is an import, and what it asks for cannot be had or is refused. -/
inductive Fails (importer : Option Importer) (path : Option String) (finish : Position)
    (tokens : List Token) : List Diagnostic → Prop where
  | malformed {f : SyntaxFailure} (begun : tokens ≠ [])
    (fault : Grammar.item path tokens = .error f) :
    Fails importer path finish tokens [f.report path finish]
  | unfound {file : Token} {after : List Token} {e : ImportError}
    (read : Grammar.item path tokens = .ok (.importFile file, after))
    (missing : findImport importer [] path file.lexeme = .error e) :
    Fails importer path finish tokens [e.report file path]
  | refused {file : Token} {after : List Token} {source : ImportedSource}
    (read : Grammar.item path tokens = .ok (.importFile file, after))
    (found : findImport importer [] path file.lexeme = .ok source)
    (faulty : (readImport importer path source).2 ≠ []) :
    Fails importer path finish tokens (readImport importer path source).2

/-- The tokens of the constructs before the first one that fails, and what is wrong with it. -/
inductive StopsBehind (importer : Option Importer) (path : Option String) (finish : Position) :
    List Token → List Token → List Diagnostic → Prop where
  | here {tokens : List Token} {errors : List Diagnostic}
    (fails : Fails importer path finish tokens errors) :
    StopsBehind importer path finish tokens [] errors
  | later {phrase after before : List Token} {i : Item} {errors : List Diagnostic}
    (read : Grammar.item path (phrase ++ after) = .ok (i, after))
    (passes : ∀ es, ¬Fails importer path finish (phrase ++ after) es)
    (others : StopsBehind importer path finish after before errors) :
    StopsBehind importer path finish (phrase ++ after) (phrase ++ before) errors

theorem StopsBehind.isPrefix {before : List Token} {errors : List Diagnostic}
    (h : StopsBehind importer path finish tokens before errors) : before <+: tokens := by
  induction h with
  | here => exact List.nil_prefix
  | later _ _ _ ih => exact (List.prefix_append_right_inj _).mpr ih

/-- A declaration that can be read is no failure. -/
theorem not_fails_declaration {d : Declaration}
    (h : Grammar.item path tokens = .ok (.declaration d, after)) (errors : List Diagnostic) :
    ¬Fails importer path finish tokens errors := by
  intro hfails
  cases hfails with
  | malformed _ hfault => cases hfault.symm.trans h
  | unfound hread => cases hread.symm.trans h
  | refused hread => cases hread.symm.trans h

theorem not_fails_import {file : Token} {source : ImportedSource}
    (h : Grammar.item path tokens = .ok (.importFile file, after))
    (hfound : findImport importer [] path file.lexeme = .ok source)
    (hok : (readImport importer path source).2 = []) (errors : List Diagnostic) :
    ¬Fails importer path finish tokens errors := by
  intro hfails
  cases hfails with
  | malformed _ hfault => cases hfault.symm.trans h
  | unfound hread hmissing =>
    cases hread.symm.trans h
    cases hmissing.symm.trans hfound
  | refused hread hfound' hfaulty =>
    cases hread.symm.trans h
    cases hfound'.symm.trans hfound
    exact hfaulty hok

/-- Reading that stops has read the constructs before the first failure, as on their own. -/
theorem readOn_stopsBehind (h : (readOn importer path finish draft tokens).2 ≠ []) :
    ∃ before is, Grammar.UnitPhrase path before is ∧
      StopsBehind importer path finish tokens before
        (readOn importer path finish draft tokens).2 ∧
      readOn importer path finish draft before =
        ((readOn importer path finish draft tokens).1, []) := by
  induction hn : tokens.length using Nat.strong_induction_on generalizing tokens draft with
  | _ n ih =>
    subst hn
    cases hitem : Grammar.item path tokens with
    | error f =>
      cases tokens with
      | nil => exact absurd (congrArg Prod.snd readOn_nil) h
      | cons t tail =>
        rw [readOn_fault hitem]
        exact ⟨[], [], .nil, .here (.malformed (List.cons_ne_nil _ _) hitem), readOn_nil⟩
    | ok found =>
      obtain ⟨i, after⟩ := found
      obtain ⟨phrase, rfl, hphrase⟩ := Grammar.item_sound hitem
      have hshorter := Grammar.length_item hitem
      -- the construct is read before the others as it was read before all that followed it
      have hsame {before : List Token} {is : List Item}
          (hunit : Grammar.UnitPhrase path before is) :
          Grammar.item path (phrase ++ before) = .ok (i, before) :=
        Grammar.item_complete hphrase hunit.accept?_eq_none
      cases i with
      | declaration d =>
        rw [readOn_declaration hitem] at h ⊢
        obtain ⟨before, is, hunit, hstops, hread⟩ := ih _ hshorter h rfl
        refine ⟨phrase ++ before, _ :: is, .cons hphrase hunit,
          .later hitem (not_fails_declaration hitem) hstops, ?_⟩
        rw [readOn_declaration (hsame hunit), hread]
      | importFile file =>
        cases hsource : findImport importer [] path file.lexeme with
        | error e =>
          rw [readOn_unfound hitem hsource]
          exact ⟨[], [], .nil, .here (.unfound hitem hsource), readOn_nil⟩
        | ok source =>
          by_cases hok : (readImport importer path source).2 = []
          · rw [readOn_found hitem hsource, if_pos hok] at h ⊢
            obtain ⟨before, is, hunit, hstops, hread⟩ := ih _ hshorter h rfl
            refine ⟨phrase ++ before, _ :: is, .cons hphrase hunit,
              .later hitem (not_fails_import hitem hsource hok) hstops, ?_⟩
            rw [readOn_found (hsame hunit) hsource, if_pos hok, hread]
          · rw [readOn_found hitem hsource, if_neg hok]
            exact ⟨[], [], .nil, .here (.refused hitem hsource hok), readOn_nil⟩

/-- When the reading of a token list stops, the tokens of the constructs before the first one
that fails are read without fault on their own, and the schema is the one that they give. What
is reported is what is wrong with that construct. -/
theorem readTokens_finished {tokens : List Token} (h : (readTokens importer path tokens).2 ≠ []) :
    ∃ before, before <+: tokens.takeWhile (·.kind ≠ .endOfInput) ∧
      StopsBehind importer path (TokenStream.ofTokens tokens).finish
        (tokens.takeWhile (·.kind ≠ .endOfInput)) before (readTokens importer path tokens).2 ∧
      readTokens importer path before = ((readTokens importer path tokens).1, []) := by
  rw [readTokens_eq] at h ⊢
  obtain ⟨before, is, hunit, hstops, hread⟩ := readOn_stopsBehind h
  have hhead := hstops.isPrefix
  refine ⟨before, hhead, hstops, ?_⟩
  -- no end of input is among the tokens, so all of them are read
  have hall : before.takeWhile (·.kind ≠ .endOfInput) = before := by
    rw [List.takeWhile_eq_self_iff]
    intro t ht
    have hkind := List.mem_takeWhile_imp (hhead.subset ht)
    exact hkind
  have hitems := Grammar.items_complete hunit
  have hfinish : ∀ finish', readOn importer path finish' .empty before =
      readItems importer [] path [] .empty is := by
    intro finish'
    rw [readOn, Outline.ofStream, hitems]
    rfl
  rw [hfinish] at hread
  rw [readTokens_eq, hall, hfinish, hread]

/-- The importer that knows one source, which declares a name and imports itself. -/
def cyclicImporter : Importer :=
  .ofPaths (fun _ _ => some ⟨"a", "typedef T x import \"a\""⟩) ["a"] (by rintro _ _ _ ⟨⟩; simp)

theorem readImport_cyclicImporter :
    (readImport (some cyclicImporter) none ⟨"a", "typedef T x import \"a\""⟩).2 ≠ [] := by
  have houtline : (ImportedSource.mk "a" "typedef T x import \"a\"").outline =
      ⟨[.declaration (.typeDef ⟨"T", .plain "x" none, ⟨1, 1, some "a"⟩⟩),
        .importFile ⟨.string, "a", 1, 20⟩], []⟩ := by
    cbv
  have hcycle : findImport (some cyclicImporter) [] (some "a") "a" =
      .error (.cycle ["a", "a"]) :=
    rfl
  rw [readImport, houtline, readItems, readItems]
  split
  · exact List.cons_ne_nil _ _
  · next source hsource => cases hcycle.symm.trans hsource

/-- The tokens of an enum, an import and another enum. -/
def importingTokens : List Token :=
  [⟨.keyword (.declare .enum), "enum", 1, 1⟩, ⟨.identifier, "E", 1, 6⟩,
    ⟨.symbol .braceOpen, "\x7b", 1, 8⟩, ⟨.identifier, "A", 1, 10⟩,
    ⟨.symbol .braceClose, "\x7d", 1, 12⟩, ⟨.keyword .importFile, "import", 2, 1⟩,
    ⟨.string, "a", 2, 8⟩, ⟨.keyword (.declare .enum), "enum", 3, 1⟩, ⟨.identifier, "F", 3, 6⟩,
    ⟨.symbol .braceOpen, "\x7b", 3, 8⟩, ⟨.symbol .braceClose, "\x7d", 3, 9⟩,
    ⟨.endOfInput, "", 3, 10⟩]

/-- Of an enum, an import of a source that declares a name before it fails, and another enum,
the first enum is kept. -/
theorem readTokens_finished_importing :
    (readTokens (some cyclicImporter) none importingTokens).2 ≠ [] ∧
    ∃ before, before <+: importingTokens.takeWhile (·.kind ≠ .endOfInput) ∧
      readTokens (some cyclicImporter) none before =
        (⟨.empty, .ofList [("E", ⟨"E", ["A"], [⟨1, 10, none⟩], ⟨1, 1, none⟩⟩)], .empty, []⟩,
          []) := by
  have henum : Grammar.item none (importingTokens.takeWhile (·.kind ≠ .endOfInput)) =
      .ok (.declaration (.enum ⟨"E", ["A"], [⟨1, 10, none⟩], ⟨1, 1, none⟩⟩),
        (importingTokens.drop 5).takeWhile (·.kind ≠ .endOfInput)) := by
    cbv
  have himport : Grammar.item none
      ((importingTokens.drop 5).takeWhile (·.kind ≠ .endOfInput)) =
      .ok (.importFile ⟨.string, "a", 2, 8⟩,
        (importingTokens.drop 7).takeWhile (·.kind ≠ .endOfInput)) := by
    cbv
  have hread : readTokens (some cyclicImporter) none importingTokens =
      (⟨.empty, .ofList [("E", ⟨"E", ["A"], [⟨1, 10, none⟩], ⟨1, 1, none⟩⟩)], .empty, []⟩,
        (readImport (some cyclicImporter) none ⟨"a", "typedef T x import \"a\""⟩).2) := by
    rw [readTokens_eq, readOn_declaration henum, readOn_found himport rfl,
      if_neg readImport_cyclicImporter]
    rfl
  have hfaulty : (readTokens (some cyclicImporter) none importingTokens).2 ≠ [] := by
    rw [hread]
    exact readImport_cyclicImporter
  obtain ⟨before, hhead, -, hbefore⟩ := readTokens_finished hfaulty
  rw [hread] at hbefore
  exact ⟨hfaulty, before, hhead, hbefore⟩

end Schema

end SchemaLang
