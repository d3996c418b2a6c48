import SchemaLang.Proofs.Outline.Recognition
import SchemaLang.Proofs.Token.Scan

/-!
# Facts about outlines

The declarations of an outline carry the path of its source, and no two of them the same
trace: a trace with a path tells one declaration of one source. The faults of an outline are
of words and syntax.
-/

namespace SchemaLang

/-- The traces in a declaration: its own, those of its fields and those of its values. -/
def Declaration.traces : Declaration → List Trace
  | model m => m.trace :: m.fields.values.map Field.trace
  | enum e => e.trace :: e.valueTraces
  | typeDef t => [t.trace]

/-- Every field of a model stands under its own name. -/
def Declaration.FieldsNamed : Declaration → Prop
  | model m => ∀ entry ∈ m.fields.entries, entry.1 = entry.2.name
  | _ => True

theorem Grammar.ValuesPhrase.path_of_mem {path : Option String} {phrase : List Token}
    {values : List (String × Trace)} (h : Grammar.ValuesPhrase path phrase values) :
    ∀ t ∈ values.map Prod.snd, t.path = path := by
  induction h with
  | none => simp
  | last => simp [Token.trace]
  | more _ _ _ ih => exact List.forall_mem_cons.mpr ⟨rfl, ih⟩

/-- Every trace in a declaration is that of a word in the source of the path. -/
theorem Grammar.ItemPhrase.path_of_mem_traces {path : Option String} {phrase : List Token}
    {d : Declaration} (h : Grammar.ItemPhrase path phrase (.declaration d)) {t : Trace}
    (ht : t ∈ d.traces) : t.path = path := by
  cases h with
  | model h =>
    cases h with
    | intro _ _ _ _ hwritten _ _ hfields =>
      rcases List.mem_cons.mp ht with rfl | ht
      · rfl
      · -- a field of the model was written in it
        obtain ⟨f, hf, rfl⟩ := List.mem_map.mp ht
        obtain ⟨name, hname⟩ := OrderedMap.mem_values_iff.mp hf
        obtain ⟨_, hmem, heq⟩ := List.mem_map.mp (hfields.mem_of_find? hname)
        obtain ⟨inner, hinner, -⟩ := hwritten.exists_of_mem hmem
        cases heq
        cases hinner
        rfl
  | enum h =>
    cases h with
    | intro _ _ _ hvalues =>
      rcases List.mem_cons.mp ht with rfl | ht
      · rfl
      · exact hvalues.path_of_mem t ht
  | typeDef h =>
    cases h
    rw [List.mem_singleton.mp ht]
    rfl

theorem Grammar.ItemPhrase.fieldsNamed {path : Option String} {phrase : List Token}
    {d : Declaration} (h : Grammar.ItemPhrase path phrase (.declaration d)) : d.FieldsNamed := by
  cases h with
  | model h =>
    cases h with
    | intro _ _ _ _ _ _ _ hfields =>
      intro entry hentry
      obtain ⟨f, -, heq⟩ :=
        List.mem_map.mp (hfields.mem_of_find? (OrderedMap.find?_eq_some_iff.mpr hentry))
      obtain ⟨hname, rfl⟩ := Prod.mk.inj heq
      exact hname.symm
  | enum => trivial
  | typeDef => trivial

namespace Outline

variable {path : Option String} {text : String} {stream : TokenStream}

/-- What an outline lists is a unit at the head of its tokens. -/
theorem ofStream_items (path : Option String) (stream : TokenStream) :
    ∃ phrase rest, stream.tokens = phrase ++ rest ∧
      Grammar.UnitPhrase path phrase (ofStream path stream).items := by
  obtain ⟨phrase, rest, hsplit, hunit, -⟩ := Grammar.items_sound path stream.tokens
  exact ⟨phrase, rest, hsplit, hunit⟩

/-- An outline without faults lists the items of a unit. -/
theorem unit_iff {items : List Item} :
    Grammar.UnitPhrase path stream.tokens items ↔
      (ofStream path stream).items = items ∧ (ofStream path stream).errors = [] := by
  rw [← Grammar.items_eq_iff, Prod.ext_iff]
  refine and_congr Iff.rfl ?_
  rw [ofStream, List.map_eq_nil_iff, Option.toList_eq_nil_iff]

/-- A text is outlined without faults when it scans and its tokens are a unit. -/
theorem ofText_eq_iff {items : List Item} :
    ofText path text = ⟨items, []⟩ ↔ (Scan.ofText text path).ok = true ∧
      Grammar.UnitPhrase path (TokenStream.ofTokens (Scan.ofText text path).tokens).tokens
        items := by
  rw [unit_iff, ofText]
  split
  · next hok =>
    rw [and_iff_right hok]
    constructor
    · intro heq
      exact ⟨by rw [heq], by rw [heq]⟩
    · rintro ⟨rfl, herrors⟩
      rw [← herrors]
  · next hfaulty =>
    refine iff_of_false (fun heq => hfaulty ?_) (fun h => hfaulty h.1)
    simpa [Scan.ok] using congrArg Outline.errors heq

theorem exists_trace_of_mem {d : Declaration}
    (h : .declaration d ∈ (ofStream path stream).items) :
    ∃ t ∈ stream.tokens, d.trace = t.trace path := by
  obtain ⟨phrase, rest, hsplit, hunit⟩ := ofStream_items path stream
  obtain ⟨inner, hinner, hsub⟩ := hunit.exists_of_mem h
  obtain ⟨t, ht, htrace⟩ := hinner.exists_trace
  exact ⟨t, by rw [hsplit]; exact List.mem_append_left _ (hsub ht), htrace⟩

theorem path_of_mem {d : Declaration} (h : .declaration d ∈ (ofText path text).items) :
    d.trace.path = path := by
  unfold ofText at h
  dsimp only at h
  split at h
  · obtain ⟨t, -, htrace⟩ := exists_trace_of_mem h
    rw [htrace]
    rfl
  · cases h

theorem eq_of_trace {d d' : Declaration} (h : .declaration d ∈ (ofText path text).items)
    (h' : .declaration d' ∈ (ofText path text).items) (htrace : d.trace = d'.trace) :
    d = d' := by
  unfold ofText at h h'
  dsimp only at h h'
  split at h
  · next hok =>
    rw [if_pos hok] at h'
    obtain ⟨phrase, rest, hsplit, hunit⟩ :=
      ofStream_items path (.ofTokens (Scan.ofText text path).tokens)
    have hplaced : (TokenStream.ofTokens (Scan.ofText text path).tokens).tokens.Pairwise
        fun t u => t.position ≠ u.position :=
      ((Scan.tokens_pairwise text path).sublist (List.takeWhile_sublist _)).imp
        Position.Before.ne
    rw [hsplit] at hplaced
    exact hunit.eq_of_trace (List.pairwise_append.mp hplaced).1 h h' htrace
  · cases h

/-- A declaration of an outline is a phrase of its source. -/
theorem exists_phrase_of_mem {d : Declaration}
    (h : .declaration d ∈ (ofText path text).items) :
    ∃ phrase, Grammar.ItemPhrase path phrase (.declaration d) := by
  unfold ofText at h
  dsimp only at h
  split at h
  · obtain ⟨phrase, rest, -, hunit⟩ := ofStream_items path _
    obtain ⟨inner, hinner, -⟩ := hunit.exists_of_mem h
    exact ⟨inner, hinner⟩
  · cases h

/-- Whatever has a trace in a declaration has the path of the source in it. -/
theorem path_of_mem_traces {d : Declaration} (h : .declaration d ∈ (ofText path text).items)
    {t : Trace} (ht : t ∈ d.traces) : t.path = path := by
  obtain ⟨phrase, hphrase⟩ := exists_phrase_of_mem h
  exact hphrase.path_of_mem_traces ht

theorem fieldsNamed_of_mem {d : Declaration}
    (h : .declaration d ∈ (ofText path text).items) : d.FieldsNamed := by
  obtain ⟨phrase, hphrase⟩ := exists_phrase_of_mem h
  exact hphrase.fieldsNamed

/-- Following an import is no part of an outline, so no fault of an outline is one of it. -/
theorem kind_of_mem_errors {e : Diagnostic} (h : e ∈ (ofText path text).errors) :
    e.code.kind ≠ .importing := by
  unfold ofText at h
  dsimp only at h
  split at h
  · rw [ofStream] at h
    dsimp only at h
    obtain ⟨f, -, rfl⟩ := List.mem_map.mp h
    show f.error.code.kind ≠ .importing
    cases f.error <;> simp [SyntaxError.code, Diagnostic.Code.kind]
  · obtain ⟨s, -, rfl⟩ := List.mem_map.mp h
    exact (by decide : Diagnostic.Code.unterminatedString.kind ≠ .importing)

end Outline

end SchemaLang
