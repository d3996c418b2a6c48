import SchemaLang.Proofs.Outline
import SchemaLang.Proofs.Token.Joint

/-!
# Declarations on other lines

The grammar does not look at the lines that tokens stand on. When the tokens of a phrase move to
other lines, so do the traces of what it says, and nothing else changes (`UnitPhrase.mapLine`).
The outline of two texts joined by a line feed is therefore that of the first with that of the
second further down (`Outline.ofText_join`), and the outline of any number of texts joined so
lists what theirs list, one after another, but for the lines (`Outline.ofText_intercalate`).
-/

namespace SchemaLang

/-! ## Traces on other lines -/

/-- The trace on another line. -/
def Trace.mapLine (f : Nat → Nat) (t : Trace) : Trace :=
  { t with line := f t.line }

/-- The field with its trace on another line. -/
def Field.mapLine (f : Nat → Nat) (x : Field) : Field :=
  { x with trace := x.trace.mapLine f }

/-- The model with its traces, and those of its fields, on other lines. -/
def Model.mapLine (f : Nat → Nat) (m : Model) : Model :=
  { m with
    fields := m.fields.mapValues fun _ x => x.mapLine f
    trace := m.trace.mapLine f }

/-- The enum with its traces, and those of its values, on other lines. -/
def Enum.mapLine (f : Nat → Nat) (e : Enum) : Enum :=
  { e with
    valueTraces := e.valueTraces.map (Trace.mapLine f)
    trace := e.trace.mapLine f }

/-- The typedef with its trace on another line. -/
def TypeDef.mapLine (f : Nat → Nat) (t : TypeDef) : TypeDef :=
  { t with trace := t.trace.mapLine f }

/-- The declaration with all its traces on other lines. -/
def Declaration.mapLine (f : Nat → Nat) : Declaration → Declaration
  | model m => .model (m.mapLine f)
  | enum e => .enum (e.mapLine f)
  | typeDef t => .typeDef (t.mapLine f)

/-- The item with its traces, or the token of its path, on other lines. -/
def Item.mapLine (f : Nat → Nat) : Item → Item
  | declaration d => .declaration (d.mapLine f)
  | importFile file => .importFile (file.mapLine f)

namespace Declaration

variable (f g : Nat → Nat) (d : Declaration)

@[simp] theorem kind_mapLine : (d.mapLine f).kind = d.kind := by
  cases d <;> rfl

@[simp] theorem name_mapLine : (d.mapLine f).name = d.name := by
  cases d <;> rfl

theorem mapLine_mapLine : (d.mapLine g).mapLine f = d.mapLine (f ∘ g) := by
  cases d with
  | model m => simp only [mapLine, Model.mapLine, OrderedMap.mapValues_mapValues]; rfl
  | enum e => simp only [mapLine, Enum.mapLine, List.map_map]; rfl
  | typeDef t => rfl

end Declaration

theorem OrderedMap.Collects.mapValues {α β : Type} {m : OrderedMap α}
    {entries : List (String × α)} (h : m.Collects entries) (f : α → β) :
    (m.mapValues fun _ => f).Collects (entries.map fun entry => (entry.1, f entry.2)) := by
  rw [h.eq_ofList, ofList, mapValues_insertAll]
  exact collects_ofList _

/-! ## Phrases on other lines -/

namespace Grammar

variable {f : Nat → Nat} {path : Option String} {phrase : List Token}

theorem OptionalMark.mapLine {mark : Symbol} (h : OptionalMark mark phrase) :
    OptionalMark mark (phrase.map (Token.mapLine f)) := by
  cases h with
  | absent => exact .absent
  | present hmark => exact .present hmark

theorem IsLiteral.mapLine {t : Token} {v : Value} (h : IsLiteral t v) :
    IsLiteral (t.mapLine f) v := by
  cases h with
  | text hkind => exact .text hkind
  | number hkind hnumeral => exact .number hkind hnumeral
  | boolean hkind => exact .boolean hkind

theorem OptionsPhrase.mapLine {chosen : Option Value} (h : OptionsPhrase phrase chosen) :
    OptionsPhrase (phrase.map (Token.mapLine f)) chosen := by
  cases h with
  | absent => exact .absent
  | present hopens hchosen hcloses =>
    refine .present hopens ?_ hcloses
    cases hchosen with
    | name hkind => exact .name hkind
    | literal hliteral => exact .literal hliteral.mapLine

theorem TypePhrase.mapLine {t : FieldType} (h : TypePhrase phrase t) :
    TypePhrase (phrase.map (Token.mapLine f)) t := by
  induction h with
  | plain hname hoptions => exact .plain hname hoptions.mapLine
  | parametric hname hopens _ hcloses hoptions ih =>
    rw [List.map_cons, List.map_cons, List.map_append, List.map_cons]
    exact .parametric hname hopens ih hcloses hoptions.mapLine

theorem VisibilityPhrase.mapLine {v : Visibility} (h : VisibilityPhrase phrase v) :
    VisibilityPhrase (phrase.map (Token.mapLine f)) v := by
  cases h with
  | absent => exact .absent
  | present hkind => exact .present hkind

theorem DefaultPhrase.mapLine {default : Option Value} (h : DefaultPhrase phrase default) :
    DefaultPhrase (phrase.map (Token.mapLine f)) default := by
  cases h with
  | absent => exact .absent
  | present hmark hliteral => exact .present hmark hliteral.mapLine

theorem FieldPhrase.mapLine {x : Field} (h : FieldPhrase path phrase x) :
    FieldPhrase path (phrase.map (Token.mapLine f)) (x.mapLine f) := by
  cases h with
  | @intro visible typed defaulted name closing first visibility type default hvisible htyped
      hname hdefault hcloses hleads =>
    have hleads' : (visible.map (Token.mapLine f) ++ typed.map (Token.mapLine f)).head? =
        some (first.mapLine f) := by
      rw [← List.map_append, List.head?_map, hleads]
      rfl
    have hclosing : (closing.mapLine f).kind = .symbol .semicolon := hcloses
    have hnamed : (name.mapLine f).kind = .identifier := hname
    rw [List.map_append, List.map_append, List.map_cons, List.map_append]
    exact .intro hvisible.mapLine htyped.mapLine hnamed hdefault.mapLine hclosing hleads'

theorem TablePhrase.mapLine {table : Option String} (h : TablePhrase phrase table) :
    TablePhrase (phrase.map (Token.mapLine f)) table := by
  cases h with
  | absent => exact .absent
  | present hmark hname => exact .present hmark hname

theorem Sequence.map {α : Type} {P : List Token → α → Prop} {g : Token → Token} {k : α → α}
    (hP : ∀ phrase a, P phrase a → P (phrase.map g) (k a)) {as : List α}
    (h : Sequence P phrase as) : Sequence P (phrase.map g) (as.map k) := by
  induction h with
  | nil => exact .nil
  | cons hfirst _ ih =>
    rw [List.map_append, List.map_cons]
    exact .cons (hP _ _ hfirst) ih

theorem ModelPhrase.mapLine {m : Model} (h : ModelPhrase path phrase m) :
    ItemPhrase path (phrase.map (Token.mapLine f))
      (.declaration ((Declaration.model m).mapLine f)) := by
  cases h with
  | @intro _ _ _ _ _ _ _ _ written fields hkind hname htable hopens hfields hcloses hends
      hcollects =>
    have hcollects' := hcollects.mapValues (Field.mapLine f)
    have hwritten : ((written.map fun x => (x.name, x)).map fun entry =>
        (entry.1, entry.2.mapLine f)) = (written.map (Field.mapLine f)).map fun x =>
          (x.name, x) := by
      rw [List.map_map, List.map_map]
      rfl
    rw [hwritten] at hcollects'
    rw [List.map_cons, List.map_cons, List.map_append, List.map_cons, List.map_append,
      List.map_cons]
    exact .model (.intro hkind hname htable.mapLine hopens
      (hfields.map fun _ _ => FieldPhrase.mapLine) hcloses hends.mapLine hcollects')

theorem ValuesPhrase.mapLine {values : List (String × Trace)}
    (h : ValuesPhrase path phrase values) :
    ValuesPhrase path (phrase.map (Token.mapLine f))
      (values.map fun value => (value.1, value.2.mapLine f)) := by
  induction h with
  | none => exact .none
  | last hname => exact .last hname
  | more hname hmark _ ih => exact .more hname hmark ih

theorem EnumPhrase.mapLine {e : Enum} (h : EnumPhrase path phrase e) :
    ItemPhrase path (phrase.map (Token.mapLine f))
      (.declaration ((Declaration.enum e).mapLine f)) := by
  cases h with
  | @intro keyword name opening closing members ending values hkind hname hopens hvalues hcloses
      hends =>
    have henum : (Declaration.enum ⟨name.lexeme, values.map Prod.fst, values.map Prod.snd,
        keyword.trace path⟩).mapLine f = .enum ⟨(name.mapLine f).lexeme,
          (values.map fun value => (value.1, value.2.mapLine f)).map Prod.fst,
          (values.map fun value => (value.1, value.2.mapLine f)).map Prod.snd,
          (keyword.mapLine f).trace path⟩ := by
      simp only [Declaration.mapLine, Enum.mapLine, List.map_map]
      rfl
    rw [henum, List.map_cons, List.map_cons, List.map_cons, List.map_append, List.map_cons]
    exact .enum (.intro hkind hname hopens hvalues.mapLine hcloses hends.mapLine)

theorem TypeDefPhrase.mapLine {t : TypeDef} (h : TypeDefPhrase path phrase t) :
    ItemPhrase path (phrase.map (Token.mapLine f))
      (.declaration ((Declaration.typeDef t).mapLine f)) := by
  cases h with
  | intro hkind hname htyped hends =>
    rw [List.map_cons, List.map_cons, List.map_append]
    exact .typeDef (.intro hkind hname htyped.mapLine hends.mapLine)

theorem ItemPhrase.mapLine {i : Item} (h : ItemPhrase path phrase i) :
    ItemPhrase path (phrase.map (Token.mapLine f)) (i.mapLine f) := by
  cases h with
  | model h => exact h.mapLine
  | enum h => exact h.mapLine
  | typeDef h => exact h.mapLine
  | inclusion h =>
    cases h with
    | intro hkind hname hends => exact .inclusion (.intro hkind hname hends.mapLine)

/-- A unit is one on other lines, too. -/
theorem UnitPhrase.mapLine {is : List Item} (h : UnitPhrase path phrase is) :
    UnitPhrase path (phrase.map (Token.mapLine f)) (is.map (Item.mapLine f)) :=
  h.map fun _ _ => ItemPhrase.mapLine

theorem Sequence.append {α : Type} {P : List Token → α → Prop} {xs ys : List Token}
    {as bs : List α} (h : Sequence P xs as) (h' : Sequence P ys bs) :
    Sequence P (xs ++ ys) (as ++ bs) := by
  induction h with
  | nil => exact h'
  | cons hfirst _ ih =>
    rw [List.append_assoc]
    exact .cons hfirst ih

end Grammar

/-! ## Outlines of joined texts -/

namespace Outline

variable {path : Option String}

/-- When both of two texts are outlined without faults, so is the second on a new line behind
the first, unless the first ends inside a block comment. -/
theorem ofText_join {a b : String} {is js : List Item} (ha : ofText path a = ⟨is, []⟩)
    (hb : ofText path b = ⟨js, []⟩) (hblock : ¬Segment.EndsInBlockComment a.toList) :
    ofText path (a ++ "\n" ++ b) =
      ⟨is ++ js.map (Item.mapLine (· + (a.toList.count '\n' + 1))), []⟩ := by
  obtain ⟨hscan, hunit⟩ := ofText_eq_iff.mp ha
  obtain ⟨hscan', hunit'⟩ := ofText_eq_iff.mp hb
  obtain ⟨hok, htokens⟩ := Scan.ofText_join hscan hblock b
  rw [ofText_eq_iff, hok, htokens]
  exact ⟨hscan', hunit.append hunit'.mapLine⟩

/-- Joined by line feeds, texts that are outlined without faults and import nothing list their
declarations one after another, but for the lines. -/
theorem ofText_intercalate {texts : List String} {lists : List (List Declaration)}
    (h : List.Forall₂ (fun text ds => ofText path text = ⟨ds.map .declaration, []⟩) texts lists)
    (hblock : ∀ text ∈ texts, ¬Segment.EndsInBlockComment text.toList) :
    ∃ ds : List Declaration,
      ofText path ("\n".intercalate texts) = ⟨ds.map .declaration, []⟩ ∧
      ds.map (Declaration.mapLine fun _ => 0) =
        lists.flatten.map (Declaration.mapLine fun _ => 0) := by
  induction h with
  | nil => exact ⟨[], by cases path <;> cbv, rfl⟩
  | @cons text ds rest lists hfirst hrest ih =>
    rw [List.forall_mem_cons] at hblock
    cases hrest with
    | nil => exact ⟨ds, by simpa using hfirst, by simp⟩
    | @cons next _ rest _ _ _ =>
      obtain ⟨others, hothers, hlines⟩ := ih hblock.2
      refine ⟨ds ++ others.map (Declaration.mapLine (· + (text.toList.count '\n' + 1))), ?_, ?_⟩
      · rw [String.intercalate_cons_cons, ofText_join hfirst hothers hblock.1, List.map_append,
          List.map_map, List.map_map]
        rfl
      · -- how far down the others have moved does not show any more
        have hmoved (d : Declaration) (n : Nat) : (d.mapLine (· + n)).mapLine (fun _ => 0) =
            d.mapLine fun _ => 0 := d.mapLine_mapLine _ _
        simp only [List.map_append, List.map_map, Function.comp_def, hmoved, hlines,
          List.flatten_cons]

end Outline

end SchemaLang
