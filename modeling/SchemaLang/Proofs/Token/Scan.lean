import Mathlib.Data.List.TakeWhile
import SchemaLang.Token.Scan

/-!
# Facts about scanning

Each token of a text stands behind those before it (`tokens_pairwise`), so that no two of
them start at the same place. A number token begins with a digit and goes on with digits
and points (`lexeme_of_number`).
-/

namespace SchemaLang

/-! ## The order of places -/

namespace Position

/-- A place on an earlier line, or further left on the same one. -/
def Before (p q : Position) : Prop :=
  p.line < q.line ∨ p.line = q.line ∧ p.offset < q.offset

theorem Before.trans {p q r : Position} (hpq : p.Before q) (hqr : q.Before r) : p.Before r := by
  unfold Before at *
  omega

theorem Before.ne {p q : Position} (h : p.Before q) : p ≠ q := by
  rintro rfl
  unfold Before at h
  omega

theorem before_next (p : Position) (c : Char) : p.Before (p.next c) := by
  unfold next
  split
  · exact Or.inl (Nat.lt_succ_self _)
  · exact Or.inr ⟨rfl, Nat.lt_succ_self _⟩

/-- Characters lead on, never back. -/
theorem before_advance (p : Position) {text : List Char} (h : text ≠ []) :
    p.Before (p.advance text) := by
  induction text generalizing p with
  | nil => exact absurd rfl h
  | cons c rest ih =>
    show p.Before ((p.next c).advance rest)
    by_cases hrest : rest = []
    · rw [hrest, advance_nil]
      exact p.before_next c
    · exact (p.before_next c).trans (ih (p.next c) hrest)

end Position

/-! ## Segments in their places -/

namespace Segment

theorem chars_ne_nil_of_mem {text : List Char} {s : Segment} (h : s ∈ segments text) :
    s.chars ≠ [] := by
  fun_induction segments text with
  | case1 => cases h
  | case2 c rest ih =>
    rcases List.mem_cons.mp h with rfl | h
    · exact chars_ne_nil c rest
    · exact ih h

/-- A number is a digit with digits and points behind it. -/
theorem number_of_mem {text lexeme : List Char} (h : number lexeme ∈ segments text) :
    ∃ c rest, lexeme = c :: rest ∧ c.isDigit = true ∧ ∀ d ∈ rest, isNumberChar d = true := by
  fun_induction segments text with
  | case1 => cases h
  | case2 c rest ih =>
    rcases List.mem_cons.mp h with heq | h
    · unfold cut at heq
      repeat' split at heq
      -- of all the ways to cut, one gives a number
      all_goals cases heq
      exact ⟨c, rest.takeWhile isNumberChar, rfl, by assumption,
        fun d hd => List.mem_takeWhile_imp hd⟩
    · exact ih h

theorem mem_of_mem_place {p q : Position} {s : Segment} {ss : List Segment}
    (h : (q, s) ∈ place p ss) : s ∈ ss := by
  induction ss generalizing p with
  | nil => cases h
  | cons first rest ih =>
    rcases List.mem_cons.mp h with heq | h
    · cases heq
      exact List.mem_cons_self
    · exact List.mem_cons_of_mem _ (ih h)

/-- A segment stands between the place where the first one starts and the end of all. -/
theorem place_bounds {p q : Position} {s : Segment} {ss : List Segment}
    (hss : ∀ s ∈ ss, s.chars ≠ []) (h : (q, s) ∈ place p ss) :
    (p = q ∨ p.Before q) ∧ q.Before (p.advance (ss.flatMap chars)) := by
  induction ss generalizing p with
  | nil => cases h
  | cons first rest ih =>
    obtain ⟨hfirst, hrest⟩ := List.forall_mem_cons.mp hss
    have hstep : p.Before (p.advance first.chars) := p.before_advance hfirst
    rw [List.flatMap_cons, Position.advance_append]
    rcases List.mem_cons.mp h with heq | h
    · cases heq
      refine ⟨Or.inl rfl, ?_⟩
      -- the first segment may be the last one too
      by_cases hnil : rest.flatMap chars = []
      · rwa [hnil, Position.advance_nil]
      · exact hstep.trans (Position.before_advance _ hnil)
    · obtain ⟨hlow, hhigh⟩ := ih hrest h
      refine ⟨Or.inr ?_, hhigh⟩
      rcases hlow with rfl | hlow
      · exact hstep
      · exact hstep.trans hlow

theorem place_pairwise (p : Position) {ss : List Segment} (hss : ∀ s ∈ ss, s.chars ≠ []) :
    (place p ss).Pairwise fun a b => a.1.Before b.1 := by
  induction ss generalizing p with
  | nil => exact .nil
  | cons first rest ih =>
    obtain ⟨hfirst, hrest⟩ := List.forall_mem_cons.mp hss
    refine .cons ?_ (ih _ hrest)
    intro b hb
    have hstep : p.Before (p.advance first.chars) := p.before_advance hfirst
    rcases (place_bounds hrest hb).1 with hlow | hlow
    · rwa [← hlow]
    · exact hstep.trans hlow

theorem position_of_token? {p : Position} {s : Segment} {t : Token} (h : s.token? p = some t) :
    t.position = p := by
  cases s <;> cases h <;> rfl

end Segment

/-! ## Tokens -/

namespace Scan

/-- Each token stands behind those before it, and the end of the input behind them all. -/
theorem tokens_pairwise (source : String) (path : Option String) :
    (ofText source path).tokens.Pairwise fun t u => t.position.Before u.position := by
  have hss : ∀ s ∈ Segment.segments source.toList, s.chars ≠ [] :=
    fun s => Segment.chars_ne_nil_of_mem
  -- the tokens of the segments are in order, and the end is behind each of them
  refine List.pairwise_append.mpr ⟨?_, List.pairwise_singleton _ _, ?_⟩
  · refine (Segment.place_pairwise .start hss).filterMap _ ?_
    intro a b hab t ht u hu
    rwa [Segment.position_of_token? ht, Segment.position_of_token? hu]
  · intro t ht u hu
    obtain ⟨⟨q, s⟩, hs, ht⟩ := List.mem_filterMap.mp ht
    obtain rfl := List.mem_singleton.mp hu
    have hbound := (Segment.place_bounds hss hs).2
    rw [Segment.chars_segments] at hbound
    rw [Segment.position_of_token? ht]
    exact hbound

theorem kind_ofWord_cases (word : String) :
    (∃ k, Token.Kind.ofWord word = .keyword k) ∨ Token.Kind.ofWord word = .boolean ∨
      Token.Kind.ofWord word = .identifier := by
  unfold Token.Kind.ofWord
  split
  · next k _ => exact Or.inl ⟨k, rfl⟩
  · dsimp only
    split <;> simp

theorem lexeme_of_number {source : String} {path : Option String} {t : Token}
    (ht : t ∈ (ofText source path).tokens) (hkind : t.kind = .number) :
    ∃ c rest, t.lexeme.toList = c :: rest ∧ c.isDigit = true ∧
      ∀ d ∈ rest, Segment.isNumberChar d = true := by
  rcases List.mem_append.mp ht with ht | ht
  · obtain ⟨⟨p, s⟩, hs, ht⟩ := List.mem_filterMap.mp ht
    cases s with
    | number lexeme =>
      cases ht
      obtain ⟨c, rest, rfl, hc, hrest⟩ := Segment.number_of_mem (Segment.mem_of_mem_place hs)
      exact ⟨c, rest, String.toList_ofList, hc, hrest⟩
    | word text =>
      cases ht
      rcases kind_ofWord_cases (String.ofList text) with ⟨k, hword⟩ | hword | hword <;>
        cases hword.symm.trans hkind
    | _ => cases ht <;> cases hkind
  · obtain rfl := List.mem_singleton.mp ht
    cases hkind

end Scan

end SchemaLang
