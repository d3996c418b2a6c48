import SchemaLang.Outline
import SchemaLang.Proofs.Token.Lexical

/-!
# Texts joined by a line feed

A line feed ends whatever stands before it, except for a block comment and a quoted text. So a
text that leaves neither open can be continued on a new line: the segments of what follows are
the same as if it stood alone (`Segment.Splits.join`), and so are its tokens, but for the lines
they stand on (`Scan.ofText_join`).
-/

namespace SchemaLang

/-- The token on another line. -/
def Token.mapLine (f : Nat → Nat) (t : Token) : Token :=
  { t with line := f t.line }

/-! ## Further down -/

namespace Position

/-- The place so many lines further down. -/
def below (n : Nat) (p : Position) : Position :=
  ⟨p.line + n, p.offset⟩

theorem next_below (n : Nat) (p : Position) (c : Char) :
    (p.below n).next c = (p.next c).below n := by
  simp only [next, below]
  split
  · rw [Nat.add_right_comm]
  · rfl

theorem advance_below (n : Nat) (p : Position) (text : List Char) :
    (p.below n).advance text = (p.advance text).below n := by
  induction text generalizing p with
  | nil => rfl
  | cons c rest ih =>
    show ((p.below n).next c).advance rest = ((p.next c).advance rest).below n
    rw [next_below, ih]

theorem behind_newline (before : List Char) :
    behind (before ++ ['\n']) = start.below (before.count '\n' + 1) := by
  rw [behind_concat]
  simp only [behind, next, below, start, if_true]
  congr 1
  omega

end Position

namespace Segment

/-! ## The tokens of segments -/

/-- The tokens of segments that begin at a position. -/
def tokens (p : Position) (ss : List Segment) : List Token :=
  (place p ss).filterMap fun s => s.2.token? s.1

theorem tokens_cons (p : Position) (s : Segment) (ss : List Segment) :
    tokens p (s :: ss) = (s.token? p).toList ++ tokens (p.advance s.chars) ss := by
  rw [tokens, place, List.filterMap_cons, tokens]
  cases s.token? p <;> rfl

theorem tokens_append (p : Position) (xs ys : List Segment) :
    tokens p (xs ++ ys) = tokens p xs ++ tokens (p.advance (xs.flatMap chars)) ys := by
  rw [tokens, place_append, List.filterMap_append]
  rfl

theorem token?_below (n : Nat) (p : Position) (s : Segment) :
    s.token? (p.below n) = (s.token? p).map (Token.mapLine (· + n)) := by
  cases s <;> rfl

theorem tokens_below (n : Nat) (p : Position) (ss : List Segment) :
    tokens (p.below n) ss = (tokens p ss).map (Token.mapLine (· + n)) := by
  induction ss generalizing p with
  | nil => rfl
  | cons s rest ih =>
    rw [tokens_cons, tokens_cons, Position.advance_below, ih, token?_below, List.map_append]
    cases s.token? p <;> rfl

/-- Only the end of the input is marked as such. -/
theorem kind_ne_endOfInput {p : Position} {ss : List Segment} {t : Token}
    (h : t ∈ tokens p ss) : t.kind ≠ .endOfInput := by
  intro hend
  obtain ⟨⟨q, s⟩, -, ht⟩ := List.mem_filterMap.mp h
  cases s with
  | word text =>
    cases ht
    rcases Scan.kind_ofWord_cases (String.ofList text) with ⟨k, hword⟩ | hword | hword <;>
      cases hword.symm.trans hend
  | _ => cases ht <;> cases hend

/-! ## Joints -/

/-- A text whose last segment is a block comment without an end. -/
def EndsInBlockComment (text : List Char) : Prop :=
  ∃ init body, Splits text (init ++ [.comment ('/' :: '*' :: body)]) ∧ ¬['*', '/'] <:+: body

theorem endsInBlockComment_iff {text : List Char} :
    EndsInBlockComment text ↔ ∃ body,
      (segments text).getLast? = some (.comment ('/' :: '*' :: body)) ∧ ¬['*', '/'] <:+: body := by
  simp only [EndsInBlockComment, splits_iff, List.getLast?_eq_some_iff]
  constructor
  · rintro ⟨init, body, hsegments, hunended⟩
    exact ⟨body, ⟨init, hsegments.symm⟩, hunended⟩
  · rintro ⟨body, ⟨init, hsegments⟩, hunended⟩
    exact ⟨init, body, hsegments.symm, hunended⟩

theorem head?_append_newline {rest b : List Char} {d : Char}
    (h : d ∈ (rest ++ '\n' :: b).head?) : d ∈ rest.head? ∨ d = '\n' := by
  cases rest with
  | nil => exact Or.inr (by simpa using h.symm)
  | cons c tail => exact Or.inl h

/-- A segment ends where it did when a new line begins behind the text, unless it is a comment
that runs to the end of the line. -/
theorem Precedes.before_newline {s : Segment} {rest : List Char} (h : s.Precedes rest)
    (hclosed : s.isUnclosed = false)
    (hblock : rest = [] → ∀ body, s = .comment ('/' :: '*' :: body) → ['*', '/'] <:+: body)
    (b : List Char) :
    s.Precedes (rest ++ '\n' :: b) ∨
      rest = [] ∧ ∃ text, s = .comment ('/' :: '/' :: text) ∧ '\n' ∉ text := by
  cases h with
  | word hstart htext hmaximal =>
    refine Or.inl (.word hstart htext fun d hd => ?_)
    rcases head?_append_newline hd with hd | rfl
    · exact hmaximal d hd
    · decide
  | number hstart htext hmaximal =>
    refine Or.inl (.number hstart htext fun d hd => ?_)
    rcases head?_append_newline hd with hd | rfl
    · exact hmaximal d hd
    · decide
  | quoted hbody => exact Or.inl (.quoted hbody _)
  | symbol s => exact Or.inl (.symbol s _)
  | lineComment hline => exact Or.inl (.lineComment hline _)
  | lastLineComment hline => exact Or.inr ⟨rfl, _, rfl, hline⟩
  | blockComment hfirst => exact Or.inl (.blockComment hfirst _)
  | lastBlockComment hunended => exact absurd (hblock rfl _ rfl) hunended
  | skipped hquote hword hnumber hsymbol hcomment =>
    refine Or.inl (.skipped hquote hword hnumber hsymbol fun hslash d hd => ?_)
    rcases head?_append_newline hd with hd | rfl
    · exact hcomment hslash d hd
    · decide
  | unclosed => cases hclosed
  | unclosedEscape => cases hclosed

/-- A text that leaves nothing open, with a line feed behind it, falls into segments of the same
meaning, whatever comes on the new line. -/
theorem Splits.join {a b : List Char} {ss ss' : List Segment} (ha : Splits a ss)
    (hb : Splits b ss') (hclosed : ∀ s ∈ ss, s.isUnclosed = false)
    (hblock : ∀ init body, ss = init ++ [.comment ('/' :: '*' :: body)] → ['*', '/'] <:+: body) :
    ∃ joint, Splits (a ++ '\n' :: b) (joint ++ ss') ∧ joint.flatMap chars = a ++ ['\n'] ∧
      (∀ s ∈ joint, s.isUnclosed = false) ∧ ∀ p, tokens p joint = tokens p ss := by
  induction ha with
  | nil =>
    have hnewline : (skipped '\n').Precedes b :=
      .skipped (by decide) (by decide) (by decide) (by intro s; cases s <;> decide)
        (fun h => absurd h (by decide))
    exact ⟨[.skipped '\n'], .cons hnewline hb, rfl, by simp [isUnclosed], fun _ => rfl⟩
  | @cons s rest ss hs hrest ih =>
    rw [List.forall_mem_cons] at hclosed
    have hlast : rest = [] → ss = [] := by
      rintro rfl
      rw [splits_iff.mp hrest, segments]
    have hended : rest = [] → ∀ body, s = .comment ('/' :: '*' :: body) →
        ['*', '/'] <:+: body := by
      rintro hnil body rfl
      exact hblock [] body (by rw [hlast hnil]; rfl)
    rcases hs.before_newline hclosed.1 hended b with hgoes | ⟨rfl, text, rfl, hline⟩
    · obtain ⟨joint, hsplits, hchars, hjoint, htokens⟩ := ih hclosed.2
        fun init body heq => hblock (s :: init) body (by rw [heq]; rfl)
      refine ⟨s :: joint, ?_, ?_, List.forall_mem_cons.mpr ⟨hclosed.1, hjoint⟩, fun p => ?_⟩
      · rw [List.append_assoc]
        exact .cons hgoes hsplits
      · rw [List.flatMap_cons, hchars, List.append_assoc]
      · rw [tokens_cons, tokens_cons, htokens]
    · -- the comment takes the line feed in and still says nothing
      obtain rfl := hlast rfl
      refine ⟨[.comment ('/' :: '/' :: (text ++ ['\n']))], ?_, by simp [chars],
        by simp [isUnclosed], fun p => rfl⟩
      have hcomment := Splits.cons (Precedes.lineComment hline b) hb
      simpa [chars] using hcomment

end Segment

/-! ## Scans -/

namespace Scan

theorem ok_iff {source : String} {path : Option String} :
    (ofText source path).ok = true ↔
      ∀ s ∈ Segment.segments source.toList, s.isUnclosed = false := by
  rw [ok, List.isEmpty_iff, ofText, List.map_eq_nil_iff]
  generalize Position.start = p
  induction Segment.segments source.toList generalizing p with
  | nil => simp [Segment.place]
  | cons s rest ih =>
    rw [Segment.place, List.forall_mem_cons, ← ih (p.advance s.chars), List.filter_cons]
    cases s.isUnclosed <;> simp

theorem stream_tokens (source : String) (path : Option String) :
    (TokenStream.ofTokens (ofText source path).tokens).tokens =
      Segment.tokens .start (Segment.segments source.toList) := by
  have htokens : (ofText source path).tokens =
      Segment.tokens .start (Segment.segments source.toList) ++
        [.ofPosition .endOfInput "" (Position.start.advance source.toList)] := rfl
  have hinner : ∀ t ∈ Segment.tokens .start (Segment.segments source.toList),
      decide (t.kind ≠ .endOfInput) = true :=
    fun t ht => decide_eq_true (Segment.kind_ne_endOfInput ht)
  rw [TokenStream.ofTokens, htokens]
  dsimp only
  rw [List.takeWhile_append_of_pos hinner]
  simp [Token.ofPosition]

/-- A text that leaves nothing open scans on a new line like the text that follows, and the
tokens of the two stand one behind the other. -/
theorem ofText_join {a : String} {path : Option String} (ha : (ofText a path).ok = true)
    (hblock : ¬Segment.EndsInBlockComment a.toList) (b : String) :
    (ofText (a ++ "\n" ++ b) path).ok = (ofText b path).ok ∧
      (TokenStream.ofTokens (ofText (a ++ "\n" ++ b) path).tokens).tokens =
        (TokenStream.ofTokens (ofText a path).tokens).tokens ++
          (TokenStream.ofTokens (ofText b path).tokens).tokens.map
            (Token.mapLine (· + (a.toList.count '\n' + 1))) := by
  obtain ⟨joint, hsplits, hchars, hjoint, htokens⟩ :=
    Segment.Splits.join (Segment.splits_segments a.toList) (Segment.splits_segments b.toList)
      (ok_iff.mp ha) fun init body heq => by
        by_contra hunended
        exact hblock ⟨init, body, heq ▸ Segment.splits_segments a.toList, hunended⟩
  have hsegments : Segment.segments (a ++ "\n" ++ b).toList =
      joint ++ Segment.segments b.toList := by
    have htext : (a ++ "\n" ++ b).toList = a.toList ++ '\n' :: b.toList := by
      simp [String.toList_append]
    rw [htext, ← Segment.splits_iff.mp hsplits]
  constructor
  · rw [Bool.eq_iff_iff, ok_iff, ok_iff, hsegments, List.forall_mem_append]
    exact and_iff_right hjoint
  · rw [stream_tokens, stream_tokens, stream_tokens, hsegments, Segment.tokens_append, htokens,
      hchars, Position.advance_start, Position.behind_newline, Segment.tokens_below]

end Scan

end SchemaLang
