import SchemaLang.Proofs.Token.Joint

/-!
# Printed items

Scanning gives back what was printed. An item is written by itself, with something behind it
that keeps it apart from the next one: white space or comments, as much as one likes. The tokens
of such a text are the items, and what stands between them leaves no trace but in the places
of the tokens (`Scan.ofText_written`).
-/

namespace SchemaLang

/-- The white space of Unicode, by the first and the last character of each stretch. -/
def Text.whiteRanges : List (Nat × Nat) :=
  [(0x9, 0xd), (0x20, 0x20), (0x85, 0x85), (0xa0, 0xa0), (0x1680, 0x1680), (0x2000, 0x200a),
    (0x2028, 0x2029), (0x202f, 0x202f), (0x205f, 0x205f), (0x3000, 0x3000)]

/-- Whether a character is white space. -/
def Text.isWhite (c : Char) : Bool :=
  whiteRanges.any fun range => range.1 ≤ c.toNat && c.toNat ≤ range.2

/-- What a token says, wherever it stands. -/
def Token.said (t : Token) : Token.Kind × String :=
  (t.kind, t.lexeme)

namespace Segment

/-! ## What segments say -/

/-- What the token of a segment says, if it has one. -/
def said? (s : Segment) : Option (Token.Kind × String) :=
  (s.token? .start).map Token.said

theorem said_token? (p : Position) (s : Segment) : (s.token? p).map Token.said = s.said? := by
  cases s <;> rfl

theorem said_tokens (p : Position) (ss : List Segment) :
    (tokens p ss).map Token.said = ss.filterMap said? := by
  induction ss generalizing p with
  | nil => rfl
  | cons s rest ih =>
    rw [tokens_cons, List.map_append, ih, List.filterMap_cons, ← said_token? p s]
    cases s.token? p <;> rfl

/-! ## Characters of the language -/

theorem toNat_of_isWordChar {c : Char} (h : isWordChar c = true) :
    33 ≤ c.toNat ∧ c.toNat ≤ 126 := by
  simp only [isWordChar, Char.isAlphanum, Char.isAlpha, Char.isUpper, Char.isLower, Char.isDigit,
    Bool.or_eq_true, Bool.and_eq_true, decide_eq_true_eq, ge_iff_le, UInt32.le_iff_toNat_le] at h
  rcases h with ((h | h) | h) | rfl
  · change 65 ≤ c.toNat ∧ c.toNat ≤ 90 at h
    omega
  · change 97 ≤ c.toNat ∧ c.toNat ≤ 122 at h
    omega
  · change 48 ≤ c.toNat ∧ c.toNat ≤ 57 at h
    omega
  · decide

theorem isWordChar_of_isWordStart {c : Char} (h : isWordStart c = true) :
    isWordChar c = true := by
  simp only [isWordStart, isWordChar, Char.isAlphanum, Bool.or_eq_true] at h ⊢
  exact h.imp_left Or.inl

theorem isWordChar_of_isDigit {c : Char} (h : c.isDigit = true) : isWordChar c = true := by
  simp [isWordChar, Char.isAlphanum, h]

/-- White space is outside the range of the visible characters of ASCII. -/
theorem invisible_of_isWhite {c : Char} (h : Text.isWhite c = true) :
    c.toNat ≤ 32 ∨ 127 ≤ c.toNat := by
  simp only [Text.isWhite, Text.whiteRanges, List.any_cons, List.any_nil, Bool.or_false,
    Bool.or_eq_true, Bool.and_eq_true, decide_eq_true_eq] at h
  omega

/-! ## What keeps segments apart -/

/-- A text with which no word and no number before it goes on. -/
def Breaks (rest : List Char) : Prop :=
  ∀ d ∈ rest.head?, isWordChar d = false ∧ isNumberChar d = false

theorem breaks_nil : Breaks [] := by simp [Breaks]

theorem breaks_cons {c : Char} (hword : isWordChar c = false) (hpoint : c ≠ '.')
    (rest : List Char) : Breaks (c :: rest) := by
  intro d hd
  obtain rfl := Option.some.inj hd
  refine ⟨hword, ?_⟩
  rw [isNumberChar, Bool.or_eq_false_iff]
  refine ⟨Bool.eq_false_iff.mpr fun hdigit => ?_, decide_eq_false hpoint⟩
  rw [isWordChar_of_isDigit hdigit] at hword
  cases hword

/-- A segment that ends of itself, and ends what stands before it. -/
structure Isolated (s : Segment) : Prop where
  precedes : ∀ rest, s.Precedes rest
  breaks : ∀ rest, Breaks (s.chars ++ rest)

theorem isolated_symbol (m : Symbol) : (symbol m).Isolated where
  precedes := .symbol m
  breaks := breaks_cons (by cases m <;> decide) (by cases m <;> decide)

theorem isolated_skipped {c : Char} (h : c.toNat ≤ 32 ∨ 127 ≤ c.toNat) : (skipped c).Isolated := by
  have hword : isWordChar c ≠ true := by
    intro hword
    have := toNat_of_isWordChar hword
    omega
  have hne (d : Char) (hd : 33 ≤ d.toNat ∧ d.toNat ≤ 126) : c ≠ d := by
    rintro rfl
    omega
  refine ⟨fun rest => .skipped (hne _ (by decide)) ?_ ?_ ?_ ?_,
    breaks_cons (Bool.eq_false_iff.mpr hword) (hne _ (by decide))⟩
  · exact Bool.eq_false_iff.mpr fun hstart => hword (isWordChar_of_isWordStart hstart)
  · exact Bool.eq_false_iff.mpr fun hdigit => hword (isWordChar_of_isDigit hdigit)
  · exact fun s => (hne _ (by cases s <;> decide)).symm
  · exact fun hslash => absurd hslash (hne _ (by decide))

theorem isolated_blockComment {text : List Char} (first : ¬['*', '/'] <:+: text ++ ['*']) :
    (comment ('/' :: '*' :: (text ++ ['*', '/']))).Isolated where
  precedes := .blockComment first
  breaks _ := breaks_cons (by decide) (by decide) _

theorem isolated_lineComment {text : List Char} (oneLine : '\n' ∉ text) :
    (comment ('/' :: '/' :: (text ++ ['\n']))).Isolated where
  precedes := .lineComment oneLine
  breaks _ := breaks_cons (by decide) (by decide) _

/-! ## Texts with something behind them -/

/-- A text falls into segments, whatever stands behind it that does not go on with it. -/
def Divides (text : List Char) (ss : List Segment) : Prop :=
  ∀ rest ss', Breaks rest → Splits rest ss' → Splits (text ++ rest) (ss ++ ss')

theorem divides_nil : Divides [] [] :=
  fun _ _ _ h => h

theorem divides_segment {s : Segment} (h : ∀ rest, Breaks rest → s.Precedes rest) :
    Divides s.chars [s] :=
  fun rest _ hbreaks hrest => .cons (h rest hbreaks) hrest

/-- Texts with a segment between them that keeps them apart. -/
theorem Divides.join {text more : List Char} {ss ss' : List Segment} {s : Segment}
    (h : Divides text ss) (hs : s.Isolated) (h' : Divides more ss') :
    Divides (text ++ (s.chars ++ more)) (ss ++ s :: ss') := by
  intro rest after hbreaks hrest
  have hbehind := Splits.cons (hs.precedes _) (h' rest after hbreaks hrest)
  simpa using h _ _ (hs.breaks _) hbehind

theorem Divides.segments_eq {text : List Char} {ss : List Segment} (h : Divides text ss) :
    segments text = ss := by
  have hsplits := h [] [] breaks_nil .nil
  rw [List.append_nil, List.append_nil] at hsplits
  exact (splits_iff.mp hsplits).symm

/-- A text that something can stand behind leaves no quotes open. -/
theorem Divides.closed {text : List Char} {ss : List Segment} (h : Divides text ss) :
    ∀ s ∈ ss, s.isUnclosed = false := by
  have hspace : (skipped ' ').Isolated := isolated_skipped (by decide)
  exact (h [' '] [skipped ' '] (hspace.breaks [])
    (.cons (hspace.precedes []) .nil)).closed_init

/-! ## Quoted texts -/

/-- A text written character by character, each so that it says itself, says itself. -/
theorem content_flatMap {f : Char → List Char} {text : List Char}
    (h : ∀ c ∈ text, ∀ body content, Content body content →
      Content (f c ++ body) (c :: content)) : Content (text.flatMap f) text := by
  induction text with
  | nil => exact .nil
  | cons c rest ih =>
    rw [List.forall_mem_cons] at h
    exact h.1 _ _ (ih h.2)

end Segment

/-! ## Items -/

/-- A unit of the language, as it can be written by itself. -/
inductive Lexeme where
  | word (first : Char) (rest : List Char) (starts : Segment.isWordStart first = true)
    (continued : ∀ d ∈ rest, Segment.isWordChar d = true)
  | number (first : Char) (rest : List Char) (starts : first.isDigit = true)
    (continued : ∀ d ∈ rest, Segment.isNumberChar d = true)
  | symbol (s : Symbol)
  | string (content : List Char)

namespace Lexeme

/-- A character between quotes: quotes and backslashes with a backslash before them, all others
as they are. -/
def escape (c : Char) : List Char :=
  if c = '\x22' ∨ c = '\\' then ['\\', c] else [c]

/-- How an item is written. -/
def written : Lexeme → List Char
  | word first rest _ _ => first :: rest
  | number first rest _ _ => first :: rest
  | symbol s => [s.char]
  | string content => '\x22' :: content.flatMap escape ++ ['\x22']

/-- The kind of an item. -/
def kind : Lexeme → Token.Kind
  | word first rest _ _ => .ofWord (String.ofList (first :: rest))
  | number .. => .number
  | symbol s => .symbol s
  | string _ => .string

/-- The text of an item: of a string, what it says. -/
def text : Lexeme → String
  | word first rest _ _ => String.ofList (first :: rest)
  | number first rest _ _ => String.ofList (first :: rest)
  | symbol s => String.ofList [s.char]
  | string content => String.ofList content

/-- The stretch of source text that an item is. -/
def segment : Lexeme → Segment
  | word first rest _ _ => .word (first :: rest)
  | number first rest _ _ => .number (first :: rest)
  | symbol s => .symbol s
  | string content => .quoted (content.flatMap escape)

theorem content_escape (content : List Char) :
    Segment.Content (content.flatMap escape) content := by
  refine Segment.content_flatMap fun c _ body content h => ?_
  unfold escape
  split
  · next hc =>
    have hself : Segment.unescape c = c := by
      rcases hc with rfl | rfl <;> rfl
    have hescaped := Segment.Content.escape (c := c) h
    rwa [hself] at hescaped
  · next hc =>
    rw [not_or] at hc
    exact .plain hc.1 hc.2 h

theorem chars_segment (l : Lexeme) : l.segment.chars = l.written := by
  cases l <;> rfl

theorem said?_segment (l : Lexeme) : l.segment.said? = some (l.kind, l.text) := by
  cases l with
  | string content =>
    show some (Token.Kind.string, String.ofList (Segment.decode _)) = _
    rw [(content_escape content).decode_eq]
    rfl
  | _ => rfl

theorem precedes (l : Lexeme) {rest : List Char} (h : Segment.Breaks rest) :
    l.segment.Precedes rest := by
  cases l with
  | word first text starts continued => exact .word starts continued fun d hd => (h d hd).1
  | number first text starts continued => exact .number starts continued fun d hd => (h d hd).2
  | symbol s => exact .symbol s rest
  | string content => exact .quoted (content_escape content) rest

theorem divides (l : Lexeme) : Segment.Divides l.written [l.segment] := by
  rw [← l.chars_segment]
  exact Segment.divides_segment fun _ => l.precedes

end Lexeme

/-! ## Separators -/

/-- What can stand between items and says nothing: white space, a block comment up to the first
end that there is, or a line comment with the end of its line. -/
inductive Separator where
  | blank (c : Char) (white : Text.isWhite c = true)
  | blockComment (text : List Char) (first : ¬['*', '/'] <:+: text ++ ['*'])
  | lineComment (text : List Char) (oneLine : '\n' ∉ text)

namespace Separator

/-- How a separator is written. -/
def written : Separator → List Char
  | blank c _ => [c]
  | blockComment text _ => '/' :: '*' :: (text ++ ['*', '/'])
  | lineComment text _ => '/' :: '/' :: (text ++ ['\n'])

/-- The stretch of source text that a separator is. -/
def segment : Separator → Segment
  | blank c _ => .skipped c
  | blockComment text _ => .comment ('/' :: '*' :: (text ++ ['*', '/']))
  | lineComment text _ => .comment ('/' :: '/' :: (text ++ ['\n']))

theorem chars_segment (s : Separator) : s.segment.chars = s.written := by
  cases s <;> rfl

theorem said?_segment (s : Separator) : s.segment.said? = none := by
  cases s <;> rfl

theorem isolated (s : Separator) : s.segment.Isolated := by
  cases s with
  | blank c white => exact Segment.isolated_skipped (Segment.invisible_of_isWhite white)
  | blockComment text first => exact Segment.isolated_blockComment first
  | lineComment text oneLine => exact Segment.isolated_lineComment oneLine

theorem divides (separators : List Separator) {text : List Char} {ss : List Segment}
    (h : Segment.Divides text ss) :
    Segment.Divides (separators.flatMap written ++ text) (separators.map segment ++ ss) := by
  induction separators with
  | nil => exact h
  | cons s rest ih =>
    rw [List.flatMap_cons, List.append_assoc, ← s.chars_segment]
    exact Segment.divides_nil.join s.isolated ih

end Separator

/-! ## Printed texts -/

/-- An item with what stands behind it: one separator at least. -/
structure Printed where
  item : Lexeme
  separator : Separator
  separators : List Separator

namespace Printed

/-- How an item is written with what stands behind it. -/
def written (e : Printed) : List Char :=
  e.item.written ++ e.separator.written ++ e.separators.flatMap Separator.written

/-- The stretches of source text that an item and what stands behind it are. -/
def segments (e : Printed) : List Segment :=
  e.item.segment :: e.separator.segment :: e.separators.map Separator.segment

theorem divides (es : List Printed) :
    Segment.Divides (es.flatMap written) (es.flatMap segments) := by
  induction es with
  | nil => exact Segment.divides_nil
  | cons e rest ih =>
    have hjoin := e.item.divides.join e.separator.isolated (Separator.divides e.separators ih)
    rwa [e.separator.chars_segment, ← List.append_assoc, ← List.append_assoc] at hjoin

theorem said?_segments (e : Printed) :
    e.segments.filterMap Segment.said? = [(e.item.kind, e.item.text)] := by
  have hgap : (e.separator.segment :: e.separators.map Separator.segment).filterMap
      Segment.said? = [] := by
    rw [← List.map_cons, List.filterMap_map, List.filterMap_eq_nil_iff]
    exact fun s _ => s.said?_segment
  rw [segments, List.filterMap_cons, e.item.said?_segment, hgap]

end Printed

/-- Items that are printed with something between them are scanned back: nothing is wrong, and
the tokens say what the items are, in order, whatever stands between them. -/
theorem Scan.ofText_written (es : List Printed) (path : Option String) :
    (ofText (String.ofList (es.flatMap Printed.written)) path).ok = true ∧
      (ofText (String.ofList (es.flatMap Printed.written)) path).tokens.map
          (fun t => (t.kind, t.lexeme)) =
        (es.map Printed.item).map (fun l => (l.kind, l.text)) ++ [(.endOfInput, "")] := by
  have hsegments : Segment.segments (String.ofList (es.flatMap Printed.written)).toList =
      es.flatMap Printed.segments := by
    rw [String.toList_ofList]
    exact (Printed.divides es).segments_eq
  constructor
  · rw [ok_iff, hsegments]
    exact (Printed.divides es).closed
  · show List.map Token.said (Segment.tokens .start (Segment.segments _) ++ _) = _
    rw [hsegments, List.map_append, Segment.said_tokens, List.filterMap_flatMap, List.map_map]
    simp only [Printed.said?_segments]
    rw [← List.map_eq_flatMap]
    rfl

/-- Quotes hide the start of a comment, and a comment hides quotes. -/
example : (Scan.ofText "say/* \" **/\"/*\\\"\" 1.5// ;\n" none).tokens.map Token.said =
    [(.identifier, "say"), (.string, "/*\""), (.number, "1.5"), (.endOfInput, "")] := by
  cbv

end SchemaLang
