import SchemaLang.Token

/-!
# Segments

A source text falls into consecutive segments: words, numbers, quoted texts, marks,
comments, and single characters that mean nothing. Every segment is cut off the
front of what is left and is as long as its kind allows. Nothing is lost: the
characters of the segments, put together, are the text (`chars_segments`).
-/

namespace SchemaLang

/-- A stretch of source text. Of a quoted text the segment holds what stands between
the quotes, escapes and all; an unclosed one runs to the end of the source. -/
inductive Segment where
  | word (text : List Char)
  | number (text : List Char)
  | quoted (body : List Char)
  | symbol (symbol : Symbol)
  | comment (text : List Char)
  | skipped (c : Char)
  | unclosed (body : List Char)
deriving DecidableEq, Repr

namespace Segment

/-- The characters of a segment, as they stand in the source. -/
def chars : Segment → List Char
  | word text => text
  | number text => text
  | quoted body => '\x22' :: body ++ ['\x22']
  | symbol s => [s.char]
  | comment text => text
  | skipped c => [c]
  | unclosed body => '\x22' :: body

/-! ## Character classes -/

/-- A character that can begin a word: an ASCII letter or an underscore. -/
def isWordStart (c : Char) : Bool :=
  c.isAlpha || c = '_'

/-- A character that can go on with a word. -/
def isWordChar (c : Char) : Bool :=
  c.isAlphanum || c = '_'

/-- A character that can go on with a number. -/
def isNumberChar (c : Char) : Bool :=
  c.isDigit || c = '.'

/-! ## Quoted texts -/

/-- The characters up to the first quote that no backslash escapes, and what follows
that quote, if there is one. -/
def quotedBody : List Char → List Char × Option (List Char)
  | [] => ([], none)
  | '\\' :: c :: rest =>
    let (body, after) := quotedBody rest
    ('\\' :: c :: body, after)
  | c :: rest =>
    if c = '\x22' then ([], some rest)
    else
      let (body, after) := quotedBody rest
      (c :: body, after)

/-- The character that an escaped character stands for: line feed, tab, carriage
return, or itself. -/
def unescape (c : Char) : Char :=
  if c = 'n' then '\n' else if c = 't' then '\t' else if c = 'r' then '\r' else c

/-- The content of a quoted text. -/
def decode : List Char → List Char
  | '\\' :: c :: rest => unescape c :: decode rest
  | c :: rest => c :: decode rest
  | [] => []

/-! ## Comments -/

/-- The characters up to the end of the line, the line feed among them, and the rest. -/
def lineEnd : List Char → List Char × List Char
  | [] => ([], [])
  | c :: rest =>
    if c = '\n' then (['\n'], rest)
    else
      let (text, after) := lineEnd rest
      (c :: text, after)

/-- The characters up to the first star with a slash behind it, both among them, and
the rest. -/
def blockEnd : List Char → List Char × List Char
  | [] => ([], [])
  | '*' :: '/' :: rest => (['*', '/'], rest)
  | c :: rest =>
    let (text, after) := blockEnd rest
    (c :: text, after)

/-! ## Cutting -/

/-- The segment that begins with a character and what follows it. -/
def cut (c : Char) (rest : List Char) : Segment × List Char :=
  if c = '\x22' then
    match quotedBody rest with
    | (body, some after) => (quoted body, after)
    | (body, none) => (unclosed body, [])
  else if isWordStart c then
    (word (c :: rest.takeWhile isWordChar), rest.dropWhile isWordChar)
  else if c.isDigit then
    (number (c :: rest.takeWhile isNumberChar), rest.dropWhile isNumberChar)
  else
    match c, rest with
    | '/', '/' :: inner =>
      let (text, after) := lineEnd inner
      (comment ('/' :: '/' :: text), after)
    | '/', '*' :: inner =>
      let (text, after) := blockEnd inner
      (comment ('/' :: '*' :: text), after)
    | c, rest =>
      match Symbol.ofChar? c with
      | some s => (symbol s, rest)
      | none => (skipped c, rest)

theorem quotedBody_closed {text body after : List Char}
    (h : quotedBody text = (body, some after)) : body ++ '\x22' :: after = text := by
  fun_induction quotedBody text generalizing body after with
  | case1 => simp at h
  | case2 c rest inner rest' heq ih =>
    cases h
    simp [ih heq]
  | case3 rest =>
    cases h
    rfl
  | case4 c rest hc hq inner rest' heq ih =>
    cases h
    simp [ih heq]

theorem quotedBody_unclosed {text body : List Char}
    (h : quotedBody text = (body, none)) : body = text := by
  fun_induction quotedBody text generalizing body with
  | case1 => cases h; rfl
  | case2 c rest inner rest' heq ih =>
    cases h
    simp [ih heq]
  | case3 rest => simp at h
  | case4 c rest hc hq inner rest' heq ih =>
    cases h
    simp [ih heq]

theorem lineEnd_append (text : List Char) : (lineEnd text).1 ++ (lineEnd text).2 = text := by
  fun_induction lineEnd text with
  | case1 => rfl
  | case2 => simp
  | case3 c rest hc inner after heq ih => simpa [heq] using ih

theorem blockEnd_append (text : List Char) :
    (blockEnd text).1 ++ (blockEnd text).2 = text := by
  fun_induction blockEnd text with
  | case1 => rfl
  | case2 => rfl
  | case3 c rest hc inner after heq ih => simpa [heq] using ih

/-- Nothing is lost when a segment is cut off. -/
theorem chars_cut (c : Char) (rest : List Char) :
    (cut c rest).1.chars ++ (cut c rest).2 = c :: rest := by
  unfold cut
  split
  · next hc =>
    subst hc
    split
    · next heq => simp [chars, quotedBody_closed heq]
    · next heq => simp [chars, quotedBody_unclosed heq]
  · split
    · simp [chars, List.takeWhile_append_dropWhile]
    · split
      · simp [chars, List.takeWhile_append_dropWhile]
      · split
        · simp [chars, lineEnd_append]
        · simp [chars, blockEnd_append]
        · split
          · next hs => simp [chars, Symbol.char_of_ofChar? hs]
          · simp [chars]

theorem chars_ne_nil (c : Char) (rest : List Char) : (cut c rest).1.chars ≠ [] := by
  unfold cut
  repeat' split
  all_goals simp [chars]

theorem length_cut (c : Char) (rest : List Char) :
    (cut c rest).2.length < (c :: rest).length := by
  have h := congrArg List.length (chars_cut c rest)
  have hpos : 0 < (cut c rest).1.chars.length := List.length_pos_iff.2 (chars_ne_nil c rest)
  simp only [List.length_append] at h
  omega

/-- The segments of a text. -/
def segments : List Char → List Segment
  | [] => []
  | c :: rest => (cut c rest).1 :: segments (cut c rest).2
termination_by text => text.length
decreasing_by exact length_cut c rest

/-- The segments of a text, put together, are the text. -/
theorem chars_segments (text : List Char) : (segments text).flatMap chars = text := by
  fun_induction segments text with
  | case1 => rfl
  | case2 c rest ih => simp [ih, chars_cut]

/-! ## Tokens -/

/-- The token of a segment that starts at a position, if the segment has a meaning. -/
def token? (p : Position) : Segment → Option Token
  | word text =>
    let lexeme := String.ofList text
    some (.ofPosition (.ofWord lexeme) lexeme p)
  | number text => some (.ofPosition .number (String.ofList text) p)
  | quoted body => some (.ofPosition .string (String.ofList (decode body)) p)
  | symbol s => some (.ofPosition (.symbol s) s.char.toString p)
  | comment _ => none
  | skipped _ => none
  | unclosed _ => none

/-- Whether a segment is a quoted text without end. -/
def isUnclosed : Segment → Bool
  | unclosed _ => true
  | _ => false

/-- Each segment with the position at which it starts, from a given position on. -/
def place (p : Position) : List Segment → List (Position × Segment)
  | [] => []
  | s :: rest => (p, s) :: place (p.advance s.chars) rest

end Segment

end SchemaLang
