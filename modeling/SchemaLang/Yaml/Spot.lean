/-!
# Characters in their places

What the characters of a YAML text are to its reader, and where they stand. A place is
told by line and column and by the bytes before it on its line, which bound how long a
key may be.
-/

namespace SchemaLang.Yaml

/-! ## Characters -/

/-- Whether a character may stand in a text. Most controls may not. -/
def isAllowed (c : Char) : Bool :=
  let code := c.toNat
  c = '\t' || c = '\n' || c = '\r' || code = 0x85 || (0x20 ≤ code && code ≤ 0x7e) ||
    (0xa0 ≤ code && code != 0xfffe && code != 0xffff)

/-- Whether a character is a blank within a line. -/
def isBlank (c : Char) : Bool :=
  c = ' ' || c = '\t'

/-- Whether a character ends a line. -/
def isBreak (c : Char) : Bool :=
  c = '\n' || c = '\u2028' || c = '\u2029'

/-- Whether a character may stand in a name. -/
def isWord (c : Char) : Bool :=
  c.isAlphanum || c = '_' || c = '-'

/-- The mark of the byte order, which counts for nothing at the head of a line. -/
def byteOrderMark : Char := '\ufeff'

/-- A text with one character for each of the usual line ends. The separators of lines
and paragraphs stay what they are. -/
def unifyBreaks : List Char → List Char
  | '\r' :: '\n' :: rest => '\n' :: unifyBreaks rest
  | c :: rest => (if c = '\r' || c = '\x85' then '\n' else c) :: unifyBreaks rest
  | [] => []

/-! ## Places -/

/-- A character and where it stands: its line and column, and the number of bytes
before it on its line. -/
structure Spot where
  char : Char
  line : Nat
  column : Nat
  offset : Nat
deriving DecidableEq, Repr, Inhabited

namespace Spot

/-- The characters of a text in their places, the first of which is given. -/
def placeFrom (line column offset : Nat) : List Char → List Spot
  | [] => []
  | c :: rest =>
    ⟨c, line, column, offset⟩ ::
      if isBreak c then placeFrom (line + 1) 0 0 rest
      else placeFrom line (column + 1) (offset + c.utf8Size) rest

/-- The characters of a text in their places. -/
def ofChars (text : List Char) : List Spot :=
  placeFrom 0 0 0 text

theorem map_char_placeFrom (line column offset : Nat) (text : List Char) :
    (placeFrom line column offset text).map Spot.char = text := by
  induction text generalizing line column offset with
  | nil => rfl
  | cons c rest ih =>
    simp only [placeFrom, List.map_cons, List.cons.injEq, true_and]
    split <;> exact ih ..

/-- Placing a text changes none of its characters. -/
theorem map_char_ofChars (text : List Char) : (ofChars text).map Spot.char = text :=
  map_char_placeFrom 0 0 0 text

/-- The characters by themselves. -/
def spell (spots : List Spot) : String :=
  String.ofList (spots.map Spot.char)

end Spot

/-! ## What begins at a place -/

/-- Whether a text begins with a blank or a line end, or is at its own end. -/
def startsBlank : List Spot → Bool
  | [] => true
  | s :: _ => isBlank s.char || isBreak s.char

/-- Whether a text begins with one of some characters. -/
def startsAmong (chars : List Char) : List Spot → Bool
  | [] => false
  | s :: _ => chars.contains s.char

/-- Whether a mark that opens or closes a document begins here: three dashes or three
dots at the head of a line, with a blank behind them. -/
def startsMark : List Spot → Bool
  | [] => false
  | s :: rest =>
    let mark := (s :: rest.take 2).map Spot.char
    s.column = 0 && (mark = ['-', '-', '-'] || mark = ['.', '.', '.']) &&
      startsBlank (rest.drop 2)

/-- The text on the lines below, if nothing but blanks and a comment is left on the
current one. -/
def nextLine? (text : List Spot) : Option (List Spot) :=
  let rest := text.dropWhile fun s => isBlank s.char
  let rest := if startsAmong ['#'] rest then rest.dropWhile fun s => !isBreak s.char else rest
  match rest with
  | [] => some []
  | s :: below => if isBreak s.char then some below else none

theorem length_dropWhile_le (p : Spot → Bool) (text : List Spot) :
    (text.dropWhile p).length ≤ text.length :=
  (List.dropWhile_sublist p).length_le

theorem length_nextLine? {text below : List Spot} (h : nextLine? text = some below) :
    below.length ≤ text.length := by
  have blanks := length_dropWhile_le (fun s => isBlank s.char) text
  have comment := length_dropWhile_le (fun s => !isBreak s.char)
    (text.dropWhile fun s => isBlank s.char)
  simp only [nextLine?] at h
  split at h
  · cases h
    simp
  · split at h <;> simp_all
    grind

end SchemaLang.Yaml
