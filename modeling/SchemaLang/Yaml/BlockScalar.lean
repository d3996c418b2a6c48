import SchemaLang.Yaml.Spot

/-!
# Block scalars

Scalars whose lines stand below their head, all from one column on. The head says
whether the lines are kept or folded into longer ones, what becomes of the line ends
behind the last line, and how far the lines are indented; without a word on that, the
first line that holds text tells it.
-/

namespace SchemaLang.Yaml

/-- What becomes of the line ends behind the last line: none of them is kept, or the
first, or all. -/
inductive Chomp where
  | strip
  | clip
  | keep
deriving DecidableEq, Repr

namespace Chomp

/-- The treatment that a sign in the head asks for. -/
def ofSign? (c : Char) : Option Chomp :=
  if c = '-' then some strip else if c = '+' then some keep else none

end Chomp

/-! ## Heads -/

/-- What the head of a block scalar says. -/
structure BlockHead where
  chomp : Chomp
  /-- How much deeper than what is around them the lines stand. -/
  depth : Option Nat
deriving DecidableEq, Repr

namespace BlockHead

/-- A head, and the text below it. A sign and a digit may stand in either order. -/
def read? (text : List Spot) : Option (BlockHead × List Spot) := do
  let marks := text.takeWhile fun s => s.char = '-' || s.char = '+' || s.char.isDigit
  let below ← nextLine? (text.drop marks.length)
  let depth (c : Char) : Nat := c.toNat - '0'.toNat
  match marks.map Spot.char with
  | [] => some (⟨.clip, none⟩, below)
  | [c] =>
    match Chomp.ofSign? c with
    | some chomp => some (⟨chomp, none⟩, below)
    | none => if c = '0' then none else some (⟨.clip, some (depth c)⟩, below)
  | [c, d] =>
    match Chomp.ofSign? c, Chomp.ofSign? d with
    | some chomp, none => if d = '0' then none else some (⟨chomp, some (depth d)⟩, below)
    | none, some chomp => if c = '0' then none else some (⟨chomp, some (depth c)⟩, below)
    | _, _ => none
  | _ => none

end BlockHead

/-! ## Lines -/

/-- What stands between two lines of a block scalar. -/
structure BlockGap where
  /-- The end of the line before. -/
  first : List Char
  /-- The ends of the empty lines behind it. -/
  more : List Char
  /-- Whether the line before begins with a blank. -/
  afterBlank : Bool
deriving DecidableEq, Repr

namespace BlockGap

/-- What is read between two lines. A folded line end is a blank, or nothing if empty
lines follow it; lines that begin with a blank are not folded. -/
def text (g : BlockGap) (folded beforeBlank : Bool) : List Char :=
  if folded && g.first = ['\n'] && !g.afterBlank && !beforeBlank then
    if g.more.isEmpty then [' '] else g.more
  else g.first ++ g.more

/-- What is read behind the last line. -/
def ending (g : BlockGap) : Chomp → List Char
  | .strip => []
  | .clip => g.first
  | .keep => g.first ++ g.more

end BlockGap

/-- The column that the lines before the first one with text are indented to, the ends
of these lines, and the text from there on. Tabs do not indent. -/
def firstColumn? (deepest : Nat) (breaks : List Char) :
    List Spot → Option (Nat × List Char × List Spot)
  | [] => some (deepest, breaks, [])
  | s :: rest =>
    if s.char = ' ' then firstColumn? (max deepest (s.column + 1)) breaks rest
    else if s.char = '\t' then none
    else if isBreak s.char then firstColumn? deepest (breaks ++ [s.char]) rest
    else some (deepest, breaks, s :: rest)

/-- The lines that begin in a column, and the text behind them. -/
def blockLines? (folded : Bool) (chomp : Chomp) (column : Nat) (inLine : Bool)
    (gap : BlockGap) : List Spot → Option (List Char × List Spot)
  | [] => some (gap.ending chomp, [])
  | s :: rest =>
    if inLine then
      if isBreak s.char then
        blockLines? folded chomp column false { gap with first := [s.char] } rest
      else do
        let (more, after) ← blockLines? folded chomp column true gap rest
        some (s.char :: more, after)
    else if isBreak s.char then
      blockLines? folded chomp column false { gap with more := gap.more ++ [s.char] } rest
    else if column ≤ s.column then do
      let next : BlockGap := ⟨[], [], isBlank s.char⟩
      let (more, after) ← blockLines? folded chomp column true next rest
      some (gap.text folded (isBlank s.char) ++ s.char :: more, after)
    else if s.char = ' ' then blockLines? folded chomp column false gap rest
    else if s.char = '\t' then none
    else some (gap.ending chomp, s :: rest)

/-- A block scalar from behind its indicator on, and the text behind it. What is around
it stands to the left of the margin. -/
def blockScalar? (folded : Bool) (margin : Nat) (text : List Spot) :
    Option (List Char × List Spot) := do
  let (head, below) ← BlockHead.read? text
  match head.depth with
  | some depth =>
    blockLines? folded head.chomp (margin - 1 + depth) false ⟨[], [], false⟩ below
  | none => do
    let (deepest, breaks, rest) ← firstColumn? 0 [] below
    blockLines? folded head.chomp (max deepest (max margin 1)) false ⟨[], breaks, false⟩ rest

/-! ## Progress -/

theorem BlockHead.length_read? {text below : List Spot} {head : BlockHead}
    (h : BlockHead.read? text = some (head, below)) : below.length ≤ text.length := by
  simp only [BlockHead.read?, Option.bind_eq_bind, Option.bind_eq_some_iff] at h
  obtain ⟨next, hn, hr⟩ := h
  have bound := length_nextLine? hn
  have same : below = next := by grind
  subst same
  simp only [List.length_drop] at bound
  omega

theorem length_firstColumn? {deepest column : Nat} {breaks ends : List Char}
    {text after : List Spot}
    (h : firstColumn? deepest breaks text = some (column, ends, after)) :
    after.length ≤ text.length := by
  fun_induction firstColumn? deepest breaks text <;> grind

theorem length_blockLines? {folded inLine : Bool} {chomp : Chomp} {column : Nat}
    {gap : BlockGap} {text after : List Spot} {chars : List Char}
    (h : blockLines? folded chomp column inLine gap text = some (chars, after)) :
    after.length ≤ text.length := by
  fun_induction blockLines? folded chomp column inLine gap text generalizing chars after <;>
    grind [Option.bind_eq_some_iff]

theorem length_blockScalar? {folded : Bool} {margin : Nat} {text after : List Spot}
    {chars : List Char} (h : blockScalar? folded margin text = some (chars, after)) :
    after.length ≤ text.length := by
  simp only [blockScalar?, Option.bind_eq_bind, Option.bind_eq_some_iff] at h
  obtain ⟨⟨head, below⟩, hh, h⟩ := h
  have bound := BlockHead.length_read? hh
  cases hd : head.depth with
  | some depth =>
    simp only [hd] at h
    exact Nat.le_trans (length_blockLines? h) bound
  | none =>
    simp only [hd, Option.bind_eq_some_iff] at h
    obtain ⟨⟨deepest, breaks, rest⟩, hf, h⟩ := h
    exact Nat.le_trans (length_blockLines? h) (Nat.le_trans (length_firstColumn? hf) bound)

end SchemaLang.Yaml
