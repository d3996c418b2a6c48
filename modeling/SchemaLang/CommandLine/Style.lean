/-!
# Styled text

Text that is set in a colour or weight when the output is a terminal, and columns of a
width. A column is filled up inside its style, so the blanks are styled as well.
-/

namespace SchemaLang

/-- How a text is set. -/
inductive Style where
  | bold
  | dimmed
  | red
  | boldRed
  | green
  | magenta
  | cyan
deriving DecidableEq, Repr

namespace Style

/-- The terminal's codes for a style. -/
def codes : Style → String
  | bold => "1"
  | dimmed => "2"
  | red => "31"
  | boldRed => "1;31"
  | green => "32"
  | magenta => "35"
  | cyan => "36"

/-- The sequence that begins a style. -/
def opening (style : Style) : String :=
  "\x1b[" ++ style.codes ++ "m"

/-- The sequence that ends every style. -/
def closing : String := "\x1b[0m"

/-- The text filled up with blanks on the right. -/
def padRight (width : Nat) (text : String) : String :=
  text.pushn ' ' (width - text.length)

/-- The text filled up with blanks on the left. -/
def padLeft (width : Nat) (text : String) : String :=
  "".pushn ' ' (width - text.length) ++ text

/-- The text as a column of a width in a style, if styles are shown. Where the text itself
ends all styles, the style begins anew. -/
def paintColumn (style : Style) (shown : Bool) (width : Nat) (text : String) : String :=
  if shown then
    style.opening ++ padRight width (text.replace closing (closing ++ style.opening)) ++ closing
  else padRight width text

/-- The text in a style, if styles are shown. -/
def paint (style : Style) (shown : Bool) (text : String) : String :=
  style.paintColumn shown 0 text

end Style

end SchemaLang
