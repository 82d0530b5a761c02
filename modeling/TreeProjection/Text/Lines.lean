/-! # Lines of a text

A line ends after a line feed, and a carriage return just before that line feed is part of the ending.
After the last line feed a line begins only if text follows.

* `Text.lines` — the lines without their endings.
* `Text.joinLines` — texts on lines of their own, the way messages are merged. -/

namespace TreeProjection.Text

/-- Drop a carriage return at the end of a line that is held in reverse, and put the line in order. -/
def closeLine : List Char → String
  | '\r' :: rest => String.ofList rest.reverse
  | line => String.ofList line.reverse

/-- The lines of `cs`, where `line` holds in reverse what the present line has so far. -/
def linesFrom (line : List Char) : List Char → List String
  | [] => if line.isEmpty then [] else [String.ofList line.reverse]
  | '\n' :: rest => closeLine line :: linesFrom [] rest
  | c :: rest => linesFrom (c :: line) rest

/-- The lines of a text, without their endings. -/
def lines (s : String) : List String := linesFrom [] s.toList

/-- Texts joined by line feeds. -/
def joinLines (texts : List String) : String := "\n".intercalate texts

@[simp] theorem lines_empty : lines "" = [] := rfl

end TreeProjection.Text
