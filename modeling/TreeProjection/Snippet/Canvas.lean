/-! # Canvases

A canvas is a page of styled characters that can be drawn on in any order: what is drawn later covers
what was there, and a page grows with blanks as far as it is drawn on.

* `Canvas.put`, `Canvas.write`, `Canvas.append` — draw a character or a text.
* `Canvas.render` — the text of a page, with or without the escape codes of the styles. -/

namespace TreeProjection.Snippet

/-- How a character is shown. -/
inductive Style where
  /-- As plain text. -/
  | plain
  /-- As a heading. -/
  | strong
  /-- As what a snippet is about. -/
  | alarm
  /-- As what surrounds it. -/
  | quiet
  deriving DecidableEq, Repr, Inhabited

namespace Style

/-- The escape codes that begin a style. -/
def begin : Style → String
  | plain => ""
  | strong => "\x1b[1m"
  | alarm => "\x1b[1m\x1b[91m"
  | quiet => "\x1b[1m\x1b[94m"

/-- The escape codes that end a style. -/
def reset : Style → String
  | plain => ""
  | _ => "\x1b[0m"

end Style

/-- A place on a page. -/
structure Cell where
  /-- The character. -/
  char : Char
  /-- How it is shown. -/
  style : Style
  deriving DecidableEq, Repr

instance : Inhabited Cell := ⟨' ', .plain⟩

/-- A page of styled characters. -/
structure Canvas where
  /-- The rows from the top. -/
  rows : Array (Array Cell) := #[]
  deriving Repr, Inhabited

/-- An array with defaults at its end, as many as it lacks of a size. -/
def extendTo {α : Type} [Inhabited α] (size : Nat) (xs : Array α) : Array α :=
  xs ++ Array.replicate (size - xs.size) default

namespace Canvas

/-- The number of rows. -/
def height (c : Canvas) : Nat := c.rows.size

/-- The number of characters in a row. -/
def rowLength (c : Canvas) (row : Nat) : Nat := (c.rows.getD row #[]).size

/-- Draw a character. -/
def put (c : Canvas) (row column : Nat) (style : Style) (char : Char) : Canvas :=
  { rows := (extendTo (row + 1) c.rows).modify row fun cells =>
      (extendTo (column + 1) cells).setIfInBounds column ⟨char, style⟩ }

/-- Draw characters side by side. -/
def writeChars (c : Canvas) (row column : Nat) (style : Style) : List Char → Canvas
  | [] => c
  | char :: rest => (c.put row column style char).writeChars row (column + 1) style rest

/-- Draw a text. -/
def write (c : Canvas) (row column : Nat) (style : Style) (text : String) : Canvas :=
  c.writeChars row column style text.toList

/-- Draw a text at the end of a row. -/
def append (c : Canvas) (row : Nat) (style : Style) (text : String) : Canvas :=
  c.write row (c.rowLength row) style text

/-- Draw a character in every column from the first up to the second. -/
def fill (c : Canvas) (row first last : Nat) (style : Style) (char : Char) : Canvas :=
  c.writeChars row first style (List.replicate (last - first) char)

/-- Draw a character in so many rows from a first one. -/
def fillDown (c : Canvas) (row count column : Nat) (style : Style) (char : Char) : Canvas :=
  (List.range count).foldl (fun c i => c.put (row + i) column style char) c

/-- Put an ellipsis in place of the columns from the first up to the second, unless a row does not reach
that far. -/
def elide (c : Canvas) (row first last : Nat) : Canvas :=
  if first = last ∨ c.rowLength row < first ∨ c.rowLength row < last then c
  else
    { rows := c.rows.modify row fun cells =>
        cells.extract 0 first ++ Array.replicate 3 ⟨'.', .quiet⟩ ++ cells.extract last cells.size }

/-- The text of the rest of a row, after characters in a style. -/
def rowText (style : Style) : List Cell → String
  | [] => style.reset
  | cell :: rest =>
    if cell.style = style then cell.char.toString ++ rowText style rest
    else style.reset ++ cell.style.begin ++ cell.char.toString ++ rowText cell.style rest

/-- The text of a row. -/
def renderRow (coloured : Bool) (cells : Array Cell) : String :=
  if coloured then rowText .plain cells.toList
  else String.ofList (cells.toList.map Cell.char)

/-- The text of a page. -/
def render (c : Canvas) (coloured : Bool) : String :=
  "\n".intercalate (c.rows.toList.map (renderRow coloured))

end Canvas

end TreeProjection.Snippet
