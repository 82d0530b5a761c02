import TreeProjection.Text.Width

/-! # Lines of a source by offset

A source as the lines that snippets show of it.  A line ends with a line feed, or with a carriage return
and a line feed; its ending belongs to it.  An empty source has one empty line.

* `SourceLine.ofSource` — the lines of a source.
* `SourceLine.find`, `SourceLine.columnAt` — where an offset lies. -/

namespace TreeProjection.Snippet

/-- A line of a source. -/
structure SourceLine where
  /-- Its number, from one. -/
  number : Nat
  /-- Its characters without the ending. -/
  chars : List Char
  /-- The offset of its first byte. -/
  start : Nat
  /-- The number of bytes of its ending. -/
  ending : Nat
  deriving DecidableEq, Repr, Inhabited

/-- A column of a line, which is counted in characters and in columns of a terminal. -/
structure Column where
  /-- The characters before it. -/
  char : Nat := 0
  /-- The terminal's columns before it. -/
  cell : Nat := 0
  deriving DecidableEq, Repr, Inhabited

/-- The number of bytes of several characters. -/
def byteLength : List Char → Nat
  | [] => 0
  | c :: rest => c.utf8Size + byteLength rest

@[simp] theorem byteLength_nil : byteLength [] = 0 := rfl

@[simp] theorem byteLength_cons (c : Char) (cs : List Char) :
    byteLength (c :: cs) = c.utf8Size + byteLength cs := rfl

@[simp] theorem byteLength_append (cs ds : List Char) :
    byteLength (cs ++ ds) = byteLength cs + byteLength ds := by
  induction cs with
  | nil => simp
  | cons c cs ih => simp [ih, Nat.add_assoc]

/-- The characters that begin in the first bytes of a text. -/
def charsWithin : (bytes : Nat) → List Char → List Char
  | _, [] => []
  | bytes, c :: rest => if bytes = 0 then [] else c :: charsWithin (bytes - c.utf8Size) rest

namespace SourceLine

/-- The offset just after the text of a line. -/
def textStop (l : SourceLine) : Nat := l.start + byteLength l.chars

/-- The offset just after a line. -/
def stop (l : SourceLine) : Nat := l.textStop + l.ending

/-- The line whose characters are held in reverse, at its line feed. -/
def close (number start : Nat) : List Char → SourceLine
  | '\r' :: line => ⟨number, line.reverse, start, 2⟩
  | line => ⟨number, line.reverse, start, 1⟩

/-- The lines of the rest of a source, where `line` holds in reverse what the present line has so
far. -/
def split (number start : Nat) (line : List Char) : List Char → List SourceLine
  | [] => if line.isEmpty then [] else [⟨number, line.reverse, start, 0⟩]
  | '\n' :: rest =>
    let l := close number start line
    l :: split (number + 1) l.stop [] rest
  | c :: rest => split number start (c :: line) rest

/-- The lines of a source. -/
def ofSource (source : String) : List SourceLine :=
  match split 1 0 [] source.toList with
  | [] => [⟨1, [], 0, 0⟩]
  | lines => lines

/-- The line of an offset; past the end it is the last line. -/
def find (lines : List SourceLine) (offset : Nat) : SourceLine :=
  (lines.find? fun l => l.start ≤ offset && offset < l.stop).getD (lines.getLastD default)

/-- The column of an offset in a line, which is at most the one after its text. -/
def columnAt (l : SourceLine) (offset : Nat) : Column :=
  let before := charsWithin (offset - l.start) l.chars
  ⟨before.length, Text.columnsOf before⟩

/-- The characters of a line by its number. -/
def charsOf (lines : List SourceLine) (number : Nat) : List Char :=
  ((lines.find? (·.number == number)).map SourceLine.chars).getD []

end SourceLine

/-- A place in a source. -/
structure Place where
  /-- The number of its line. -/
  line : Nat
  /-- Its column in the line. -/
  column : Column
  /-- Its offset in the source. -/
  offset : Nat
  deriving DecidableEq, Repr, Inhabited

namespace Place

/-- The place of an offset on a line.  In a line's ending the character after the text counts. -/
def onLine (l : SourceLine) (offset : Nat) : Place :=
  let column := l.columnAt offset
  ⟨l.number, { column with char := column.char + if l.textStop < offset then 1 else 0 }, offset⟩

/-- The places where a span starts and ends.  Where it ends on the line of its start, the line's ending
does not count. -/
def ofSpan (lines : List SourceLine) (start stop : Nat) : Place × Place :=
  let first := SourceLine.find lines start
  let last := SourceLine.find lines stop
  let opening := onLine first start
  if start = stop then (opening, opening)
  else if first.number = last.number then (opening, ⟨last.number, last.columnAt stop, stop⟩)
  else (opening, onLine last stop)

end Place

end TreeProjection.Snippet
