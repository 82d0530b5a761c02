import TreeProjection.Failure
import TreeProjection.Snippet.Row

/-! # Snippets of a source

A snippet tells of an error: a title over the lines of the source that it is about, with marks and
labels, for people to read:

```text
error: outer
  |
1 | abcdef
  | ^^--^^
  |   |
  |   inner
```

A mark may go past the end of the source, but it neither starts nor stops inside a character.

* `Snippet.render` — the text of a snippet, unless a mark is inside a character. -/

namespace TreeProjection

/-- An error with the source that it is about. -/
structure Snippet where
  /-- What is wrong. -/
  title : String
  /-- The source. -/
  source : String
  /-- Where the source comes from, if it has a name. -/
  path : Option String := none
  /-- What to point at. -/
  marks : List Snippet.Mark
  deriving Repr, Inhabited

namespace Snippet

/-- The number of digits of a number. -/
def digitCount (n : Nat) : Nat := (toString n).length

/-- The number of lines up to an offset.  A line feed that comes last does not begin another. -/
def linesUpTo (source : String) (offset : Nat) : Nat :=
  let text := charsWithin offset source.toList
  let feeds := (text.filter (· == '\n')).length
  1 + if text.getLast? = some '\n' then feeds - 1 else feeds

/-- The number of the last line that is shown. -/
def lastNumber (s : Snippet) : Nat :=
  linesUpTo s.source (greatestOr0 (s.marks.map fun m => m.span.stop))

/-- Draw the title; its further lines stand below the text of the first. -/
def drawTitle (s : Snippet) (c : Canvas) : Canvas :=
  let c := (c.append 0 .alarm "error").append 0 .strong ": "
  let lines := (Text.visible s.title).splitOn "\n"
  lines.zipIdx.foldl (fun c (line, i) =>
    let c := if i = 0 then c else c.append i .plain "       "
    c.append i .strong line) c

/-- The line and the column that a snippet is about: where its first primary mark starts, or else its
first mark. -/
def origin? (lines : List MarkedLine) : Option (Nat × Nat) := do
  let l ← (lines.find? (·.marks.any LineMark.primary)).or lines.head?
  let primary := l.marks.filter LineMark.primary
  let marks := if primary.isEmpty then l.marks else primary
  let first ← (marks.map fun m => m.start.char).min?
  return (l.line.number, first + 1)

/-- The path of a source with the line and the column that a snippet is about. -/
def originText (path : String) (lines : List MarkedLine) : String :=
  match origin? lines with
  | some (line, column) => s!"{path}:{line}:{column}"
  | none => path

/-- Draw the path, if there is one, and a row of the ruler. -/
def drawHeader (s : Snippet) (f : Frame) (lines : List MarkedLine) (c : Canvas) : Canvas :=
  let row := c.height
  match s.path with
  | none => f.drawRuler row c
  | some path =>
    let c := c.write row 0 .plain (String.ofList (List.replicate f.digits ' '))
    let c := (c.append row .quiet "--> ").append row .plain (originText (Text.visible path) lines)
    f.drawRuler (row + 1) c

/-- Draw brackets that pass a row. -/
def drawBrackets (f : Frame) (row : Nat) (brackets : List (Nat × Style)) (c : Canvas) : Canvas :=
  brackets.foldl (fun c (depth, style) => c.put row (f.bracket depth) style '|') c

/-- The brackets that are open after a line, given those open before it and those with an end on it. -/
def toggle (active ends : List (Nat × Style)) : List (Nat × Style) × List (Nat × Style) :=
  ends.foldl (fun (active, begun) (depth, style) =>
    if active.any (·.1 == depth) then (active.eraseP (·.1 == depth), begun)
    else (active, begun.filter (·.1 != depth) ++ [(depth, style)])) (active, [])

/-- The brackets that open on a line. -/
def openings (l : MarkedLine) : List (Nat × Style) :=
  l.marks.filterMap fun m => if m.isOpening then m.corner?.map (·, m.style) else none

/-- Draw what stands between a line and the next marked one: an ellipsis, or the one line that lies
there. -/
def drawGap (f : Frame) (source : List SourceLine) (l next : MarkedLine)
    (brackets : List (Nat × Style)) (c : Canvas) : Canvas :=
  let row := c.height
  let gap := next.line.number - l.line.number
  if gap < 2 then c
  else
    let c :=
      if gap = 2 then
        let number := l.line.number + 1
        (f.drawLine row number (Text.visibleChars (SourceLine.charsOf source number)) c).1
      else c.write row 0 .quiet "..."
    drawBrackets f row (brackets ++ openings l) c

/-- Draw marked lines, where some brackets are open. -/
def drawLines (f : Frame) (source : List SourceLine) (active : List (Nat × Style)) :
    List MarkedLine → Canvas → Canvas
  | [], c => c
  | l :: rest, c =>
    let row := c.height
    let (c, ends) := f.drawMarked l c
    let (passing, begun) := toggle active ends
    let c := (List.range (c.height - row)).foldl (fun c i => drawBrackets f (row + i) passing c) c
    let c :=
      match rest with
      | next :: _ => drawGap f source l next passing c
      | [] => c
    drawLines f source (passing ++ begun) rest c

/-- Draw a snippet. -/
def draw (s : Snippet) : Canvas :=
  let source := SourceLine.ofSource s.source
  let (lines, depth) := MarkedLine.ofMarks source s.marks
  let f := Frame.ofLines (digitCount s.lastNumber) depth lines
  drawLines f source [] lines (s.drawHeader f lines (s.drawTitle {}))

/-- Whether an offset lies inside a character of a source. -/
def insideCharacter (source : String) (offset : Nat) : Bool :=
  offset < source.utf8ByteSize && !(⟨offset⟩ : String.Pos.Raw).isValid source

/-- Whether a mark starts or stops inside a character. -/
def cutsCharacter (s : Snippet) : Bool :=
  s.marks.any fun m => insideCharacter s.source m.span.start || insideCharacter s.source m.span.stop

/-- The text of a snippet, with or without colour. -/
def render (s : Snippet) (coloured : Bool) : Except Violation String :=
  if s.cutsCharacter then .error .insideCharacter else .ok (s.draw.render coloured)

end Snippet

end TreeProjection
