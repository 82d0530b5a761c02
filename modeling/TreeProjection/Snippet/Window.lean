import TreeProjection.Snippet.Mark

/-! # The part of long lines that is shown

Lines that are wider than the page are cut.  A `Window` is the range of columns that is kept on all
lines of a snippet: it drops long indentation first, and then moves to where the marks and their labels
are.

* `Window.ofLines` — the window for some marked lines.
* `Window.left`, `Window.right` — where the window cuts a line of a width. -/

namespace TreeProjection.Snippet

/-- A range of columns. -/
structure Window where
  /-- The columns that are dropped on the left. -/
  first : Nat
  /-- The column after the last. -/
  last : Nat
  /-- The columns there is room for. -/
  room : Nat
  deriving DecidableEq, Repr, Inhabited

/-- What a window is chosen by. -/
structure Extent where
  /-- The blanks that all lines start with. -/
  indentation : Nat
  /-- The first column of a mark. -/
  markStart : Nat
  /-- The column after the last of a mark. -/
  markStop : Nat
  /-- The column after the last of a label. -/
  labelStop : Nat
  /-- The columns of the longest line. -/
  longest : Nat
  deriving DecidableEq, Repr, Inhabited

/-- The least of some numbers, or zero if there is none. -/
def leastOr0 (xs : List Nat) : Nat := xs.min?.getD 0

/-- The greatest of some numbers, or zero if there is none. -/
def greatestOr0 (xs : List Nat) : Nat := xs.foldl max 0

/-- The columns of the blanks that a line starts with, where only tabs take more than one; none if the
line is blank. -/
def indentation? : List Char → Option Nat
  | [] => none
  | c :: rest =>
    if Text.isBlank c then (indentation? rest).map (· + if c = '\t' then 4 else 1) else some 0

/-- The columns of some marked lines and their marks. -/
def Extent.ofLines (lines : List MarkedLine) : Extent :=
  let marks := lines.flatMap MarkedLine.marks
  let labelWidth (m : LineMark) : Nat := (m.label.map (Text.width · + 1)).getD 0
  { indentation := leastOr0 (lines.filterMap fun l => indentation? l.line.chars)
    markStart := leastOr0 (marks.map fun m => min m.start.cell m.stop.cell)
    markStop := greatestOr0 (marks.map fun m => max m.start.cell m.stop.cell)
    labelStop := greatestOr0 (marks.map fun m => m.stop.cell + labelWidth m)
    longest := greatestOr0 (lines.map fun l => Text.columnsOf l.line.chars) }

namespace Window

/-- The columns left free on either side for an ellipsis. -/
def margin : Nat := 6

/-- The columns of indentation that are kept. -/
def keptIndentation : Nat := 20

/-- The window of an extent. -/
def ofExtent (room : Nat) (e : Extent) : Window :=
  let indentation := e.indentation - margin
  let markStart := e.markStart - margin
  let markStop := e.markStop + margin
  let labelStop := e.labelStop + margin
  let first := if keptIndentation < indentation then indentation - (keptIndentation - 4) else 0
  let last := max e.longest first
  if last - first ≤ room then ⟨first, last, room⟩
  else if labelStop - indentation ≤ room then ⟨indentation, indentation + room, room⟩
  else if labelStop - markStart ≤ room then
    let first := markStart - (room - (labelStop - markStart)) / 2
    ⟨first, first + room, room⟩
  else if markStop - markStart ≤ room then
    let first := markStart - (room - (markStop - markStart)) / 5 * 2
    ⟨first, first + room, room⟩
  else ⟨markStart, markStop, room⟩

/-- The window for some marked lines. -/
def ofLines (room : Nat) (lines : List MarkedLine) : Window := ofExtent room (.ofLines lines)

/-- The columns dropped at the left of a line of a width. -/
def left (w : Window) (width : Nat) : Nat := min w.first width

/-- The column where a line of a width is cut. -/
def right (w : Window) (width : Nat) : Nat :=
  if width - w.first ≤ w.room then width else min width w.last

/-- Whether lines are cut at the left. -/
def cutsLeft (w : Window) : Bool := 0 < w.first

end Window

end TreeProjection.Snippet
