import TreeProjection.Snippet.Canvas
import TreeProjection.Snippet.Window

/-! # Drawing a marked line

A line of the source with its marks takes several rows: the line itself, a row of underlines, and below
it as many rows as the labels and the ends of brackets need so that none covers another.

* `lanes` — how far below the underlines each mark hangs.
* `Frame.drawMarked` — draw a line and its marks. -/

namespace TreeProjection.Snippet

/-- Where things stand on the page of a snippet. -/
structure Frame where
  /-- The digits of the greatest line number. -/
  digits : Nat
  /-- The depth of the innermost bracket. -/
  depth : Nat
  /-- The columns of the page. -/
  pageWidth : Nat := 140
  /-- The part of long lines that is shown. -/
  window : Window
  deriving Repr, Inhabited

namespace Frame

/-- The column of the line that separates numbers from code. -/
def ruler (f : Frame) : Nat := f.digits + 1

/-- The first column after the ruler and a blank, where brackets stand. -/
def brackets (f : Frame) : Nat := f.digits + 3

/-- The column of a bracket. -/
def bracket (f : Frame) (depth : Nat) : Nat := f.brackets + depth - 1

/-- The first column of the code. -/
def code (f : Frame) : Nat := if f.depth = 0 then f.brackets else f.brackets + f.depth + 1

/-- Choose the part of some lines that fits on the page. -/
def ofLines (digits depth : Nat) (lines : List MarkedLine) : Frame :=
  let f : Frame := { digits, depth, window := default }
  { f with window := .ofLines (f.pageWidth - f.code) lines }

/-- Draw the ruler in a row. -/
def drawRuler (f : Frame) (row : Nat) (c : Canvas) : Canvas := c.put row f.ruler .quiet '|'

end Frame

/-- The style of a mark. -/
def styleOf (primary : Bool) : Style := if primary then .alarm else .quiet

/-- The style of a mark. -/
def LineMark.style (m : LineMark) : Style := styleOf m.primary

/-- The character that underlines a mark. -/
def LineMark.tip (m : LineMark) : Char := if m.primary then '^' else '-'

/-- The first characters that fill a number of columns; the last of them may go beyond. -/
def filling : (columns : Nat) → List Char → List Char
  | _, [] => []
  | columns, c :: rest =>
    if columns = 0 then [] else c :: filling (columns - Text.columns c) rest

/-- The first characters that fit into a number of columns. -/
def fitting : (columns : Nat) → List Char → List Char
  | _, [] => []
  | columns, c :: rest =>
    if Text.columns c ≤ columns then c :: fitting (columns - Text.columns c) rest else []

/-- Draw a line of the source with its number, cut to the window.  The second result is the column of the
line that stands at the first column of the code. -/
def Frame.drawLine (f : Frame) (row number : Nat) (text : List Char) (c : Canvas) : Canvas × Nat :=
  let width := Text.columnsOf text
  let left := f.window.left width
  let right := f.window.right width
  let skipped := filling left text
  let shown := fitting (right - left) (text.drop skipped.length)
  let cut := if f.window.cutsLeft then filling 3 shown else []
  let cutWidth := Text.columnsOf cut
  let left := max left (Text.columnsOf skipped) - (cutWidth - 3)
  let c := if f.window.cutsLeft then c.write row f.code .quiet "..." else c
  let kept := shown.drop cut.length
  let c := c.writeChars row (f.code + cutWidth) .plain kept
  let c :=
    if right < width then
      let lost := filling 3 shown.reverse
      c.write row (f.code + cutWidth + kept.length - lost.length) .quiet "..."
    else c
  let digits := toString number
  let c := c.write row (f.digits - digits.length) .quiet digits
  (f.drawRuler row c, left)

/-- The brackets that open at the blanks a line starts with, if all its marks are such, or brackets that
pass. -/
def shortOpenings? (text : List Char) : List LineMark → Option (List (Nat × Style))
  | [] => some []
  | m :: rest =>
    match m.shape with
    | .passing _ => shortOpenings? text rest
    | .opening depth =>
      if (text.take m.start.cell).all Text.isBlank
      then (shortOpenings? text rest).map ((depth, m.style) :: ·) else none
    | _ => none

/-- Whether a mark has to hang lower than the underlines, given the marks to its left: its label would
cover one that shares a column with it.  A mark without label on the same columns does not count. -/
def hangsBelow (m : LineMark) (others : List LineMark) : Bool :=
  m.hasText && others.any fun n =>
    n.meets 0 m && !(n.start == m.start && n.stop == m.stop && !n.hasText)

/-- Whether the marks to the left of a mark that hangs in a lane have to hang lower. -/
def pushesBelow (lane : Nat) (m : LineMark) (others : List LineMark) : Bool :=
  others.any fun n =>
    let near := n.meets (if n.hasText then n.text.utf8ByteSize + 2 else 0) m
    let inside := n.stop.cell < m.stop.cell ||
      (n.stop.cell == m.stop.cell && n.stop.char ≤ m.stop.char)
    (near && m.hasText && n.hasText) || (m.takesRow && n.hasText) || (m.hasText && n.takesRow) ||
      (m.takesRow && n.takesRow) || (near && inside && n.hasText && lane == 0)

/-- How many rows below the underlines each mark hangs, from right to left, and the greatest lane that was
needed. -/
def lanes (lane : Nat) : List LineMark → List (Nat × LineMark) × Nat
  | [] => ([], 0)
  | m :: others =>
    let lane := if lane == 0 && hangsBelow m others then 1 else lane
    let next := if pushesBelow lane m others then lane + 1 else lane
    let (placed, deepest) := lanes next others
    ((lane, m) :: placed, max next deepest)

/-- For each mark, whether another shares a column with it. -/
def meetings (marks : List LineMark) : List Bool :=
  let numbered := marks.zipIdx
  numbered.map fun (m, i) => numbered.any fun (n, j) => i != j && n.meets 0 m

/-- The column of a line at which a label beside an underline starts.  A blank stands between the two, also
where the underline is only the tip of a bracket that closes before the first column. -/
def LineMark.labelCell (m : LineMark) : Nat := if m.stop.cell = 0 then 2 else m.stop.cell + 1

/-- Whether a mark further right comes first. -/
def LineMark.rightFirst (m n : LineMark) : Bool :=
  n.start.cell < m.start.cell || (n.start.cell == m.start.cell && n.start.char ≤ m.start.char)

/-- Whether a longer mark comes first, and of equal ones the secondary. -/
def LineMark.longFirst (m n : LineMark) : Bool :=
  n.length < m.length || (n.length == m.length && (!m.primary || n.primary))

namespace Frame

/-- The column on the page of a column of a line that is drawn from its column `left`. -/
def codeColumn (f : Frame) (left cell : Nat) : Nat := f.code + cell - left

/-- Draw the horizontal part of a bracket's first or last line. -/
def drawHorizontal (f : Frame) (row left : Nat) (c : Canvas) (p : Nat × LineMark) : Canvas :=
  let (lane, m) := p
  match m.corner? with
  | some depth =>
    c.fill (row + lane + 1) (f.brackets + depth) (f.codeColumn left m.start.cell) m.style '_'
  | none => c

/-- Draw the lines down from a mark to its label or its bracket, and the bracket's own beginning or
end. -/
def drawVertical (f : Frame) (row left height : Nat) (c : Canvas) (p : Nat × LineMark) : Canvas :=
  let (lane, m) := p
  let c :=
    if 0 < lane && (m.hasText || m.takesRow) then
      c.fillDown (row + 1) (lane + 1) (f.codeColumn left m.start.cell) m.style '|'
    else c
  match m.shape with
  | .opening depth =>
    (c.put (row + lane + 1) (f.bracket depth) m.style ' ').fillDown (row + lane + 2)
      (height - lane) (f.bracket depth) m.style '|'
  | .closing depth => c.fillDown row (lane + 2) (f.bracket depth) m.style '|'
  | _ => c

/-- Draw the label of a mark: beside its underline, or at the end of its line down. -/
def drawLabel (f : Frame) (row left : Nat) (c : Canvas) (p : Nat × LineMark) : Canvas :=
  let (lane, m) := p
  if lane = 0 then c.write (row + 1) (f.code + (m.labelCell - left)) m.style m.text
  else c.write (row + lane + 2) (f.code + (m.start.cell - left)) m.style m.text

/-- Draw the underline of a mark. -/
def drawUnderline (f : Frame) (row left : Nat) (c : Canvas) (p : Nat × LineMark) : Canvas :=
  let (lane, m) := p
  let cells := (List.range (m.stop.cell - m.start.cell)).map (· + m.start.cell)
  let c := cells.foldl (fun c cell => c.put (row + 1) (f.codeColumn left cell) m.style m.tip) c
  if m.takesRow || (lane != 0 && m.hasText)
  then c.put (row + 1) (f.codeColumn left m.start.cell) m.style m.tip else c

/-- Put an ellipsis into the middle of an underline that is much wider than the page. -/
def elideLong (f : Frame) (row : Nat) (c : Canvas) (p : LineMark × Bool) : Canvas :=
  let (m, met) := p
  let width := m.stop.cell - m.start.cell
  if !met && m.shape == .underline && f.window.room * 2 < width && 10 < width then
    let pad := max (f.window.room / 3) 5
    let first := m.start.cell + pad
    let last := m.stop.cell - pad
    (c.elide row first last).elide (row + 1) first last
  else c

/-- Draw the marks of a line that stands in a row.  The second result says which brackets open or close
there, and in which style. -/
def drawMarks (f : Frame) (row left : Nat) (marks : List LineMark) (c : Canvas) :
    Canvas × List (Nat × Style) :=
  let sorted := marks.mergeSort LineMark.rightFirst
  let (placed, deepest) := lanes 0 sorted
  let rows := if deepest = 0 then 0 else deepest + 1
  let opening := sorted.all LineMark.isOpening
  let lowest := (placed.map Prod.fst).foldl max 0
  let placed := if opening then placed.map fun (lane, m) => (lowest - lane, m) else placed
  let height := if opening then rows - 1 else rows
  let c := (List.range (height + 1)).foldl (fun c i => f.drawRuler (row + i + 1) c) c
  let c := placed.foldl (f.drawHorizontal row left) c
  let c := placed.foldl (f.drawVertical row left height) c
  let c := placed.foldl (f.drawLabel row left) c
  let ordered := placed.mergeSort fun p q => p.2.longFirst q.2
  let c := ordered.foldl (f.drawUnderline row left) c
  let c := ((ordered.map Prod.snd).zip (meetings sorted)).foldl (f.elideLong row) c
  (c, ordered.filterMap fun (_, m) => m.corner?.map (·, m.style))

/-- Draw a line and its marks at the end of a page.  The second result says which brackets open or close
there, and in which style. -/
def drawMarked (f : Frame) (l : MarkedLine) (c : Canvas) : Canvas × List (Nat × Style) :=
  let row := c.height
  let text := Text.visibleChars l.line.chars
  let (c, left) := f.drawLine row l.line.number text c
  match shortOpenings? text l.marks with
  | some openings =>
    (openings.foldl (fun c (depth, style) => c.put row (f.bracket depth) style '/') c, openings)
  | none => f.drawMarks row left l.marks c

end Frame

end TreeProjection.Snippet
