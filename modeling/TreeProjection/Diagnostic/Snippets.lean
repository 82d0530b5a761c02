import TreeProjection.Diagnostic.Basic
import TreeProjection.Snippet.Basic

/-! # Diagnostics with their source

Diagnostics shown with the lines they are about.  Those that start on one line share a snippet: the
first is its title, and those that recovery brought after it are labels in it.

* `Diagnostic.snippets` — the snippets of some diagnostics.
* `Diagnostic.render` — their text. -/

namespace TreeProjection.Diagnostic

/-- What a snippet points at for a diagnostic. -/
def mark (sourceLength : Nat) (primary : Bool) (d : Diagnostic) : Snippet.Mark :=
  { span := markedSpan sourceLength d.span, primary
    label := if primary then none else some (Text.visible d.message) }

/-- The snippet of diagnostics that start on one line, of which the first is given apart. -/
def snippet (source : String) (path : Option String) (head : Diagnostic)
    (others : List Diagnostic) : Snippet :=
  let size := source.utf8ByteSize
  { title := head.message, source, path
    marks := head.mark size true :: others.map (mark size false) }

/-- The snippets of some diagnostics. -/
def snippets (source : String) (path : Option String) (ds : List Diagnostic) : List Snippet :=
  (lineGroups source.toUTF8 ds).filterMap fun
    | [] => none
    | head :: others => some (snippet source path head others)

/-- The text of diagnostics with their source. -/
def render (source : String) (path : Option String) (coloured : Bool) (ds : List Diagnostic) :
    Except Violation String := do
  return Text.joinLines (← (snippets source path ds).mapM (·.render coloured))

end TreeProjection.Diagnostic
