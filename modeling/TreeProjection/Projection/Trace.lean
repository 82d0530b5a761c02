import TreeProjection.Language.Basic
import TreeProjection.Palette
import TreeProjection.Projection.Event
import TreeProjection.Text.Lines

/-! # Traces

A `Tracer` turns the steps of a run into lines of text, indented by the rules that are open.  How much is
told depends on its verbosity: rules and errors; also the ends of rules and the tokens passed; also the
texts and offsets of tokens. -/

namespace TreeProjection

/-- How much a tracer tells. -/
inductive Verbosity where
  /-- Rules entered, and errors. -/
  | standard
  /-- Also rules left, tokens passed and tokens passed over. -/
  | verbose
  /-- Also the texts and offsets of tokens. -/
  | veryVerbose
  deriving DecidableEq, Repr, Inhabited

/-- The verbosity for a number of requests for more. -/
def Verbosity.ofCount : Nat → Verbosity
  | 0 => .standard
  | 1 => .verbose
  | _ => .veryVerbose

/-- A writer of traces. -/
structure Tracer where
  /-- Names come from this language. -/
  language : Language
  /-- How much is told. -/
  verbosity : Verbosity
  /-- Escape codes. -/
  palette : Palette
  /-- The lines so far. -/
  lines : Array String := #[]
  /-- The open rules, innermost first. -/
  rules : List RuleIndex := []
  deriving Repr

namespace Tracer

/-- Add a line as it is. -/
def addLine (t : Tracer) (line : String) : Tracer := { t with lines := t.lines.push line }

/-- Add a line, indented by the open rules. -/
def addIndented (t : Tracer) (content : String) : Tracer :=
  t.addLine (String.join (List.replicate t.rules.length "  ") ++ content)

/-- Close a rule, if it is the innermost open one. -/
def leave (t : Tracer) (r : RuleIndex) : Tracer :=
  if t.rules.head? = some r then { t with rules := t.rules.tail } else t

/-- A word in an escape code's colour. -/
def painted (t : Tracer) (colour word : String) : String := colour ++ word ++ t.palette.reset

/-- A token: its name and, in very verbose traces, its text and offset. -/
def token (t : Tracer) (token : Token) : String :=
  let name := t.language.vocabulary.elementName token.ty
  if t.verbosity ≠ .veryVerbose then name
  else
    let place := match token.start? with
      | some offset => " " ++ t.painted t.palette.dim s!"@{offset}"
      | none => ""
    name ++ " " ++ t.painted t.palette.green (Text.quoted token.text) ++ place

/-- Tell an error on as many lines as its text has; `head` gives what stands before each line. -/
def addError (t : Tracer) (head : Nat → String) (message : String) : Tracer :=
  (Text.lines message).zipIdx.foldl (fun t line =>
    t.addIndented (t.painted t.palette.red "error" ++ " " ++ head line.2 ++ ": " ++ line.1)) t

/-- Tell a step. -/
def tell (t : Tracer) : ProjectionEvent → Tracer
  | .parseStart entry =>
    t.addLine (t.painted t.palette.dim "parse" ++ " " ++ t.language.ruleNameOrUnknown entry)
  | .parseEnd errors =>
    let noun := if errors = 1 then "error" else "errors"
    t.addLine (t.painted t.palette.dim s!"recognized with {errors} syntax {noun}")
  | .ruleEnter r =>
    let t := t.addIndented (t.painted t.palette.blue (t.language.ruleNameOrUnknown r))
    { t with rules := r :: t.rules }
  | .ruleDone r =>
    let t := t.leave r
    if t.verbosity = .standard then t
    else t.addIndented (t.painted t.palette.dim "done" ++ " " ++ t.language.ruleNameOrUnknown r)
  | .ruleError r message =>
    let name := t.language.ruleNameOrUnknown r
    (t.leave r).addError (fun i => if i = 0 then name else "") message
  | .advance token =>
    if t.verbosity = .standard then t
    else t.addIndented (t.painted t.palette.dim "advance" ++ " " ++ t.token token)
  | .errorLeaf token (some message) => t.addError (fun _ => t.token token) message
  | .errorLeaf token none =>
    if t.verbosity = .standard then t
    else t.addIndented (t.painted t.palette.dim "skip" ++ " " ++ t.token token)
  | .drain count =>
    if count = 0 then t
    else t.addIndented (t.painted t.palette.dim "drain" ++ s!" {count}")

/-- Tell several steps. -/
def tellAll (t : Tracer) (events : List ProjectionEvent) : Tracer := events.foldl tell t

end Tracer

end TreeProjection
