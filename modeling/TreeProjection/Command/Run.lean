import TreeProjection.Command.Input
import TreeProjection.Diagnostic.Snippets
import TreeProjection.Language.Registry
import TreeProjection.Projection.Session
import TreeProjection.Query.Dump

/-! # Running commands

A command writes its answer and its complaints, and ends with a code that is zero unless something is
wrong.

* `Command.run` — what a command writes. -/

namespace TreeProjection

/-- What a command leaves behind. -/
structure Outcome where
  /-- The code that it ends with. -/
  code : Nat := 0
  /-- Its answer. -/
  out : String := ""
  /-- Its complaints. -/
  err : String := ""
  deriving DecidableEq, Repr, Inhabited

/-- Texts on lines of their own, each of which is ended. -/
def endedLines (lines : List String) : String := String.join (lines.map (· ++ "\n"))

namespace Outcome

/-- The end of a command that could not go on. -/
def complaint (lines : List String) : Outcome :=
  { code := 1
    err := match lines with
      | [] => ""
      | first :: rest => endedLines (s!"error: {first}" :: rest) }

/-- The end of a command without an input. -/
def ofInputError (e : InputError) : Outcome := complaint (e.message :: e.hint)

/-- The end of a command that found a contract broken. -/
def crash (v : Violation) : Outcome := { code := 101, err := endedLines v.message?.toList }

/-- The end of a command whose parse was given up. -/
def ofAbort : Abort → Outcome
  | .error e => complaint [e.message]
  | .broken v => crash v
  | .outOfSteps => complaint []

end Outcome

namespace Input

/-- Parse the source and build its tree. -/
def project (i : Input) (s : Session) : Projection HostTree × Session :=
  s.project i.language.grammar i.entry .file i.host

/-- The tree of the source. -/
def tree (i : Input) : Except Abort HostTree := (i.project {}).1.outcome

/-- The answer made of the tree of the source. -/
def withTree (i : Input) (answer : HostTree → Outcome) : Outcome :=
  match i.tree with
  | .ok t => answer t
  | .error a => .ofAbort a

/-- Show the tree, as text or as data. -/
def showTree (i : Input) (spans trivia json : Bool) : Outcome :=
  i.withTree fun t =>
    let options : DumpOptions := { spans, trivia }
    { out := if json then (NodeDump.ofTree i.lang options t).pretty ++ "\n"
        else Dump.text i.lang options t }

/-- Show the recognizer's tree. -/
def showParseTree (i : Input) : Outcome :=
  match (({} : Session).recognize i.language.grammar i.entry i.host).1.outcome with
  | .ok (t, _) => { out := t.expression i.lang ++ "\n" }
  | .error a => .ofAbort a

/-- Show the errors. -/
def check (i : Input) (coloured : Bool) : Outcome :=
  i.withTree fun t =>
    match Diagnostic.ofTree t with
    | [] => {}
    | ds =>
      match Diagnostic.render i.source i.path coloured ds with
      | .ok text => { code := 1, err := text ++ "\n" }
      | .error v => .crash v

/-- Show the steps. -/
def showTrace (i : Input) (verbosity : Verbosity) (coloured : Bool) : Outcome :=
  let tracer : Tracer := { language := i.lang, verbosity, palette := .ofBool coloured }
  let (p, s) := i.project { tracer := some tracer }
  let lines := (s.tracer.map fun t => t.lines.toList).getD []
  let ended : Outcome := match p.outcome with
    | .ok _ => {}
    | .error a => .ofAbort a
  { ended with out := endedLines lines }

end Input

/-- The registry of all supported languages. -/
def SupportedLanguage.registry : Registry :=
  all.foldl (fun g l => (g.register l.grammar.language).2) .empty

/-- List the registered languages. -/
def Registry.showLanguages (g : Registry) : Outcome :=
  let line (name : String) : List String :=
    match g.lookup name with
    | .error _ => []
    | .ok ⟨_, l⟩ => [s!"  {name} ({l.elements.tokenCount} tokens, {l.ruleCount} rules)"]
  let names := g.registered
  { out := endedLines (s!"Supported languages ({names.length}):" :: names.flatMap line) }

namespace Command

/-- The settings of a command's source. -/
def source? : Command → Option SourceSettings
  | tree s .. => some s
  | parseTree s => some s
  | check s _ => some s
  | trace s .. => some s
  | languages => none

/-- The location that a command is going to read. -/
def location? (c : Command) : Option Location := c.source?.bind SourceSettings.location?

/-- What is done with an input, given whether output goes to a terminal. -/
def runOn (terminal : Bool) (i : Input) : Command → Outcome
  | tree _ spans trivia json => i.showTree spans trivia json
  | parseTree _ => i.showParseTree
  | check _ colour => i.check (colour.colours terminal)
  | trace _ verbosity colour => i.showTrace verbosity (colour.colours terminal)
  | languages => {}

/-- Run a command. -/
def run (c : Command) (terminal : Bool) (read : Reader) : Outcome :=
  match c.source? with
  | none => SupportedLanguage.registry.showLanguages
  | some s =>
    match s.prepare read with
    | .error e => .ofInputError e
    | .ok i => c.runOn terminal i

end Command

end TreeProjection
