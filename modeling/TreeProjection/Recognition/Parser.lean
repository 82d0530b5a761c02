import TreeProjection.Recognition.Journal
import TreeProjection.Recognition.ParseTree
import TreeProjection.Token.Stream

/-! # Parsers

A `Parser` is the state of a parse: the input, the tree so far, the rules that are active, and for each
invocation what may come after it.  A `ParserM` action works on that state and may be interrupted; the
state at the interruption is kept.

* `Parser.ahead`, `Parser.consume` — reading the input.
* `Parser.viableFollow`, `Parser.recoverySet` — what may come next, as seen from the callers.
* `Parser.raiseMismatch`, `Parser.raiseNoViableAlt`, `Parser.require` — failing. -/

namespace TreeProjection

/-- A rule that is being recognized. -/
structure Frame where
  /-- The rule. -/
  rule : RuleIndex
  /-- The node of the rule; there is none while the parser looks ahead on trial. -/
  node : Option Nat
  deriving DecidableEq, Repr, Inhabited

/-- The state of a parse. -/
structure Parser (σ : Type) where
  /-- The input. -/
  input : Stream σ
  /-- The grammar's names. -/
  language : Language
  /-- How to recover from errors. -/
  strategy : Strategy := .default
  /-- How many rules may be active at once, if that is limited. -/
  recursionLimit : Option Nat := none
  /-- How many listeners hear of errors. -/
  listeners : Nat := 0
  /-- The tree so far. -/
  tree : ParseTree := {}
  /-- The active rules, innermost first. -/
  frames : List Frame := []
  /-- What may come after each active invocation, innermost first.  After the outermost one, the input
  may end. -/
  follow : List TokenSet := []
  /-- What recovery keeps in mind. -/
  recovery : RecoveryState := {}
  /-- The number of the next exception. -/
  nextException : Nat := 0
  /-- How many speculations are under way, each inside the one before. -/
  speculating : Nat := 0
  /-- How many syntax errors have been found. -/
  syntaxErrors : Nat := 0
  /-- What has been written down. -/
  journal : Array Note := #[]

/-- An action of a parser. -/
abbrev ParserM (σ : Type) := EStateM Interrupt (Parser σ)

namespace Parser

variable {σ α : Type}

/-- The reports that were heard, in order. -/
def reports (p : Parser σ) : List Report := p.journal.toList.filterMap Note.report?

/-- Whether the parser looks ahead on trial: it builds no tree and reports nothing. -/
def isSpeculating (p : Parser σ) : Bool := 0 < p.speculating

/-- The rule that is being recognized. -/
def currentRule? (p : Parser σ) : Option RuleIndex := p.frames.head?.map Frame.rule

/-- The node of the rule that is being recognized. -/
def currentNode? (p : Parser σ) : Option Nat := p.frames.head?.bind Frame.node

/-- Where the input stands. -/
def index (p : Parser σ) : Nat := p.input.cursor

/-- The `k`-th token before the current one. -/
def behind? (p : Parser σ) (k : Nat) : Option Token := p.input.behind? k

/-- The text of the input from one token to another, both included.  Without both in the stream, it is
the text of the first. -/
def textBetween (p : Parser σ) (first last : Token) : String :=
  match first.index, last.index with
  | some i, some j => p.input.textBetween i j
  | _, _ => first.text

/-- What may follow, with the mark *end of rule* resolved: as long as the mark is there, what may follow
the invocation around it comes in, and beyond the outermost one the end of the input. -/
def resolveFollow (acc : TokenSet) : List TokenSet → TokenSet
  | [] => acc.insert .eof
  | s :: rest =>
    let acc := acc.union s.withoutEndOfRule
    if s.endOfRule then resolveFollow acc rest else acc

/-- What may follow at this point of the parse. -/
def viableFollow (p : Parser σ) (follow : TokenSet) : TokenSet :=
  if follow.endOfRule then resolveFollow follow.withoutEndOfRule p.follow else follow

/-- Everything that any active invocation may be followed by, and the end of the input. -/
def recoverySet (p : Parser σ) : TokenSet :=
  p.follow.foldr (fun s acc => acc.union s.withoutEndOfRule) (.single .eof)

/-! ## Actions -/

/-- Carry out an action and hand on how it ended. -/
def observe (x : ParserM σ α) : ParserM σ (Except Interrupt α) := fun p =>
  match x p with
  | .ok a p => .ok (.ok a) p
  | .error e p => .ok (.error e) p

/-- End the way an observed action ended. -/
def release : Except Interrupt α → ParserM σ α
  | .ok a => pure a
  | .error e => throw e

/-- Give the whole parse up. -/
def giveUp (a : Abort) : ParserM σ α := throw (.abort a)

/-- An answer that only a broken contract can keep from being given. -/
def orBroken : Except Violation α → ParserM σ α
  | .ok a => pure a
  | .error v => giveUp (.broken v)

/-- Carry out an action of the input stream. -/
def onInput (x : StreamM σ α) : ParserM σ α := fun p =>
  match x p.input with
  | .ok a input => .ok a { p with input }
  | .error e input => .error (.abort e) { p with input }

/-- Write something down. -/
def note (n : Note) : ParserM σ Unit := modify fun p => { p with journal := p.journal.push n }

/-- Tell the listeners of a syntax error. -/
def report (offending : Token) (message : String) (e : Option RecognitionException) :
    ParserM σ Unit := do
  let p ← get
  set { p with syntaxErrors := p.syntaxErrors + 1 }
  if 0 < p.listeners then
    note (.report p.listeners ⟨offending, offending.line, offending.column, message, e⟩)

/-- Add a leaf to the rule that is being recognized. -/
def addLeaf (leaf : ParseNode) : ParserM σ Unit :=
  modify fun p => { p with tree := (p.tree.push p.currentNode? leaf).2 }

/-- Add an error leaf, unless on trial. -/
def addErrorLeaf (t : Token) : ParserM σ Unit := do
  unless (← get).isSpeculating do addLeaf (.error t)

variable [TokenSource σ]

/-- The `k`-th token from the current one on, counted from one. -/
def ahead (k : Nat) : ParserM σ Token := onInput (Stream.ahead k)

/-- Fail if the run has been called off. -/
def checkCancelled : ParserM σ Unit := do
  if TokenSource.isCancelled (← get).input.source then giveUp (.error .cancelled)

/-- Call the run off. -/
def cancel : ParserM σ Unit :=
  modify fun p => { p with input.source := TokenSource.cancel p.input.source }

/-- Consume the current token.  It becomes a leaf of the rule that is being recognized, during recovery
an error leaf. -/
def consume : ParserM σ Token := do
  let t ← ahead 1
  onInput Stream.consume
  let p ← get
  unless p.isSpeculating do
    addLeaf (if p.recovery.inRecovery then .error t else .terminal t)
  return t

/-- A new exception. -/
def newException (kind : ExceptionKind) (offending : Token) (expected : TokenSet) :
    ParserM σ RecognitionException := do
  let p ← get
  set { p with nextException := p.nextException + 1 }
  return { id := p.nextException, kind, offending, expected, rule := p.currentRule?.getD ⟨0⟩ }

/-- Fail because the current token is none of the expected ones. -/
def raiseMismatch (expected : TokenSet) : ParserM σ α := do
  let t ← ahead 1
  throw (.recognition (← newException .inputMismatch t expected))

/-- Fail because no alternative fits.  The alternatives begin at the current token, and the last of them
was ruled out by the token `depth` ahead. -/
def raiseNoViableAlt (depth : Nat) : ParserM σ α := do
  let start ← ahead 1
  let offending ← ahead (max depth 1)
  throw (.recognition (← newException (.noViableAlt start) offending ∅))

/-- Fail unless a condition holds. -/
def require (holds : Bool) (text : String) : ParserM σ Unit := do
  unless holds do
    let t ← ahead 1
    throw (.recognition (← newException (.failedPredicate text) t ∅))

end Parser

end TreeProjection
