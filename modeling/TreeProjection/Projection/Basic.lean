import TreeProjection.Host.Builder
import TreeProjection.Projection.Event
import TreeProjection.Recognition.Errors
import TreeProjection.Recognition.ParseTree

/-! # Projecting a parse tree onto a host

A finished parse tree is replayed onto a builder.  A rule opens a region and closes it, as a node of the
rule's kind or, if an exception ended it, as an error element with the text reported for that exception.

Leaves move the host's reader.  A matched token passes one token.  An error leaf is one of three things: a
token at whose offset errors were reported, which becomes an error element with all their texts (once for
each offset); a token made up for a missing one, which becomes an error element without extent; or a token
that was passed over, which is passed.  The end of the input is never passed.

* `Projector.replay` — the replay with a stack of its own.
* `Projector.replayView` — the same replay as a recursion on the tree. -/

namespace TreeProjection

/-- The state of a projection. -/
structure Projector (β : Type) where
  /-- The builder with its flag. -/
  host : Supervised β
  /-- The errors of the parse. -/
  errors : ErrorIndex
  /-- The regions open for rules, innermost first. -/
  markers : List Nat := []
  /-- The offsets whose errors have an error element already. -/
  spent : List Nat := []
  /-- The counts so far. -/
  stats : ProjectionStats := {}
  /-- The steps so far. -/
  events : Array ProjectionEvent := #[]

/-- An action of a projection. -/
abbrev ProjectorM (β : Type) := EStateM Abort (Projector β)

namespace Projector

variable {β τ : Type} [TreeBuilder β τ]

/-- Write a step down. -/
def tell (e : ProjectionEvent) : ProjectorM β Unit :=
  modify fun p => { p with events := p.events.push e }

/-- Change the counts. -/
def count (f : ProjectionStats → ProjectionStats) : ProjectorM β Unit :=
  modify fun p => { p with stats := f p.stats }

/-- Fail if the run has been called off. -/
def checkCancelled : ProjectorM β Unit := do
  if (← get).host.cancelled then throw (.error .cancelled)

/-- An answer that only a broken contract can keep from being given. -/
def orBroken {α : Type} : Except Violation α → ProjectorM β α
  | .ok a => pure a
  | .error v => throw (.broken v)

/-- Open a region. -/
def mark : ProjectorM β Nat := do
  let p ← get
  let (marker, host) := p.host.mark
  set { p with host }
  return marker

/-- Close a region as a node. -/
def done (marker : Nat) (kind : Kind) : ProjectorM β Unit := do
  let p ← get
  let host ← orBroken (p.host.done marker kind)
  set { p with host }

/-- Close a region as an error element. -/
def error (marker : Nat) (message : String) : ProjectorM β Unit := do
  let p ← get
  let host ← orBroken (p.host.error marker message)
  set { p with host }

/-- Pass the token of a leaf, unless it is the end of the input. -/
def advance (t : Token) : ProjectorM β Unit := do
  unless t.isEof do
    modify fun p => { p with host := p.host.advance }
    count fun s => { s with advances := s.advances + 1 }

/-- Open the region of a rule. -/
def enterRule (r : RuleNode) : ProjectorM β Unit := do
  checkCancelled
  let marker ← mark
  modify fun p => { p with markers := marker :: p.markers }
  count fun s => { s with rulesEntered := s.rulesEntered + 1 }
  tell (.ruleEnter r.rule)

/-- The text of the error element for a rule that an exception ended. -/
def failureMessage (errors : ErrorIndex) (e : RecognitionException) : String :=
  ((errors.forException? e.id).map SyntaxError.message).getD "syntax error"

/-- Close the region of a rule. -/
def exitRule (r : RuleNode) : ProjectorM β Unit := do
  checkCancelled
  match (← get).markers with
  | [] => throw (.broken .exitWithoutMarker)
  | marker :: rest =>
    modify fun p => { p with markers := rest }
    match r.exception with
    | some e =>
      let message := failureMessage (← get).errors e
      error marker message
      count fun s => { s with rulesErrored := s.rulesErrored + 1 }
      tell (.ruleError r.rule message)
    | none =>
      let kind ← orBroken ((← get).host.elements.rule r.rule)
      done marker kind
      count fun s => { s with rulesDone := s.rulesDone + 1 }
      tell (.ruleDone r.rule)

/-- Replay a matched token. -/
def terminal (t : Token) : ProjectorM β Unit := do
  advance t
  tell (.advance t)

/-- Replay an error leaf. -/
def errorLeaf (t : Token) : ProjectorM β Unit := do
  if t.isConjured then
    let marker ← mark
    error marker t.text
    count fun s => { s with errorMarkers := s.errorMarkers + 1, conjured := s.conjured + 1 }
    tell (.errorLeaf t (some t.text))
  else
    let offset := t.start?.getD 0
    let p ← get
    match if p.spent.contains offset then none else p.errors.messagesAt? offset with
    | some message =>
      let marker ← mark
      advance t
      error marker message
      modify fun p => { p with spent := offset :: p.spent }
      count fun s => { s with errorMarkers := s.errorMarkers + 1 }
      tell (.errorLeaf t (some message))
    | none =>
      advance t
      tell (.errorLeaf t none)

/-- Something to be done during a replay. -/
inductive Visit where
  /-- Replay the node of a number. -/
  | enter (id : Nat)
  /-- Close the region of a rule. -/
  | exit (r : RuleNode)

/-- Replay what is on a stack. -/
def replayStack (tree : ParseTree) : (fuel : Nat) → List Visit → ProjectorM β Unit
  | _, [] => pure ()
  | 0, _ :: _ => throw .outOfSteps
  | fuel + 1, .exit r :: rest => do
    exitRule r
    replayStack tree fuel rest
  | fuel + 1, .enter id :: rest => do
    match tree.nodes[id]? with
    | some (.rule r) =>
      enterRule r
      replayStack tree fuel (r.children.toList.map .enter ++ .exit r :: rest)
    | some (.terminal t) =>
      terminal t
      replayStack tree fuel rest
    | some (.error t) =>
      errorLeaf t
      replayStack tree fuel rest
    | none => throw (.broken .outsideBuffer)

/-- Replay a tree.  Each node is entered once, and each rule left once. -/
def replay (tree : ParseTree) : ProjectorM β Unit := do
  if let some root := tree.root then
    replayStack tree (2 * tree.size + 1) [.enter root]
    let markers := (← get).markers
    unless markers.isEmpty do throw (.broken (.markersLeftOpen markers.length))

mutual

/-- Replay a tree, node by node. -/
def replayView : ParseNode.View → ProjectorM β Unit
  | .rule r children => do
    enterRule r
    replayViews children
    exitRule r
  | .terminal t => terminal t
  | .error t => errorLeaf t

/-- Replay trees one after the other. -/
def replayViews : List ParseNode.View → ProjectorM β Unit
  | [] => pure ()
  | t :: rest => do
    replayView t
    replayViews rest

end

end Projector

end TreeProjection
