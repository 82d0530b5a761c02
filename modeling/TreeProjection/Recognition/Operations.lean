import TreeProjection.Recognition.Recovery

/-! # The operations of recognizers

What a recognizer is made of, beside reading ahead: rules, invocations, matching and speculation.

* `Parser.rule` — run a body as a rule; the rule recovers if the body fails.
* `Parser.invoke` — run a body with a note of what may come after it.
* `Parser.expect` — match a token, mending its lack if that is easy.
* `Parser.speculate` — try a body without a trace. -/

namespace TreeProjection.Parser

variable {σ α : Type} [TokenSource σ]

/-- Enter a rule. -/
def enterRule (r : RuleIndex) : ParserM σ Unit := do
  checkCancelled
  let p ← get
  if p.recursionLimit.any (· ≤ p.frames.length) then
    giveUp (.error .recursionLimitExceeded)
  if p.isSpeculating then
    modify fun p => { p with frames := ⟨r, none⟩ :: p.frames }
  else
    let start ← ahead 1
    modify fun p =>
      let (node, tree) := p.tree.push p.currentNode? (.rule { rule := r, start := start.index })
      { p with tree, frames := ⟨r, some node⟩ :: p.frames }

/-- Leave a rule.  It ends at the last token consumed, if that is not before the token it began with. -/
def exitRule : ParserM σ Unit := do
  match (← get).frames with
  | [] => giveUp (.broken .exitWithoutEnter)
  | frame :: frames =>
    modify fun p => { p with frames }
    if let some node := frame.node then
      modify fun p =>
        let stop := p.behind? 1 >>= Token.index
        { p with tree := p.tree.modifyRule node fun r =>
          { r with stop := stop.filter fun s => r.start.any (· ≤ s) } }
    checkCancelled

/-- Go on after the failure of a rule's body: note the exception on the rule's node, report it and
recover. -/
def handleRecognition (e : RecognitionException) : ParserM σ Unit := do
  modify fun p =>
    match p.currentNode? with
    | some node => { p with tree := p.tree.modifyRule node fun r => { r with exception := some e } }
    | none => p
  reportError e
  recover e

/-- Run a body as a rule.  If the body fails, the rule recovers; on trial, the failure goes on to whoever
started the trial. -/
def rule (r : RuleIndex) (body : ParserM σ Unit) : ParserM σ Unit := do
  enterRule r
  let outcome ← observe body
  let outcome ← match outcome with
    | .error (.recognition e) =>
      if (← get).isSpeculating then pure outcome else observe (handleRecognition e)
    | _ => pure outcome
  let exited ← observe exitRule
  release outcome
  release exited

/-- Run a body that may be followed by what is in `follow`.  The mark *end of rule* there means that the
body ends its caller, and that what may follow the caller may follow the body. -/
def invoke (follow : TokenSet) (body : ParserM σ α) : ParserM σ α := do
  modify fun p => { p with follow := follow :: p.follow }
  let outcome ← observe body
  modify fun p => { p with follow := p.follow.tail }
  release outcome

/-- Match a token of type `ty`, after which `follow` may come in the current rule. -/
def expect (ty : TokenType) (follow : TokenSet) : ParserM σ Token := do
  let t ← ahead 1
  if t.ty == ty then
    unless (← get).isSpeculating do reportMatch
    consume
  else if (← get).isSpeculating then
    raiseMismatch (← orBroken (TokenSet.single? ty))
  else
    let t ← recoverInline ty follow
    if t.isConjured then addErrorLeaf t
    return t

/-- Guard a loop: pass over tokens that can neither begin another round nor follow the loop. -/
def sync (expecting : TokenSet) : ParserM σ Unit := do
  unless (← get).isSpeculating do syncHook expecting

/-- The last `n` elements of a list. -/
def lastOf {β : Type} (n : Nat) (l : List β) : List β := l.drop (l.length - n)

@[simp] theorem lastOf_length {β : Type} (l : List β) : lastOf l.length l = l := by
  simp [lastOf]

/-- Try a body: nothing is added to the tree, nothing is reported, and the input is taken back.  The
answer is whether the body recognized the input. -/
def speculate (body : ParserM σ Unit) : ParserM σ Bool := do
  let _ ← ahead 1
  let p ← get
  let start := p.index
  let rules := p.frames.length
  let invocations := p.follow.length
  modify fun p => { p with speculating := p.speculating + 1 }
  let outcome ← observe body
  modify fun p => { p with
    speculating := p.speculating - 1
    frames := lastOf rules p.frames
    follow := lastOf invocations p.follow }
  onInput (Stream.seek start)
  match outcome with
  | .ok () => return true
  | .error (.recognition _) => return false
  | .error (.abort a) => giveUp a

/-- Run a body and hand on the exception it failed with, if it did. -/
def attempt (body : ParserM σ α) : ParserM σ (Except RecognitionException α) := do
  match ← observe body with
  | .ok a => return .ok a
  | .error (.recognition e) => return .error e
  | .error (.abort a) => giveUp a

end TreeProjection.Parser
