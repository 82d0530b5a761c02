import TreeProjection.Recognition.Parser

/-! # Recovery from syntax errors

What the hooks of a strategy do.  Hooks call one another in one direction only, so each is defined after
those that it calls.

A failed rule reports its exception and passes over tokens until one comes that some active invocation
may be followed by (`Parser.recover`).  An expected token that is not there is mended within the rule, if
dropping the current token or making up the expected one is enough (`Parser.recoverInline`).  A loop
passes over tokens that can neither begin another round nor follow it (`Parser.sync`).

After a report nothing more is reported until a token has been matched. -/

namespace TreeProjection.Parser

variable {σ α : Type}

/-- Call a hook: note the call if calls are noted, and act unless the hook is denied. -/
def hooked (h : Hook) (denied : ParserM σ α) (act : ParserM σ α) : ParserM σ α := do
  let strategy := (← get).strategy
  if strategy.noted then note (.hook h)
  if strategy.allows h then act else denied

/-- From now on reports are held back. -/
def beginErrorCondition : ParserM σ Unit :=
  hooked .begin (pure ()) do
    modify fun p => { p with recovery.inRecovery := true }

/-- From now on reports are no longer held back, and earlier recoveries are forgotten. -/
def endErrorCondition : ParserM σ Unit :=
  hooked .finish (pure ()) do
    modify fun p => { p with recovery := {} }

/-- A token has been matched. -/
def reportMatch : ParserM σ Unit := endErrorCondition

/-- The text of a report for an exception. -/
def exceptionMessage (p : Parser σ) (e : RecognitionException) : String :=
  match e.kind with
  | .noViableAlt start =>
    let input := if start.isEof then "<EOF>" else p.textBetween start e.offending
    s!"no viable alternative at input {Text.shown input}"
  | .inputMismatch =>
    s!"mismatched input {e.offending.shown} expecting {p.language.vocabulary.displaySet e.expected}"
  | .failedPredicate text =>
    s!"rule {p.language.ruleNameOrUnknown e.rule} failed predicate: \x7b{text}\x7d?"

/-- Report the exception of a failed rule. -/
def reportError (e : RecognitionException) : ParserM σ Unit :=
  hooked .reportError (pure ()) do
    unless (← get).recovery.inRecovery do
      beginErrorCondition
      report e.offending (exceptionMessage (← get) e) (some e)

variable [TokenSource σ]

/-- Consume tokens until the current one is in a set or is the end of the input. -/
def consumeUntil (set : TokenSet) : Nat → ParserM σ Unit
  | 0 => giveUp .outOfSteps
  | fuel + 1 => do
    let t ← ahead 1
    unless t.isEof || set.contains t.ty do
      let _ ← consume
      consumeUntil set fuel

/-- A bound on the number of tokens that can still be consumed. -/
def remaining (p : Parser σ) : Nat :=
  p.input.buffer.size - p.input.cursor + TokenSource.bound p.input.source

/-- Pass over tokens until one of a set, or the end of the input, is current.  An anchoring strategy
leaves an error leaf if the end of the input is current already. -/
def skipTo (set : TokenSet) : ParserM σ Unit :=
  hooked .skipTo (pure ()) do
    if (← get).strategy.anchoring then
      let t ← ahead 1
      if t.isEof then addErrorLeaf t
    consumeUntil set ((← get).remaining + 1)

/-- Bring the input to where a caller of the failed rule can go on.  A rule that already recovered here
would go round in a circle, so it first gives up one token. -/
def recover (_e : RecognitionException) : ParserM σ Unit :=
  hooked .recover (pure ()) do
    let p ← get
    let rule := p.currentRule?
    let stalled := p.recovery.lastErrorIndex == some p.index &&
      rule.any p.recovery.lastErrorRules.contains
    if stalled then
      let _ ← consume
    modify fun p => { p with
      recovery.lastErrorIndex := some p.index
      recovery.lastErrorRules := p.recovery.lastErrorRules ++ rule.toList }
    skipTo (← get).recoverySet

/-- Report the current token as one too many. -/
def reportUnwanted (expecting : TokenSet) : ParserM σ Unit :=
  hooked .unwanted (pure ()) do
    unless (← get).recovery.inRecovery do
      beginErrorCondition
      let t ← ahead 1
      let p ← get
      let expected := p.language.vocabulary.displaySet (p.viableFollow expecting)
      report t s!"extraneous input {t.shown} expecting {expected}" none

/-- Report a token as missing. -/
def reportMissing (expecting : TokenSet) : ParserM σ Unit :=
  hooked .reportMissing (pure ()) do
    unless (← get).recovery.inRecovery do
      beginErrorCondition
      let t ← ahead 1
      let p ← get
      let expected := p.language.vocabulary.displaySet (p.viableFollow expecting)
      report t s!"missing {expected} at {t.shown}" none

/-- Drop the current token if the expected one comes right after it, which is the answer then. -/
def singleTokenDeletion (expected : TokenType) : ParserM σ (Option Token) :=
  hooked .deletion (pure none) do
    if (← ahead 2).ty != expected then return none
    reportUnwanted (← orBroken (TokenSet.single? expected))
    let _ ← consume
    let matched ← ahead 1
    reportMatch
    return some matched

/-- Act as if the expected token were there, if the current token may come after it. -/
def singleTokenInsertion (expected : TokenType) (follow : TokenSet) : ParserM σ Bool :=
  hooked .insertion (pure false) do
    let t ← ahead 1
    if !((← get).viableFollow follow).contains t.ty then return false
    reportMissing (← orBroken (TokenSet.single? expected))
    return true

/-- The text of a token made up for a missing one. -/
def missingText (v : Vocabulary) (expected : TokenType) : String :=
  if expected.isEof then "<missing EOF>" else s!"<missing {v.displayName expected}>"

/-- Make up a token for a missing one.  It has the line and the column of the current token, or at the
end of the input those of the token before.  An anchoring strategy gives it the place of the current
token. -/
def missingSymbol (expected : TokenType) : ParserM σ Token :=
  let act : ParserM σ Token := do
    let current ← ahead 1
    let p ← get
    let near := if current.isEof then (p.behind? 1).getD current else current
    let made := { Token.conjured expected (missingText p.language.vocabulary expected) with
      line := near.line, column := near.column }
    if !p.strategy.anchoring then return made
    let current ← ahead 1
    return { made with span := some (current.span.getD (.emptyAt 0)) }
  hooked .missing act act

/-- Mend the lack of an expected token within the rule, or fail. -/
def recoverInline (expected : TokenType) (follow : TokenSet) : ParserM σ Token :=
  let mismatch : ParserM σ Token := do raiseMismatch (← orBroken (TokenSet.single? expected))
  hooked .recoverInline mismatch do
    match ← singleTokenDeletion expected with
    | some matched =>
      let _ ← consume
      return matched
    | none =>
      if ← singleTokenInsertion expected follow then missingSymbol expected else mismatch

/-- Pass over tokens that can neither begin another round of a loop nor follow it. -/
def syncHook (expecting : TokenSet) : ParserM σ Unit :=
  hooked .sync (pure ()) do
    if (← get).recovery.inRecovery then return
    let t ← ahead 1
    if expecting.contains t.ty || expecting.endOfRule then return
    reportUnwanted expecting
    skipTo (expecting.union (← get).recoverySet)

end TreeProjection.Parser
