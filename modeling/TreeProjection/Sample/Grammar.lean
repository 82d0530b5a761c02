import TreeProjection.Recognition.Recognizer
import TreeProjection.Sample.Language

/-! # The sample grammar

A recognizer for each rule of the sample language, by recursive descent.  What may come after each token
and each invocation is stated where it stands, for recovery.

The recognizers take a number of steps, which bounds how deep rules may go and how often a loop may go
round; with enough steps for the input at hand it makes no difference. -/

namespace TreeProjection.Sample

open Recognizer

/-- What a statement may begin with. -/
def firstStatement : TokenSet := .ofList [var, ret, lbrace, ident]

/-- What an expression may begin with. -/
def firstExpr : TokenSet := .ofList [int, string, ident, lparen]

/-- What a round of the outermost loop may begin or end with. -/
def scriptLoop : TokenSet := (firstStatement.insert func).insert .eof

/-- What a round of a block's loop may begin or end with. -/
def blockLoop : TokenSet := firstStatement.insert rbrace

/-- The signs between the parts of a sum. -/
def addOps : TokenSet := .ofList [plus, minus]

/-- The signs between the parts of a product. -/
def mulOps : TokenSet := .ofList [star, slash]

/-- The end of the rule. -/
def ruleEnd : TokenSet := .onlyEndOfRule

/-- A list of parts with signs between them: each sign that is ahead is matched, and a part follows. -/
def signed (signs follow : TokenSet) (part : Unit → Recognizer Unit) (rounds : Nat) :
    Recognizer Unit := do
  within follow part
  repeatWhile (fun _ => do
    let sign ← typeAhead 1
    if signs.contains sign then
      expect sign firstExpr
      within follow part
      return true
    else return false) rounds

mutual

/-- Statements between braces. -/
def block : Nat → Recognizer Unit
  | 0 => .outOfSteps
  | n + 1 => asRule blockRule fun _ => do
    expect lbrace blockLoop
    repeatWhile (fun _ => do
      sync blockLoop
      if firstStatement.contains (← typeAhead 1) then
        within blockLoop fun _ => statement n
        return true
      else return false) n
    expect rbrace ruleEnd

/-- A statement.  Whether a name begins an assignment or a call shows at the token after it. -/
def statement : Nat → Recognizer Unit
  | 0 => .outOfSteps
  | n + 1 => asRule statementRule fun _ => do
    let ty ← typeAhead 1
    if ty = var then
      expect var (.single ident)
      assignment n
    else if ty = ret then
      expect ret (firstExpr.insert semi)
      if firstExpr.contains (← typeAhead 1) then
        within (.single semi) fun _ => expr n
      expect semi ruleEnd
    else if ty = lbrace then
      within ruleEnd fun _ => block n
    else if ty = ident then
      let isAssignment ← trial fun _ => do
        expect ident (.single assign)
        expect assign firstExpr
      if isAssignment then
        assignment n
      else if (← typeAhead 2) = lparen then
        within (.single semi) fun _ => expr n
        expect semi ruleEnd
      else noViableAlt 2
    else noViableAlt 1

/-- What comes in an assignment, from the name on. -/
def assignment : Nat → Recognizer Unit
  | 0 => .outOfSteps
  | n + 1 => do
    expect ident (.single assign)
    expect assign firstExpr
    within (.single semi) fun _ => expr n
    expect semi ruleEnd

/-- Terms with plus and minus signs between them. -/
def expr : Nat → Recognizer Unit
  | 0 => .outOfSteps
  | n + 1 => asRule exprRule fun _ => signed addOps addOps.withEndOfRule (fun _ => term n) n

/-- Factors with multiplication and division signs between them. -/
def term : Nat → Recognizer Unit
  | 0 => .outOfSteps
  | n + 1 => asRule termRule fun _ => signed mulOps mulOps.withEndOfRule (fun _ => primary n) n

/-- A number, a text, a name, a call, or an expression in parentheses. -/
def primary : Nat → Recognizer Unit
  | 0 => .outOfSteps
  | n + 1 => asRule primaryRule fun _ => do
    let ty ← typeAhead 1
    if ty = int then expect int ruleEnd
    else if ty = string then expect string ruleEnd
    else if ty = ident then
      expect ident (TokenSet.single lparen).withEndOfRule
      if (← typeAhead 1) = lparen then
        expect lparen (firstExpr.insert rparen)
        if firstExpr.contains (← typeAhead 1) then
          within (.single rparen) fun _ => args n
        expect rparen ruleEnd
    else if ty = lparen then
      expect lparen firstExpr
      within (.single rparen) fun _ => expr n
      expect rparen ruleEnd
    else noViableAlt 1

/-- Expressions with commas between them. -/
def args : Nat → Recognizer Unit
  | 0 => .outOfSteps
  | n + 1 => asRule argsRule fun _ =>
    signed (.single comma) (TokenSet.single comma).withEndOfRule (fun _ => expr n) n

end

/-- Names with commas between them. -/
def params (steps : Nat) : Recognizer Unit := asRule paramsRule fun _ => do
  let afterName := (TokenSet.single comma).withEndOfRule
  expect ident afterName
  repeatWhile (fun _ => do
    if (← typeAhead 1) = comma then
      expect comma (.single ident)
      expect ident afterName
      return true
    else return false) steps

/-- A function with its parameters and its block. -/
def function (steps : Nat) : Recognizer Unit := asRule functionRule fun _ => do
  expect func (.single ident)
  expect ident (.single lparen)
  expect lparen (.ofList [ident, rparen])
  if (← typeAhead 1) = ident then
    within (.single rparen) fun _ => params steps
  expect rparen (.single lbrace)
  within ruleEnd fun _ => block steps

/-- A whole source: functions and statements to the end of the input. -/
def script (steps : Nat) : Recognizer Unit := asRule scriptRule fun _ => do
  repeatWhile (fun _ => do
    sync scriptLoop
    let ty ← typeAhead 1
    if ty = func then
      within scriptLoop fun _ => function steps
      return true
    else if firstStatement.contains ty then
      within scriptLoop fun _ => statement steps
      return true
    else return false) steps
  expect .eof ruleEnd

/-- The grammar of the sample language. -/
def grammar : Grammar where
  language := language
  entry steps r :=
    if r = scriptRule then script steps
    else if r = functionRule then function steps
    else if r = paramsRule then params steps
    else if r = blockRule then block steps
    else if r = statementRule then statement steps
    else if r = exprRule then expr steps
    else if r = termRule then term steps
    else if r = primaryRule then primary steps
    else args steps

end TreeProjection.Sample
