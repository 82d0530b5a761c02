import TreeProjection.Recognition.Operations

/-! # Recognizers

A `Recognizer` is a program over the operations of a parser, held as data: it can be run, and it can be
looked at.  Between operations it may decide freely on what the operations answered.

The operations that make up a grammar are **ordinary**.  A recognizer may also reach past them, with the
`Direct` operations: call a hook of the strategy itself, put error leaves into the tree, report errors,
call the run off, write something down, or look at the parser's state.

* `Recognizer.run` — a recognizer as an action of a parser.
* `Recognizer.Ordinary` — recognizers made of ordinary operations alone.
* `Recognizer.LexemeDriven` — recognizers whose decisions rest on types and texts of tokens alone.
* `Grammar` — a language with a recognizer for each of its rules. -/

namespace TreeProjection

/-- What a recognizer may ask about the parser's state. -/
inductive Probe where
  /-- The type of the `k`-th token from the current one on. -/
  | typeAhead (k : Nat)
  /-- The `k`-th token from the current one on. -/
  | tokenAhead (k : Nat)
  /-- The `k`-th token before the current one. -/
  | tokenBehind (k : Nat)
  /-- Where the input stands. -/
  | index
  /-- The rule that is being recognized. -/
  | rule
  /-- Whether the parser looks ahead on trial. -/
  | speculating
  /-- How many syntax errors have been found. -/
  | errors
  /-- What recovery keeps in mind. -/
  | recovery
  /-- What may follow at this point. -/
  | viableFollow (follow : TokenSet)
  /-- Everything that any active invocation may be followed by. -/
  | recoverySet
  /-- The tree so far. -/
  | tree
  /-- The text from one token ahead to another. -/
  | textAhead (first last : Nat)
  /-- The text from one token to another. -/
  | textBetween (first last : Token)
  deriving Repr, Inhabited

/-- A call of a strategy's hook. -/
inductive HookCall where
  /-- Hold reports back. -/
  | begin
  /-- No longer hold reports back. -/
  | finish
  /-- A token has been matched. -/
  | matched
  /-- Whether reports are held back. -/
  | inRecovery
  /-- Recover from a new exception that expected a set. -/
  | recover (expected : TokenSet)
  /-- Report a new exception that expected a set. -/
  | reportError (expected : TokenSet)
  /-- Report a given exception. -/
  | reportGiven (e : RecognitionException)
  /-- Mend the lack of a token. -/
  | recoverInline (ty : TokenType) (follow : TokenSet)
  /-- See whether the current token is one too many. -/
  | deletion (ty : TokenType)
  /-- See whether a token is missing. -/
  | insertion (ty : TokenType) (follow : TokenSet)
  /-- Make up a token. -/
  | missing (ty : TokenType)
  /-- Report the current token as one too many. -/
  | unwanted (expecting : TokenSet)
  /-- Report a token as missing. -/
  | reportMissing (expecting : TokenSet)
  /-- Guard a loop. -/
  | sync (expecting : TokenSet)
  /-- Pass over tokens. -/
  | skipTo (set : TokenSet)
  deriving Repr, Inhabited

/-- The operations that reach past those of a grammar, by the type of what they answer. -/
inductive Direct : Type → Type where
  /-- Put an error leaf into the tree. -/
  | errorLeaf (t : Token) : Direct Unit
  /-- Tell the listeners of an error. -/
  | report (t : Token) (message : String) : Direct Unit
  /-- From now on no listener hears of errors. -/
  | dropListeners : Direct Unit
  /-- Call the run off. -/
  | cancel : Direct Unit
  /-- Write something down. -/
  | note (n : Note) : Direct Unit
  /-- Look at the parser's state. -/
  | probe (p : Probe) : Direct Observation
  /-- Call a hook. -/
  | hook (c : HookCall) : Direct Observation

/-- The ordinary operations without a body, by the type of what they answer. -/
inductive Operation : Type → Type where
  /-- The `k`-th token from the current one on. -/
  | ahead (k : Nat) : Operation Token
  /-- Match a token. -/
  | expect (ty : TokenType) (follow : TokenSet) : Operation Token
  /-- Consume the current token. -/
  | consume : Operation Token
  /-- Guard a loop. -/
  | sync (expecting : TokenSet) : Operation Unit
  /-- Fail unless a condition holds. -/
  | require (holds : Bool) (text : String) : Operation Unit
  /-- Fail because no alternative fits. -/
  | noViableAlt (depth : Nat) : Operation Empty
  /-- Fail because the current token is none of the expected ones. -/
  | mismatch (expected : TokenSet) : Operation Empty

/-- A program over the operations of a parser, with an answer of type `α`. -/
inductive Recognizer : Type → Type 1 where
  /-- Answer. -/
  | pure {α : Type} (a : α) : Recognizer α
  /-- Give up for want of steps. -/
  | outOfSteps {α : Type} : Recognizer α
  /-- Carry out an operation, and go on with what it answered. -/
  | step {α β : Type} (op : Operation β) (next : β → Recognizer α) : Recognizer α
  /-- Reach past the operations of a grammar, and go on with what was answered. -/
  | direct {α β : Type} (d : Direct β) (next : β → Recognizer α) : Recognizer α
  /-- Run a body as a rule, and go on. -/
  | rule {α : Type} (r : RuleIndex) (body : Unit → Recognizer Unit) (next : Unit → Recognizer α) :
    Recognizer α
  /-- Run a body that something may follow, and go on with its answer. -/
  | invoke {α β : Type} (follow : TokenSet) (body : Unit → Recognizer β) (next : β → Recognizer α) :
    Recognizer α
  /-- Try a body, and go on with whether it recognized the input. -/
  | speculate {α : Type} (body : Unit → Recognizer Unit) (next : Bool → Recognizer α) : Recognizer α
  /-- Run a body, and go on with its answer or with the exception that it failed with. -/
  | attempt {α β : Type} (body : Unit → Recognizer β)
    (next : Except RecognitionException β → Recognizer α) : Recognizer α

namespace Recognizer

/-- Go on with another recognizer after the answer. -/
def bind {α γ : Type} : Recognizer α → (α → Recognizer γ) → Recognizer γ
  | pure a, f => f a
  | outOfSteps, _ => outOfSteps
  | step op next, f => step op fun b => bind (next b) f
  | direct d next, f => direct d fun b => bind (next b) f
  | rule r body next, f => rule r body fun u => bind (next u) f
  | invoke follow body next, f => invoke follow body fun b => bind (next b) f
  | speculate body next, f => speculate body fun b => bind (next b) f
  | attempt body next, f => attempt body fun b => bind (next b) f

instance : Monad Recognizer where
  pure := pure
  bind := bind

@[simp] theorem pure_bind {α γ : Type} (a : α) (f : α → Recognizer γ) :
    (Recognizer.pure a).bind f = f a := rfl

@[simp] theorem bind_pure {α : Type} (r : Recognizer α) : r.bind Recognizer.pure = r := by
  induction r with
  | speculate body next _ ih => simp only [bind, ih]
  | _ => simp_all [bind]

theorem bind_assoc {α γ δ : Type} (r : Recognizer α) (f : α → Recognizer γ)
    (g : γ → Recognizer δ) : (r.bind f).bind g = r.bind fun a => (f a).bind g := by
  induction r with
  | speculate body next _ ih => simp only [bind, ih]
  | _ => simp_all [bind]

/-! ## Writing recognizers -/

/-- A single operation. -/
def perform {β : Type} (op : Operation β) : Recognizer β := step op pure

/-- The type of the `k`-th token from the current one on. -/
def typeAhead (k : Nat) : Recognizer TokenType := step (.ahead k) fun t => pure t.ty

/-- Match a token, whichever it is. -/
def expect (ty : TokenType) (follow : TokenSet) : Recognizer Unit :=
  step (.expect ty follow) fun _ => pure ()

/-- Guard a loop. -/
def sync (expecting : TokenSet) : Recognizer Unit := perform (.sync expecting)

/-- Fail because no alternative fits. -/
def noViableAlt {α : Type} (depth : Nat) : Recognizer α := step (.noViableAlt depth) nofun

/-- Fail because the current token is none of the expected ones. -/
def mismatch {α : Type} (expected : TokenSet) : Recognizer α := step (.mismatch expected) nofun

/-- Reach past the operations of a grammar. -/
def performDirect {β : Type} (d : Direct β) : Recognizer β := direct d pure

/-- Run a body as a rule. -/
def asRule (r : RuleIndex) (body : Unit → Recognizer Unit) : Recognizer Unit := rule r body pure

/-- Run a body that something may follow. -/
def within {β : Type} (follow : TokenSet) (body : Unit → Recognizer β) : Recognizer β :=
  invoke follow body pure

/-- Try a body. -/
def trial (body : Unit → Recognizer Unit) : Recognizer Bool := speculate body pure

/-- Repeat a body as long as it answers yes, at most `rounds` times. -/
def repeatWhile (body : Unit → Recognizer Bool) : (rounds : Nat) → Recognizer Unit
  | 0 => outOfSteps
  | rounds + 1 => (body ()).bind fun again => if again then repeatWhile body rounds else pure ()

end Recognizer

/-! ## Running recognizers -/

variable {σ : Type} [TokenSource σ]

/-- Look at a parser's state. -/
def Probe.run : Probe → ParserM σ Observation
  | .typeAhead k => do return .type (← Parser.ahead k).ty
  | .tokenAhead k => do return .token (some (← Parser.ahead k))
  | .tokenBehind k => do return .token ((← get).behind? k)
  | .index => do return .count (← get).index
  | .rule => do return .rule (← get).currentRule?
  | .speculating => do return .flag (← get).isSpeculating
  | .errors => do return .count (← get).syntaxErrors
  | .recovery => do return .recovery (← get).recovery
  | .viableFollow follow => do return .set ((← get).viableFollow follow)
  | .recoverySet => do return .set (← get).recoverySet
  | .tree => do
    let p ← get
    return .tree p.tree.size (p.tree.expression p.language)
  | .textAhead first last => do
    let a ← Parser.ahead first
    let b ← Parser.ahead last
    return .text ((← get).textBetween a b)
  | .textBetween first last => do return .text ((← get).textBetween first last)

/-- A new exception at the current token. -/
def freshMismatch (expected : TokenSet) : ParserM σ RecognitionException := do
  let t ← Parser.ahead 1
  Parser.newException .inputMismatch t expected

/-- Call a hook. -/
def HookCall.run : HookCall → ParserM σ Observation
  | .begin => do Parser.beginErrorCondition; return .recovery (← get).recovery
  | .finish => do Parser.endErrorCondition; return .recovery (← get).recovery
  | .matched => do Parser.reportMatch; return .recovery (← get).recovery
  | .inRecovery => do return .flag (← get).recovery.inRecovery
  | .recover expected => do
    Parser.recover (← freshMismatch expected)
    return .placed (← get).index (← get).recovery
  | .reportError expected => do
    Parser.reportError (← freshMismatch expected)
    return .placed (← get).index (← get).recovery
  | .reportGiven e => do Parser.reportError e; return .recovery (← get).recovery
  | .recoverInline ty follow => do return .token (some (← Parser.recoverInline ty follow))
  | .deletion ty => do return .token (← Parser.singleTokenDeletion ty)
  | .insertion ty follow => do return .flag (← Parser.singleTokenInsertion ty follow)
  | .missing ty => do return .token (some (← Parser.missingSymbol ty))
  | .unwanted expecting => do
    Parser.reportUnwanted expecting
    return .recovery (← get).recovery
  | .reportMissing expecting => do
    Parser.reportMissing expecting
    return .recovery (← get).recovery
  | .sync expecting => do Parser.syncHook expecting; return .count (← get).index
  | .skipTo set => do Parser.skipTo set; return .count (← get).index

/-- Carry out a direct operation. -/
def Direct.run {β : Type} : Direct β → ParserM σ β
  | .errorLeaf t => Parser.addErrorLeaf t
  | .report t message => Parser.report t message none
  | .dropListeners => modify fun p => { p with listeners := 0 }
  | .cancel => Parser.cancel
  | .note n => Parser.note n
  | .probe p => p.run
  | .hook c => c.run

/-- Carry out an operation. -/
def Operation.run {β : Type} : Operation β → ParserM σ β
  | .ahead k => Parser.ahead k
  | .expect ty follow => Parser.expect ty follow
  | .consume => Parser.consume
  | .sync expecting => Parser.sync expecting
  | .require holds text => Parser.require holds text
  | .noViableAlt depth => Parser.raiseNoViableAlt depth
  | .mismatch expected => Parser.raiseMismatch expected

/-- A recognizer as an action of a parser. -/
def Recognizer.run {α : Type} : Recognizer α → ParserM σ α
  | .pure a => Pure.pure a
  | .outOfSteps => Parser.giveUp .outOfSteps
  | .step op next => op.run >>= fun b => (next b).run
  | .direct d next => d.run >>= fun b => (next b).run
  | .rule r body next => Parser.rule r (body ()).run >>= fun u => (next u).run
  | .invoke follow body next => Parser.invoke follow (body ()).run >>= fun b => (next b).run
  | .speculate body next => Parser.speculate (body ()).run >>= fun b => (next b).run
  | .attempt body next => Parser.attempt (body ()).run >>= fun b => (next b).run

/-! ## Kinds of recognizers -/

/-- Whether a recognizer uses nothing but the operations that grammars are made of. -/
def Recognizer.Ordinary {α : Type} : Recognizer α → Prop
  | .pure _ => True
  | .outOfSteps => True
  | .step _ next => ∀ b, (next b).Ordinary
  | .direct _ _ => False
  | .rule _ body next => (body ()).Ordinary ∧ ∀ u, (next u).Ordinary
  | .invoke _ body next => (body ()).Ordinary ∧ ∀ b, (next b).Ordinary
  | .speculate body next => (body ()).Ordinary ∧ ∀ b, (next b).Ordinary
  | .attempt body next => (body ()).Ordinary ∧ ∀ b, (next b).Ordinary

/-- Whether two answers of an operation are the same to a recognizer that looks at types and texts of
tokens alone. -/
def Operation.Alike {β : Type} : Operation β → β → β → Prop
  | .ahead _, a, b => a.lexeme = b.lexeme
  | .expect _ _, a, b => a.lexeme = b.lexeme
  | .consume, a, b => a.lexeme = b.lexeme
  | _, a, b => a = b

/-- Whether two outcomes are the same to a recognizer that does not look into exceptions. -/
def Recognizer.SameOutcome {β : Type} : Except RecognitionException β → Except RecognitionException β → Prop
  | .ok a, .ok b => a = b
  | .error _, .error _ => True
  | _, _ => False

/-- Whether a recognizer decides on types and texts of tokens alone, and not on where they stand or on
what an exception holds. -/
def Recognizer.LexemeDriven {α : Type} : Recognizer α → Prop
  | .pure _ => True
  | .outOfSteps => True
  | .step op next =>
    (∀ a b, op.Alike a b → next a = next b) ∧ ∀ b, (next b).LexemeDriven
  | .direct _ next => ∀ b, (next b).LexemeDriven
  | .rule _ body next => (body ()).LexemeDriven ∧ ∀ u, (next u).LexemeDriven
  | .invoke _ body next => (body ()).LexemeDriven ∧ ∀ b, (next b).LexemeDriven
  | .speculate body next => (body ()).LexemeDriven ∧ ∀ b, (next b).LexemeDriven
  | .attempt body next =>
    (body ()).LexemeDriven ∧ (∀ a b, SameOutcome a b → next a = next b) ∧
      ∀ b, (next b).LexemeDriven

/-- A language with a recognizer for each of its rules.  A recognizer that may go on for long is granted
a number of steps; with too few of them it gives up. -/
structure Grammar where
  /-- The language. -/
  language : Language
  /-- The recognizer that begins with a rule. -/
  entry : (steps : Nat) → RuleIndex → Recognizer Unit

/-- The steps that are granted for an input of so many tokens. -/
def stepsFor (tokens : Nat) : Nat := 64 * tokens + 1048576

end TreeProjection
