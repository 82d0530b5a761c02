import TreeProjection.Token.Basic
import TreeProjection.TokenSet

/-! # Recognition exceptions

A recognizer that cannot go on raises a `RecognitionException`.  The nearest enclosing rule catches it,
reports it and goes on after it.  Exceptions are told apart by their number and never by what they hold:
two exceptions with equal fields are still two failures. -/

namespace TreeProjection

/-- What a recognizer failed at. -/
inductive ExceptionKind where
  /-- The current token is not the one that is required here. -/
  | inputMismatch
  /-- None of the alternatives fits that begin at the token `start`. -/
  | noViableAlt (start : Token)
  /-- A condition that the grammar states in words does not hold. -/
  | failedPredicate (text : String)
  deriving DecidableEq, Repr, Inhabited

/-- A failure to recognize the input at some point of a rule. -/
structure RecognitionException where
  /-- The number of the exception, counted through one parse. -/
  id : Nat
  /-- What failed. -/
  kind : ExceptionKind
  /-- The token at which it failed. -/
  offending : Token
  /-- What was expected there. -/
  expected : TokenSet
  /-- The rule in which it failed; outside of all rules, the first one. -/
  rule : RuleIndex
  deriving DecidableEq, Repr, Inhabited

/-- The token an exception is placed at: where the alternatives begin, or else where it failed. -/
def RecognitionException.anchor (e : RecognitionException) : Token :=
  match e.kind with
  | .noViableAlt start => start
  | _ => e.offending

/-- Why a recognizer stopped early. -/
inductive Interrupt where
  /-- It could not recognize the input; an enclosing rule recovers. -/
  | recognition (e : RecognitionException)
  /-- The whole parse ends here. -/
  | abort (a : Abort)
  deriving DecidableEq, Repr, Inhabited

end TreeProjection
