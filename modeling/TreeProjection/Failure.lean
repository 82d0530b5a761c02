import TreeProjection.Symbol

/-! # Failures

Three things can stop a parse, and each has a type of its own.  Syntax errors are none of them: they
are recovered from and end up in the tree.

* `Error` — a parse that is called off or cannot go on; part of every operation's contract.
* `Violation` — an operation used against its contract, such as closing a region out of order.
* `Abort` — either of the two, or the end of the steps that a run was granted.

`Error.message` and `Violation.message?` give the texts. -/

namespace TreeProjection

/-- Why a parse was given up. -/
inductive Error where
  /-- The run's cancellation flag was found set. -/
  | cancelled
  /-- A rule was entered with as many rules active as the limit allows. -/
  | recursionLimitExceeded
  /-- No language of this name is registered. -/
  | unknownLanguage (name : String)
  /-- The language has no rule of this name. -/
  | unknownRule (name : String)
  deriving DecidableEq, Repr, Inhabited

/-- The text shown for an error. -/
def Error.message : Error → String
  | .cancelled => "parse cancelled"
  | .recursionLimitExceeded => "recursion limit exceeded"
  | .unknownLanguage name => s!"unknown language `{name}`"
  | .unknownRule name => s!"unknown rule `{name}`"

/-- A broken contract: the operation that found it has no answer. -/
inductive Violation where
  /-- A token set was given a type beyond its capacity. -/
  | typeBeyondSet
  /-- A language has so many symbols that their kinds do not fit. -/
  | tooManySymbols (total : Nat)
  /-- A token type without an element kind was asked for its kind. -/
  | noElement (ty : TokenType) (tokenCount : Nat)
  /-- A rule outside the grammar was asked for its kind. -/
  | ruleOutOfRange (rule : RuleIndex) (ruleCount : Nat)
  /-- A stream was asked for a token that it does not hold. -/
  | outsideBuffer
  /-- A rule was left that had not been entered. -/
  | exitWithoutEnter
  /-- A rule was left during projection with no region open for it. -/
  | exitWithoutMarker
  /-- Projection ended with regions open. -/
  | markersLeftOpen (count : Nat)
  /-- A region was closed that was not the innermost open one. -/
  | closedOutOfOrder (marker : Nat) (innermost : Option Nat)
  /-- A region was rolled back that was not open. -/
  | rollbackNotOpen (marker : Nat)
  /-- A tree was finished with regions open. -/
  | finishedWithOpen (count : Nat)
  /-- A tree was built from a record with a region that is never closed. -/
  | unclosedRegion
  /-- A tree was built from a record that closes a region where none is open. -/
  | closedNothing
  /-- A tree was finished whose record is not exactly one region. -/
  | notOneRoot
  /-- A snippet was to be drawn with a mark that starts or stops inside a character. -/
  | insideCharacter
  deriving DecidableEq, Repr, Inhabited

/-- The debug text of an optional number. -/
private def optionalNumber : Option Nat → String
  | some n => s!"Some({n})"
  | none => "None"

/-- The text shown for a broken contract; those that are noticed late have none. -/
def Violation.message? : Violation → Option String
  | .typeBeyondSet => some "TokenType value exceeds TokenSet capacity"
  | .tooManySymbols total => some s!"ElementTypes: too many symbols ({total})"
  | .noElement ty count =>
    some s!"ElementTypes: {ty.debug} has no element (vocabulary holds {count} types)"
  | .ruleOutOfRange rule count =>
    some s!"ElementTypes: rule {rule.toNat} out of range (grammar has {count} rules)"
  | .outsideBuffer => none
  | .exitWithoutEnter => some "parser: rule exit without matching enter"
  | .exitWithoutMarker => some "projector: rule exit with empty marker stack"
  | .markersLeftOpen count => some s!"projector: {count} markers left open after projection"
  | .closedOutOfOrder marker innermost =>
    some s!"tree builder: marker {marker} closed out of order (innermost open is {optionalNumber innermost})"
  | .rollbackNotOpen marker => some s!"tree builder: rollback to marker {marker} that is not open"
  | .finishedWithOpen count => some s!"tree builder: finish with {count} open markers"
  | .unclosedRegion => none
  | .closedNothing => none
  | .notOneRoot => none
  | .insideCharacter => none

/-- Why an operation ended without an answer. -/
inductive Abort where
  /-- The parse was given up. -/
  | error (e : Error)
  /-- A contract was broken. -/
  | broken (v : Violation)
  /-- The run needed more steps than it was granted. -/
  | outOfSteps
  deriving DecidableEq, Repr, Inhabited

/-- An operation's answer, where only a broken contract can keep it from giving one. -/
def Abort.ofViolation {α : Type} : Except Violation α → Except Abort α
  | .ok a => .ok a
  | .error v => .error (.broken v)

/-- To have the outcome is to know whether it is an answer of a certain kind. -/
instance decidableExistsOkAnd {ε α : Type} {x : Except ε α} {p : α → Prop} [DecidablePred p] :
    Decidable (∃ a, x = .ok a ∧ p a) :=
  match x with
  | .ok a => decidable_of_iff (p a) ⟨fun ha => ⟨a, rfl, ha⟩, fun ⟨_, hb, ha⟩ => Except.ok.inj hb ▸ ha⟩
  | .error _ => .isFalse nofun

/-- To have the outcome is to know whether it is an answer. -/
instance decidableExistsOk {ε α : Type} {x : Except ε α} : Decidable (∃ a, x = .ok a) :=
  decidable_of_iff (∃ a, x = .ok a ∧ True) (exists_congr fun _ => and_iff_left trivial)

end TreeProjection
