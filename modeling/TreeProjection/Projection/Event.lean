import TreeProjection.Recognition.Exception

/-! # What a projection did

The steps of a run that can be told afterwards, and their counts. -/

namespace TreeProjection

/-- A step of a run. -/
inductive ProjectionEvent where
  /-- The recognizer is about to run. -/
  | parseStart (entry : RuleIndex)
  /-- The recognizer has run and found this many errors. -/
  | parseEnd (errors : Nat)
  /-- The region of a rule was opened. -/
  | ruleEnter (r : RuleIndex)
  /-- The region of a rule was closed as a node. -/
  | ruleDone (r : RuleIndex)
  /-- The region of a rule was closed as an error element. -/
  | ruleError (r : RuleIndex) (message : String)
  /-- A matched token was passed. -/
  | advance (t : Token)
  /-- An error leaf was dealt with, as an error element of this text or by passing its token. -/
  | errorLeaf (t : Token) (message : Option String)
  /-- The tokens that the recognizer did not reach were passed. -/
  | drain (count : Nat)
  deriving DecidableEq, Repr, Inhabited

/-- Counts of one projection. -/
structure ProjectionStats where
  /-- Regions opened for rules. -/
  rulesEntered : Nat := 0
  /-- Regions of rules closed as nodes. -/
  rulesDone : Nat := 0
  /-- Regions of rules closed as error elements. -/
  rulesErrored : Nat := 0
  /-- Error elements made for error leaves. -/
  errorMarkers : Nat := 0
  /-- Error leaves that stand for missing tokens. -/
  conjured : Nat := 0
  /-- Tokens passed for leaves. -/
  advances : Nat := 0
  /-- Tokens passed after the tree. -/
  drained : Nat := 0
  deriving DecidableEq, Repr, Inhabited

end TreeProjection
