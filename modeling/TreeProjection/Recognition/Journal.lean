import TreeProjection.Recognition.Strategy

/-! # Reports and notes

The parser tells its listeners of every syntax error by a `Report`.  Reports, and whatever else a run is
asked to write down, are kept in the order of their making as `Note`s. -/

namespace TreeProjection

/-- What listeners are told of a syntax error. -/
structure Report where
  /-- The token at which the error was found. -/
  offending : Token
  /-- The line of the error. -/
  line : Nat
  /-- The column of the error. -/
  column : Nat
  /-- The text. -/
  message : String
  /-- The exception behind the report.  Reports of tokens that are missing or one too many have none. -/
  exception : Option RecognitionException := none
  deriving DecidableEq, Repr, Inhabited

/-- Something seen of a parser's state. -/
inductive Observation where
  /-- A token type. -/
  | type (ty : TokenType)
  /-- A token, if there is one. -/
  | token (t : Option Token)
  /-- A number. -/
  | count (n : Nat)
  /-- A rule, if there is one. -/
  | rule (r : Option RuleIndex)
  /-- A yes or a no. -/
  | flag (b : Bool)
  /-- What recovery keeps in mind. -/
  | recovery (s : RecoveryState)
  /-- A place in the input, and what recovery keeps in mind. -/
  | placed (index : Nat) (s : RecoveryState)
  /-- A set of token types. -/
  | set (s : TokenSet)
  /-- A text. -/
  | text (s : String)
  /-- The size of the parse tree, and the tree on one line. -/
  | tree (size : Nat) (expression : String)
  deriving DecidableEq, Repr, Inhabited

/-- Something a run has written down. -/
inductive Note where
  /-- A report, and how many listeners heard it. -/
  | report (listeners : Nat) (r : Report)
  /-- A call of a hook. -/
  | hook (h : Hook)
  /-- A token that was matched or consumed. -/
  | token (t : Token)
  /-- The outcome of a speculation. -/
  | speculated (recognized : Bool)
  /-- An exception that was caught. -/
  | caught (e : RecognitionException)
  /-- Something seen, under a name. -/
  | seen (name : String) (o : Observation)
  deriving DecidableEq, Repr, Inhabited

/-- The report that a note holds. -/
def Note.report? : Note → Option Report
  | report _ r => some r
  | _ => none

end TreeProjection
