import TreeProjection.Recognition.Exception

/-! # Recovery strategies

How a parse goes on after an error is decided in a dozen places, the **hooks**.  A `Strategy` says how
they behave: whether errors are given a place in the tree wherever they occur (`anchoring`), and, for
looking into a parse, whether calls of hooks are noted and which hooks do nothing. -/

namespace TreeProjection

/-- The places where recovery decides. -/
inductive Hook where
  /-- An error has been found, and further reports are held back. -/
  | begin
  /-- A token has been matched, and reports are no longer held back. -/
  | finish
  /-- A rule has failed, and its exception is reported. -/
  | reportError
  /-- A rule has failed, and the input is brought to where its callers can go on. -/
  | recover
  /-- A token was expected that is not there. -/
  | recoverInline
  /-- The current token may be one too many. -/
  | deletion
  /-- The expected token may be the only one missing. -/
  | insertion
  /-- A token is made up for a missing one. -/
  | missing
  /-- The current token is reported as one too many. -/
  | unwanted
  /-- A token is reported as missing. -/
  | reportMissing
  /-- A loop is about to go on or to end. -/
  | sync
  /-- Tokens are passed over until one of a set comes. -/
  | skipTo
  deriving DecidableEq, Repr, Inhabited

/-- The name under which a call of a hook is noted. -/
def Hook.name : Hook → String
  | .begin => "begin"
  | .finish => "end"
  | .reportError => "report_error"
  | .recover => "recover"
  | .recoverInline => "recover_inline"
  | .deletion => "deletion"
  | .insertion => "insertion"
  | .missing => "missing"
  | .unwanted => "unwanted"
  | .reportMissing => "report_missing"
  | .sync => "sync"
  | .skipTo => "until"

/-- All hooks. -/
def Hook.all : List Hook :=
  [.begin, .finish, .reportError, .recover, .recoverInline, .deletion, .insertion, .missing,
    .unwanted, .reportMissing, .sync, .skipTo]

/-- How a parse recovers from errors. -/
structure Strategy where
  /-- Whether every error leaves something in the tree: at the end of the input, an error leaf for it, and
  tokens made up for missing ones take the place of the token before which they are missing. -/
  anchoring : Bool
  /-- Whether calls of hooks are noted. -/
  noted : Bool := false
  /-- The hooks that do nothing. -/
  denied : List Hook := []
  deriving DecidableEq, Repr, Inhabited

namespace Strategy

/-- Plain recovery. -/
def default : Strategy := { anchoring := false }

/-- Recovery that leaves something in the tree for every error. -/
def anchored : Strategy := { anchoring := true }

/-- Whether a hook does its work.  Making up a token cannot be denied. -/
def allows (s : Strategy) (h : Hook) : Bool := h == .missing || !s.denied.contains h

end Strategy

/-- What recovery keeps in mind during a parse. -/
structure RecoveryState where
  /-- Whether an error has been found and no token matched since.  Meanwhile nothing is reported, and
  consumed tokens become error leaves. -/
  inRecovery : Bool := false
  /-- Where the input stood when a failed rule last recovered. -/
  lastErrorIndex : Option Nat := none
  /-- The rules that recovered, earliest first. -/
  lastErrorRules : List RuleIndex := []
  deriving DecidableEq, Repr, Inhabited

end TreeProjection
