import TreeProjection.Token.Basic

/-! # Token sources

Where a recognizer's tokens come from.  A source gives one token at a time, for ever: after the last
token it keeps giving the end of the input.  It also holds the flag by which a run may be called off, and
it may set that flag itself. -/

namespace TreeProjection

/-- A source of tokens with a cancellation flag. -/
class TokenSource (σ : Type) where
  /-- Take the next token.  A source may fail, and it may go on after a failure. -/
  pull : σ → Except Error Token × σ
  /-- Whether the cancellation flag is set. -/
  isCancelled : σ → Bool
  /-- Set the cancellation flag. -/
  cancel : σ → σ
  /-- A bound on the number of tokens before the end of the input. -/
  bound : σ → Nat

/-- Fails if the cancellation flag is set. -/
def TokenSource.check {σ : Type} [TokenSource σ] (source : σ) : Except Error Unit :=
  if isCancelled source then .error .cancelled else .ok ()

/-- A source that goes through a list of tokens, then gives the end of the input for ever.  One of its
pulls may be made to fail: the token of that pull is lost, and the pulls after it go on with the list. -/
structure ListedTokens where
  /-- The tokens still to come. -/
  rest : List Token
  /-- The token that is given after the last one. -/
  last : Token
  /-- How many pulls are still to come before the one that fails, if one does. -/
  failIn : Option Nat := none
  /-- The cancellation flag. -/
  cancelled : Bool := false
  deriving Repr, Inhabited

namespace ListedTokens

/-- Take the next token. -/
def pull (s : ListedTokens) : Except Error Token × ListedTokens :=
  match s.failIn with
  | some 0 => (.error .cancelled, { s with rest := s.rest.tail, failIn := none })
  | failIn =>
    let s := { s with failIn := failIn.map (· - 1) }
    match s.rest with
    | [] => (.ok s.last, s)
    | t :: rest => (.ok t, { s with rest })

instance : TokenSource ListedTokens where
  pull := pull
  isCancelled s := s.cancelled
  cancel s := { s with cancelled := true }
  bound s := s.rest.length

end ListedTokens

end TreeProjection
