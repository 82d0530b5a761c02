import TreeProjection.Language.Basic
import TreeProjection.Text.Span

/-! # Host tokens

The host cuts a source into tokens before anything is parsed.  A `HostText` is such a cut source: its
tokens laid end to end, then the text (normally empty) that no token covers.  Places in the source follow
from the lengths of the tokens, so tokens can neither overlap nor leave gaps.

* `HostText.source` — the text that was cut.
* `HostText.placed` — the tokens with their places.
* `HostCursor` — a reader over the tokens that are not trivia. -/

namespace TreeProjection

/-- A piece of the source with its kind. -/
structure HostToken where
  /-- The kind. -/
  kind : Kind
  /-- The text. -/
  text : String
  deriving DecidableEq, Repr, Inhabited

/-- A source cut into tokens. -/
structure HostText where
  /-- The tokens, end to end. -/
  tokens : List HostToken
  /-- The text after the last token. -/
  rest : String := ""
  deriving DecidableEq, Repr, Inhabited

/-- A token with its place among all tokens and in the source. -/
structure PlacedToken extends HostToken where
  /-- How many tokens come before it, trivia included. -/
  place : Nat
  /-- The offset of its first byte. -/
  start : Nat
  deriving DecidableEq, Repr, Inhabited

namespace PlacedToken

/-- The stretch of the source that a token covers. -/
def span (t : PlacedToken) : Span := ⟨t.start, t.text.utf8ByteSize⟩

end PlacedToken

namespace HostText

/-- The source: the texts of all tokens, then what follows them. -/
def source (h : HostText) : String := String.join (h.tokens.map HostToken.text) ++ h.rest

/-- The length of the source in bytes. -/
def length (h : HostText) : Nat :=
  h.tokens.foldl (fun n t => n + t.text.utf8ByteSize) 0 + h.rest.utf8ByteSize

/-- Tokens with their places, where `place` tokens of `start` bytes come before the first. -/
def placeFrom (place start : Nat) : List HostToken → List PlacedToken
  | [] => []
  | t :: rest => ⟨t, place, start⟩ :: placeFrom (place + 1) (start + t.text.utf8ByteSize) rest

/-- The tokens with their places. -/
def placed (h : HostText) : List PlacedToken := placeFrom 0 0 h.tokens

/-- The tokens that are not trivia of a language, with their places. -/
def significant (h : HostText) (l : Language) : List PlacedToken :=
  h.placed.filter fun t => !l.isTrivia t.kind

end HostText

/-- A reader over the tokens of a source that are not trivia. -/
structure HostCursor where
  /-- The tokens. -/
  tokens : Array PlacedToken
  /-- The length of the source, where the reader stands after the last token. -/
  length : Nat
  /-- How many tokens have been passed. -/
  position : Nat := 0
  deriving DecidableEq, Repr, Inhabited

namespace HostCursor

/-- The reader at the start of a source. -/
def ofText (h : HostText) (l : Language) : HostCursor :=
  { tokens := (h.significant l).toArray, length := h.length }

/-- The current token. -/
def current? (c : HostCursor) : Option PlacedToken := c.tokens[c.position]?

/-- The kind of the current token. -/
def kind? (c : HostCursor) : Option Kind := c.current?.map fun t => t.kind

/-- The text of the current token; at the end there is none. -/
def text (c : HostCursor) : String := (c.current?.map fun t => t.text).getD ""

/-- The offset of the current token; at the end, the length of the source. -/
def offset (c : HostCursor) : Nat := (c.current?.map PlacedToken.start).getD c.length

/-- Whether all tokens have been passed. -/
def atEnd (c : HostCursor) : Bool := c.tokens.size ≤ c.position

/-- How many tokens are still to come. -/
def remaining (c : HostCursor) : Nat := c.tokens.size - c.position

/-- Pass the current token. -/
def next (c : HostCursor) : HostCursor := { c with position := c.position + 1 }

end HostCursor

end TreeProjection
