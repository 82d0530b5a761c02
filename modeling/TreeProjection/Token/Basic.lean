import TreeProjection.Failure
import TreeProjection.Text.Quoted
import TreeProjection.Text.Span

/-! # Tokens

A `Token` is a piece of input as the recognizer sees it.  A token that a stream has handed out carries
its place in that stream; a **conjured** token, which stands for one that the input lacks, carries none.

* `Token.ofSpan`, `Token.endOfInput`, `Token.conjured` — the three kinds of tokens.
* `Token.lexeme` — the part of a token that a grammar may base decisions on. -/

namespace TreeProjection

/-- The channel that the recognizer reads; tokens on other channels are passed over. -/
def defaultChannel : Nat := 0

/-- The channel of tokens that the recognizer passes over. -/
def hiddenChannel : Nat := 1

/-- The type and the text of a token. -/
structure Lexeme where
  /-- The type. -/
  ty : TokenType
  /-- The text. -/
  text : String
  deriving DecidableEq, Repr, Inhabited

/-- A token as the recognizer sees it. -/
structure Token where
  /-- The type. -/
  ty : TokenType
  /-- The text. -/
  text : String
  /-- Where the token stands in the source, unless it has no place there. -/
  span : Option Span := none
  /-- The place in the token stream; a conjured token has none. -/
  index : Option Nat := none
  /-- The channel. -/
  channel : Nat := defaultChannel
  /-- The line, where the source tells it. -/
  line : Nat := 0
  /-- The column, where the source tells it. -/
  column : Nat := 0
  deriving DecidableEq, Repr, Inhabited

namespace Token

/-- A token at a place in the source. -/
def ofSpan (ty : TokenType) (text : String) (span : Span) : Token := { ty, text, span := some span }

/-- The end of an input that ends at `offset`. -/
def endOfInput (offset : Nat) : Token := ofSpan .eof "<EOF>" (.emptyAt offset)

/-- A token that stands for one that the input lacks. -/
def conjured (ty : TokenType) (text : String) : Token := { ty, text }

/-- The token on another channel. -/
def onChannel (t : Token) (channel : Nat) : Token := { t with channel }

/-- Whether a token stands for one that the input lacks. -/
def isConjured (t : Token) : Bool := t.index.isNone

/-- Whether a token is the end of the input. -/
def isEof (t : Token) : Bool := t.ty.isEof

/-- Whether a token is on the channel that the recognizer reads. -/
def isVisible (t : Token) : Bool := t.channel == defaultChannel

/-- The type and the text of a token. -/
def lexeme (t : Token) : Lexeme := ⟨t.ty, t.text⟩

/-- The offset of the first byte. -/
def start? (t : Token) : Option Nat := t.span.map Span.start

/-- The offset of the last byte, unless the token is empty or has no place. -/
def lastByte? (t : Token) : Option Nat := do
  let span ← t.span
  if span.isEmpty then none else some (span.stop - 1)

/-- The text of a token in messages. -/
def shown (t : Token) : String := Text.shown t.text

@[simp] theorem isConjured_conjured (ty : TokenType) (text : String) :
    (conjured ty text).isConjured = true := rfl

@[simp] theorem isEof_endOfInput (offset : Nat) : (endOfInput offset).isEof = true := rfl

end Token

end TreeProjection
