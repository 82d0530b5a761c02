import TreeProjection.Host.Builder
import TreeProjection.Token.Source

/-! # Builders as token sources

A supervised builder is a source of tokens: each pull passes one token of the host.  The reader sees no
trivia, so every token is on the default channel.  Text that is of no token type comes through as
`TokenType.invalid`. -/

namespace TreeProjection.Supervised

variable {β τ : Type} [TreeBuilder β τ]

/-- Take the next token off the host. -/
def pull (s : Supervised β) : Except Error Token × Supervised β :=
  if s.cancelled then (.error .cancelled, s)
  else
    let offset := TreeBuilder.offset s.builder
    match TreeBuilder.kind? s.builder with
    | none => (.ok (.endOfInput offset), s.exhausted)
    | some kind =>
      let ty := (s.elements.tokenTypeOf? kind).getD .invalid
      let text := TreeBuilder.text s.builder
      (.ok (.ofSpan ty text ⟨offset, text.utf8ByteSize⟩), s.advance)

instance : TokenSource (Supervised β) where
  pull := pull
  isCancelled s := s.cancelled
  cancel s := { s with cancelled := true }
  bound s := TreeBuilder.remaining s.builder

end TreeProjection.Supervised
