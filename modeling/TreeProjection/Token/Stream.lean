import TreeProjection.Token.Source

/-! # Token streams

A `Stream` buffers the tokens of a source.  It takes a token from the source only when it is asked for
one, and none after the first end of the input.  The recognizer sees the tokens on the default channel
only; the others stay in the buffer for `Stream.textBetween`.

* `Stream.ahead` — the `k`-th visible token from the cursor on.
* `Stream.behind?` — the `k`-th visible token before the cursor.
* `Stream.consume`, `Stream.seek` — the two moves of the cursor. -/

namespace TreeProjection

/-- A buffer over a token source, with a cursor. -/
structure Stream (σ : Type) where
  /-- Where tokens come from. -/
  source : σ
  /-- The tokens taken so far, each carrying its place here. -/
  buffer : Array Token := #[]
  /-- The place of the current token. -/
  cursor : Nat := 0
  /-- Whether the cursor has been put on the first visible token. -/
  started : Bool := false
  /-- Whether the end of the input has been taken from the source. -/
  ended : Bool := false

/-- An operation on a stream. -/
abbrev StreamM (σ : Type) := EStateM Abort (Stream σ)

namespace Stream

/-- The stream over a source from which nothing has been taken. -/
def ofSource {σ : Type} (source : σ) : Stream σ := { source }

/-- Whether a token is one that the cursor may stand on: a visible one, or the end of the input. -/
def isStop (t : Token) : Bool := t.isVisible || t.isEof

variable {σ : Type} [TokenSource σ]

/-- The place of the first of the `n` tokens at `i` and after it that the cursor may stand on. -/
def stopAmong? (s : Stream σ) : (n i : Nat) → Option Nat
  | 0, _ => none
  | n + 1, i => if s.buffer[i]?.any isStop then some i else stopAmong? s n (i + 1)

/-- The place of the first token at or after `i` in the buffer that the cursor may stand on. -/
def findStop? (s : Stream σ) (i : Nat) : Option Nat := s.stopAmong? (s.buffer.size - i) i

/-- Put a token taken from the source at the end of the buffer. -/
def push (s : Stream σ) (t : Token) : Stream σ :=
  { s with buffer := s.buffer.push { t with index := some s.buffer.size }, ended := t.isEof }

/-- Take tokens from the source until one comes that stands at `i` or later and that the cursor may
stand on, or until the end of the input comes.  The answer is the place of the last token taken. -/
def fetchFrom (i : Nat) : Nat → StreamM σ Nat
  | 0 => fun s => .ok (s.buffer.size - 1) s
  | fuel + 1 => fun s =>
    match TokenSource.pull s.source with
    | (.error e, source) => .error (.error e) { s with source }
    | (.ok t, source) =>
      let place := s.buffer.size
      let s := { s with source }.push t
      if t.isEof || (decide (i ≤ place) && t.isVisible) then .ok place s else fetchFrom i fuel s

/-- The place of the first token at or after `i` that the cursor may stand on; at the end of the input,
the place of the end. -/
def nextStop (i : Nat) : StreamM σ Nat := fun s =>
  match s.findStop? i with
  | some j => .ok j s
  | none =>
    if s.ended then .ok (s.buffer.size - 1) s
    else fetchFrom i (TokenSource.bound s.source + 1) s

/-- Put the cursor on the first visible token, once. -/
def start : StreamM σ Unit := do
  let s ← get
  unless s.started do
    set { s with started := true }
    let cursor ← nextStop 0
    modify fun s => { s with cursor }

/-- The token at a place of the buffer. -/
def tokenAt (i : Nat) : StreamM σ Token := do
  match (← get).buffer[i]? with
  | some t => pure t
  | none => throw (.broken .outsideBuffer)

/-- Go on by `n` visible tokens from the one at `i`, but not past the end of the input. -/
def skipFrom : Nat → Nat → StreamM σ Nat
  | 0, i => pure i
  | n + 1, i => do
    if (← tokenAt i).isEof then pure i else skipFrom n (← nextStop (i + 1))

/-- The `k`-th visible token from the cursor on, counted from one. -/
def ahead (k : Nat) : StreamM σ Token := do
  start
  tokenAt (← skipFrom (k - 1) (← get).cursor)

/-- The last visible token before place `i` once `n` of them have been passed over. -/
def visibleBefore? (s : Stream σ) : (n i : Nat) → Option Token
  | _, 0 => none
  | n, i + 1 =>
    match n, s.buffer[i]?.filter Token.isVisible with
    | 0, some t => some t
    | n + 1, some _ => visibleBefore? s n i
    | n, none => visibleBefore? s n i

/-- The `k`-th visible token before the cursor, counted from one. -/
def behind? (s : Stream σ) : (k : Nat) → Option Token
  | 0 => none
  | n + 1 => s.visibleBefore? n s.cursor

/-- Move past the current token.  At the end of the input nothing happens. -/
def consume : StreamM σ Unit := do
  start
  let cursor := (← get).cursor
  unless (← tokenAt cursor).isEof do
    let cursor ← nextStop (cursor + 1)
    modify fun s => { s with cursor }

/-- Move to a place, or to the next place after it that the cursor may stand on. -/
def seek (i : Nat) : StreamM σ Unit := do
  start
  let cursor ← nextStop i
  modify fun s => { s with cursor }

/-- The text of the buffered tokens from one place to another, both included, on all channels; the end
of the input has none. -/
def textBetween (s : Stream σ) (first last : Nat) : String :=
  String.join (((s.buffer.toList.take (last + 1)).drop first).filterMap fun t =>
    if t.isEof then none else some t.text)

end Stream

end TreeProjection
