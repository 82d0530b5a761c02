import TreeProjection.Host.Token
import TreeProjection.Sample.Language

/-! # Cutting sample sources into tokens

At each place the longest token is taken.  Where no token begins, the longest text that could have begun
one is skipped, and at least one character; neighbouring skipped texts make one garbage token.

* `Sample.Piece` — a token, or a skipped text.
* `Sample.pieces` — the pieces of a text; together they are the text.
* `Sample.scan` — the pieces of a source with their places.
* `Sample.gather` — the tokens for them, with skipped texts put together.
* `Sample.lex`, `Sample.cut` — the tokens of a source by their places, and with their texts. -/

namespace TreeProjection.Sample

/-- Whether a name may begin with a character. -/
def isNameStart (c : Char) : Bool := c.isAlpha || c == '_'

/-- Whether a name may go on with a character. -/
def isNameRest (c : Char) : Bool := c.isAlphanum || c == '_'

/-- Whether a character is blank. -/
def isBlank (c : Char) : Bool := c == ' ' || c == '\t' || c == '\r' || c == '\n'

/-- The type of a single-character token. -/
def punctuation? : Char → Option TokenType
  | '(' => some lparen
  | ')' => some rparen
  | '\x7b' => some lbrace
  | '\x7d' => some rbrace
  | ',' => some comma
  | ';' => some semi
  | '=' => some assign
  | '+' => some plus
  | '-' => some minus
  | '*' => some star
  | '/' => some slash
  | _ => none

/-- The type of a name: a keyword's own type, or that of names. -/
def nameType (name : List Char) : TokenType :=
  if name = ['f', 'u', 'n', 'c'] then func
  else if name = ['v', 'a', 'r'] then var
  else if name = ['r', 'e', 't', 'u', 'r', 'n'] then ret
  else ident

/-- How far a text goes on after its opening quote, and whether it is closed there.  A backslash takes
the next character with it, except a line feed, which ends an attempt without a closing quote. -/
def stringTail : List Char → Nat × Bool
  | [] => (0, false)
  | '"' :: _ => (1, true)
  | ['\\'] => (1, false)
  | '\\' :: c :: rest =>
    if c = '\n' then (1, false)
    else
      let (n, closed) := stringTail rest
      (n + 2, closed)
  | _ :: rest =>
    let (n, closed) := stringTail rest
    (n + 1, closed)

/-- How many characters the piece that begins with `c` has after `c`, and its type unless it is
skipped text. -/
def measure (c : Char) (rest : List Char) : Nat × Option TokenType :=
  if isNameStart c then
    let tail := rest.takeWhile isNameRest
    (tail.length, some (nameType (c :: tail)))
  else if c.isDigit then ((rest.takeWhile Char.isDigit).length, some int)
  else if isBlank c then ((rest.takeWhile isBlank).length, some blank)
  else if c == '"' then
    let (n, closed) := stringTail rest
    (n, if closed then some string else none)
  else if c == '/' && rest.head? == some '/' then
    ((rest.takeWhile (· != '\n')).length, some comment)
  else (0, punctuation? c)

/-- A token, or a text where none begins. -/
structure Piece where
  /-- The type; skipped text has none. -/
  ty? : Option TokenType
  /-- The characters. -/
  chars : List Char
  deriving DecidableEq, Repr, Inhabited

/-- The pieces of a text. -/
def pieces : List Char → List Piece
  | [] => []
  | c :: rest =>
    let (n, ty?) := measure c rest
    ⟨ty?, c :: rest.take n⟩ :: pieces (rest.drop n)
termination_by cs => cs.length
decreasing_by simp only [List.length_drop, List.length_cons]; omega

/-- Nothing is lost: the pieces of a text are the text. -/
theorem flatMap_chars_pieces (cs : List Char) : (pieces cs).flatMap Piece.chars = cs := by
  fun_induction pieces cs with
  | case1 => rfl
  | case2 c rest n ty? _ ih => simp [ih]

/-- What the scan of a source comes upon: a stretch with the type of the token there, or without one where
none begins. -/
structure Finding where
  /-- The type; skipped text has none. -/
  ty? : Option TokenType
  /-- The stretch. -/
  span : Span
  deriving DecidableEq, Repr, Inhabited

/-- Pieces with their places, where the first starts at an offset. -/
def findingsFrom (start : Nat) : List Piece → List Finding
  | [] => []
  | p :: rest =>
    let span : Span := ⟨start, (String.ofList p.chars).utf8ByteSize⟩
    ⟨p.ty?, span⟩ :: findingsFrom span.stop rest

/-- What the scan of a source comes upon, in order. -/
def scan (source : String) : List Finding := findingsFrom 0 (pieces source.toList)

/-- A token by its place in the source. -/
structure RangedToken where
  /-- The kind. -/
  kind : Kind
  /-- The stretch that it covers. -/
  span : Span
  deriving DecidableEq, Repr, Inhabited

/-- The kind of tokens of a type. -/
def kindOf (ty : TokenType) : Kind := (language.elements.token? ty).getD .error

/-- The token of skipped text up to an offset, if any was skipped; it is of the kind of error elements. -/
def garbage (skippedFrom? : Option Nat) (stop : Nat) : List RangedToken :=
  (skippedFrom?.map fun start => ⟨.error, .between start stop⟩).toList

/-- The tokens for what a scan comes upon, in a source of `size` bytes.  While text is skipped, `skippedFrom?`
is where the first of it starts, and one token for all of it comes before the next other token, or at the end
of the source. -/
def gather (size : Nat) (skippedFrom? : Option Nat) : List Finding → List RangedToken
  | [] => garbage skippedFrom? size
  | ⟨none, span⟩ :: rest => gather size (skippedFrom?.or (some span.start)) rest
  | ⟨some ty, span⟩ :: rest =>
    garbage skippedFrom? span.start ++ ⟨kindOf ty, span⟩ :: gather size none rest

/-- The tokens of a source by their places. -/
def lex (source : String) : List RangedToken := gather source.utf8ByteSize none (scan source)

/-- A token with its text, taken from the source. -/
def RangedToken.cut (source : String) (t : RangedToken) : HostToken := ⟨t.kind, t.span.slice source⟩

/-- A source cut into host tokens. -/
def cut (source : String) : HostText := { tokens := (lex source).map (RangedToken.cut source) }

end TreeProjection.Sample
