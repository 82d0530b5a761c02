import TreeProjection.Host.Token

/-! # Host trees

The tree that a host ends up with: nodes and tokens, each with its kind.  Texts stand in the tokens only;
the place of an element follows from the tokens before it.

* `GreenTree.text`, `GreenTree.length` — what a tree covers.
* `GreenTree.tokens` — its tokens in order.
* `HostTree` — a tree with the messages of its error elements. -/

namespace TreeProjection

/-- An element of a host tree. -/
inductive GreenTree where
  /-- A token. -/
  | token (t : HostToken)
  /-- A node over further elements. -/
  | node (kind : Kind) (children : List GreenTree)
  deriving Repr

namespace GreenTree

instance : Inhabited GreenTree := ⟨.node .file []⟩

/-- The kind of an element. -/
def kind : GreenTree → Kind
  | token t => t.kind
  | node kind _ => kind

/-- Whether an element is a node. -/
def isNode : GreenTree → Bool
  | token _ => false
  | node .. => true

/-- The children of an element; a token has none. -/
def children : GreenTree → List GreenTree
  | token _ => []
  | node _ children => children

mutual

/-- The length of an element's text in bytes. -/
def length : GreenTree → Nat
  | token t => t.text.utf8ByteSize
  | node _ children => lengths children

/-- The length of the texts of several elements. -/
def lengths : List GreenTree → Nat
  | [] => 0
  | t :: rest => length t + lengths rest

end

mutual

/-- The tokens of an element in order. -/
def tokens : GreenTree → List HostToken
  | token t => [t]
  | node _ children => tokensOf children

/-- The tokens of several elements in order. -/
def tokensOf : List GreenTree → List HostToken
  | [] => []
  | t :: rest => tokens t ++ tokensOf rest

end

@[simp] theorem lengths_append (ts us : List GreenTree) :
    lengths (ts ++ us) = lengths ts + lengths us := by
  induction ts with
  | nil => simp [lengths]
  | cons t ts ih => simp [lengths, ih, Nat.add_assoc]

@[simp] theorem tokensOf_append (ts us : List GreenTree) :
    tokensOf (ts ++ us) = tokensOf ts ++ tokensOf us := by
  induction ts with
  | nil => simp [tokensOf]
  | cons t ts ih => simp [tokensOf, ih]

/-- The text of an element. -/
def text (t : GreenTree) : String := String.join (t.tokens.map HostToken.text)

mutual

/-- The spans of the error elements in an element that starts at an offset, each before those inside
it. -/
def errorSpans (start : Nat) : GreenTree → List Span
  | token _ => []
  | node kind children =>
    let inside := errorSpansOf start children
    if kind = .error then ⟨start, lengths children⟩ :: inside else inside

/-- The spans of the error elements in several elements, the first of which starts at an offset. -/
def errorSpansOf (start : Nat) : List GreenTree → List Span
  | [] => []
  | t :: rest => errorSpans start t ++ errorSpansOf (start + length t) rest

end

end GreenTree

/-- An error element of a finished tree. -/
structure ErrorElement where
  /-- The stretch of the source that it covers. -/
  span : Span
  /-- Its message. -/
  message : String
  deriving DecidableEq, Repr, Inhabited

/-- A finished tree. -/
structure HostTree where
  /-- The tree. -/
  green : GreenTree
  /-- Its error elements, each before those inside it. -/
  errors : List ErrorElement
  deriving Repr, Inhabited

/-- Whether a tree has error elements. -/
def HostTree.hasErrors (t : HostTree) : Bool := !t.errors.isEmpty

end TreeProjection
