import TreeProjection.Host.Tree

/-! # Finding one's way in a host tree

A `Query` looks at a finished tree with a language's eyes: tokens by type, nodes by rule.  Trivia are left
out of everything that lists elements, except where elements are looked for by their token type.

An element is given as a `Located`, which knows the way to it from the root, counted in children with
trivia.

* `Query.descendants`, `Query.children`, `Query.ancestors` — moving about.
* `Query.findRule`, `Query.findToken` — elements by what they stand for.
* `Query.enclosing?` — the innermost node around a stretch of the source. -/

namespace TreeProjection

/-- An element of a tree, with its place. -/
structure Located where
  /-- The element. -/
  element : GreenTree
  /-- The offset at which it starts. -/
  start : Nat
  /-- The way to it from the root. -/
  path : List Nat
  deriving Repr, Inhabited

namespace Located

/-- The stretch of the source that an element covers. -/
def span (x : Located) : Span := ⟨x.start, x.element.length⟩

/-- The kind of an element. -/
def kind (x : Located) : Kind := x.element.kind

/-- Whether an element is a node. -/
def isNode (x : Located) : Bool := x.element.isNode

/-- Elements side by side, the first of which is the child number `i` of the element at `path`. -/
def sideBySide (path : List Nat) (start i : Nat) : List GreenTree → List Located
  | [] => []
  | t :: rest => ⟨t, start, path ++ [i]⟩ :: sideBySide path (start + t.length) (i + 1) rest

/-- The children of an element, trivia included. -/
def children (x : Located) : List Located := sideBySide x.path x.start 0 x.element.children

/-- Follow a way. -/
def follow? (x : Located) : List Nat → Option Located
  | [] => some x
  | i :: rest => x.children[i]?.bind fun child => child.follow? rest

end Located

namespace GreenTree

mutual

/-- An element and everything below it, each element before what is below it. -/
def preorder (path : List Nat) (start : Nat) : GreenTree → List Located
  | .token t => [⟨.token t, start, path⟩]
  | .node kind children => ⟨.node kind children, start, path⟩ :: preorders path start 0 children

/-- Elements side by side and everything below them. -/
def preorders (path : List Nat) (start i : Nat) : List GreenTree → List Located
  | [] => []
  | t :: rest =>
    preorder (path ++ [i]) start t ++ preorders path (start + length t) (i + 1) rest

end

end GreenTree

/-- An element and everything below it, trivia included. -/
def Located.preorder (x : Located) : List Located := x.element.preorder x.path x.start

/-- A finished tree and the language it is in. -/
structure Query where
  /-- The tree. -/
  tree : HostTree
  /-- The language. -/
  language : Language

namespace Query

/-- The root. -/
def root (q : Query) : Located := ⟨q.tree.green, 0, []⟩

/-- The element at the end of a way. -/
def at? (q : Query) (path : List Nat) : Option Located := q.root.follow? path

/-- Whether an element is a trivia token. -/
def isTrivia (q : Query) (x : Located) : Bool := !x.isNode && q.language.isTrivia x.kind

/-- Whether an element is an error node. -/
def isError (x : Located) : Bool := x.isNode && x.kind == .error

/-- The children of an element, trivia left out. -/
def children (q : Query) (x : Located) : List Located := x.children.filter fun y => !q.isTrivia y

/-- An element and everything below it, trivia left out. -/
def descendants (q : Query) (x : Located) : List Located := x.preorder.filter fun y => !q.isTrivia y

/-- The nodes around an element, innermost first. -/
def ancestors (q : Query) (x : Located) : List Located :=
  (List.range x.path.length).reverse.filterMap fun n => q.at? (x.path.take n)

/-- The token type of an element; nodes and unknown tokens have none. -/
def tokenTypeOf? (q : Query) (x : Located) : Option TokenType :=
  if x.isNode then none else q.language.elements.tokenTypeOf? x.kind

/-- The rule of an element; tokens, error nodes and the node around a file have none. -/
def ruleIndexOf? (q : Query) (x : Located) : Option RuleIndex :=
  if x.isNode then q.language.elements.ruleIndexOf? x.kind else none

/-- All nodes, each before those below it. -/
def nodes (q : Query) : List Located := q.root.preorder.filter Located.isNode

/-- The nodes of a rule. -/
def findRule (q : Query) (r : RuleIndex) : List Located :=
  match q.language.elements.rule? r with
  | some kind => q.nodes.filter fun x => x.kind == kind
  | none => []

/-- The tokens of a type. -/
def findToken (q : Query) (ty : TokenType) : List Located :=
  match q.language.elements.token? ty with
  | some kind => q.root.preorder.filter fun x => !x.isNode && x.kind == kind
  | none => []

/-- The first node of a kind. -/
def findNode? (q : Query) (p : Located → Bool) : Option Located := q.nodes.find? p

/-- From a node down to the innermost node around a span, going into the first child around it each
time. -/
def descend (span : Span) : (fuel : Nat) → Located → Located
  | 0, x => x
  | fuel + 1, x =>
    match x.children.find? fun child => child.isNode && child.span.covers span with
    | some child => descend span fuel child
    | none => x

/-- The innermost node around the stretch between two offsets.  There is none if the offsets are the wrong
way round or if the stretch reaches past the tree. -/
def enclosing? (q : Query) (start stop : Nat) : Option Located :=
  if stop < start then none
  else
    let span := Span.between start stop
    if q.root.span.covers span then some (descend span q.root.preorder.length q.root) else none

/-- The name of an element's kind. -/
def kindName (q : Query) (x : Located) : String := q.language.elementName x.kind

end Query

end TreeProjection
