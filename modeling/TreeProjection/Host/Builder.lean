import TreeProjection.Host.Token

/-! # Tree builders

A host builds its tree from marks: `mark` opens a region at the current token, `done` and `error` close
the innermost open region, and `rollback` drops a region with everything that came after it and takes the
reader back to where the region was opened.  Regions are known by number.

`TreeBuilder` is what projection needs of a host; `Supervised` is a builder together with a cancellation
flag, which one of the builder's own calls may set.  Calls that only look at the current token are not
counted: the flag is not looked at between them and the passing of that token, so only the look that finds
no token left can set it at a moment of its own. -/

namespace TreeProjection

/-- A host that builds a tree of type `τ` from marks. -/
class TreeBuilder (β : Type) (τ : outParam Type) where
  /-- The kind of the current token. -/
  kind? : β → Option Kind
  /-- The text of the current token. -/
  text : β → String
  /-- The offset of the current token. -/
  offset : β → Nat
  /-- Whether all tokens have been passed. -/
  atEnd : β → Bool
  /-- How many tokens are still to come. -/
  remaining : β → Nat
  /-- Pass the current token.  At the end nothing is passed. -/
  advance : β → β
  /-- Open a region at the current token. -/
  mark : β → Nat × β
  /-- Close the innermost region as a node. -/
  done : β → Nat → Kind → Except Violation β
  /-- Close the innermost region as an error element. -/
  error : β → Nat → String → Except Violation β
  /-- Drop a region and everything after its mark. -/
  rollback : β → Nat → Except Violation β
  /-- Hand over the tree. -/
  finish : β → Except Violation τ

/-- A builder with a cancellation flag. -/
structure Supervised (β : Type) where
  /-- The builder. -/
  builder : β
  /-- The kinds by which host tokens are told apart. -/
  elements : ElementTypes
  /-- The cancellation flag. -/
  cancelled : Bool := false
  /-- How many calls have been made that pass a token, open a region or close one. -/
  calls : Nat := 0
  /-- The number of the call that sets the flag once it has acted, if there is one. -/
  cancelAt : Option Nat := none
  /-- Whether the flag is set when the reader finds that no token is left. -/
  cancelAtEnd : Bool := false

namespace Supervised

variable {β τ : Type} [TreeBuilder β τ]

/-- Take note of a call that has acted. -/
@[inline] def counted (s : Supervised β) (builder : β) : Supervised β :=
  let calls := s.calls + 1
  { s with builder, calls, cancelled := s.cancelled || s.cancelAt == some calls }

/-- Take note of a look that has found no token left. -/
def exhausted (s : Supervised β) : Supervised β :=
  { s with cancelled := s.cancelled || s.cancelAtEnd }

/-- Pass the current token. -/
def advance (s : Supervised β) : Supervised β := s.counted (TreeBuilder.advance s.builder)

/-- Open a region. -/
def mark (s : Supervised β) : Nat × Supervised β :=
  let (marker, builder) := TreeBuilder.mark s.builder
  (marker, s.counted builder)

/-- Close a region as a node. -/
def done (s : Supervised β) (marker : Nat) (kind : Kind) : Except Violation (Supervised β) := do
  return s.counted (← TreeBuilder.done s.builder marker kind)

/-- Close a region as an error element. -/
def error (s : Supervised β) (marker : Nat) (message : String) :
    Except Violation (Supervised β) := do
  return s.counted (← TreeBuilder.error s.builder marker message)

/-- Drop a region.  This call is not counted. -/
def rollback (s : Supervised β) (marker : Nat) : Except Violation (Supervised β) := do
  return { s with builder := ← TreeBuilder.rollback s.builder marker }

end Supervised

end TreeProjection
