import TreeProjection.Host.Builder
import TreeProjection.Host.Tree

/-! # The green builder

A `TreeBuilder` that records what it is told and builds the tree at the end.  Trivia tokens are hidden
from the reader.  When the tree is built, trivia before a node stay outside of it, and the root takes in
whatever is left, so that the tree covers the whole source.

* `GreenBuilder.Event` — an entry of the record; a region is known by the place of its opening entry.
* `GreenBuilder.Assembly` — the tree under construction, one entry at a time. -/

namespace TreeProjection

namespace GreenBuilder

/-- How a region was closed. -/
inductive Closing where
  /-- As a node. -/
  | node (kind : Kind)
  /-- As an error element. -/
  | error (message : String)
  deriving DecidableEq, Repr, Inhabited

/-- An entry of a builder's record. -/
inductive Event where
  /-- A region was opened with this many tokens passed, and perhaps it has been closed since. -/
  | opened (position : Nat) (closing : Option Closing)
  /-- The token at this place was passed. -/
  | token (place : Nat)
  /-- The innermost region was closed. -/
  | closed
  deriving DecidableEq, Repr, Inhabited

end GreenBuilder

/-- A builder that records what it is told. -/
structure GreenBuilder where
  /-- All tokens, trivia included. -/
  tokens : Array HostToken
  /-- The reader. -/
  cursor : HostCursor
  /-- The record. -/
  events : Array GreenBuilder.Event := #[]
  /-- The open regions, innermost first. -/
  openMarkers : List Nat := []
  deriving DecidableEq, Repr, Inhabited

namespace GreenBuilder

/-- The builder over a source, for a language that tells what is trivia. -/
def ofText (h : HostText) (l : Language) : GreenBuilder :=
  { tokens := h.tokens.toArray, cursor := .ofText h l }

/-- How many tokens have been passed. -/
def position (b : GreenBuilder) : Nat := b.cursor.position

/-- How many tokens there are, trivia aside. -/
def significantCount (b : GreenBuilder) : Nat := b.cursor.tokens.size

/-- Pass the current token. -/
def advance (b : GreenBuilder) : GreenBuilder :=
  match b.cursor.current? with
  | some t => { b with events := b.events.push (.token t.place), cursor := b.cursor.next }
  | none => b

/-- Open a region. -/
def mark (b : GreenBuilder) : Nat × GreenBuilder :=
  let marker := b.events.size
  (marker, { b with events := b.events.push (.opened b.position none)
                    openMarkers := marker :: b.openMarkers })

/-- Enter into the record how a region was closed. -/
def recordClosing (events : Array Event) (marker : Nat) (closing : Closing) : Array Event :=
  events.modify marker fun
    | .opened position _ => .opened position (some closing)
    | e => e

/-- Close the innermost region, which has to be the given one. -/
def close (b : GreenBuilder) (marker : Nat) (closing : Closing) : Except Violation GreenBuilder :=
  match b.openMarkers with
  | m :: rest =>
    if m = marker then
      .ok { b with events := (recordClosing b.events marker closing).push .closed
                   openMarkers := rest }
    else .error (.closedOutOfOrder marker (some m))
  | [] => .error (.closedOutOfOrder marker none)

/-- Drop a region and everything after its mark. -/
def rollback (b : GreenBuilder) (marker : Nat) : Except Violation GreenBuilder :=
  if b.openMarkers.contains marker then
    match b.events[marker]? with
    | some (.opened position _) =>
      .ok { b with events := b.events.take marker
                   openMarkers := (b.openMarkers.dropWhile (· != marker)).tail
                   cursor := { b.cursor with position } }
    | _ => .error (.rollbackNotOpen marker)
  else .error (.rollbackNotOpen marker)

/-- The place of the token at a position of the reader; after the last one, the number of tokens. -/
def placeAt (b : GreenBuilder) (position : Nat) : Nat :=
  (b.cursor.tokens[position]?.map PlacedToken.place).getD b.tokens.size

/-! ## Building the tree -/

/-- A tree under construction. -/
structure Assembly where
  /-- The nodes begun, innermost first: kind, and children so far with the last one first. -/
  nodes : List (Kind × List GreenTree) := []
  /-- The elements outside of any node, with the last one first. -/
  outside : List GreenTree := []
  /-- How many tokens have been put in. -/
  emitted : Nat := 0
  /-- The messages of the error elements begun, with the last one first. -/
  messages : List String := []

namespace Assembly

/-- Put an element at the end of the innermost node. -/
def add (a : Assembly) (t : GreenTree) : Assembly :=
  match a.nodes with
  | (kind, children) :: rest => { a with nodes := (kind, t :: children) :: rest }
  | [] => { a with outside := t :: a.outside }

/-- Put in the tokens up to a place, if they are not in yet. -/
def emitUntil (tokens : Array HostToken) (a : Assembly) (place : Nat) : Assembly :=
  let a' := (tokens.extract a.emitted place).foldl (fun a t => a.add (.token t)) a
  { a' with emitted := max a.emitted place }

/-- Begin a node. -/
def begin (a : Assembly) (kind : Kind) : Assembly := { a with nodes := (kind, []) :: a.nodes }

/-- End the innermost node. -/
def finishNode (a : Assembly) : Except Violation Assembly :=
  match a.nodes with
  | (kind, children) :: rest => .ok (add { a with nodes := rest } (.node kind children.reverse))
  | [] => .error .closedNothing

end Assembly

/-- Carry out one entry of the record. -/
def assemble (b : GreenBuilder) (a : Assembly) : Event → Except Violation Assembly
  | .opened position closing =>
    let a := if a.nodes.isEmpty then a else a.emitUntil b.tokens (b.placeAt position)
    match closing with
    | some (.node kind) => .ok (a.begin kind)
    | some (.error message) => .ok { a.begin .error with messages := message :: a.messages }
    | none => .error .unclosedRegion
  | .token place => .ok (a.emitUntil b.tokens (place + 1))
  | .closed =>
    let a := if a.nodes.length = 1 then a.emitUntil b.tokens b.tokens.size else a
    a.finishNode

/-- Build the tree.  The record has to be a single region without anything around it. -/
def finish (b : GreenBuilder) : Except Violation HostTree := do
  unless b.openMarkers.isEmpty do throw (.finishedWithOpen b.openMarkers.length)
  let a ← b.events.foldlM b.assemble {}
  match a.outside with
  | [.node kind children] =>
    let green := GreenTree.node kind children
    let errors := (green.errorSpans 0).zip a.messages.reverse
    return { green, errors := errors.map fun e => ⟨e.1, e.2⟩ }
  | _ => throw .notOneRoot

instance : TreeBuilder GreenBuilder HostTree where
  kind? b := b.cursor.kind?
  text b := b.cursor.text
  offset b := b.cursor.offset
  atEnd b := b.cursor.atEnd
  remaining b := b.cursor.remaining
  advance := advance
  mark := mark
  done b marker kind := b.close marker (.node kind)
  error b marker message := b.close marker (.error message)
  rollback := rollback
  finish := finish

end GreenBuilder

end TreeProjection
