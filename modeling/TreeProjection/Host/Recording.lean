import TreeProjection.Host.Builder

/-! # The recording builder

A `TreeBuilder` that keeps the calls made of it instead of building a tree, for looking at a projection
step by step.  Regions are numbered in the order in which they are opened.  A region that was rolled back
keeps its number to itself, and its calls are struck from the record. -/

namespace TreeProjection

namespace RecordingBuilder

/-- A call. -/
inductive Call where
  /-- A region was opened. -/
  | mark (marker : Nat)
  /-- A token was passed. -/
  | advance (text : String)
  /-- A region was closed as a node. -/
  | done (marker : Nat) (kind : Kind)
  /-- A region was closed as an error element. -/
  | error (marker : Nat) (message : String)
  deriving DecidableEq, Repr, Inhabited

/-- An open region. -/
structure Region where
  /-- Its number. -/
  marker : Nat
  /-- How many tokens had been passed when it was opened. -/
  position : Nat
  /-- How many calls the record held before it was opened. -/
  recorded : Nat
  deriving DecidableEq, Repr, Inhabited

end RecordingBuilder

/-- A builder that keeps the calls made of it. -/
structure RecordingBuilder where
  /-- The reader. -/
  cursor : HostCursor
  /-- The record. -/
  calls : Array RecordingBuilder.Call := #[]
  /-- The open regions, innermost first. -/
  openRegions : List RecordingBuilder.Region := []
  /-- The number of the next region. -/
  nextMarker : Nat := 0
  deriving DecidableEq, Repr, Inhabited

/-- What a recording builder hands over. -/
structure Recording where
  /-- The calls. -/
  calls : List RecordingBuilder.Call
  /-- How many tokens had been passed at the end. -/
  position : Nat
  deriving DecidableEq, Repr, Inhabited

namespace RecordingBuilder

/-- The builder over a source, for a language that tells what is trivia. -/
def ofText (h : HostText) (l : Language) : RecordingBuilder := { cursor := .ofText h l }

/-- Pass the current token. -/
def advance (b : RecordingBuilder) : RecordingBuilder :=
  match b.cursor.current? with
  | some t => { b with calls := b.calls.push (.advance t.text), cursor := b.cursor.next }
  | none => b

/-- Open a region. -/
def mark (b : RecordingBuilder) : Nat × RecordingBuilder :=
  let marker := b.nextMarker
  (marker, { b with calls := b.calls.push (.mark marker), nextMarker := marker + 1
                    openRegions := ⟨marker, b.cursor.position, b.calls.size⟩ :: b.openRegions })

/-- Close the innermost region, which has to be the given one. -/
def close (b : RecordingBuilder) (marker : Nat) (call : Call) :
    Except Violation RecordingBuilder :=
  match b.openRegions with
  | r :: rest =>
    if r.marker = marker then .ok { b with calls := b.calls.push call, openRegions := rest }
    else .error (.closedOutOfOrder marker (some r.marker))
  | [] => .error (.closedOutOfOrder marker none)

/-- Drop a region and everything after its mark. -/
def rollback (b : RecordingBuilder) (marker : Nat) : Except Violation RecordingBuilder :=
  match b.openRegions.dropWhile (·.marker != marker) with
  | r :: rest =>
    .ok { b with calls := b.calls.take r.recorded, openRegions := rest
                 cursor := { b.cursor with position := r.position } }
  | [] => .error (.rollbackNotOpen marker)

/-- Hand over the record. -/
def finish (b : RecordingBuilder) : Except Violation Recording :=
  if b.openRegions.isEmpty then .ok ⟨b.calls.toList, b.cursor.position⟩
  else .error (.finishedWithOpen b.openRegions.length)

instance : TreeBuilder RecordingBuilder Recording where
  kind? b := b.cursor.kind?
  text b := b.cursor.text
  offset b := b.cursor.offset
  atEnd b := b.cursor.atEnd
  remaining b := b.cursor.remaining
  advance := advance
  mark := mark
  done b marker kind := b.close marker (.done marker kind)
  error b marker message := b.close marker (.error marker message)
  rollback := rollback
  finish := finish

end RecordingBuilder

end TreeProjection
