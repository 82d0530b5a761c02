/-! # Spans of a source text

A stretch of a source, in bytes of its encoding.  A span is given by its start and its length, so that
its end never lies before its start. -/

namespace TreeProjection

/-- A stretch of a source text. -/
structure Span where
  /-- The offset of its first byte. -/
  start : Nat
  /-- The number of its bytes. -/
  length : Nat
  deriving DecidableEq, Repr, Inhabited

namespace Span

/-- The offset just after its last byte. -/
def stop (s : Span) : Nat := s.start + s.length

/-- The span between two offsets; it is empty if the second comes first. -/
def between (start stop : Nat) : Span := ⟨start, stop - start⟩

/-- The empty span at an offset. -/
def emptyAt (offset : Nat) : Span := ⟨offset, 0⟩

/-- Whether a span has no bytes. -/
def isEmpty (s : Span) : Bool := s.length == 0

/-- Whether another span lies inside, ends included. -/
def covers (s t : Span) : Bool := s.start ≤ t.start && t.stop ≤ s.stop

/-- The text of a source in a span. -/
def slice (s : Span) (source : String) : String := String.Pos.Raw.extract source ⟨s.start⟩ ⟨s.stop⟩

theorem start_le_stop (s : Span) : s.start ≤ s.stop := Nat.le_add_right _ _

@[simp] theorem between_start_stop (s : Span) : between s.start s.stop = s := by
  simp [between, stop]

@[simp] theorem covers_self (s : Span) : s.covers s = true := by simp [covers]

end Span

end TreeProjection
