/-! # Terminal palettes

The escape codes that colour output, and the palette without any.  Rule names are blue, token text is
green, errors are red, offsets and other side remarks are dim. -/

namespace TreeProjection

/-- Escape codes by what they are used for. -/
structure Palette where
  /-- Rule names. -/
  blue : String
  /-- Token text. -/
  green : String
  /-- Errors. -/
  red : String
  /-- Side remarks. -/
  dim : String
  /-- Back to plain text. -/
  reset : String
  deriving DecidableEq, Repr

namespace Palette

/-- The palette of a colour terminal. -/
def coloured : Palette := ⟨"\x1b[34m", "\x1b[32m", "\x1b[31m", "\x1b[2m", "\x1b[0m"⟩

/-- The palette of plain text. -/
def plain : Palette := ⟨"", "", "", "", ""⟩

instance : Inhabited Palette := ⟨plain⟩

/-- The palette with or without colour. -/
def ofBool (colour : Bool) : Palette := if colour then coloured else plain

/-- Whether a palette colours. -/
def isColoured (p : Palette) : Bool := !p.blue.isEmpty

end Palette

end TreeProjection
