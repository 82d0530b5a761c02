/-! # Text that can be shown

What is shown on a terminal must keep to its line: controls are replaced by their pictures, a tab by
blanks, the controls that turn the writing direction by the sign for a lost character, and joiners are
left out.  Line feeds stay, for whoever shows the text splits it into lines.

* `Text.visible` — a text with these replacements.
* `Text.isBlank` — the characters that leave a line blank.
* `Text.trim` — a text without the blanks around it. -/

namespace TreeProjection.Text

/-- What is shown for a character. -/
def visibleChar (c : Char) : List Char :=
  let code := c.toNat
  if c = '\n' then [c]
  else if c = '\t' then [' ', ' ', ' ', ' ']
  else if code < 0x20 then [Char.ofNat (0x2400 + code)]
  else if code = 0x7f then [Char.ofNat 0x2421]
  else if code = 0x200d then []
  else if 0x202a ≤ code ∧ code ≤ 0x202e ∨ 0x2066 ≤ code ∧ code ≤ 0x2069 then [Char.ofNat 0xfffd]
  else [c]

/-- What is shown for several characters. -/
def visibleChars (cs : List Char) : List Char := cs.flatMap visibleChar

/-- What is shown for a text. -/
def visible (s : String) : String := String.ofList (visibleChars s.toList)

/-- Whether a character is a blank: the separators and the controls that move the place of writing. -/
def isBlank (c : Char) : Bool :=
  let code := c.toNat
  (0x9 ≤ code && code ≤ 0xd) || code == 0x20 || code == 0x85 || code == 0xa0 || code == 0x1680 ||
    (0x2000 ≤ code && code ≤ 0x200a) || code == 0x2028 || code == 0x2029 || code == 0x202f ||
    code == 0x205f || code == 0x3000

/-- A text without the blanks around it. -/
def trim (cs : List Char) : List Char :=
  ((cs.dropWhile isBlank).reverse.dropWhile isBlank).reverse

end TreeProjection.Text
