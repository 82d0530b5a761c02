import TreeProjection.Text.NonPrinting

/-! # Quoted text

Dumps show text between double quotes, so that every character can be told apart: the quote and the
backslash are escaped, the common controls have a letter, and characters without a picture of their own
are spelled by number.

Messages quote differently: between single quotes, with only line breaks and tabs escaped.

* `Text.quoted` — the form in dumps.
* `Text.shown` — the form in messages. -/

namespace TreeProjection.Text

/-- The letter after the backslash, for characters that have one. -/
def escapeLetter? : Char → Option Char
  | '\x00' => some '0'
  | '\t' => some 't'
  | '\r' => some 'r'
  | '\n' => some 'n'
  | '\\' => some '\\'
  | '"' => some '"'
  | _ => none

/-- The characters that stand for a number in lower-case hexadecimal digits. -/
def hexDigits (n : Nat) : List Char := Nat.toDigits 16 n

/-- The characters that stand for a character between double quotes. -/
def escapeChar (c : Char) : List Char :=
  match escapeLetter? c with
  | some letter => ['\\', letter]
  | none =>
    if isNonPrinting c then ['\\', 'u', '\x7b'] ++ hexDigits c.toNat ++ ['\x7d'] else [c]

/-- A text between double quotes. -/
def quoted (s : String) : String := String.ofList ('"' :: s.toList.flatMap escapeChar ++ ['"'])

/-- The characters that stand for a blank other than the plain one. -/
def escapeBlank : Char → List Char
  | '\n' => ['\\', 'n']
  | '\r' => ['\\', 'r']
  | '\t' => ['\\', 't']
  | c => [c]

/-- A text with line breaks and tabs escaped. -/
def escapeBlanks (s : String) : String := String.ofList (s.toList.flatMap escapeBlank)

/-- A text between single quotes, with line breaks and tabs escaped. -/
def shown (s : String) : String := "'" ++ escapeBlanks s ++ "'"

end TreeProjection.Text
