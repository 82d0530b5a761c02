/-! # Grammar symbols

Tokens and rules of a grammar are known by number.  A `TokenType` is a sixteen-bit number whose two
ends are reserved: `0` stands for text that no token type covers, and the largest number for the end
of the input.  A `RuleIndex` is the place of a rule in its grammar's list of rules.

* `TokenType.invalid`, `TokenType.eof` — the two reserved types.
* `TokenType.debug` — the text of a token type in debug output. -/

namespace TreeProjection

/-- The type of a token: its number in the grammar's vocabulary. -/
structure TokenType where
  /-- The number itself. -/
  code : UInt16
  deriving DecidableEq, Repr, Inhabited

namespace TokenType

/-- The type of text that no token type covers. -/
def invalid : TokenType := ⟨0⟩

/-- The type of the end of the input. -/
def eof : TokenType := ⟨0xFFFF⟩

/-- Whether a type is the end of the input. -/
def isEof (ty : TokenType) : Bool := ty == eof

/-- Whether a type is the reserved type `invalid`. -/
def isInvalid (ty : TokenType) : Bool := ty == invalid

@[simp] theorem isEof_iff {ty : TokenType} : ty.isEof = true ↔ ty = eof := by simp [isEof]

@[simp] theorem isInvalid_iff {ty : TokenType} : ty.isInvalid = true ↔ ty = invalid := by
  simp [isInvalid]

/-- The debug text of a type: its number, with the two reserved types by name. -/
def debug (ty : TokenType) : String :=
  if ty.isEof then "TokenType(EOF)"
  else if ty.isInvalid then "TokenType(INVALID)"
  else s!"TokenType({ty.code.toNat})"

end TokenType

/-- The place of a rule in its grammar's list of rules. -/
structure RuleIndex where
  /-- The place itself, counted from zero. -/
  code : UInt16
  deriving DecidableEq, Repr, Inhabited

/-- The place of a rule as a natural number. -/
def RuleIndex.toNat (r : RuleIndex) : Nat := r.code.toNat

end TreeProjection
