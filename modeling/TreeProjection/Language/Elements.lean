import TreeProjection.Failure

/-! # Element kinds

The host tree knows its elements by a sixteen-bit `Kind`.  `ElementTypes` lays the kinds out: first
the error element, then the file, then one kind for each token type (the reserved type
`TokenType.invalid` included), then one for each rule.

* `ElementTypes.mk?` — the layout for given numbers of types and rules, refused if it does not fit.
* `ElementTypes.token`, `ElementTypes.rule` — the kind of a symbol that has to have one.
* `ElementTypes.token?`, `ElementTypes.rule?` — the kind of a symbol, if it has one.
* `ElementTypes.element?` — what a kind stands for. -/

namespace TreeProjection

/-- The raw kind of a host element. -/
abbrev Kind := UInt16

/-- The kind of error elements. -/
def Kind.error : Kind := 0

/-- The kind of the element around a whole file. -/
def Kind.file : Kind := 1

/-- What a kind stands for. -/
inductive ElementType where
  /-- The error element. -/
  | error
  /-- The element around a whole file. -/
  | file
  /-- A token of this type. -/
  | token (ty : TokenType)
  /-- A node of this rule. -/
  | rule (r : RuleIndex)
  deriving DecidableEq, Repr

/-- The layout of kinds for a number of token types and a number of rules. -/
structure ElementTypes where
  /-- The number of token types. -/
  tokenCount : UInt16
  /-- The number of rules. -/
  ruleCount : UInt16
  deriving DecidableEq, Repr, Inhabited

namespace ElementTypes

/-- The first kind that stands for a token type. -/
def tokensStart : Kind := 2

/-- The layout for `tokens` types and `rules` rules.  All kinds together have to stay below the
largest sixteen-bit number. -/
def mk? (tokens rules : Nat) : Except Violation ElementTypes :=
  let total := tokensStart.toNat + tokens + rules
  if total < 0xFFFF then .ok ⟨UInt16.ofNat tokens, UInt16.ofNat rules⟩
  else .error (.tooManySymbols total)

/-- The first kind that stands for a rule. -/
def rulesStart (e : ElementTypes) : Kind := tokensStart + e.tokenCount

/-- The number of kinds. -/
def size (e : ElementTypes) : Nat := tokensStart.toNat + e.tokenCount.toNat + e.ruleCount.toNat

/-- The kind of a token type, if it has one.  The end of the input has none. -/
def token? (e : ElementTypes) (ty : TokenType) : Option Kind :=
  if !ty.isEof && ty.code < e.tokenCount then some (tokensStart + ty.code) else none

/-- The kind of a rule, if it has one. -/
def rule? (e : ElementTypes) (r : RuleIndex) : Option Kind :=
  if r.code < e.ruleCount then some (e.rulesStart + r.code) else none

/-- The contract of asking for the kind of a token type: it is not the end of the input, and it is one of the layout. -/
def ensureToken (e : ElementTypes) (ty : TokenType) : Except Violation Unit :=
  if !ty.isEof && decide (ty.code.toNat < e.tokenCount.toNat) then .ok ()
  else .error (.noElement ty e.tokenCount.toNat)

/-- The contract of asking for the kind of a rule: it is one of the layout. -/
def ensureRule (e : ElementTypes) (r : RuleIndex) : Except Violation Unit :=
  if r.toNat < e.ruleCount.toNat then .ok () else .error (.ruleOutOfRange r e.ruleCount.toNat)

/-- The kind of a token type that has one. -/
def token (e : ElementTypes) (ty : TokenType) : Except Violation Kind := do
  e.ensureToken ty
  return tokensStart + ty.code

/-- The kind of a rule that has one. -/
def rule (e : ElementTypes) (r : RuleIndex) : Except Violation Kind := do
  e.ensureRule r
  return e.rulesStart + r.code

/-- What a kind stands for. -/
def element? (e : ElementTypes) (kind : Kind) : Option ElementType :=
  if kind = .error then some .error
  else if kind = .file then some .file
  else if kind < e.rulesStart then some (.token ⟨kind - tokensStart⟩)
  else if kind < e.rulesStart + e.ruleCount then some (.rule ⟨kind - e.rulesStart⟩)
  else none

/-- The token type that a kind stands for. -/
def tokenTypeOf? (e : ElementTypes) (kind : Kind) : Option TokenType :=
  match e.element? kind with
  | some (.token ty) => some ty
  | _ => none

/-- The rule that a kind stands for. -/
def ruleIndexOf? (e : ElementTypes) (kind : Kind) : Option RuleIndex :=
  match e.element? kind with
  | some (.rule r) => some r
  | _ => none

end ElementTypes

end TreeProjection
