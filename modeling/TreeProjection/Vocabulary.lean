import TreeProjection.TokenSet

/-! # Vocabularies

The names of a grammar's token types.  A type may have a **literal** name (`'func'`, with its quotes)
and a **symbolic** one (`FUNC`).  Messages prefer the literal name, dumps the symbolic one.

* `Vocabulary.displayName`, `Vocabulary.displaySet` — the texts shown in messages.
* `Vocabulary.tokenType?` — the type that a name stands for. -/

namespace TreeProjection

/-- The names of one token type. -/
structure TokenNames where
  /-- The literal name, quotes included. -/
  literal : Option String := none
  /-- The symbolic name. -/
  symbolic : Option String := none
  deriving DecidableEq, Repr, Inhabited

/-- The names of a grammar's token types, in order. -/
structure Vocabulary where
  /-- The names of the types from `1` on. -/
  named : Array TokenNames
  deriving DecidableEq, Repr, Inhabited

namespace Vocabulary

/-- The vocabulary with two lists of names, the shorter filled up.  The first name of each list is
disregarded: it stands at the place of the reserved type `TokenType.invalid`. -/
def ofNames (literal symbolic : List (Option String)) : Vocabulary :=
  let count := max literal.length symbolic.length
  ⟨((List.range' 1 (count - 1)).map fun n =>
    { literal := literal[n]?.join, symbolic := symbolic[n]?.join }).toArray⟩

/-- The names of the reserved type `TokenType.invalid`. -/
def invalidNames : TokenNames := { symbolic := some "<INVALID>" }

/-- The number of types, the reserved type `TokenType.invalid` included. -/
def size (v : Vocabulary) : Nat := v.named.size + 1

/-- Whether no type is named. -/
def isEmpty (v : Vocabulary) : Bool := v.named.isEmpty

/-- The named types. -/
def types (v : Vocabulary) : List TokenType :=
  (List.range' 1 v.named.size).map fun n => ⟨UInt16.ofNat n⟩

/-- The names of a type, if the vocabulary has it. -/
def names? (v : Vocabulary) (ty : TokenType) : Option TokenNames :=
  match ty.code.toNat with
  | 0 => some invalidNames
  | n + 1 => v.named[n]?

/-- The literal name of a type. -/
def literalName? (v : Vocabulary) (ty : TokenType) : Option String :=
  v.names? ty >>= TokenNames.literal

/-- The symbolic name of a type; the end of the input has one in every vocabulary. -/
def symbolicName? (v : Vocabulary) (ty : TokenType) : Option String :=
  if ty.isEof then some "EOF" else v.names? ty >>= TokenNames.symbolic

/-- The name shown to a reader: the literal name, else the symbolic name, else the number. -/
def displayName (v : Vocabulary) (ty : TokenType) : String :=
  ((v.literalName? ty).or (v.symbolicName? ty)).getD (toString ty.code.toNat)

/-- The name shown in a list of expected types, which has a spelling of its own for the end of the
input. -/
def elementName (v : Vocabulary) (ty : TokenType) : String :=
  if ty.isEof then "<EOF>" else v.displayName ty

/-- The text of a set: a single member by itself, otherwise the members in braces. -/
def displaySet (v : Vocabulary) (s : TokenSet) : String :=
  match s.toList.map v.elementName with
  | [name] => name
  | names => "\x7b" ++ ", ".intercalate names ++ "\x7d"

/-- The first type whose literal or symbolic name is the given one. -/
def tokenType? (v : Vocabulary) (name : String) : Option TokenType :=
  if name == "EOF" then some .eof
  else (v.named.findIdx? fun n => n.literal == some name || n.symbolic == some name).map
    fun i => ⟨UInt16.ofNat (i + 1)⟩

@[simp] theorem size_pos (v : Vocabulary) : 0 < v.size := Nat.succ_pos _

end Vocabulary

end TreeProjection
