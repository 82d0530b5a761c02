import TreeProjection.Language.Elements
import TreeProjection.Vocabulary

/-! # Languages

What is known of a grammar without running it: its vocabulary, its rules by name, where parsing
starts, which tokens are trivia, and the kinds of its elements.

* `Language.ofNames?` — the language with given names.
* `Language.ruleName?`, `Language.ruleIndex?` — rules by number and by name.
* `Language.elementName` — the name of a kind in dumps. -/

namespace TreeProjection

/-- A grammar's names and the kinds of its elements. -/
structure Language where
  /-- The language's own name. -/
  name : String
  /-- The names of the token types. -/
  vocabulary : Vocabulary
  /-- The rules by name, each name once, in the order in which the names first appeared.  A name that
  was listed twice goes by the later number. -/
  rules : Array (String × RuleIndex)
  /-- The rule that a whole source is parsed by. -/
  startRule : RuleIndex := ⟨0⟩
  /-- The types that the host keeps from the recognizer, such as blanks and comments. -/
  trivia : TokenSet := ∅
  /-- The kinds of the elements. -/
  elements : ElementTypes
  deriving DecidableEq, Repr, Inhabited

namespace Language

/-- Enter a name with its number: at the end, or in place of the number that the name had. -/
def enterRule (rules : Array (String × RuleIndex)) (name : String) (r : RuleIndex) :
    Array (String × RuleIndex) :=
  match rules.findIdx? (·.1 == name) with
  | some i => rules.setIfInBounds i (name, r)
  | none => rules.push (name, r)

/-- The language of a name, a vocabulary and a list of rule names. -/
def ofNames? (name : String) (vocabulary : Vocabulary) (ruleNames : List String) :
    Except Violation Language := do
  let rules := ruleNames.zipIdx.foldl (fun rules p => enterRule rules p.1 ⟨UInt16.ofNat p.2⟩) #[]
  let elements ← ElementTypes.mk? vocabulary.size rules.size
  return { name, vocabulary, rules, elements }

/-- The language with another start rule, which has to be one of its rules. -/
def withStartRule? (l : Language) (r : RuleIndex) : Except Violation Language := do
  l.elements.ensureRule r
  return { l with startRule := r }

/-- The language with other trivia. -/
def withTrivia (l : Language) (trivia : TokenSet) : Language := { l with trivia }

/-- The names of the rules, in order. -/
def ruleNames (l : Language) : List String := l.rules.toList.map (·.1)

/-- The number of rules. -/
def ruleCount (l : Language) : Nat := l.rules.size

/-- The name of a rule. -/
def ruleName? (l : Language) (r : RuleIndex) : Option String := l.rules[r.toNat]?.map (·.1)

/-- The name of a rule, or a question mark. -/
def ruleNameOrUnknown (l : Language) (r : RuleIndex) : String := (l.ruleName? r).getD "?"

/-- The rule of a name. -/
def ruleIndex? (l : Language) (name : String) : Option RuleIndex :=
  (l.rules.find? (·.1 == name)).map (·.2)

/-- The token type of a name. -/
def tokenType? (l : Language) (name : String) : Option TokenType := l.vocabulary.tokenType? name

/-- Whether a kind stands for a trivia token. -/
def isTrivia (l : Language) (kind : Kind) : Bool :=
  (l.elements.tokenTypeOf? kind).any l.trivia.contains

/-- The name of a kind in dumps: tokens by symbolic name, else by literal name, rules by name. -/
def elementName (l : Language) (kind : Kind) : String :=
  match l.elements.element? kind with
  | some .error => "ERROR"
  | some .file => "FILE"
  | some (.token ty) =>
    ((l.vocabulary.symbolicName? ty).or (l.vocabulary.literalName? ty)).getD s!"T{ty.code.toNat}"
  | some (.rule r) => l.ruleNameOrUnknown r
  | none => s!"?{kind.toNat}"

end Language

end TreeProjection
