import TreeProjection.Proofs.Arena
import TreeProjection.Sample.Language

/-! # The sample language, as its grammar has it

The rules of the sample language are regular expressions over token types and rules.  Here they are stated as they
are documented, apart from any recognizer: which token types a rule stands for, and which parse trees belong to it.

* `Sample.Phrase` — a regular expression over token types and rules.
* `Sample.rhs` — the right-hand side of each rule.
* `Sample.Derives`, `Sample.Sentence` — the token types that a phrase stands for.
* `Sample.Spells` — the parse trees that a phrase stands for: derivations, all the way down. -/

namespace TreeProjection.Sample

open ParseNode (View)

/-- **A regular expression over token types and rules.** -/
inductive Phrase where
  /-- A token of a type. -/
  | token (ty : TokenType)
  /-- A rule. -/
  | rule (r : RuleIndex)
  /-- Nothing. -/
  | empty
  /-- One phrase and then another. -/
  | seq (a b : Phrase)
  /-- One phrase or another. -/
  | alt (a b : Phrase)
  /-- A phrase any number of times. -/
  | many (a : Phrase)
  /-- A phrase that begins with the given types. -/
  | beginning (types : List TokenType) (a : Phrase)

namespace Phrase

/-- Phrases one after the other. -/
def all : List Phrase → Phrase
  | [] => empty
  | [a] => a
  | a :: rest => seq a (all rest)

/-- A phrase or nothing. -/
def optional (a : Phrase) : Phrase := alt empty a

/-- Phrases with signs between them. -/
def separated (sign a : Phrase) : Phrase := seq a (many (seq sign a))

end Phrase

open Phrase

/-- **The right-hand sides of the rules.**

    script    : (function | statement)* EOF ;
    function  : FUNC ID LPAREN params? RPAREN block ;
    params    : ID (COMMA ID)* ;
    block     : LBRACE statement* RBRACE ;
    statement : VAR ID ASSIGN expr SEMI
              | ID ASSIGN expr SEMI
              | RETURN expr? SEMI
              | block
              | expr SEMI               -- where the expr begins with ID LPAREN
              ;
    expr      : term ((PLUS | MINUS) term)* ;
    term      : primary ((STAR | SLASH) primary)* ;
    primary   : INT | STRING | ID (LPAREN args? RPAREN)? | LPAREN expr RPAREN ;
    args      : expr (COMMA expr)* ;
-/
def rhs (r : RuleIndex) : Phrase :=
  if r = scriptRule then
    seq (many (alt (rule functionRule) (rule statementRule))) (token .eof)
  else if r = functionRule then
    all [token func, token ident, token lparen, optional (rule paramsRule), token rparen,
      rule blockRule]
  else if r = paramsRule then separated (token comma) (token ident)
  else if r = blockRule then all [token lbrace, many (rule statementRule), token rbrace]
  else if r = statementRule then
    alt (all [token var, token ident, token assign, rule exprRule, token semi])
      (alt (all [token ident, token assign, rule exprRule, token semi])
        (alt (all [token ret, optional (rule exprRule), token semi])
          (alt (rule blockRule)
            (seq (beginning [ident, lparen] (rule exprRule)) (token semi)))))
  else if r = exprRule then separated (alt (token plus) (token minus)) (rule termRule)
  else if r = termRule then separated (alt (token star) (token slash)) (rule primaryRule)
  else if r = primaryRule then
    alt (token int)
      (alt (token string)
        (alt (seq (token ident)
            (optional (all [token lparen, optional (rule argsRule), token rparen])))
          (all [token lparen, rule exprRule, token rparen])))
  else separated (token comma) (rule exprRule)

@[simp] theorem rhs_script : rhs scriptRule =
    seq (many (alt (rule functionRule) (rule statementRule))) (token .eof) := rfl

@[simp] theorem rhs_statement : rhs statementRule =
    alt (all [token var, token ident, token assign, rule exprRule, token semi])
      (alt (all [token ident, token assign, rule exprRule, token semi])
        (alt (all [token ret, optional (rule exprRule), token semi])
          (alt (rule blockRule)
            (seq (beginning [ident, lparen] (rule exprRule)) (token semi))))) := rfl

/-- **The token types that a phrase stands for.** -/
inductive Derives : Phrase → List TokenType → Prop where
  /-- A token. -/
  | token (ty : TokenType) : Derives (.token ty) [ty]
  /-- A rule stands for what its right-hand side does. -/
  | rule {r : RuleIndex} {u : List TokenType} (h : Derives (rhs r) u) : Derives (.rule r) u
  /-- Nothing. -/
  | empty : Derives .empty []
  /-- One phrase and then another. -/
  | seq {a b : Phrase} {u v : List TokenType} (ha : Derives a u) (hb : Derives b v) :
    Derives (.seq a b) (u ++ v)
  /-- The first of two phrases. -/
  | left {a b : Phrase} {u : List TokenType} (h : Derives a u) : Derives (.alt a b) u
  /-- The second of two phrases. -/
  | right {a b : Phrase} {u : List TokenType} (h : Derives b u) : Derives (.alt a b) u
  /-- No times. -/
  | none {a : Phrase} : Derives (.many a) []
  /-- Once, and then any number of times. -/
  | more {a : Phrase} {u v : List TokenType} (ha : Derives a u) (hmany : Derives (.many a) v) :
    Derives (.many a) (u ++ v)
  /-- A phrase that begins with the given types. -/
  | beginning {a : Phrase} {types u : List TokenType} (h : Derives a u) (hbegins : types <+: u) :
    Derives (.beginning types a) u

/-- **The sentences of the language**: what the rule for whole sources stands for. -/
def Sentence (u : List TokenType) : Prop := Derives (.rule scriptRule) u

/-- The token types of the leaves of trees. -/
def typesOf (vs : List View) : List TokenType := (View.leavesOf vs).map fun l => l.2.ty

/-- **The parse trees that a phrase stands for.** A token is a leaf that was matched.  A rule is a node without an
exception, whose children are among the trees that the right-hand side of the rule stands for. -/
inductive Spells : Phrase → List View → Prop where
  /-- A token. -/
  | token (t : Token) : Spells (.token t.ty) [.terminal t]
  /-- The children of a rule spell its right-hand side. -/
  | rule {r : RuleNode} {vs : List View} (well : r.exception = .none)
    (h : Spells (rhs r.rule) vs) : Spells (.rule r.rule) [.rule r vs]
  /-- Nothing. -/
  | empty : Spells .empty []
  /-- One phrase and then another. -/
  | seq {a b : Phrase} {vs ws : List View} (ha : Spells a vs) (hb : Spells b ws) :
    Spells (.seq a b) (vs ++ ws)
  /-- The first of two phrases. -/
  | left {a b : Phrase} {vs : List View} (h : Spells a vs) : Spells (.alt a b) vs
  /-- The second of two phrases. -/
  | right {a b : Phrase} {vs : List View} (h : Spells b vs) : Spells (.alt a b) vs
  /-- No times. -/
  | none {a : Phrase} : Spells (.many a) []
  /-- Once, and then any number of times. -/
  | more {a : Phrase} {vs ws : List View} (ha : Spells a vs) (hmany : Spells (.many a) ws) :
    Spells (.many a) (vs ++ ws)
  /-- A phrase that begins with the given types. -/
  | beginning {a : Phrase} {types : List TokenType} {vs : List View} (h : Spells a vs)
    (hbegins : types <+: typesOf vs) : Spells (.beginning types a) vs

@[simp] theorem typesOf_append (vs ws : List View) :
    typesOf (vs ++ ws) = typesOf vs ++ typesOf ws := by
  rw [typesOf, View.leavesOf_append, List.map_append]
  rfl

@[simp] theorem typesOf_rule (r : RuleNode) (vs : List View) :
    typesOf [.rule r vs] = typesOf vs := by
  rw [typesOf, View.leavesOf_rule]
  rfl

/-- **The leaves of a derivation are what it derives.** -/
theorem Spells.derives {a : Phrase} {vs : List View} (h : Spells a vs) :
    Derives a (typesOf vs) := by
  induction h with
  | token t => exact .token t.ty
  | rule well h ih =>
      rw [typesOf_rule]
      exact .rule ih
  | empty => exact .empty
  | seq ha hb iha ihb =>
      rw [typesOf_append]
      exact .seq iha ihb
  | left h ih => exact .left ih
  | right h ih => exact .right ih
  | none => exact .none
  | more ha hmany iha ihmany =>
      rw [typesOf_append]
      exact .more iha ihmany
  | beginning h hbegins ih => exact .beginning ih hbegins

end TreeProjection.Sample
