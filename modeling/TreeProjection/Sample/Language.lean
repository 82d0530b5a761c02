import TreeProjection.Language.Basic

/-! # The sample language

A small scripting language, by its names:

    script    : (function | statement)* EOF ;
    function  : 'func' ID '(' params? ')' block ;
    params    : ID (',' ID)* ;
    block     : '{' statement* '}' ;
    statement : 'var' ID '=' expr ';'
              | ID '=' expr ';'
              | ID '(' ... ')' ';'        -- a call, read as an expr
              | 'return' expr? ';'
              | block ;
    expr      : term (('+' | '-') term)* ;
    term      : primary (('*' | '/') primary)* ;
    primary   : INT | STRING | ID ('(' args? ')')? | '(' expr ')' ;
    args      : expr (',' expr)* ;
-/

namespace TreeProjection.Sample

/-! ## Token types -/

/-- The keyword that begins a function. -/
def func : TokenType := ⟨1⟩

/-- The keyword that begins a declaration. -/
def var : TokenType := ⟨2⟩

/-- The keyword that begins a return statement. -/
def ret : TokenType := ⟨3⟩

/-- An opening parenthesis. -/
def lparen : TokenType := ⟨4⟩

/-- A closing parenthesis. -/
def rparen : TokenType := ⟨5⟩

/-- An opening brace. -/
def lbrace : TokenType := ⟨6⟩

/-- A closing brace. -/
def rbrace : TokenType := ⟨7⟩

/-- A comma. -/
def comma : TokenType := ⟨8⟩

/-- A semicolon. -/
def semi : TokenType := ⟨9⟩

/-- The equals sign of an assignment. -/
def assign : TokenType := ⟨10⟩

/-- A plus sign. -/
def plus : TokenType := ⟨11⟩

/-- A minus sign. -/
def minus : TokenType := ⟨12⟩

/-- An asterisk. -/
def star : TokenType := ⟨13⟩

/-- A slash. -/
def slash : TokenType := ⟨14⟩

/-- A name. -/
def ident : TokenType := ⟨15⟩

/-- A whole number. -/
def int : TokenType := ⟨16⟩

/-- A text between double quotes. -/
def string : TokenType := ⟨17⟩

/-- Blanks and line breaks. -/
def blank : TokenType := ⟨18⟩

/-- A comment that goes to the end of its line. -/
def comment : TokenType := ⟨19⟩

/-! ## Rules -/

/-- A whole source. -/
def scriptRule : RuleIndex := ⟨0⟩

/-- A function. -/
def functionRule : RuleIndex := ⟨1⟩

/-- The parameters of a function. -/
def paramsRule : RuleIndex := ⟨2⟩

/-- Statements between braces. -/
def blockRule : RuleIndex := ⟨3⟩

/-- A statement. -/
def statementRule : RuleIndex := ⟨4⟩

/-- A sum. -/
def exprRule : RuleIndex := ⟨5⟩

/-- A product. -/
def termRule : RuleIndex := ⟨6⟩

/-- A factor. -/
def primaryRule : RuleIndex := ⟨7⟩

/-- The arguments of a call. -/
def argsRule : RuleIndex := ⟨8⟩

/-! ## The language -/

/-- The vocabulary of the sample language. -/
def vocabulary : Vocabulary where
  named := #[
    ⟨some "'func'", some "FUNC"⟩, ⟨some "'var'", some "VAR"⟩,
    ⟨some "'return'", some "RETURN"⟩, ⟨some "'('", some "LPAREN"⟩, ⟨some "')'", some "RPAREN"⟩,
    ⟨some "'\x7b'", some "LBRACE"⟩, ⟨some "'\x7d'", some "RBRACE"⟩, ⟨some "','", some "COMMA"⟩,
    ⟨some "';'", some "SEMI"⟩, ⟨some "'='", some "ASSIGN"⟩, ⟨some "'+'", some "PLUS"⟩,
    ⟨some "'-'", some "MINUS"⟩, ⟨some "'*'", some "STAR"⟩, ⟨some "'/'", some "SLASH"⟩,
    ⟨none, some "ID"⟩, ⟨none, some "INT"⟩, ⟨none, some "STRING"⟩, ⟨none, some "WS"⟩,
    ⟨none, some "COMMENT"⟩]

/-- The sample language. -/
def language : Language where
  name := "sample"
  vocabulary := vocabulary
  rules := #[("script", scriptRule), ("function", functionRule), ("params", paramsRule),
    ("block", blockRule), ("statement", statementRule), ("expr", exprRule), ("term", termRule),
    ("primary", primaryRule), ("args", argsRule)]
  startRule := scriptRule
  trivia := .ofList [blank, comment]
  elements := ⟨20, 9⟩

end TreeProjection.Sample
