import TreeProjection.Language.Basic
import TreeProjection.Recognition.Exception

/-! # Parse trees

What a recognizer makes of its input.  The nodes of a `ParseTree` are held in the order in which they
were added, and a rule node lists its children by number, so that a rule can be given children while it
is being recognized.

* `ParseTree.push` — add a node under another one, or as the root.
* `ParseNode.View` — the same tree with the children inside their parents.
* `ParseNode.View.expression` — a tree on one line, in nested parentheses. -/

namespace TreeProjection

/-- A node for a rule. -/
structure RuleNode where
  /-- The rule. -/
  rule : RuleIndex
  /-- The numbers of the children, in order. -/
  children : Array Nat := #[]
  /-- The place of the token that was current when the rule was entered. -/
  start : Option Nat := none
  /-- The place of the last token that the rule consumed, if it consumed one. -/
  stop : Option Nat := none
  /-- The exception that ended the rule early. -/
  exception : Option RecognitionException := none
  deriving DecidableEq, Repr, Inhabited

/-- A node of a parse tree. -/
inductive ParseNode where
  /-- A rule. -/
  | rule (r : RuleNode)
  /-- A token that was matched. -/
  | terminal (t : Token)
  /-- A token that was passed over during recovery, or one that stands for a missing token. -/
  | error (t : Token)
  deriving DecidableEq, Repr, Inhabited

/-- A parse tree. -/
structure ParseTree where
  /-- The nodes in the order in which they were added. -/
  nodes : Array ParseNode := #[]
  /-- The number of the root. -/
  root : Option Nat := none
  deriving DecidableEq, Repr, Inhabited

/-- The token of a leaf. -/
def ParseNode.token? : ParseNode → Option Token
  | rule _ => none
  | terminal t => some t
  | error t => some t

/-- The children of a node; a leaf has none. -/
def ParseNode.children : ParseNode → Array Nat
  | rule r => r.children
  | _ => #[]

/-- Whether a node is a rule. -/
def ParseNode.isRule : ParseNode → Bool
  | rule _ => true
  | _ => false

namespace ParseTree

/-- The number of nodes. -/
def size (t : ParseTree) : Nat := t.nodes.size

/-- Whether there is no node. -/
def isEmpty (t : ParseTree) : Bool := t.nodes.isEmpty

/-- Whether the node of a number is a rule. -/
def isRuleAt (t : ParseTree) (id : Nat) : Bool := t.nodes[id]?.any ParseNode.isRule

/-- Change a rule node. -/
def modifyRule (t : ParseTree) (id : Nat) (f : RuleNode → RuleNode) : ParseTree :=
  { t with nodes := t.nodes.modify id fun
      | .rule r => .rule (f r)
      | n => n }

/-- Add a node under a rule node.  Without one, the node becomes the root if there is no root yet, and
otherwise stays apart. -/
def push (t : ParseTree) (parent : Option Nat) (node : ParseNode) : Nat × ParseTree :=
  let id := t.nodes.size
  match parent.filter t.isRuleAt with
  | some p =>
    (id, { t with nodes := t.nodes.push node }.modifyRule p fun r =>
      { r with children := r.children.push id })
  | none => (id, { nodes := t.nodes.push node, root := t.root.or (some id) })

end ParseTree

/-- A parse tree with the children of each node inside of it. -/
inductive ParseNode.View where
  /-- A rule, of which the numbers of the children are of no interest. -/
  | rule (r : RuleNode) (children : List ParseNode.View)
  /-- A token that was matched. -/
  | terminal (t : Token)
  /-- A token that was passed over, or one that stands for a missing token. -/
  | error (t : Token)
  deriving Repr

namespace ParseTree

/-- The tree below a node, at most `depth` levels of it. -/
def viewAt (t : ParseTree) : (depth id : Nat) → Option ParseNode.View
  | 0, _ => none
  | depth + 1, id =>
    match t.nodes[id]? with
    | some (.rule r) => some (.rule r (r.children.toList.filterMap (viewAt t depth)))
    | some (.terminal token) => some (.terminal token)
    | some (.error token) => some (.error token)
    | none => none

/-- The tree below the root.  No level is without a node of its own, so there are at most as many levels
as nodes. -/
def view? (t : ParseTree) : Option ParseNode.View := t.root.bind (t.viewAt t.size)

end ParseTree

namespace ParseNode.View

mutual

/-- A tree on one line: a leaf is its text, a rule is its name, and a rule with children stands in
parentheses before them. -/
def expression (l : Language) : ParseNode.View → String
  | rule r [] => l.ruleNameOrUnknown r.rule
  | rule r children => "(" ++ l.ruleNameOrUnknown r.rule ++ expressions l children ++ ")"
  | terminal t => Text.escapeBlanks t.text
  | error t => Text.escapeBlanks t.text

/-- Trees on one line, each after a blank. -/
def expressions (l : Language) : List ParseNode.View → String
  | [] => ""
  | t :: rest => " " ++ expression l t ++ expressions l rest

end

mutual

/-- The leaves in order; the flag tells which were matched. -/
def leaves : ParseNode.View → List (Bool × Token)
  | rule _ children => leavesOf children
  | terminal t => [(true, t)]
  | error t => [(false, t)]

/-- The leaves of several trees in order. -/
def leavesOf : List ParseNode.View → List (Bool × Token)
  | [] => []
  | t :: rest => leaves t ++ leavesOf rest

end

end ParseNode.View

/-- A parse tree on one line. -/
def ParseTree.expression (t : ParseTree) (l : Language) : String :=
  (t.view?.map (·.expression l)).getD ""

end TreeProjection
