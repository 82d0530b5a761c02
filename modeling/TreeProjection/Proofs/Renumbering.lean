import TreeProjection.Proofs.Sketch

/-! # Other numbers for exceptions

Exceptions are told apart by their numbers, and nothing else hangs on a number.  A **renumbering** gives each exception
another number, wherever it stands: in the tree, in what has been written down, and in what a recognizer holds in its
hands.

* `ParseTree.renumber`, `Note.renumber`, `Parser.renumber` — the same with other numbers.
* `Parser.Numbered` — all exceptions carry numbers that have been given.
* `ParseTree.renumber_push`, `ParseTree.renumber_modifyRule` — changes of a tree with other numbers.
* `ParseTree.expression_renumber` — a tree on one line does not show them. -/

namespace TreeProjection

variable {σ β : Type} (f : Nat → Nat)

/-! ## Renumbering -/

/-- An exception with another number. -/
def RecognitionException.renumber (e : RecognitionException) : RecognitionException := { e with id := f e.id }

/-- A rule's node with another number for its exception. -/
def RuleNode.renumber (r : RuleNode) : RuleNode := { r with exception := r.exception.map (·.renumber f) }

/-- A node with another number for its exception. -/
def ParseNode.renumber : ParseNode → ParseNode
  | rule r => rule (r.renumber f)
  | terminal t => terminal t
  | error t => error t

/-- A tree with other numbers for its exceptions. -/
def ParseTree.renumber (t : ParseTree) : ParseTree := { t with nodes := t.nodes.map (·.renumber f) }

/-- A report with another number for its exception. -/
def Report.renumber (r : Report) : Report := { r with exception := r.exception.map (·.renumber f) }

/-- A note with another number for its exception. -/
def Note.renumber : Note → Note
  | report listeners r => report listeners (r.renumber f)
  | caught e => caught (e.renumber f)
  | hook h => hook h
  | token t => token t
  | speculated recognized => speculated recognized
  | seen name o => seen name o

/-- A call of a hook with another number for the exception that it is about. -/
def HookCall.renumber : HookCall → HookCall
  | reportGiven e => reportGiven (e.renumber f)
  | c => c

/-- An operation with another number for the exception that it is about. -/
def Direct.renumber : Direct β → Direct β
  | note n => note (n.renumber f)
  | hook c => hook (c.renumber f)
  | d => d

/-- A parser with other numbers for the exceptions that have occurred. -/
def Parser.renumber (p : Parser σ) : Parser σ :=
  { p with tree := p.tree.renumber f, journal := p.journal.map (·.renumber f) }

/-- **All exceptions of a parser carry numbers that have been given**: as long as these are left as they are, so is the
parser. -/
def Parser.Numbered (p : Parser σ) : Prop := ∀ f : Nat → Nat, (∀ i, i < p.nextException → f i = i) → p.renumber f = p

/-- Before an exception has occurred there is nothing to be numbered. -/
theorem Parser.numbered_of_empty {p : Parser σ} (htree : p.tree = {}) (hjournal : p.journal = #[]) : p.Numbered := by
  intro f _
  have ht : p.tree.renumber f = p.tree := by
    rw [htree]
    simp [ParseTree.renumber]
  have hj : p.journal.map (·.renumber f) = p.journal := by
    rw [hjournal]
    simp
  unfold renumber
  rw [ht, hj]

/-! ## Trees -/

namespace ParseTree

variable {f} (t : ParseTree)

/-- Which nodes are rules does not depend on numbers. -/
theorem isRuleAt_renumber : (t.renumber f).isRuleAt = t.isRuleAt := by
  funext id
  have hrule : (fun n : ParseNode => (n.renumber f).isRule) = ParseNode.isRule := by
    funext n
    cases n <;> rfl
  unfold isRuleAt renumber
  rw [Array.getElem?_map, Option.any_map]
  exact congrArg (Option.any · t.nodes[id]?) hrule

/-- **A rule's node is changed** in the same way, whichever the numbers are. -/
theorem renumber_modifyRule (id : Nat) {g g' : RuleNode → RuleNode} (hg : ∀ r, (g r).renumber f = g' (r.renumber f)) :
    (t.modifyRule id g).renumber f = (t.renumber f).modifyRule id g' := by
  unfold modifyRule renumber
  congr 1
  apply Array.ext_getElem?
  intro i
  simp only [Array.getElem?_map, Array.getElem?_modify]
  by_cases hi : id = i
  · simp only [hi, if_true, Option.map_map]
    congr 1
    funext n
    cases n with
    | rule r => exact congrArg ParseNode.rule (hg r)
    | terminal token => rfl
    | error token => rfl
  · simp only [hi, if_false]

/-- **A node is added** at the same place, whichever the numbers are. -/
theorem renumber_push (parent : Option Nat) (node : ParseNode) :
    (t.renumber f).push parent (node.renumber f) = ((t.push parent node).1, (t.push parent node).2.renumber f) := by
  have hnodes : (t.renumber f).nodes.push (node.renumber f) = (t.nodes.push node).map (·.renumber f) := by
    simp only [renumber, Array.map_push]
  have hsize : (t.renumber f).nodes.size = t.nodes.size := by simp only [renumber, Array.size_map]
  unfold push
  simp only [t.isRuleAt_renumber, hsize]
  cases parent.filter t.isRuleAt with
  | none =>
      simp only [hnodes]
      rfl
  | some c =>
      simp only [hnodes]
      let child : RuleNode → RuleNode := fun r => { r with children := r.children.push t.nodes.size }
      have hchild : ∀ r : RuleNode, (child r).renumber f = child (r.renumber f) := fun _ => rfl
      exact Prod.ext rfl (renumber_modifyRule { t with nodes := t.nodes.push node } c hchild).symm

end ParseTree

namespace ParseNode.View

variable {l : Language}

/-- Trees that look the same one by one look the same in a row. -/
theorem expressions_congr : ∀ {vs vs' : List ParseNode.View}, vs.map (expression l) = vs'.map (expression l) →
    expressions l vs = expressions l vs'
  | [], [], _ => rfl
  | v :: vs, v' :: vs', h => by
      simp only [List.map_cons, List.cons.injEq] at h
      rw [expressions, expressions, h.1, expressions_congr h.2]

/-- A rule looks the same if its children do. -/
theorem expression_rule_congr {r r' : RuleNode} (hrule : r.rule = r'.rule) {vs vs' : List ParseNode.View}
    (h : vs.map (expression l) = vs'.map (expression l)) : expression l (.rule r vs) = expression l (.rule r' vs') := by
  match vs, vs', h with
  | [], [], _ => rw [expression, expression, hrule]
  | v :: vs, v' :: vs', h => rw [expression, expression, hrule, expressions_congr h] <;> exact nofun

end ParseNode.View

namespace ParseTree

open ParseNode (View)

variable {f} (t : ParseTree) (l : Language)

/-- The tree below a node, on one line. -/
theorem map_expression_viewAt_renumber (depth id : Nat) :
    ((t.renumber f).viewAt depth id).map (·.expression l) = (t.viewAt depth id).map (·.expression l) := by
  -- induction on the depth; one node is looked at, and renumbering leaves its rule and its children
  induction depth generalizing id with
  | zero => rfl
  | succ depth ih =>
      have hnode : (t.renumber f).nodes[id]? = t.nodes[id]?.map (·.renumber f) := Array.getElem?_map ..
      unfold viewAt
      rw [hnode]
      cases t.nodes[id]? with
      | none => rfl
      | some n =>
          cases n with
          | terminal token => rfl
          | error token => rfl
          | rule r =>
              have hchildren : (r.children.toList.filterMap ((t.renumber f).viewAt depth)).map (·.expression l) =
                  (r.children.toList.filterMap (t.viewAt depth)).map (·.expression l) := by
                rw [List.map_filterMap, List.map_filterMap]
                exact congrArg (fun g => r.children.toList.filterMap g) (funext ih)
              have hrule : (r.renumber f).rule = r.rule := rfl
              exact congrArg some (View.expression_rule_congr hrule hchildren)

/-- **A tree on one line** does not show the numbers of exceptions. -/
theorem expression_renumber : (t.renumber f).expression l = t.expression l := by
  have hsize : (t.renumber f).size = t.size := Array.size_map ..
  unfold expression view?
  rw [hsize]
  cases hroot : t.root with
  | none =>
      have hroot' : (t.renumber f).root = none := hroot
      rw [hroot']
      rfl
  | some id =>
      have hroot' : (t.renumber f).root = some id := hroot
      rw [hroot']
      exact congrArg (Option.getD · "") (t.map_expression_viewAt_renumber l t.size id)

end ParseTree

end TreeProjection
