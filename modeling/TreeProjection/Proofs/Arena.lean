import TreeProjection.Recognition.ParseTree

/-! # Parse trees and their nodes

A parse tree is a row of nodes that refer to one another by number.  A recognizer adds nodes at the end and
touches no earlier node but that of the rule it is in, so the nodes below a rule stand side by side, each
before those below it.

* `ParseTree.Shows` — the nodes from a number on hold a tree, laid out in that way.
* `ParseTree.Holds` — a node holds a tree, however the nodes are laid out.
* `ParseTree.Grows` — one tree comes from another by adding trees below one of its rules.
* `ParseTree.Opened` — the same, for the rule that was added last.
* `ParseTree.viewAt_of_holds` — a node is seen as the tree that it holds. -/

namespace TreeProjection

namespace ParseNode.View

mutual

/-- The number of nodes of a tree. -/
def size : ParseNode.View → Nat
  | rule _ children => sizes children + 1
  | terminal _ => 1
  | error _ => 1

/-- The number of nodes of several trees. -/
def sizes : List ParseNode.View → Nat
  | [] => 0
  | v :: rest => size v + sizes rest

end

/-- The numbers of the roots of trees that are laid out side by side from a number on. -/
def roots (lo : Nat) : List ParseNode.View → List Nat
  | [] => []
  | v :: rest => lo :: roots (lo + size v) rest

@[simp] theorem sizes_append (vs ws : List ParseNode.View) :
    sizes (vs ++ ws) = sizes vs + sizes ws := by
  induction vs with
  | nil => simp [sizes]
  | cons v vs ih => simp [sizes, ih, Nat.add_assoc]

@[simp] theorem roots_append (lo : Nat) (vs ws : List ParseNode.View) :
    roots lo (vs ++ ws) = roots lo vs ++ roots (lo + sizes vs) ws := by
  induction vs generalizing lo with
  | nil => simp [roots, sizes]
  | cons v vs ih => simp [roots, sizes, ih, Nat.add_assoc]

@[simp] theorem leavesOf_append (vs ws : List ParseNode.View) :
    leavesOf (vs ++ ws) = leavesOf vs ++ leavesOf ws := by
  induction vs with
  | nil => simp [leavesOf]
  | cons v vs ih => simp [leavesOf, ih]

/-- Every tree has a node. -/
theorem size_pos (v : ParseNode.View) : 0 < size v := by
  cases v <;> simp [size]

/-- **The tokens of the input** among the leaves of trees: all but those that were made up, and the end. -/
def read (vs : List ParseNode.View) : List Token :=
  ((leavesOf vs).map Prod.snd).filter fun t => !t.isConjured && !t.isEof

@[simp] theorem read_nil : read [] = [] := rfl

@[simp] theorem read_append (vs ws : List ParseNode.View) :
    read (vs ++ ws) = read vs ++ read ws := by
  simp [read]

@[simp] theorem leavesOf_rule (r : RuleNode) (vs : List ParseNode.View) :
    leavesOf [rule r vs] = leavesOf vs := by
  simp [leavesOf, leaves]

@[simp] theorem read_rule (r : RuleNode) (vs : List ParseNode.View) :
    read [rule r vs] = read vs := by
  simp [read]

end ParseNode.View

open ParseNode (View)

namespace ParseTree

mutual

/-- **The nodes from a number on hold a tree**, each node before those below it. -/
def Shows (t : ParseTree) (lo : Nat) : View → Prop
  | .rule r children => t.nodes[lo]? = some (.rule r) ∧
      r.children.toList = View.roots (lo + 1) children ∧ ShowsAll t (lo + 1) children
  | .terminal token => t.nodes[lo]? = some (.terminal token)
  | .error token => t.nodes[lo]? = some (.error token)

/-- The nodes from a number on hold several trees, one after the other. -/
def ShowsAll (t : ParseTree) (lo : Nat) : List View → Prop
  | [] => True
  | v :: rest => Shows t lo v ∧ ShowsAll t (lo + v.size) rest

end

variable {t u w : ParseTree} {lo c n : Nat} {vs ws : List View}

@[simp] theorem showsAll_append :
    t.ShowsAll lo (vs ++ ws) ↔ t.ShowsAll lo vs ∧ t.ShowsAll (lo + View.sizes vs) ws := by
  induction vs generalizing lo with
  | nil => simp [ShowsAll, View.sizes]
  | cons v vs ih => simp [ShowsAll, View.sizes, ih, Nat.add_assoc, and_assoc]

mutual

/-- Whether nodes hold a tree does not depend on other nodes. -/
theorem Shows.congr : ∀ (v : View) (lo : Nat),
    (∀ id, lo ≤ id → id < lo + v.size → u.nodes[id]? = t.nodes[id]?) →
      t.Shows lo v → u.Shows lo v
  | .rule r children, lo, hsame, h => by
      simp only [View.size] at hsame
      refine ⟨(hsame lo (by omega) (by omega)).trans h.1, h.2.1, ?_⟩
      exact ShowsAll.congr children (lo + 1) (fun id h1 h2 => hsame id (by omega) (by omega)) h.2.2
  | .terminal _, lo, hsame, h => (hsame lo (Nat.le_refl _) (Nat.lt_succ_self _)).trans h
  | .error _, lo, hsame, h => (hsame lo (Nat.le_refl _) (Nat.lt_succ_self _)).trans h

/-- Whether nodes hold several trees does not depend on other nodes. -/
theorem ShowsAll.congr : ∀ (vs : List View) (lo : Nat),
    (∀ id, lo ≤ id → id < lo + View.sizes vs → u.nodes[id]? = t.nodes[id]?) →
      t.ShowsAll lo vs → u.ShowsAll lo vs
  | [], _, _, _ => trivial
  | v :: rest, lo, hsame, h => by
      simp only [View.sizes] at hsame
      refine ⟨Shows.congr v lo (fun id h1 h2 => hsame id h1 (by omega)) h.1, ?_⟩
      exact ShowsAll.congr rest _ (fun id h1 h2 => hsame id (by omega) (by omega)) h.2

end

mutual

/-- **A node holds a tree**, wherever the nodes below it are. -/
def Holds (t : ParseTree) (id : Nat) : View → Prop
  | .rule r children => t.nodes[id]? = some (.rule r) ∧ HoldsAll t r.children.toList children
  | .terminal token => t.nodes[id]? = some (.terminal token)
  | .error token => t.nodes[id]? = some (.error token)

/-- Nodes hold trees, one each. -/
def HoldsAll (t : ParseTree) : List Nat → List View → Prop
  | [], [] => True
  | id :: ids, v :: vs => Holds t id v ∧ HoldsAll t ids vs
  | _, _ => False

end

mutual

/-- In a layout the first node holds the tree. -/
theorem Shows.holds : ∀ (v : View) (lo : Nat), t.Shows lo v → t.Holds lo v
  | .rule r children, lo, h => by
      refine ⟨h.1, ?_⟩
      rw [h.2.1]
      exact ShowsAll.holds children (lo + 1) h.2.2
  | .terminal _, _, h => h
  | .error _, _, h => h

/-- In layouts side by side the roots hold the trees. -/
theorem ShowsAll.holds : ∀ (vs : List View) (lo : Nat), t.ShowsAll lo vs →
    t.HoldsAll (View.roots lo vs) vs
  | [], _, _ => trivial
  | v :: rest, lo, h => ⟨Shows.holds v lo h.1, ShowsAll.holds rest (lo + v.size) h.2⟩

end

mutual

/-- **A node is seen as the tree that it holds**, if it is looked at deep enough. -/
theorem viewAt_of_holds : ∀ (v : View) (id depth : Nat), t.Holds id v → v.size ≤ depth →
    t.viewAt depth id = some v
  | v, _, 0, _, hdepth => absurd v.size_pos (by omega)
  | .rule r children, id, depth + 1, h, hdepth => by
      simp only [View.size] at hdepth
      have hall := filterMap_viewAt_of_holdsAll children r.children.toList depth h.2 (by omega)
      simp only [viewAt, h.1, hall]
  | .terminal _, id, depth + 1, h, _ => by
      have hnode : t.nodes[id]? = _ := h
      simp only [viewAt, hnode]
  | .error _, id, depth + 1, h, _ => by
      have hnode : t.nodes[id]? = _ := h
      simp only [viewAt, hnode]

/-- Nodes are seen as the trees that they hold. -/
theorem filterMap_viewAt_of_holdsAll : ∀ (vs : List View) (ids : List Nat) (depth : Nat),
    t.HoldsAll ids vs → View.sizes vs ≤ depth → ids.filterMap (t.viewAt depth) = vs
  | [], [], _, _, _ => rfl
  | v :: rest, id :: ids, depth, h, hdepth => by
      simp only [View.sizes] at hdepth
      have hv := viewAt_of_holds v id depth h.1 (by omega)
      have hrest := filterMap_viewAt_of_holdsAll rest ids depth h.2 (by omega)
      simp only [List.filterMap_cons, hv, hrest]

end

/-- **A layout is seen as the tree that it holds**, if it is looked at deep enough. -/
theorem viewAt_of_shows (v : View) (lo depth : Nat) (h : t.Shows lo v) (hdepth : v.size ≤ depth) :
    t.viewAt depth lo = some v :=
  viewAt_of_holds v lo depth (Shows.holds v lo h) hdepth

/-! ## Changing a rule node -/

@[simp] theorem size_modifyRule (f : RuleNode → RuleNode) :
    (t.modifyRule n f).nodes.size = t.nodes.size := Array.size_modify

/-- The node that is changed. -/
theorem getElem?_modifyRule_self {r : RuleNode} (h : t.nodes[n]? = some (.rule r))
    (f : RuleNode → RuleNode) : (t.modifyRule n f).nodes[n]? = some (.rule (f r)) := by
  simp only [modifyRule, Array.getElem?_modify, if_true, h, Option.map_some]

/-- The nodes that are not changed. -/
theorem getElem?_modifyRule_ne {id : Nat} (h : id ≠ n) (f : RuleNode → RuleNode) :
    (t.modifyRule n f).nodes[id]? = t.nodes[id]? := by
  simp only [modifyRule, Array.getElem?_modify, if_neg (Ne.symm h)]

/-! ## Adding trees below a rule -/

/-- **Trees have been added below a rule**, side by side at the end. -/
structure Grows (t : ParseTree) (c : Nat) (vs : List View) (u : ParseTree) : Prop where
  /-- Nothing else has been added. -/
  size : u.nodes.size = t.nodes.size + View.sizes vs
  /-- The root stays. -/
  root : u.root = t.root
  /-- The rule has got the roots of the trees for further children. -/
  parent : ∃ r, t.nodes[c]? = some (.rule r) ∧ u.nodes[c]? =
    some (.rule { r with children := r.children ++ (View.roots t.nodes.size vs).toArray })
  /-- The other nodes stay. -/
  others : ∀ id, id < t.nodes.size → id ≠ c → u.nodes[id]? = t.nodes[id]?
  /-- The new nodes hold the trees. -/
  shows : u.ShowsAll t.nodes.size vs

namespace Grows

/-- Nothing has been added. -/
theorem refl {r : RuleNode} (h : t.nodes[c]? = some (.rule r)) : t.Grows c [] t where
  size := rfl
  root := rfl
  parent := ⟨r, h, by simpa [View.roots] using h⟩
  others _ _ _ := rfl
  shows := trivial

/-- The rule is still there. -/
theorem exists_rule (h : t.Grows c vs u) : ∃ r, u.nodes[c]? = some (.rule r) :=
  let ⟨_, _, hr⟩ := h.parent
  ⟨_, hr⟩

/-- The rule comes before what has been added. -/
theorem lt_size (h : t.Grows c vs u) : c < t.nodes.size := by
  obtain ⟨r, hr, -⟩ := h.parent
  exact (Array.getElem?_eq_some_iff.mp hr).1

/-- First some trees are added, then others. -/
theorem trans (h : t.Grows c vs u) (h' : u.Grows c ws w) : t.Grows c (vs ++ ws) w where
  size := by
    rw [h'.size, h.size, View.sizes_append, Nat.add_assoc]
  root := h'.root.trans h.root
  -- the second lot is added below the same rule, whose children are by then those of the first
  parent := by
    obtain ⟨r, hr, hu⟩ := h.parent
    obtain ⟨r', hr', hw⟩ := h'.parent
    rw [hu] at hr'
    cases hr'
    refine ⟨r, hr, ?_⟩
    rw [hw, h.size]
    simp
  others id hid hne := by
    rw [h'.others id (by rw [h.size]; omega) hne, h.others id hid hne]
  shows := by
    rw [showsAll_append]
    refine ⟨ShowsAll.congr vs _ (fun id h1 h2 => ?_) h.shows, ?_⟩
    · -- the second lot changes none of the nodes added first
      have hc := h.lt_size
      exact h'.others id (by rw [h.size]; omega) (by omega)
    · rw [← h.size]
      exact h'.shows

end Grows

/-- A node gets the next number. -/
theorem push_fst (t : ParseTree) (c : Option Nat) (node : ParseNode) : (t.push c node).1 = t.nodes.size := by
  unfold push
  cases c.filter t.isRuleAt <;> rfl

/-- A node with a further child, if it is a rule. -/
def withChild (id : Nat) : ParseNode → ParseNode
  | .rule r => .rule { r with children := r.children.push id }
  | n => n

/-- **Adding a node**: it comes last, and its parent gets a further child. -/
theorem getElem?_push (t : ParseTree) (c : Option Nat) (node : ParseNode) (i : Nat) :
    (t.push c node).2.nodes[i]? = if i = t.nodes.size then some node
      else if c = some i then t.nodes[i]?.map (withChild t.nodes.size) else t.nodes[i]? := by
  unfold push
  cases hc : c.filter t.isRuleAt with
  | none =>
      simp only [Array.getElem?_push]
      by_cases hlast : i = t.nodes.size
      · simp only [hlast, if_true]
      · simp only [hlast, if_false]
        by_cases hi : c = some i
        · -- what is no rule gets no children
          subst hi
          have hno : t.isRuleAt i = false := by simpa [Option.filter] using hc
          simp only [if_true]
          cases hn : t.nodes[i]? with
          | none => rfl
          | some n => cases n <;> simp_all [isRuleAt, ParseNode.isRule, withChild]
        · rw [if_neg hi]
  | some d =>
      -- a parent that is a rule is not the new node, so each of the two changes is seen at its own place
      obtain ⟨rfl, hrule⟩ : c = some d ∧ t.isRuleAt d = true := by
        cases c <;> simp_all [Option.filter_eq_some_iff]
      have hd : d < t.nodes.size := by
        refine Nat.lt_of_not_le fun hle => ?_
        simp [isRuleAt, Array.getElem?_eq_none hle] at hrule
      simp only [modifyRule, Array.getElem?_modify, Array.getElem?_push, Option.some.injEq]
      by_cases hlast : i = t.nodes.size
      · simp only [hlast, if_true]
        rw [if_neg (by omega)]
      · simp only [hlast, if_false]
        rfl

/-- There is one node more. -/
theorem size_nodes_push (t : ParseTree) (c : Option Nat) (node : ParseNode) :
    (t.push c node).2.nodes.size = t.nodes.size + 1 := by
  unfold push
  cases c.filter t.isRuleAt <;> simp

/-- It is the node that was added. -/
theorem getElem?_push_last (t : ParseTree) (c : Option Nat) (node : ParseNode) :
    (t.push c node).2.nodes[t.nodes.size]? = some node := by
  rw [getElem?_push, if_pos rfl]

/-- A node added below a rule, and the rule. -/
theorem push_of_rule {r : RuleNode} (h : t.nodes[c]? = some (.rule r)) (node : ParseNode) :
    (t.push (some c) node).2.nodes.size = t.nodes.size + 1 ∧
      (t.push (some c) node).2.root = t.root ∧
      (t.push (some c) node).2.nodes[c]? =
        some (.rule { r with children := r.children.push t.nodes.size }) ∧
      (t.push (some c) node).2.nodes[t.nodes.size]? = some node ∧
      ∀ id, id < t.nodes.size → id ≠ c →
        (t.push (some c) node).2.nodes[id]? = t.nodes[id]? := by
  have hc : c < t.nodes.size := (Array.getElem?_eq_some_iff.mp h).1
  have hrule : t.isRuleAt c = true := by simp [isRuleAt, h, ParseNode.isRule]
  refine ⟨size_nodes_push t _ node, ?_, ?_, getElem?_push_last t _ node, fun id hid hne => ?_⟩
  · simp [push, Option.filter, hrule, modifyRule]
  · rw [getElem?_push, if_neg (Nat.ne_of_lt hc), if_pos rfl, h]
    rfl
  · rw [getElem?_push, if_neg (Nat.ne_of_lt hid), if_neg fun heq => hne (Option.some.inj heq).symm]

/-- A leaf as a tree of its own. -/
def leafView (matched : Bool) (token : Token) : View :=
  if matched then .terminal token else .error token

@[simp] theorem leavesOf_leafView (matched : Bool) (token : Token) :
    View.leavesOf [leafView matched token] = [(matched, token)] := by
  cases matched <;> rfl

/-- A leaf added below a rule. -/
theorem grows_push_leaf {r : RuleNode} (h : t.nodes[c]? = some (.rule r)) (matched : Bool)
    (token : Token) :
    t.Grows c [leafView matched token] (t.push (some c)
      (if matched then .terminal token else .error token)).2 := by
  obtain ⟨hsize, hroot, hparent, hnew, hold⟩ :=
    push_of_rule h (if matched then .terminal token else .error token)
  refine ⟨?_, hroot, ⟨r, h, ?_⟩, hold, ?_⟩
  · cases matched <;> exact hsize
  · simpa [View.roots] using hparent
  · cases matched <;> exact ⟨hnew, trivial⟩

/-! ## The rule that was added last -/

/-- **The rule that was added last**, as the node `n`, and the trees that have been added below it since. -/
structure Opened (t : ParseTree) (n : Nat) (r : RuleNode) (vs : List View) (u : ParseTree) :
    Prop where
  /-- The rule was the last node. -/
  last : t.nodes.size = n + 1
  /-- Nothing but the trees has been added. -/
  size : u.nodes.size = n + 1 + View.sizes vs
  /-- The root stays. -/
  root : u.root = t.root
  /-- The rule has the roots of the trees for children. -/
  node : u.nodes[n]? = some (.rule r)
  /-- The rule has no other children. -/
  children : r.children.toList = View.roots (n + 1) vs
  /-- The earlier nodes stay. -/
  others : ∀ id, id < n → u.nodes[id]? = t.nodes[id]?
  /-- The new nodes hold the trees. -/
  shows : u.ShowsAll (n + 1) vs

namespace Opened

variable {r : RuleNode}

/-- Nothing has been added below the rule yet. -/
theorem start (hlast : t.nodes.size = n + 1) (hnode : t.nodes[n]? = some (.rule r))
    (hr : r.children = #[]) : t.Opened n r [] t where
  last := hlast
  size := hlast
  root := rfl
  node := hnode
  children := by rw [hr]; rfl
  others _ _ := rfl
  shows := trivial

/-- More trees are added below the rule. -/
theorem grow (h : t.Opened n r vs u) (h' : u.Grows n ws w) :
    t.Opened n { r with children := (View.roots (n + 1) (vs ++ ws)).toArray } (vs ++ ws) w where
  last := h.last
  size := by
    rw [h'.size, h.size, View.sizes_append]
    omega
  root := h'.root.trans h.root
  node := by
    -- the rule found at `n` afterwards is the one that was opened, with the first children
    obtain ⟨r', hr', hw⟩ := h'.parent
    rw [h.node] at hr'
    cases hr'
    have hchildren : r.children = (View.roots (n + 1) vs).toArray := by
      rw [← h.children]
    rw [hw, hchildren, h.size]
    simp
  children := rfl
  others id hid := by
    rw [h'.others id (by rw [h.size]; omega) (by omega), h.others id hid]
  shows := by
    rw [showsAll_append]
    refine ⟨ShowsAll.congr vs _ (fun id h1 h2 => ?_) h.shows, ?_⟩
    · -- the nodes added first lie above `n` and below what is added next
      exact h'.others id (by rw [h.size]; omega) (by omega)
    · rw [← h.size]
      exact h'.shows

/-- The rule is changed, but not its children. -/
theorem modify (h : t.Opened n r vs u) (f : RuleNode → RuleNode)
    (hf : (f r).children = r.children) : t.Opened n (f r) vs (u.modifyRule n f) where
  last := h.last
  size := by rw [size_modifyRule, h.size]
  root := h.root
  node := getElem?_modifyRule_self h.node f
  children := by rw [hf, h.children]
  others id hid := by rw [getElem?_modifyRule_ne (by omega), h.others id hid]
  shows := ShowsAll.congr vs _ (fun id h1 h2 => getElem?_modifyRule_ne (by omega) f) h.shows

/-- The rule with the trees below it is a tree. -/
theorem shows_rule (h : t.Opened n r vs u) : u.Shows n (.rule r vs) := ⟨h.node, h.children, h.shows⟩

/-- **A rule with the trees below it, added below another rule.** -/
theorem grows {r₀ : RuleNode} {node : ParseNode} (hc : t.nodes[c]? = some (.rule r₀))
    (h : (t.push (some c) node).2.Opened t.nodes.size r vs u) :
    t.Grows c [.rule r vs] u := by
  obtain ⟨hsize, hroot, hparent, -, hold⟩ := push_of_rule hc node
  have hlt : c < t.nodes.size := (Array.getElem?_eq_some_iff.mp hc).1
  refine ⟨?_, h.root.trans hroot, ⟨r₀, hc, ?_⟩, fun id hid hne => ?_, ?_⟩
  · rw [h.size]
    simp only [View.sizes, View.size]
    omega
  · rw [h.others c hlt, hparent]
    simp [View.roots]
  · rw [h.others id hid, hold id hid hne]
  · exact ⟨h.shows_rule, trivial⟩

end Opened

/-- A rule that is added to the empty tree is its root. -/
theorem push_empty {r : RuleNode} :
    (({} : ParseTree).push none (.rule r)) = (0, ⟨#[.rule r], some 0⟩) := rfl

end ParseTree

end TreeProjection
