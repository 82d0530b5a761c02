import Mathlib
import TreeProjection.Proofs.Arena

/-! # Parse trees built in any order

A recognizer lays the nodes of a tree out in order.  Whoever builds a tree by hand need not: a node may be added
below any rule, at any time.  Still a node comes after its parent and has no other, so below the root there is a tree,
and it has no more nodes than have been added.

* `ParseTree.Built` — a tree that was built node by node.
* `ParseTree.Forest` — what keeps the nodes of such a tree apart.
* `ParseTree.Built.exists_view` — the root of such a tree holds a tree. -/

namespace TreeProjection

open ParseNode (View)

namespace ParseTree

variable {t : ParseTree} {c id n : Nat} {parent : Option Nat} {node : ParseNode}

/-- **A tree that was built node by node**, in any order. -/
inductive Built : ParseTree → Prop where
  /-- Nothing has been added. -/
  | empty : Built {}
  /-- A rule is added, which has no children yet. -/
  | addRule {t : ParseTree} (h : Built t) (parent : Option Nat) (rule : RuleIndex) (start : Option Nat) :
      Built (t.push parent (.rule { rule, start })).2
  /-- A token is added that was matched. -/
  | addTerminal {t : ParseTree} (h : Built t) (parent : Option Nat) (token : Token) :
      Built (t.push parent (.terminal token)).2
  /-- A token is added that was passed over, or one that stands for a missing token. -/
  | addError {t : ParseTree} (h : Built t) (parent : Option Nat) (token : Token) :
      Built (t.push parent (.error token)).2
  /-- It is noted where a rule ended, and by which exception. -/
  | amend {t : ParseTree} (h : Built t) (id : Nat) (stop : Option Nat)
      (exception : Option RecognitionException) :
      Built (t.modifyRule id fun r => { r with stop, exception })

/-! ## Children -/

/-- The children of a node, by number. -/
def childrenAt (t : ParseTree) (id : Nat) : List Nat :=
  (t.nodes[id]?.elim #[] ParseNode.children).toList

/-- The children of a rule. -/
theorem childrenAt_of_rule {r : RuleNode} (h : t.nodes[id]? = some (.rule r)) :
    t.childrenAt id = r.children.toList := by
  rw [childrenAt, h]
  rfl

/-- Where there is no node, there are no children. -/
theorem childrenAt_of_size_le (h : t.nodes.size ≤ id) : t.childrenAt id = [] := by
  rw [childrenAt, Array.getElem?_eq_none h]
  rfl

/-- Noting something else about a rule leaves the children alone. -/
theorem childrenAt_modifyRule (f : RuleNode → RuleNode) (hf : ∀ r, (f r).children = r.children) :
    (t.modifyRule n f).childrenAt id = t.childrenAt id := by
  by_cases hid : id = n
  · subst hid
    simp only [childrenAt, modifyRule, Array.getElem?_modify, if_true]
    cases t.nodes[id]? with
    | none => rfl
    | some node =>
        cases node with
        | rule r =>
            show (f r).children.toList = _
            rw [hf]
            rfl
        | terminal token => rfl
        | error token => rfl
  · rw [childrenAt, getElem?_modifyRule_ne hid, childrenAt]

/-- A node added below a rule. -/
theorem push_below {r : RuleNode} (h : t.nodes[n]? = some (.rule r)) (node : ParseNode) :
    t.push (some n) node = (t.nodes.size, { t with nodes := t.nodes.push node }.modifyRule n fun r =>
      { r with children := r.children.push t.nodes.size }) := by
  have hrule : t.isRuleAt n = true := by simp [isRuleAt, h, ParseNode.isRule]
  simp [push, Option.filter, hrule]

/-- **Where a node is added**: below a rule, or else apart from all others, as the root if there is none. -/
theorem push_cases (t : ParseTree) (parent : Option Nat) (node : ParseNode) :
    (∃ n r, parent = some n ∧ t.nodes[n]? = some (.rule r)) ∨
      t.push parent node = (t.nodes.size, { nodes := t.nodes.push node, root := t.root.or (some t.nodes.size) }) := by
  cases parent with
  | none => exact .inr rfl
  | some n =>
      by_cases hrule : t.isRuleAt n = true
      · cases hnode : t.nodes[n]? with
        | none => simp [isRuleAt, hnode] at hrule
        | some node =>
            cases node with
            | rule r => exact .inl ⟨n, r, rfl, hnode⟩
            | terminal token => simp [isRuleAt, hnode, ParseNode.isRule] at hrule
            | error token => simp [isRuleAt, hnode, ParseNode.isRule] at hrule
      · refine .inr ?_
        simp [push, Option.filter, hrule]

/-- A node that is added has no children, and the others keep theirs. -/
theorem childrenAt_pushed (hnode : node.children = #[]) (root : Option Nat) :
    ({ nodes := t.nodes.push node, root } : ParseTree).childrenAt id = t.childrenAt id := by
  rcases Nat.lt_trichotomy id t.nodes.size with hlt | rfl | hgt
  · simp only [childrenAt, Array.getElem?_push_lt hlt, Array.getElem?_eq_getElem hlt]
  · rw [childrenAt_of_size_le (Nat.le_refl _)]
    simp [childrenAt, hnode]
  · rw [childrenAt_of_size_le (Nat.le_of_lt hgt), childrenAt_of_size_le]
    simp only [Array.size_push]
    omega

/-- The rule below which a node is added gets it for its last child. -/
theorem childrenAt_push_below {r : RuleNode} (h : t.nodes[n]? = some (.rule r)) (hnode : node.children = #[]) :
    (t.push (some n) node).2.childrenAt id =
      if id = n then t.childrenAt id ++ [t.nodes.size] else t.childrenAt id := by
  obtain ⟨-, -, hparent, hnew, hold⟩ := push_of_rule h node
  by_cases hid : id = n
  · subst hid
    rw [if_pos rfl, childrenAt_of_rule hparent, childrenAt_of_rule h, Array.toList_push]
  · rw [if_neg hid, push_below h, childrenAt, getElem?_modifyRule_ne hid]
    exact childrenAt_pushed hnode t.root

/-! ## What keeps the nodes apart -/

/-- **The nodes are kept apart**: a node comes after its parent, and it has no other. -/
structure Forest (t : ParseTree) : Prop where
  /-- A child comes after its parent. -/
  later : ∀ {id c : Nat}, c ∈ t.childrenAt id → id < c ∧ c < t.nodes.size
  /-- No node is a child of a rule twice. -/
  nodup : ∀ id, (t.childrenAt id).Nodup
  /-- No node has two parents. -/
  parent : ∀ {id id' c : Nat}, c ∈ t.childrenAt id → c ∈ t.childrenAt id' → id = id'
  /-- The root has none. -/
  root : ∀ {r : Nat}, t.root = some r → r < t.nodes.size ∧ ∀ id, r ∉ t.childrenAt id

namespace Forest

/-- A new node is no child yet. -/
theorem size_notMem (h : t.Forest) (id : Nat) : t.nodes.size ∉ t.childrenAt id :=
  fun hmem => Nat.lt_irrefl _ (h.later hmem).2

/-- **A node added below a rule.** -/
theorem push_below {r : RuleNode} (h : t.Forest) (hn : t.nodes[n]? = some (.rule r))
    (hnode : node.children = #[]) : (t.push (some n) node).2.Forest := by
  obtain ⟨hsize, hroot, -⟩ := push_of_rule hn node
  have hlt : n < t.nodes.size := (Array.getElem?_eq_some_iff.mp hn).1
  -- a child after the step is an old one of the same node, or the new node below `n`
  have hmem : ∀ {id c : Nat}, c ∈ (t.push (some n) node).2.childrenAt id ↔
      c ∈ t.childrenAt id ∨ id = n ∧ c = t.nodes.size := by
    intro id c
    rw [childrenAt_push_below hn hnode]
    by_cases hid : id = n <;> simp [hid]
  constructor
  · intro id c hc
    rw [hsize]
    rcases hmem.mp hc with hold | ⟨rfl, rfl⟩
    · have := h.later hold
      omega
    · omega
  · intro id
    rw [childrenAt_push_below hn hnode]
    split
    · rw [List.nodup_append]
      refine ⟨h.nodup id, List.nodup_singleton _, ?_⟩
      rintro a ha b hb rfl
      rw [List.mem_singleton.mp hb] at ha
      exact h.size_notMem id ha
    · exact h.nodup id
  · intro id id' c hc hc'
    rcases hmem.mp hc with hold | ⟨rfl, rfl⟩ <;> rcases hmem.mp hc' with hold' | ⟨rfl, hnew⟩
    · exact h.parent hold hold'
    · exact absurd (hnew ▸ hold) (h.size_notMem id)
    · exact absurd hold' (h.size_notMem id')
    · rfl
  · intro r hr
    rw [hroot] at hr
    rw [hsize]
    refine ⟨Nat.lt_succ_of_lt (h.root hr).1, ?_⟩
    intro id hc
    rcases hmem.mp hc with hold | ⟨-, rfl⟩
    · exact (h.root hr).2 id hold
    · exact Nat.lt_irrefl _ (h.root hr).1

/-- **A node added apart from all others.** -/
theorem push_apart (h : t.Forest) (hnode : node.children = #[]) :
    ({ nodes := t.nodes.push node, root := t.root.or (some t.nodes.size) } : ParseTree).Forest := by
  constructor
  · intro id c hc
    rw [childrenAt_pushed hnode] at hc
    have := h.later hc
    simp only [Array.size_push]
    omega
  · intro id
    rw [childrenAt_pushed hnode]
    exact h.nodup id
  · intro id id' c hc hc'
    rw [childrenAt_pushed hnode] at hc hc'
    exact h.parent hc hc'
  · intro r hr
    simp only [childrenAt_pushed hnode, Array.size_push]
    cases hroot : t.root with
    | none =>
        rw [hroot] at hr
        cases hr
        exact ⟨Nat.lt_succ_self _, h.size_notMem⟩
    | some r' =>
        rw [hroot] at hr
        cases hr
        exact ⟨Nat.lt_succ_of_lt (h.root hroot).1, (h.root hroot).2⟩

/-- A node added anywhere. -/
theorem push (h : t.Forest) (parent : Option Nat) (hnode : node.children = #[]) :
    (t.push parent node).2.Forest := by
  rcases push_cases t parent node with ⟨n, r, rfl, hn⟩ | hpush
  · exact h.push_below hn hnode
  · rw [hpush]
    exact h.push_apart hnode

/-- Something else is noted about a rule. -/
theorem modifyRule (h : t.Forest) (f : RuleNode → RuleNode) (hf : ∀ r, (f r).children = r.children) :
    (t.modifyRule n f).Forest := by
  constructor
  · intro id c hc
    rw [childrenAt_modifyRule f hf] at hc
    rw [size_modifyRule]
    exact h.later hc
  · intro id
    rw [childrenAt_modifyRule f hf]
    exact h.nodup id
  · intro id id' c hc hc'
    rw [childrenAt_modifyRule f hf] at hc hc'
    exact h.parent hc hc'
  · intro r hr
    simp only [childrenAt_modifyRule f hf, size_modifyRule]
    exact h.root hr

end Forest

/-- **A tree that was built node by node keeps its nodes apart.** -/
theorem Built.forest (h : t.Built) : t.Forest := by
  induction h with
  | empty => exact ⟨by simp [childrenAt], by simp [childrenAt], by simp [childrenAt], by simp⟩
  | addRule _ parent rule start ih => exact ih.push parent rfl
  | addTerminal _ parent token ih => exact ih.push parent rfl
  | addError _ parent token ih => exact ih.push parent rfl
  | amend _ id stop exception ih => exact ih.modifyRule _ fun _ => rfl

/-! ## The tree below a node -/

/-- A node holds no two trees. -/
theorem Holds.eq {v w : View} (h : t.Holds id v) (h' : t.Holds id w) : v = w := by
  have hv := viewAt_of_holds v id (max v.size w.size) h (Nat.le_max_left _ _)
  have hw := viewAt_of_holds w id (max v.size w.size) h' (Nat.le_max_right _ _)
  rw [hv] at hw
  exact Option.some.inj hw

/-- Nodes that hold a tree each hold trees. -/
theorem HoldsAll.of_forall {view : Nat → View} : ∀ {ids : List Nat}, (∀ id ∈ ids, t.Holds id (view id)) →
    t.HoldsAll ids (ids.map view)
  | [], _ => trivial
  | id :: _, h =>
    ⟨h id List.mem_cons_self, HoldsAll.of_forall fun c hc => h c (List.mem_cons_of_mem _ hc)⟩

/-- Where children come after their parents, **every node holds a tree**. -/
theorem Forest.exists_holds (h : t.Forest) (hid : id < t.nodes.size) : ∃ v, t.Holds id v := by
  -- by induction on how many nodes come after this one
  induction hk : t.nodes.size - id using Nat.strongRecOn generalizing id with
  | ind k ih =>
      subst hk
      cases hnode : t.nodes[id]? with
      | none => exact absurd (Array.getElem?_eq_none_iff.mp hnode) (Nat.not_le_of_lt hid)
      | some node =>
          cases node with
          | terminal token => exact ⟨.terminal token, hnode⟩
          | error token => exact ⟨.error token, hnode⟩
          | rule r =>
              have hchild : ∀ c, ∃ v, c ∈ t.childrenAt id → t.Holds c v := by
                intro c
                by_cases hc : c ∈ t.childrenAt id
                · have hlater := h.later hc
                  obtain ⟨v, hv⟩ := ih _ (by omega) hlater.2 rfl
                  exact ⟨v, fun _ => hv⟩
                · exact ⟨.terminal default, fun hc' => absurd hc' hc⟩
              choose view hview using hchild
              rw [childrenAt_of_rule hnode] at hview
              exact ⟨.rule r (r.children.toList.map view), hnode, HoldsAll.of_forall hview⟩

/-- The number of nodes of trees is the sum of their numbers of nodes. -/
theorem sizes_eq_sum (view : Nat → View) : ∀ {ids : List Nat} {vs : List View}, t.HoldsAll ids vs →
    (∀ id ∈ ids, t.Holds id (view id)) → View.sizes vs = (ids.map fun id => (view id).size).sum
  | [], [], _, _ => rfl
  | id :: ids, v :: vs, h, hview => by
      have hv := Holds.eq h.1 (hview id List.mem_cons_self)
      have hvs := sizes_eq_sum view h.2 fun c hc => hview c (List.mem_cons_of_mem _ hc)
      rw [View.sizes, List.map_cons, List.sum_cons, hv, hvs]

/-- A node holds itself and what its children hold. -/
theorem Forest.size_eq {view : Nat → View} (h : t.Forest)
    (hview : ∀ id, id < t.nodes.size → t.Holds id (view id)) (hid : id < t.nodes.size) :
    (view id).size = 1 + ∑ c ∈ (t.childrenAt id).toFinset, (view c).size := by
  have hself := hview id hid
  rw [List.sum_toFinset _ (h.nodup id)]
  cases hv : view id with
  | rule r children =>
      rw [hv] at hself
      have hchildren := childrenAt_of_rule hself.1
      have hsizes := sizes_eq_sum view hself.2 fun c hc =>
        hview c (h.later (hchildren ▸ hc)).2
      rw [View.size, hsizes, hchildren, Nat.add_comm]
  | terminal token =>
      rw [hv] at hself
      have hnode : t.nodes[id]? = _ := hself
      simp [View.size, childrenAt, hnode, ParseNode.children]
  | error token =>
      rw [hv] at hself
      have hnode : t.nodes[id]? = _ := hself
      simp [View.size, childrenAt, hnode, ParseNode.children]

/-- **The root of a forest holds no more nodes than there are.** Add up what all nodes hold: each node counts once for
itself, and once more for what its children hold; but no node is a child twice, and the root is none. -/
theorem Forest.exists_view {r : Nat} (h : t.Forest) (hroot : t.root = some r) :
    ∃ v, t.Holds r v ∧ v.size ≤ t.size := by
  have hall : ∀ id, ∃ v, id < t.nodes.size → t.Holds id v := by
    intro id
    by_cases hid : id < t.nodes.size
    · exact (h.exists_holds hid).imp fun v hv _ => hv
    · exact ⟨.terminal default, fun hid' => absurd hid' hid⟩
  choose view hview using hall
  have hr := (h.root hroot).1
  refine ⟨view r, hview r hr, ?_⟩
  let nodes := Finset.range t.nodes.size
  let children := nodes.biUnion fun id => (t.childrenAt id).toFinset
  have htotal : ∑ id ∈ nodes, (view id).size = t.nodes.size + ∑ c ∈ children, (view c).size := by
    have hdisjoint : (nodes : Set Nat).PairwiseDisjoint fun id => (t.childrenAt id).toFinset := by
      intro id _ id' _ hne
      rw [Function.onFun, Finset.disjoint_left]
      intro c hc hc'
      exact hne (h.parent (List.mem_toFinset.mp hc) (List.mem_toFinset.mp hc'))
    calc ∑ id ∈ nodes, (view id).size
        = ∑ id ∈ nodes, (1 + ∑ c ∈ (t.childrenAt id).toFinset, (view c).size) :=
          Finset.sum_congr rfl fun id hid => h.size_eq hview (Finset.mem_range.mp hid)
      _ = t.nodes.size + ∑ id ∈ nodes, ∑ c ∈ (t.childrenAt id).toFinset, (view c).size := by
          rw [Finset.sum_add_distrib, ← Finset.card_eq_sum_ones, Finset.card_range]
      _ = t.nodes.size + ∑ c ∈ children, (view c).size := by
          rw [Finset.sum_biUnion hdisjoint]
  have hnotMem : r ∉ children := by
    intro hmem
    obtain ⟨id, -, hid⟩ := Finset.mem_biUnion.mp hmem
    exact (h.root hroot).2 id (List.mem_toFinset.mp hid)
  have hsubset : insert r children ⊆ nodes := by
    intro c hc
    rcases Finset.mem_insert.mp hc with rfl | hc
    · exact Finset.mem_range.mpr hr
    · obtain ⟨id, -, hid⟩ := Finset.mem_biUnion.mp hc
      exact Finset.mem_range.mpr (h.later (List.mem_toFinset.mp hid)).2
  have hle : ∑ c ∈ insert r children, (view c).size ≤ ∑ id ∈ nodes, (view id).size :=
    Finset.sum_le_sum_of_subset hsubset
  rw [Finset.sum_insert hnotMem, htotal] at hle
  exact Nat.le_of_add_le_add_right hle

/-- **The root of a tree that was built node by node holds a tree**, of no more nodes than have been added. -/
theorem Built.exists_view {r : Nat} (h : t.Built) (hroot : t.root = some r) :
    ∃ v, t.Holds r v ∧ v.size ≤ t.size := h.forest.exists_view hroot

/-- The root is seen as the tree that it holds. -/
theorem view?_of_holds {r : Nat} {v : View} (hroot : t.root = some r) (h : t.Holds r v) (hsize : v.size ≤ t.size) :
    t.view? = some v := by
  rw [view?, hroot, Option.bind_some, viewAt_of_holds v r t.size h hsize]

end ParseTree

end TreeProjection
