import TreeProjection.Proofs.Alongside
import TreeProjection.Proofs.Arena

/-! # Trees without anchors

An error that has nothing to show for itself in the tree can be given an anchor there: an error leaf for the end of the
input, or a place for a token that is made up.  Two trees that differ in anchors alone differ in the numbers of their
nodes as well, since an anchor that is a leaf has a number of its own.  So the trees are compared by pairs of nodes that
belong together.

* `ParseNode.View.trim` — a tree without its anchors.
* `ParseTree.Resembles` — two trees with the same nodes, anchors apart.
* `ParseTree.Resembles.push`, `ParseTree.Resembles.push_anchor` — the same node is added to both, or an anchor to one.
* `ParseTree.Resembles.view` — two such trees are one tree without its anchors. -/

namespace TreeProjection

/-- A token without its place if it is made up. -/
def Token.unanchored (t : Token) : Token := if t.isConjured then { t with span := none } else t

namespace ParseNode.View

mutual

/-- **A tree without its anchors**, if anything is left of it: there are no error leaves for the end of the input, and
tokens that are made up have no place.  What numbers the children had is left out. -/
def trim : ParseNode.View → List ParseNode.View
  | rule r children => [rule { r with children := #[] } (trimAll children)]
  | terminal t => [terminal t]
  | error t => if t.isEof then [] else [error t.unanchored]

/-- Several trees without their anchors. -/
def trimAll : List ParseNode.View → List ParseNode.View
  | [] => []
  | v :: rest => trim v ++ trimAll rest

end

end ParseNode.View

open ParseNode (View)

variable {pair pair' : Nat → Nat → Prop} {t t' u u' : ParseTree} {i j : Nat} {is js : List Nat}

/-! ## Nodes that belong together -/

namespace ParseTree

/-- Whether a node is an error leaf for the end of the input. -/
def IsAnchor (t : ParseTree) (i : Nat) : Prop := ∃ token, t.nodes[i]? = some (.error token) ∧ token.isEof = true

/-- **Children that belong together**, in the same order, with anchors between them on both sides. -/
inductive Siblings (pair : Nat → Nat → Prop) (t t' : ParseTree) : List Nat → List Nat → Prop where
  /-- There are no more children. -/
  | nil : Siblings pair t t' [] []
  /-- The next two belong together. -/
  | both {i j : Nat} {is js : List Nat} (belong : pair i j) (rest : Siblings pair t t' is js) :
    Siblings pair t t' (i :: is) (j :: js)
  /-- The next one of the first tree is an anchor. -/
  | left {i : Nat} {is js : List Nat} (anchor : t.IsAnchor i) (rest : Siblings pair t t' is js) :
    Siblings pair t t' (i :: is) js
  /-- The next one of the second tree is an anchor. -/
  | right {j : Nat} {is js : List Nat} (anchor : t'.IsAnchor j) (rest : Siblings pair t t' is js) :
    Siblings pair t t' is (j :: js)

namespace Siblings

/-- More may belong together, and anchors may be added. -/
theorem mono (h : Siblings pair t t' is js) (hpair : ∀ i j, pair i j → pair' i j)
    (ht : ∀ i, t.IsAnchor i → u.IsAnchor i) (ht' : ∀ j, t'.IsAnchor j → u'.IsAnchor j) :
    Siblings pair' u u' is js := by
  induction h with
  | nil => exact .nil
  | both belong _ ih => exact .both (hpair _ _ belong) ih
  | left anchor _ ih => exact .left (ht _ anchor) ih
  | right anchor _ ih => exact .right (ht' _ anchor) ih

/-- The other way round. -/
theorem symm (h : Siblings pair t t' is js) : Siblings (flip pair) t' t js is := by
  induction h with
  | nil => exact .nil
  | both belong _ ih => exact .both belong ih
  | left anchor _ ih => exact .right anchor ih
  | right anchor _ ih => exact .left anchor ih

/-- First some children, and then more. -/
theorem append {is' js' : List Nat} (h : Siblings pair t t' is js) (h' : Siblings pair t t' is' js') :
    Siblings pair t t' (is ++ is') (js ++ js') := by
  induction h with
  | nil => exact h'
  | both belong _ ih => exact .both belong ih
  | left anchor _ ih => exact .left anchor ih
  | right anchor _ ih => exact .right anchor ih

/-- Without nodes that belong together and without anchors there are no children. -/
theorem eq_nil (h : Siblings pair t t' is js) (hpair : ∀ i j, ¬ pair i j) (ht : ∀ i, ¬ t.IsAnchor i) : is = [] := by
  induction h with
  | nil => rfl
  | both belong _ _ => exact absurd belong (hpair _ _)
  | left anchor _ _ => exact absurd anchor (ht _)
  | right _ _ ih => exact ih

end Siblings

end ParseTree

/-- **Two nodes that belong together**: rules that are the same but for their children, with children that belong
together, or leaves of the same token. -/
inductive ParseNode.Resembles (pair : Nat → Nat → Prop) (t t' : ParseTree) : ParseNode → ParseNode → Prop where
  /-- Both are rules. -/
  | rule {r r' : RuleNode} (same : { r with children := #[] } = { r' with children := #[] })
    (children : t.Siblings pair t' r.children.toList r'.children.toList) :
    ParseNode.Resembles pair t t' (.rule r) (.rule r')
  /-- Both are leaves of a token that was matched. -/
  | terminal (token : Token) : ParseNode.Resembles pair t t' (.terminal token) (.terminal token)
  /-- Both are error leaves, and not for the end of the input. -/
  | error {token token' : Token} (same : token.unanchored = token'.unanchored) (notEnd : token.isEof = false) :
    ParseNode.Resembles pair t t' (.error token) (.error token')

namespace ParseTree

/-- The children of each rule come after it. -/
def Forward (t : ParseTree) : Prop :=
  ∀ (i : Nat) (r : RuleNode), t.nodes[i]? = some (.rule r) → ∀ c ∈ r.children.toList, i < c

/-- **Two trees that are the same but for anchors.** -/
structure Resembles (pair : Nat → Nat → Prop) (t t' : ParseTree) : Prop where
  /-- No node belongs together with two others. -/
  pairedOff : PairedOff pair
  /-- Nodes that belong together are the same but for anchors. -/
  nodes : ∀ i j, pair i j → ∃ n n', t.nodes[i]? = some n ∧ t'.nodes[j]? = some n' ∧ n.Resembles pair t t' n'
  /-- The roots belong together. -/
  root : ∃ i j, t.root = some i ∧ t'.root = some j ∧ pair i j
  /-- In the first tree children come after their rules. -/
  forward : t.Forward
  /-- In the second tree children come after their rules. -/
  forward' : t'.Forward

end ParseTree

/-- Leaves of one token, but for the place of a token that is made up, are of the same type. -/
theorem Token.isEof_of_unanchored {a b : Token} (h : a.unanchored = b.unanchored) : a.isEof = b.isEof := by
  have hsame : ∀ t : Token, t.unanchored.isEof = t.isEof := fun t => by
    unfold Token.unanchored
    cases t.isConjured <;> rfl
  rw [← hsame a, h, hsame b]

/-- Such tokens are made up both or neither. -/
theorem Token.isConjured_of_unanchored {a b : Token} (h : a.unanchored = b.unanchored) :
    a.isConjured = b.isConjured := by
  have hsame : ∀ t : Token, t.unanchored.isConjured = t.isConjured := fun t => by
    unfold Token.unanchored
    cases ht : t.isConjured <;> exact ht
  rw [← hsame a, h, hsame b]

namespace ParseNode.Resembles

variable {n n' : ParseNode}

/-- More may belong together, and anchors may be added. -/
theorem mono (h : n.Resembles pair t t' n') (hpair : ∀ i j, pair i j → pair' i j)
    (ht : ∀ i, t.IsAnchor i → u.IsAnchor i) (ht' : ∀ j, t'.IsAnchor j → u'.IsAnchor j) :
    n.Resembles pair' u u' n' := by
  cases h with
  | rule same children => exact .rule same (children.mono hpair ht ht')
  | terminal token => exact .terminal token
  | error same notEnd => exact .error same notEnd

/-- The other way round. -/
theorem symm (h : n.Resembles pair t t' n') : n'.Resembles (flip pair) t' t n := by
  cases h with
  | rule same children => exact .rule same.symm children.symm
  | terminal token => exact .terminal token
  | error same notEnd => exact .error same.symm ((Token.isEof_of_unanchored same).symm.trans notEnd)

end ParseNode.Resembles

namespace ParseTree

/-- The other way round. -/
theorem Resembles.symm (h : t.Resembles pair t') : t'.Resembles (flip pair) t where
  pairedOff _ _ _ _ hij hkl := (h.pairedOff hij hkl).symm
  nodes j i hij := by
    obtain ⟨n, n', hn, hn', hlike⟩ := h.nodes i j hij
    exact ⟨n', n, hn', hn, hlike.symm⟩
  root := by
    obtain ⟨i, j, hi, hj, hij⟩ := h.root
    exact ⟨j, i, hj, hi, hij⟩
  forward := h.forward'
  forward' := h.forward

/-! ## Adding nodes -/

variable {c : Option Nat} {node : ParseNode}

/-- A tree that has a root keeps it. -/
theorem root_push (h : t.root = some i) (c : Option Nat) (node : ParseNode) :
    (t.push c node).2.root = some i := by
  unfold push
  cases c.filter t.isRuleAt with
  | none => simp [h]
  | some c => exact h

/-- Anchors stay. -/
theorem IsAnchor.push (h : t.IsAnchor i) (c : Option Nat) (node : ParseNode) : (t.push c node).2.IsAnchor i := by
  obtain ⟨token, hi, hend⟩ := h
  have hlt := (Array.getElem?_eq_some_iff.mp hi).1
  refine ⟨token, ?_, hend⟩
  rw [getElem?_push, if_neg (by omega), hi]
  simp [withChild]

/-- Children still come after their rules. -/
theorem Forward.push (h : t.Forward) (c : Option Nat) (hnode : ∀ r, node = .rule r → r.children = #[]) :
    (t.push c node).2.Forward := by
  intro i r hr
  rw [getElem?_push] at hr
  -- the new node has no children yet, and the only rule that gets one gets the last node of all
  by_cases hlast : i = t.nodes.size
  · rw [if_pos hlast] at hr
    simp [hnode r (Option.some.inj hr)]
  · rw [if_neg hlast] at hr
    by_cases hc : c = some i
    · rw [if_pos hc] at hr
      obtain ⟨n, hn, hwith⟩ := Option.map_eq_some_iff.mp hr
      cases n with
      | rule r₀ =>
          obtain rfl := ParseNode.rule.inj hwith
          have hlt := (Array.getElem?_eq_some_iff.mp hn).1
          simp only [Array.toList_push, List.mem_append, List.mem_singleton]
          rintro d (hd | rfl)
          · exact h i r₀ hn d hd
          · exact hlt
      | terminal token => cases hwith
      | error token => cases hwith
    · rw [if_neg hc] at hr
      exact h i r hr

end ParseTree

namespace ParseNode

variable {n n' : ParseNode}

/-- Two nodes without children that are the same but for anchors. -/
def Alike (n n' : ParseNode) : Prop := n.Resembles (fun _ _ => False) {} {} n'

/-- Whatever else there is, such nodes may belong together. -/
theorem Alike.resembles (h : n.Alike n') : n.Resembles pair t t' n' :=
  h.mono (fun _ _ h => h.elim) (fun _ ⟨_, hi, _⟩ => by simp at hi) fun _ ⟨_, hj, _⟩ => by simp at hj

/-- The other way round. -/
theorem Alike.symm (h : n.Alike n') : n'.Alike n :=
  (Resembles.symm h).mono (fun _ _ h => h.elim) (fun _ h => h) fun _ h => h

/-- Such a node has no children. -/
theorem Alike.children (h : n.Alike n') {r : RuleNode} (hr : n = .rule r) : r.children = #[] := by
  subst hr
  cases h with
  | rule _ children => exact Array.toList_eq_nil_iff.mp (children.eq_nil (fun _ _ => id) (by simp [ParseTree.IsAnchor]))

/-- Both get further children that belong together. -/
theorem Resembles.withChild (h : n.Resembles pair t t' n') (hij : pair i j) :
    (ParseTree.withChild i n).Resembles pair t t' (ParseTree.withChild j n') := by
  cases h with
  | rule same children =>
      refine .rule same ?_
      simp only [Array.toList_push]
      exact children.append (.both hij .nil)
  | terminal token => exact .terminal token
  | error same notEnd => exact .error same notEnd

/-- The second one gets an anchor for a further child. -/
theorem Resembles.withAnchor (h : n.Resembles pair t t' n') (hj : t'.IsAnchor j) :
    n.Resembles pair t t' (ParseTree.withChild j n') := by
  cases h with
  | rule same children =>
      refine .rule same ?_
      simp only [Array.toList_push]
      have hmore := children.append (.right hj .nil)
      rwa [List.append_nil] at hmore
  | terminal token => exact .terminal token
  | error same notEnd => exact .error same notEnd

end ParseNode

namespace ParseTree

variable {c c' : Option Nat} {n n' : ParseNode}

/-- **The same node is added to both trees**, below nodes that belong together. -/
theorem Resembles.push (h : t.Resembles pair t') (hc : Option.Rel pair c c') (hnode : n.Alike n') :
    ∃ pair' : Nat → Nat → Prop, (∀ i j, pair i j → pair' i j) ∧ pair' t.nodes.size t'.nodes.size ∧
      (t.push c n).2.Resembles pair' (t'.push c' n').2 := by
  refine ⟨fun i j => pair i j ∨ i = t.nodes.size ∧ j = t'.nodes.size, fun _ _ => .inl, .inr ⟨rfl, rfl⟩, ?_⟩
  have hlt : ∀ {i j}, pair i j → i < t.nodes.size ∧ j < t'.nodes.size := by
    intro i j hij
    obtain ⟨m, m', hm, hm', -⟩ := h.nodes i j hij
    exact ⟨(Array.getElem?_eq_some_iff.mp hm).1, (Array.getElem?_eq_some_iff.mp hm').1⟩
  constructor
  · rintro i j k l (hij | ⟨rfl, rfl⟩) (hkl | ⟨rfl, rfl⟩)
    · exact h.pairedOff hij hkl
    · have := hlt hij
      omega
    · have := hlt hkl
      omega
    · exact ⟨fun _ => rfl, fun _ => rfl⟩
  · rintro i j (hij | ⟨rfl, rfl⟩)
    · obtain ⟨m, m', hm, hm', hlike⟩ := h.nodes i j hij
      obtain ⟨hi, hj⟩ := hlt hij
      have hlike' : m.Resembles (fun i j => pair i j ∨ i = t.nodes.size ∧ j = t'.nodes.size)
          (t.push c n).2 (t'.push c' n').2 m' :=
        hlike.mono (fun _ _ => .inl) (fun _ ha => ha.push c n) fun _ ha => ha.push c' n'
      simp only [getElem?_push, if_neg (Nat.ne_of_lt hi), if_neg (Nat.ne_of_lt hj), hm, hm']
      -- the parents belong together, so they are the two nodes looked at or neither is
      have hparent : c = some i ↔ c' = some j := by
        cases hc with
        | none => simp
        | some hab => simpa using h.pairedOff hab hij
      by_cases hi : c = some i
      · rw [if_pos hi, if_pos (hparent.mp hi)]
        exact ⟨_, _, rfl, rfl, hlike'.withChild (.inr ⟨rfl, rfl⟩)⟩
      · rw [if_neg hi, if_neg (mt hparent.mpr hi)]
        exact ⟨_, _, rfl, rfl, hlike'⟩
    · simp only [getElem?_push, if_true]
      exact ⟨n, n', rfl, rfl, hnode.resembles⟩
  · obtain ⟨i, j, hi, hj, hij⟩ := h.root
    exact ⟨i, j, root_push hi c n, root_push hj c' n', .inl hij⟩
  · exact h.forward.push c fun r hr => hnode.children hr
  · exact h.forward'.push c' fun r hr => hnode.symm.children hr

/-- **An anchor is added to the second tree.** -/
theorem Resembles.push_anchor (h : t.Resembles pair t') (c : Option Nat) {token : Token} (hend : token.isEof = true) :
    t.Resembles pair (t'.push c (.error token)).2 where
  pairedOff := h.pairedOff
  nodes i j hij := by
    -- the first tree stays as it is, so the nodes that belong together are those that did
    obtain ⟨m, m', hm, hm', hlike⟩ := h.nodes i j hij
    have hj := (Array.getElem?_eq_some_iff.mp hm').1
    have hnew : (t'.push c (.error token)).2.IsAnchor t'.nodes.size := ⟨token, by simp [getElem?_push], hend⟩
    have hlike' := hlike.mono (fun _ _ => id) (fun _ => id) fun _ ha => ha.push c (.error token)
    simp only [getElem?_push, if_neg (Nat.ne_of_lt hj), hm']
    by_cases hc : c = some j
    · rw [if_pos hc]
      exact ⟨_, _, hm, rfl, hlike'.withAnchor hnew⟩
    · rw [if_neg hc]
      exact ⟨_, _, hm, rfl, hlike'⟩
  root := by
    obtain ⟨i, j, hi, hj, hij⟩ := h.root
    exact ⟨i, j, hi, root_push hj c _, hij⟩
  forward := h.forward
  forward' := h.forward'.push c fun _ hr => nomatch hr

/-- **An error leaf is added to both trees**, or an anchor is added to both. -/
theorem Resembles.push_error (h : t.Resembles pair t') (hc : Option.Rel pair c c') {a b : Token}
    (hab : a.unanchored = b.unanchored) : ∃ pair' : Nat → Nat → Prop, (∀ i j, pair i j → pair' i j) ∧
      (t.push c (.error a)).2.Resembles pair' (t'.push c' (.error b)).2 := by
  cases hend : a.isEof with
  | false =>
      obtain ⟨pair', hpair, -, hpushed⟩ := h.push hc (.error hab hend)
      exact ⟨pair', hpair, hpushed⟩
  | true =>
      have hend' : b.isEof = true := (Token.isEof_of_unanchored hab).symm.trans hend
      exact ⟨pair, fun _ _ => id, ((h.push_anchor c' hend').symm.push_anchor c hend).symm⟩

/-! ## Changing rules -/

/-- Anchors stay when a rule is changed. -/
theorem IsAnchor.modifyRule (h : t.IsAnchor i) (k : Nat) (f : RuleNode → RuleNode) :
    (t.modifyRule k f).IsAnchor i := by
  obtain ⟨token, hi, hend⟩ := h
  refine ⟨token, ?_, hend⟩
  simp only [ParseTree.modifyRule, Array.getElem?_modify, hi]
  split <;> rfl

/-- Children still come after their rules if a rule is changed, but not its children. -/
theorem Forward.modifyRule (h : t.Forward) (k : Nat) {f : RuleNode → RuleNode}
    (hf : ∀ r, (f r).children = r.children) : (t.modifyRule k f).Forward := by
  intro i r hr
  by_cases hk : i = k
  · subst hk
    simp only [ParseTree.modifyRule, Array.getElem?_modify, if_true] at hr
    obtain ⟨n, hn, hchanged⟩ := Option.map_eq_some_iff.mp hr
    cases n with
    | rule r₀ =>
        obtain rfl := ParseNode.rule.inj hchanged
        rw [hf]
        exact h i r₀ hn
    | terminal token => cases hchanged
    | error token => cases hchanged
  · rw [getElem?_modifyRule_ne hk] at hr
    exact h i r hr

/-- **Rules that belong together are changed** in the same way. -/
theorem Resembles.modifyRule (h : t.Resembles pair t') (hij : pair i j) {f : RuleNode → RuleNode}
    (hf : ∀ r, (f r).children = r.children)
    (hsame : ∀ r r' : RuleNode, { r with children := #[] } = { r' with children := #[] } →
      { f r with children := #[] } = { f r' with children := #[] }) :
    (t.modifyRule i f).Resembles pair (t'.modifyRule j f) where
  pairedOff := h.pairedOff
  nodes k l hkl := by
    obtain ⟨m, m', hm, hm', hlike⟩ := h.nodes k l hkl
    have hlike' := hlike.mono (fun _ _ => id) (fun _ ha => ha.modifyRule i f) fun _ ha => ha.modifyRule j f
    -- by being paired off, one of the two is changed exactly if the other is
    by_cases hk : k = i
    · obtain rfl := hk
      obtain rfl := (h.pairedOff hkl hij).mp rfl
      cases hlike' with
      | @rule r r' same children =>
          refine ⟨_, _, getElem?_modifyRule_self hm f, getElem?_modifyRule_self hm' f, .rule (hsame r r' same) ?_⟩
          rwa [hf, hf]
      | terminal token =>
          refine ⟨.terminal token, .terminal token, ?_, ?_, .terminal token⟩ <;>
            simp [ParseTree.modifyRule, Array.getElem?_modify, hm, hm']
      | @error a b same notEnd =>
          refine ⟨.error a, .error b, ?_, ?_, .error same notEnd⟩ <;>
            simp [ParseTree.modifyRule, Array.getElem?_modify, hm, hm']
    · have hl : l ≠ j := fun hl => hk ((h.pairedOff hkl hij).mpr hl)
      exact ⟨m, m', (getElem?_modifyRule_ne hk f).trans hm, (getElem?_modifyRule_ne hl f).trans hm', hlike'⟩
  root := h.root
  forward := h.forward.modifyRule i hf
  forward' := h.forward'.modifyRule j hf

/-! ## Without anchors -/

/-- A node that is an anchor is seen as one. -/
theorem IsAnchor.viewAt (h : t.IsAnchor i) (depth : Nat) (hdepth : t.nodes.size - i ≤ depth) :
    ∃ token, t.viewAt depth i = some (.error token) ∧ token.isEof = true := by
  obtain ⟨token, hi, hend⟩ := h
  have hlt := (Array.getElem?_eq_some_iff.mp hi).1
  match depth, hdepth with
  | 0, hdepth => omega
  | depth + 1, _ => exact ⟨token, by simp only [ParseTree.viewAt, hi], hend⟩

/-- **What is seen below nodes that belong together** is the same without anchors, if it is looked at deep enough. -/
theorem Resembles.viewAt (h : t.Resembles pair t') (depth : Nat) : ∀ {i j : Nat} (depth' : Nat), pair i j →
    t.nodes.size - i ≤ depth → t'.nodes.size - j ≤ depth' →
      ∃ v v', t.viewAt depth i = some v ∧ t'.viewAt depth' j = some v' ∧ v.trim = v'.trim := by
  induction depth with
  | zero =>
      intro i j depth' hij hdepth _
      obtain ⟨m, m', hm, -, -⟩ := h.nodes i j hij
      have := (Array.getElem?_eq_some_iff.mp hm).1
      omega
  | succ depth ih =>
      intro i j depth' hij hdepth hdepth'
      obtain ⟨m, m', hm, hm', hlike⟩ := h.nodes i j hij
      have hj := (Array.getElem?_eq_some_iff.mp hm').1
      obtain ⟨depth', rfl⟩ : ∃ d, depth' = d + 1 := ⟨depth' - 1, by omega⟩
      cases hlike with
      | terminal token => exact ⟨.terminal token, .terminal token, by simp only [ParseTree.viewAt, hm],
          by simp only [ParseTree.viewAt, hm'], rfl⟩
      | @error a b same notEnd =>
          have hend := (Token.isEof_of_unanchored same).symm.trans notEnd
          exact ⟨.error a, .error b, by simp only [ParseTree.viewAt, hm], by simp only [ParseTree.viewAt, hm'],
            by simp only [View.trim, notEnd, hend, same]⟩
      | @rule r r' same children =>
          refine ⟨.rule r (r.children.toList.filterMap (t.viewAt depth)),
            .rule r' (r'.children.toList.filterMap (t'.viewAt depth')), by simp only [ParseTree.viewAt, hm],
            by simp only [ParseTree.viewAt, hm'], ?_⟩
          -- the children come after the rules, so that they are looked at deep enough as well
          have hall : ∀ {is js : List Nat}, t.Siblings pair t' is js → (∀ c ∈ is, i < c) → (∀ c ∈ js, j < c) →
              View.trimAll (is.filterMap (t.viewAt depth)) = View.trimAll (js.filterMap (t'.viewAt depth')) := by
            intro is js hsiblings
            induction hsiblings with
            | nil => exact fun _ _ => rfl
            | @both k l is js belong _ ihs =>
                intro his hjs
                have hk := his k List.mem_cons_self
                have hl := hjs l List.mem_cons_self
                obtain ⟨v, v', hv, hv', htrim⟩ := ih depth' belong (by omega) (by omega)
                simp only [List.filterMap_cons, hv, hv', View.trimAll, htrim,
                  ihs (fun c hc => his c (List.mem_cons_of_mem _ hc)) fun c hc => hjs c (List.mem_cons_of_mem _ hc)]
            | @left k is js anchor _ ihs =>
                intro his hjs
                have hk := his k List.mem_cons_self
                obtain ⟨token, hv, hend⟩ := anchor.viewAt depth (by omega)
                simp only [List.filterMap_cons, hv, View.trimAll, View.trim, hend, if_true, List.nil_append]
                exact ihs (fun c hc => his c (List.mem_cons_of_mem _ hc)) hjs
            | @right l is js anchor _ ihs =>
                intro his hjs
                have hl := hjs l List.mem_cons_self
                obtain ⟨token, hv, hend⟩ := anchor.viewAt depth' (by omega)
                simp only [List.filterMap_cons, hv, View.trimAll, View.trim, hend, if_true, List.nil_append]
                exact ihs his fun c hc => hjs c (List.mem_cons_of_mem _ hc)
          simp only [View.trim, same, hall children (h.forward i r hm) (h.forward' j r' hm')]

/-- **Two trees that are the same but for anchors** are one tree without them. -/
theorem Resembles.view (h : t.Resembles pair t') : t.view?.map View.trim = t'.view?.map View.trim := by
  obtain ⟨i, j, hi, hj, hij⟩ := h.root
  obtain ⟨v, v', hv, hv', htrim⟩ := h.viewAt t.nodes.size t'.nodes.size hij (Nat.sub_le _ _) (Nat.sub_le _ _)
  have hview : t.view? = some v := by rw [view?, hi]; exact hv
  have hview' : t'.view? = some v' := by rw [view?, hj]; exact hv'
  rw [hview, hview', Option.map_some, Option.map_some, htrim]

/-- A rule that is the only node on both sides. -/
theorem resembles_root {r : RuleNode} (hr : r.children = #[]) :
    (({} : ParseTree).push none (.rule r)).2.Resembles (fun i j => i = 0 ∧ j = 0)
      (({} : ParseTree).push none (.rule r)).2 := by
  rw [push_empty]
  have hforward : ParseTree.Forward ⟨#[.rule r], some 0⟩ := by
    intro i r' hr' c hc
    match i, hr' with
    | 0, hr' =>
        obtain rfl : r = r' := by simpa using hr'
        simp [hr] at hc
    | i + 1, hr' => simp at hr'
  refine ⟨?_, ?_, ⟨0, 0, rfl, rfl, rfl, rfl⟩, hforward, hforward⟩
  · rintro i j k l ⟨rfl, rfl⟩ ⟨rfl, rfl⟩
    exact Iff.rfl
  · rintro i j ⟨rfl, rfl⟩
    refine ⟨.rule r, .rule r, rfl, rfl, .rule rfl ?_⟩
    rw [hr]
    exact .nil

end ParseTree

end TreeProjection
