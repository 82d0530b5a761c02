import Mathlib.Data.List.Intervals
import Mathlib.Logic.Relation
import TreeProjection.Proofs.Arena

/-! # Parse trees are trees

The nodes of a parse tree are held in the order in which they were added, and children are listed by number, so that a
`ParseTree` need not be a tree.  It stays one because a node is always added below a rule that is still open, and the
open rules are the last nodes of their levels: the newest node comes after everything else in a traversal.

* `ParseTree.Lists`, `ParseTree.preorder`, `ParseTree.IsTree` — trees, built in the order of a traversal.
* `ParseTree.Spans` — the nodes below a node are the ones right after it.
* `ParseTree.Spine` — the rules that are still open.
* `ParseTree.Spine.push`, `ParseTree.Spine.modify` — nodes are added below the innermost of them, and rules are changed.
* `ParseTree.Spans.isTree` — what is spanned is a tree. -/

namespace TreeProjection.ParseTree

variable {t u : ParseTree} {lo mid hi id n : Nat} {cs cs' ns ms : List Nat}

/-- The children of a node, if there is such a node. -/
def childrenOf? (t : ParseTree) (id : Nat) : Option (List Nat) := t.nodes[id]?.map fun node => node.children.toList

/-- A node is listed as a child of a rule. -/
def Lists (t : ParseTree) (p c : Nat) : Prop := ∃ r : RuleNode, t.nodes[p]? = some (.rule r) ∧ c ∈ r.children.toList

/-- The nodes below a node and the node itself, each before those below it and these in order; at most `depth` levels. -/
def preorder (t : ParseTree) : (depth id : Nat) → List Nat
  | 0, _ => []
  | depth + 1, id =>
    match t.childrenOf? id with
    | some children => id :: children.flatMap (preorder t depth)
    | none => []

/-- **A parse tree is a tree**, the nodes of which have been added in the order of a traversal. -/
structure IsTree (t : ParseTree) : Prop where
  /-- The first node is the root, and a rule. -/
  root : 0 < t.size → t.root = some 0 ∧ t.isRuleAt 0 = true
  /-- Every other node is listed once, among the children of all nodes. -/
  listed : (t.nodes.toList.flatMap fun node => node.children.toList).Perm (List.Ico 1 t.size)
  /-- A rule comes before its children. -/
  lt_of_lists : ∀ p c, t.Lists p c → p < c
  /-- Children are listed in the order of their numbers. -/
  ascending : ∀ (p : Nat) (r : RuleNode), t.nodes[p]? = some (.rule r) → r.children.toList.Pairwise (· < ·)
  /-- Every node can be reached from the root. -/
  reachable : ∀ id < t.size, Relation.ReflTransGen t.Lists 0 id
  /-- A traversal comes to the nodes in the order in which they were added. -/
  preorder : t.preorder t.size 0 = List.range t.size

/-! ## Stretches of nodes -/

mutual

/-- **The nodes below a node are the ones right after it**, up to a number. -/
inductive Spans (t : ParseTree) : (lo hi : Nat) → Prop where
  /-- A node with what is below it. -/
  | node {lo hi : Nat} {cs : List Nat} (children : t.childrenOf? lo = some cs) (below : SpansAll t (lo + 1) cs hi) :
    Spans t lo hi

/-- Several nodes with what is below them, side by side. -/
inductive SpansAll (t : ParseTree) : (lo : Nat) → List Nat → (hi : Nat) → Prop where
  /-- There are no more nodes. -/
  | nil {lo : Nat} : SpansAll t lo [] lo
  /-- One node comes first. -/
  | cons {lo mid hi : Nat} {cs : List Nat} (first : Spans t lo mid) (rest : SpansAll t mid cs hi) :
    SpansAll t lo (lo :: cs) hi

end

mutual

/-- A node is one of the nodes that are spanned. -/
theorem Spans.lt : ∀ {lo hi : Nat}, t.Spans lo hi → lo < hi
  | _, _, .node _ below => below.le

/-- Nodes side by side are in order. -/
theorem SpansAll.le : ∀ {lo hi : Nat} {cs : List Nat}, t.SpansAll lo cs hi → lo ≤ hi
  | _, _, _, .nil => Nat.le_refl _
  | _, _, _, .cons first rest => Nat.le_trans (Nat.le_of_lt first.lt) rest.le

end

mutual

/-- What a node spans does not depend on other nodes. -/
theorem Spans.congr : ∀ {lo hi : Nat}, t.Spans lo hi →
    (∀ id, lo ≤ id → id < hi → u.childrenOf? id = t.childrenOf? id) → u.Spans lo hi
  | lo, _, .node children below, hsame =>
      .node ((hsame lo (Nat.le_refl _) below.le).trans children)
        (below.congr fun id hid => hsame id (Nat.le_of_lt hid))

/-- Nor does what several nodes span. -/
theorem SpansAll.congr : ∀ {lo hi : Nat} {cs : List Nat}, t.SpansAll lo cs hi →
    (∀ id, lo ≤ id → id < hi → u.childrenOf? id = t.childrenOf? id) → u.SpansAll lo cs hi
  | _, _, _, .nil, _ => .nil
  | _, _, _, .cons first rest, hsame =>
      .cons (first.congr fun id hlo hhi => hsame id hlo (Nat.lt_of_lt_of_le hhi rest.le))
        (rest.congr fun id hlo => hsame id (Nat.le_trans (Nat.le_of_lt first.lt) hlo))

end

/-- First some nodes, then others. -/
theorem SpansAll.append (h : t.SpansAll lo cs mid) (h' : t.SpansAll mid cs' hi) : t.SpansAll lo (cs ++ cs') hi := by
  induction cs generalizing lo with
  | nil =>
      cases h
      exact h'
  | cons c cs ih =>
      cases h with
      | cons first rest => exact .cons first (ih rest)

/-- A node comes after others. -/
theorem SpansAll.concat (h : t.SpansAll lo cs mid) (h' : t.Spans mid hi) : t.SpansAll lo (cs ++ [mid]) hi :=
  h.append (.cons h' .nil)

/-- Nodes side by side are in the order of their numbers. -/
theorem SpansAll.ascending (h : t.SpansAll lo cs hi) : cs.Pairwise (· < ·) ∧ ∀ c ∈ cs, lo ≤ c := by
  induction cs generalizing lo with
  | nil => exact ⟨.nil, nofun⟩
  | cons c cs ih =>
      cases h with
      | cons first rest =>
          obtain ⟨hpairwise, hle⟩ := ih rest
          refine ⟨List.pairwise_cons.mpr ⟨fun d hd => Nat.lt_of_lt_of_le first.lt (hle d hd), hpairwise⟩, ?_⟩
          exact List.forall_mem_cons.mpr ⟨Nat.le_refl _, fun d hd => Nat.le_trans (Nat.le_of_lt first.lt) (hle d hd)⟩

/-! ## What is spanned is a tree -/

mutual

/-- Each node of a stretch spans a part of it. -/
theorem Spans.inside : ∀ {lo hi : Nat}, t.Spans lo hi → lo ≤ id → id < hi → ∃ hi', t.Spans id hi'
  | lo, hi, .node children below, hlo, hhi => by
      rcases Nat.eq_or_lt_of_le hlo with rfl | hlt
      · exact ⟨hi, .node children below⟩
      · exact below.inside hlt hhi

/-- So does each node of stretches side by side. -/
theorem SpansAll.inside : ∀ {lo hi : Nat} {cs : List Nat}, t.SpansAll lo cs hi → lo ≤ id → id < hi →
    ∃ hi', t.Spans id hi'
  | _, _, _, .nil, hlo, hhi => absurd hhi (Nat.not_lt_of_le hlo)
  | _, _, _, @SpansAll.cons _ _ mid _ _ first rest, hlo, hhi => by
      rcases Nat.lt_or_ge id mid with hlt | hge
      · exact first.inside hlo hlt
      · exact rest.inside hge hhi

end

mutual

/-- **The nodes that are spanned are listed once each**, but for the first one. -/
theorem Spans.listed : ∀ {lo hi : Nat}, t.Spans lo hi →
    ((List.Ico lo hi).flatMap fun id => (t.childrenOf? id).getD []).Perm (List.Ico (lo + 1) hi)
  | lo, hi, @Spans.node _ _ _ cs children below => by
      rw [List.Ico.eq_cons below.le, List.flatMap_cons, children, Option.getD_some]
      exact below.listed

/-- In stretches side by side, those are listed too that come first, if the list of these is added. -/
theorem SpansAll.listed : ∀ {lo hi : Nat} {cs : List Nat}, t.SpansAll lo cs hi →
    (cs ++ (List.Ico lo hi).flatMap fun id => (t.childrenOf? id).getD []).Perm (List.Ico lo hi)
  | lo, _, _, .nil => by rw [List.Ico.self_empty]; exact .nil
  | lo, hi, _, @SpansAll.cons _ _ mid _ cs first rest => by
      have hle := Nat.le_of_lt first.lt
      rw [← List.Ico.append_consecutive hle rest.le, List.flatMap_append, List.cons_append, List.Ico.eq_cons first.lt,
        List.cons_append, List.perm_cons, ← List.Ico.eq_cons first.lt, ← List.append_assoc]
      refine (List.perm_append_comm.append_right _).trans ?_
      rw [List.append_assoc]
      exact first.listed.append rest.listed

end

mutual

/-- **A traversal comes to the nodes that are spanned in the order of their numbers.** -/
theorem Spans.preorder : ∀ {lo hi : Nat}, t.Spans lo hi → ∀ depth, hi ≤ lo + depth →
    t.preorder depth lo = List.Ico lo hi
  | lo, hi, h, 0, hdepth => absurd h.lt (Nat.not_lt_of_le hdepth)
  | lo, hi, @Spans.node _ _ _ cs children below, depth + 1, hdepth => by
      rw [ParseTree.preorder, children, List.Ico.eq_cons below.le]
      exact congrArg (lo :: ·) (below.preorder depth (by omega))

/-- So do traversals one after the other. -/
theorem SpansAll.preorder : ∀ {lo hi : Nat} {cs : List Nat}, t.SpansAll lo cs hi → ∀ depth, hi ≤ lo + depth →
    cs.flatMap (t.preorder depth) = List.Ico lo hi
  | _, _, _, .nil, _, _ => by rw [List.Ico.self_empty]; rfl
  | lo, hi, _, @SpansAll.cons _ _ mid _ _ first rest, depth, hdepth => by
      have hlt := first.lt
      have hle := rest.le
      rw [List.flatMap_cons, first.preorder depth (by omega), rest.preorder depth (by omega),
        List.Ico.append_consecutive (Nat.le_of_lt hlt) hle]

end

/-- A node that has children is a rule. -/
theorem lists_of_mem {p c : Nat} (h : t.childrenOf? p = some cs) (hc : c ∈ cs) : t.Lists p c := by
  obtain ⟨node, hnode, rfl⟩ := Option.map_eq_some_iff.mp h
  cases node with
  | rule r => exact ⟨r, hnode, hc⟩
  | terminal token | error token => cases hc

mutual

/-- **Every node that is spanned can be reached.** -/
theorem Spans.reachable : ∀ {lo hi : Nat}, t.Spans lo hi → lo ≤ id → id < hi → Relation.ReflTransGen t.Lists lo id
  | lo, hi, @Spans.node _ _ _ cs children below, hlo, hhi => by
      rcases Nat.eq_or_lt_of_le hlo with rfl | hlt
      · exact .refl
      · obtain ⟨c, hc, hreach⟩ := below.reachable hlt hhi
        exact hreach.head (lists_of_mem children hc)

/-- Every node of stretches side by side can be reached from one that comes first. -/
theorem SpansAll.reachable : ∀ {lo hi : Nat} {cs : List Nat}, t.SpansAll lo cs hi → lo ≤ id → id < hi →
    ∃ c ∈ cs, Relation.ReflTransGen t.Lists c id
  | _, _, _, .nil, hlo, hhi => absurd hhi (Nat.not_lt_of_le hlo)
  | lo, _, _, @SpansAll.cons _ _ mid _ _ first rest, hlo, hhi => by
      rcases Nat.lt_or_ge id mid with hlt | hge
      · exact ⟨lo, List.mem_cons_self, first.reachable hlo hlt⟩
      · obtain ⟨c, hc, hreach⟩ := rest.reachable hge hhi
        exact ⟨c, List.mem_cons_of_mem _ hc, hreach⟩

end

/-- The children of all nodes, by the numbers of the nodes. -/
theorem flatMap_children (t : ParseTree) : (t.nodes.toList.flatMap fun node => node.children.toList) =
    (List.Ico 0 t.size).flatMap fun id => (t.childrenOf? id).getD [] := by
  rw [List.Ico.zero_bot, List.flatMap, List.flatMap]
  refine congrArg List.flatten (List.ext_getElem ?_ fun i hi hi' => ?_)
  · simp [size]
  · simp only [List.length_map, Array.length_toList] at hi
    simp [childrenOf?, hi]

/-- **What is spanned is a tree.** -/
theorem Spans.isTree (h : t.Spans 0 t.size) (hroot : t.root = some 0) (hrule : t.isRuleAt 0 = true) : t.IsTree := by
  have hchildren : ∀ (p : Nat) (r : RuleNode), t.nodes[p]? = some (.rule r) →
      r.children.toList.Pairwise (· < ·) ∧ ∀ c ∈ r.children.toList, p < c := fun p r hr => by
    obtain ⟨hi, hspans⟩ := h.inside (Nat.zero_le _) (Array.getElem?_eq_some_iff.mp hr).1
    cases hspans with
    | node children below =>
        rw [childrenOf?, hr, Option.map_some, Option.some.injEq] at children
        exact children ▸ below.ascending
  -- Each node but the root is in exactly one list of children, and each list is ascending.
  refine ⟨fun _ => ⟨hroot, hrule⟩, ?_, ?_, fun p r hr => (hchildren p r hr).1,
    fun id hid => h.reachable (Nat.zero_le _) hid, ?_⟩
  · rw [flatMap_children]
    exact h.listed
  · rintro p c ⟨r, hr, hc⟩
    exact (hchildren p r hr).2 c hc
  · rw [h.preorder t.size (Nat.le_of_eq (Nat.zero_add _).symm), List.Ico.zero_bot]

/-- The empty tree is a tree. -/
theorem isTree_empty : ({} : ParseTree).IsTree where
  root := nofun
  listed := .nil
  lt_of_lists := fun _ _ ⟨_, hr, _⟩ => nomatch hr
  ascending := fun _ _ hr => nomatch hr
  reachable := nofun
  preorder := rfl

/-! ## Open rules -/

/-- **The rules that are still open**, each the last child of the one before, so that the newest node is below all of
them.  The outermost one comes first. -/
inductive Spine (t : ParseTree) : (lo : Nat) → List Nat → Prop where
  /-- The innermost open rule. -/
  | tip {lo : Nat} {cs : List Nat} (rule : t.isRuleAt lo = true) (children : t.childrenOf? lo = some cs)
    (below : SpansAll t (lo + 1) cs t.size) : Spine t lo [lo]
  /-- An open rule around others. -/
  | cons {lo m : Nat} {cs ns : List Nat} (rule : t.isRuleAt lo = true) (children : t.childrenOf? lo = some (cs ++ [m]))
    (below : SpansAll t (lo + 1) cs m) (inner : Spine t m ns) : Spine t lo (lo :: ns)

namespace Spine

/-- The outermost open rule comes first, and is a rule. -/
theorem exists_eq_cons (h : t.Spine lo ns) : (∃ ms, ns = lo :: ms) ∧ t.isRuleAt lo = true := by
  cases h with
  | tip rule _ _ => exact ⟨⟨[], rfl⟩, rule⟩
  | cons rule _ _ _ => exact ⟨⟨_, rfl⟩, rule⟩

/-- The outermost open rule spans everything after it. -/
theorem spans (h : t.Spine lo ns) : t.Spans lo t.size := by
  induction h with
  | tip _ children below => exact .node children below
  | cons _ children below _ ih => exact .node children (below.concat ih)

/-- Inner rules may be left. -/
theorem cut (h : t.Spine lo ns) (hstart : ms <+: ns) (hne : ms ≠ []) : t.Spine lo ms := by
  induction h generalizing ms with
  | @tip lo cs rule children below =>
      obtain ⟨c, ms, rfl⟩ := List.exists_cons_of_ne_nil hne
      obtain ⟨rfl, hrest⟩ := List.cons_prefix_cons.mp hstart
      rw [List.prefix_nil.mp hrest]
      exact .tip rule children below
  | @cons lo m cs ns rule children below inner ih =>
      obtain ⟨c, ms, rfl⟩ := List.exists_cons_of_ne_nil hne
      obtain ⟨rfl, hrest⟩ := List.cons_prefix_cons.mp hstart
      cases ms with
      | nil => exact .tip rule children (below.concat inner.spans)
      | cons d ms => exact .cons rule children below (ih hrest (List.cons_ne_nil _ _))

/-- Each open rule is the parent of the next one. -/
theorem isChain (h : t.Spine lo ns) : ns.IsChain t.Lists := by
  induction h with
  | tip => exact .singleton _
  | @cons lo m cs ns rule children below inner ih =>
      obtain ⟨⟨ms, rfl⟩, -⟩ := inner.exists_eq_cons
      exact .cons_cons (lists_of_mem children (List.mem_append_right _ List.mem_cons_self)) ih

/-- The outermost open rule is not after the others, and these are nodes. -/
theorem le_of_mem (h : t.Spine lo ns) (hn : n ∈ ns) : lo ≤ n ∧ n < t.size := by
  induction h with
  | tip _ _ below =>
      obtain rfl := List.mem_singleton.mp hn
      exact ⟨Nat.le_refl _, below.le⟩
  | cons _ _ below inner ih =>
      rcases List.mem_cons.mp hn with rfl | hn
      · exact ⟨Nat.le_refl _, Nat.lt_of_lt_of_le (Nat.lt_of_succ_le below.le) (Nat.le_of_lt inner.spans.lt)⟩
      · obtain ⟨hle, hlt⟩ := ih hn
        exact ⟨Nat.le_trans (Nat.le_of_succ_le below.le) hle, hlt⟩

/-- The open rules are rules. -/
theorem isRuleAt_of_mem (h : t.Spine lo ns) (hn : n ∈ ns) : t.isRuleAt n = true := by
  induction h with
  | tip rule _ _ => exact List.mem_singleton.mp hn ▸ rule
  | cons rule _ _ _ ih =>
      rcases List.mem_cons.mp hn with rfl | hn
      · exact rule
      · exact ih hn

/-- **The innermost open rule is changed, with what is below it.** -/
theorem regrow (h : t.Spine lo (ns ++ [n])) (hchildren : ∀ id < n, u.childrenOf? id = t.childrenOf? id)
    (hrule : ∀ id < n, u.isRuleAt id = t.isRuleAt id) (htip : t.Spine n [n] → u.Spine n ms) :
    u.Spine lo (ns ++ ms) := by
  induction ns generalizing lo with
  | nil =>
      obtain ⟨⟨_, hlo⟩, -⟩ := h.exists_eq_cons
      obtain rfl := (List.cons.inj hlo).1
      exact htip h
  | cons c ns ih =>
      rw [List.cons_append] at h
      generalize hrest : ns ++ [n] = rest at h
      cases h with
      | tip => simp at hrest
      | @cons _ m cs _ rule children below inner =>
          subst hrest
          have hm : m ≤ n := (inner.le_of_mem (List.mem_append_right _ List.mem_cons_self)).1
          have hc : c < n := Nat.lt_of_lt_of_le (Nat.lt_of_succ_le below.le) hm
          exact .cons ((hrule c hc).trans rule) ((hchildren c hc).trans children)
            (below.congr fun id _ hid => hchildren id (Nat.lt_of_lt_of_le hid hm)) (ih inner)

end Spine

/-- A change of a rule that leaves its children leaves those of all nodes. -/
theorem childrenOf?_modifyRule {f : RuleNode → RuleNode} (hf : ∀ r, (f r).children = r.children) (n id : Nat) :
    (t.modifyRule n f).childrenOf? id = t.childrenOf? id := by
  rw [childrenOf?, childrenOf?, modifyRule, Array.getElem?_modify]
  split
  · rw [Option.map_map]
    refine congrFun (congrArg Option.map (funext fun node => ?_)) _
    cases node with
    | rule r => exact congrArg Array.toList (hf r)
    | terminal token | error token => rfl
  · rfl

/-- A change of a rule leaves it a rule. -/
theorem isRuleAt_modifyRule (f : RuleNode → RuleNode) (n id : Nat) :
    (t.modifyRule n f).isRuleAt id = t.isRuleAt id := by
  rw [isRuleAt, isRuleAt, modifyRule, Array.getElem?_modify]
  split
  · cases t.nodes[id]? with
    | none => rfl
    | some node => cases node <;> rfl
  · rfl

/-- A node that is a rule. -/
theorem exists_rule_of_isRuleAt (h : t.isRuleAt n = true) : ∃ r : RuleNode, t.nodes[n]? = some (.rule r) := by
  rw [isRuleAt] at h
  cases hnode : t.nodes[n]? with
  | none =>
      rw [hnode] at h
      cases h
  | some node =>
      rw [hnode] at h
      cases node with
      | rule r => exact ⟨r, rfl⟩
      | terminal token | error token => cases h

/-- **A rule is changed, but not its children.** -/
theorem Spine.modify (h : t.Spine lo ns) {f : RuleNode → RuleNode} (hf : ∀ r, (f r).children = r.children) (n : Nat) :
    (t.modifyRule n f).Spine lo ns := by
  have hsize : (t.modifyRule n f).size = t.size := size_modifyRule f
  have hbelow : ∀ {lo hi : Nat} {cs : List Nat}, t.SpansAll lo cs hi → (t.modifyRule n f).SpansAll lo cs hi :=
    fun below => below.congr fun id _ _ => childrenOf?_modifyRule hf n id
  induction h with
  | tip rule children below =>
      exact .tip ((isRuleAt_modifyRule f n _).trans rule) ((childrenOf?_modifyRule hf n _).trans children)
        (hsize.symm ▸ hbelow below)
  | cons rule children below _ ih =>
      exact .cons ((isRuleAt_modifyRule f n _).trans rule) ((childrenOf?_modifyRule hf n _).trans children)
        (hbelow below) ih

/-- **A node without children is added below the innermost open rule.**  If it is a rule, it is open then. -/
theorem Spine.push (h : t.Spine lo (ns ++ [n])) {node : ParseNode} (hnode : node.children = #[]) :
    (t.push (some n) node).2.root = t.root ∧ (t.push (some n) node).2.Spine lo (ns ++ [n]) ∧
      (node.isRule = true → (t.push (some n) node).2.Spine lo (ns ++ [n, t.size])) := by
  have hmem : n ∈ ns ++ [n] := List.mem_append_right _ List.mem_cons_self
  have hlt : n < t.size := (h.le_of_mem hmem).2
  obtain ⟨r, hr⟩ := exists_rule_of_isRuleAt (h.isRuleAt_of_mem hmem)
  obtain ⟨hsize, hroot, hparent, hnew, hold⟩ := push_of_rule hr node
  generalize (t.push (some n) node).2 = u at *
  have hchildren : ∀ id < t.size, id ≠ n → u.childrenOf? id = t.childrenOf? id := fun id hid hne => by
    rw [childrenOf?, hold id hid hne, childrenOf?]
  have hbefore : ∀ id < n, u.childrenOf? id = t.childrenOf? id := fun id hid =>
    hchildren id (Nat.lt_trans hid hlt) (Nat.ne_of_lt hid)
  have hrule : ∀ id < n, u.isRuleAt id = t.isRuleAt id := fun id hid => by
    rw [isRuleAt, hold id (Nat.lt_trans hid hlt) (Nat.ne_of_lt hid), isRuleAt]
  -- the new node comes last, and nothing is below it
  have hlast : u.childrenOf? t.size = some [] := by
    rw [childrenOf?, size, hnew, Option.map_some, hnode]
  have hafter : u.SpansAll (t.size + 1) [] u.size := by
    have husize : u.size = t.size + 1 := hsize
    rw [husize]
    exact .nil
  have hopen : u.isRuleAt n = true := by
    rw [isRuleAt, hparent]
    rfl
  -- below the innermost open rule it is added to what was there
  have htip : t.Spine n [n] → ∃ cs, u.childrenOf? n = some (cs ++ [t.size]) ∧ u.SpansAll (n + 1) cs t.size := by
    intro htip
    generalize hns : [n] = ns at htip
    cases htip with
    | @tip _ cs _ children below =>
        rw [childrenOf?, hr, Option.map_some, Option.some.injEq] at children
        refine ⟨cs, ?_, below.congr fun id hlo hid => hchildren id hid (Nat.ne_of_gt hlo)⟩
        rw [childrenOf?, hparent, Option.map_some, ← children]
        exact congrArg some Array.toList_push
    | cons _ _ _ inner =>
        obtain ⟨⟨ms, rfl⟩, -⟩ := inner.exists_eq_cons
        simp at hns
  refine ⟨hroot, h.regrow hbefore hrule fun hspine => ?_, fun hisRule => h.regrow hbefore hrule fun hspine => ?_⟩
  · obtain ⟨cs, hgrown, hbelow⟩ := htip hspine
    exact .tip hopen hgrown (hbelow.concat (.node hlast hafter))
  · obtain ⟨cs, hgrown, hbelow⟩ := htip hspine
    refine .cons hopen hgrown hbelow (.tip ?_ hlast hafter)
    rw [isRuleAt, size, hnew]
    exact hisRule

end TreeProjection.ParseTree
