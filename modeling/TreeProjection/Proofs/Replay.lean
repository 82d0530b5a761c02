import TreeProjection.Proofs.Arena
import TreeProjection.Proofs.Stepping

/-! # What a replay builds

A replay makes of a parse tree what an `Outline` tells: which tokens are passed, and which regions are opened
around them and how they are closed.  The outline of a tree depends on the errors of the parse, and on the
offsets whose errors have been placed before.

* `Projector.replayStack_enter` — the replay with a stack of its own is the recursion on the tree.
* `Outline.build` — carrying out an outline on a builder.
* `Outline.ofView` — the outline of a tree.
* `Projector.answers_replayView` — a replay that succeeds has carried out the outline. -/

namespace TreeProjection

open ParseNode (View)

variable {β τ : Type} [TreeBuilder β τ]

/-! ## The stack and the recursion -/

mutual

/-- How many things a stack takes up for a tree. -/
def ParseNode.View.visits : View → Nat
  | .rule _ children => visitsOf children + 2
  | .terminal _ => 1
  | .error _ => 1

/-- How many things a stack takes up for several trees. -/
def ParseNode.View.visitsOf : List View → Nat
  | [] => 0
  | v :: rest => visits v + visitsOf rest

end

mutual

/-- Each node is entered once, and each rule left once. -/
theorem ParseNode.View.visits_le : ∀ v : View, v.visits ≤ 2 * v.size
  | .rule _ children => by
      have := visitsOf_le children
      simp only [visits, size]
      omega
  | .terminal _ => by simp [visits, size]
  | .error _ => by simp [visits, size]

/-- Each node of several trees is entered once, and each rule left once. -/
theorem ParseNode.View.visitsOf_le : ∀ vs : List View, visitsOf vs ≤ 2 * sizes vs
  | [] => Nat.le_refl _
  | v :: rest => by
      have h := visits_le v
      have hrest := visitsOf_le rest
      simp only [visitsOf, sizes]
      omega

end

namespace Projector

mutual

/-- **The replay with a stack is the recursion on the tree**: what is on top of the stack is replayed, and
then the rest. -/
theorem replayStack_enter (t : ParseTree) : ∀ (v : View) (id fuel : Nat) (rest : List Visit),
    t.Holds id v → replayStack t (v.visits + fuel) (.enter id :: rest) =
      (do replayView v; replayStack t fuel rest : ProjectorM β Unit)
  | .rule r children, id, fuel, rest, h => by
      have hchildren := replayStack_enters t children r.children.toList (fuel + 1) (.exit r :: rest) h.2
      -- of the visits one is for entering, one for leaving, and the others are those of the children
      have hfuel : View.visits (.rule r children) + fuel =
          (View.visitsOf children + (fuel + 1)) + 1 := by
        simp only [View.visits]
        omega
      rw [hfuel, replayStack, replayView]
      simp only [h.1, hchildren, bind_assoc]
      rfl
  | .terminal token, id, fuel, rest, h => by
      have hnode : t.nodes[id]? = _ := h
      rw [View.visits, Nat.add_comm, replayStack, replayView]
      simp only [hnode]
  | .error token, id, fuel, rest, h => by
      have hnode : t.nodes[id]? = _ := h
      rw [View.visits, Nat.add_comm, replayStack, replayView]
      simp only [hnode]

/-- Several trees on top of the stack are replayed one after the other. -/
theorem replayStack_enters (t : ParseTree) :
    ∀ (vs : List View) (ids : List Nat) (fuel : Nat) (rest : List Visit), t.HoldsAll ids vs →
      replayStack t (View.visitsOf vs + fuel) (ids.map .enter ++ rest) =
        (do replayViews vs; replayStack t fuel rest : ProjectorM β Unit)
  | [], [], fuel, rest, _ => by simp [View.visitsOf, replayViews]
  | v :: vs, id :: ids, fuel, rest, h => by
      have hv := replayStack_enter t v id (View.visitsOf vs + fuel) (ids.map .enter ++ rest) h.1
      have hvs := replayStack_enters t vs ids fuel rest h.2
      rw [View.visitsOf, Nat.add_assoc, List.map_cons, List.cons_append, hv, hvs, replayViews]
      simp only [bind_assoc]

end

/-- **Replaying a tree from its root**, which holds no more nodes than there are. -/
theorem replay_eq_of_holds {t : ParseTree} {v : View} {root : Nat} (hroot : t.root = some root)
    (hsize : v.size ≤ t.size) (h : t.Holds root v) : (replay t : ProjectorM β Unit) = (do
      replayView v
      let p ← get
      unless p.markers.isEmpty do throw (.broken (.markersLeftOpen p.markers.length))) := by
  have hfuel : 2 * t.size + 1 = v.visits + (2 * t.size + 1 - v.visits) := by
    have := v.visits_le
    omega
  have hempty : ∀ n, (replayStack t n [] : ProjectorM β Unit) = pure () := by
    intro n
    cases n <;> rfl
  unfold replay
  rw [hroot, hfuel]
  simp only [replayStack_enter t v root _ [] h, hempty, bind_assoc, pure_bind]

/-- Replaying a layout from its root. -/
theorem replay_eq {t : ParseTree} {v : View} (hroot : t.root = some 0) (hsize : t.size = v.size)
    (h : t.Shows 0 v) : (replay t : ProjectorM β Unit) = (do
      replayView v
      let p ← get
      unless p.markers.isEmpty do throw (.broken (.markersLeftOpen p.markers.length))) :=
  replay_eq_of_holds hroot (Nat.le_of_eq hsize.symm) (ParseTree.Shows.holds v 0 h)

end Projector

/-! ## Outlines -/

/-- **What is built of a tree.** -/
inductive Outline where
  /-- The token of a leaf is passed. -/
  | token (t : Token)
  /-- A region is opened, and closed as a node. -/
  | node (kind : Kind) (parts : List Outline)
  /-- A region is opened, and closed as an error element. -/
  | error (message : String) (parts : List Outline)

namespace Outline

mutual

/-- **Carrying out an outline** on a builder. -/
def build : Outline → β → Except Violation β
  | token _, b => .ok (TreeBuilder.advance b)
  | node kind parts, b => do
    let (marker, b) := TreeBuilder.mark b
    let b ← builds parts b
    TreeBuilder.done b marker kind
  | error message parts, b => do
    let (marker, b) := TreeBuilder.mark b
    let b ← builds parts b
    TreeBuilder.error b marker message

/-- Carrying out several outlines, one after the other. -/
def builds : List Outline → β → Except Violation β
  | [], b => .ok b
  | o :: rest, b => do
    let b ← build o b
    builds rest b

end

mutual

/-- The tokens that are passed. -/
def tokens : Outline → List Token
  | token t => [t]
  | node _ parts => tokensOf parts
  | error _ parts => tokensOf parts

/-- The tokens that are passed for several outlines. -/
def tokensOf : List Outline → List Token
  | [] => []
  | o :: rest => tokens o ++ tokensOf rest

end

@[simp] theorem tokensOf_append (os os' : List Outline) :
    tokensOf (os ++ os') = tokensOf os ++ tokensOf os' := by
  induction os with
  | nil => simp [tokensOf]
  | cons o os ih => simp [tokensOf, ih]

/-- First some outlines are carried out, then others. -/
theorem builds_append {os os' : List Outline} {b b' : β} (h : builds os b = .ok b') :
    builds (os ++ os') b = builds os' b' := by
  induction os generalizing b with
  | nil =>
      cases h
      rfl
  | cons o os ih =>
      simp only [List.cons_append, builds, bind, Except.bind] at h ⊢
      cases ho : build o b with
      | error v =>
          rw [ho] at h
          cases h
      | ok b₁ =>
          rw [ho] at h
          exact ih h

/-- A single outline. -/
@[simp] theorem builds_singleton (o : Outline) (b : β) : builds [o] b = build o b := by
  simp only [builds, bind, Except.bind]
  cases build o b <;> rfl

end Outline

/-- The kind of a rule's nodes, if the rule is one of those that have kinds. -/
def ElementTypes.kindOf (e : ElementTypes) (r : RuleIndex) : Kind := e.rulesStart + r.code

/-- A rule that has a kind has that one. -/
theorem ElementTypes.kindOf_of_rule {e : ElementTypes} {r : RuleIndex} {kind : Kind}
    (h : e.rule r = .ok kind) : e.kindOf r = kind := by
  unfold rule ensureRule at h
  by_cases hr : r.toNat < e.ruleCount.toNat
  · rw [if_pos hr] at h
    cases h
    rfl
  · rw [if_neg hr] at h
    cases h

namespace Outline

/-- The passing of a leaf's token; the end of the input is not passed. -/
def passed (t : Token) : List Outline := if t.isEof then [] else [.token t]

/-- The outline of an error leaf, and the offsets whose errors have been placed after it.  A made-up token
becomes an error element without extent.  A token at whose offset there are errors that have not been placed
becomes an error element with their texts. -/
def ofErrorLeaf (errors : ErrorIndex) (spent : List Nat) (t : Token) : List Outline × List Nat :=
  if t.isConjured then ([.error t.text []], spent)
  else
    let offset := t.start?.getD 0
    match if spent.contains offset then none else errors.messagesAt? offset with
    | some message => ([.error message (passed t)], offset :: spent)
    | none => (passed t, spent)

mutual

/-- **The outline of a tree**, and the offsets whose errors have been placed after it. -/
def ofView (e : ElementTypes) (errors : ErrorIndex) (spent : List Nat) :
    View → List Outline × List Nat
  | .rule r children =>
    let inside := ofViews e errors spent children
    match r.exception with
    | some x => ([.error (Projector.failureMessage errors x) inside.1], inside.2)
    | none => ([.node (e.kindOf r.rule) inside.1], inside.2)
  | .terminal t => (passed t, spent)
  | .error t => ofErrorLeaf errors spent t

/-- The outlines of several trees, and the offsets whose errors have been placed after them. -/
def ofViews (e : ElementTypes) (errors : ErrorIndex) (spent : List Nat) :
    List View → List Outline × List Nat
  | [] => ([], spent)
  | v :: rest =>
    let first := ofView e errors spent v
    let others := ofViews e errors first.2 rest
    (first.1 ++ others.1, others.2)

end

/-- An outline passes the tokens of the input among a leaf. -/
theorem tokensOf_passed (t : Token) :
    tokensOf (passed t) = if t.isEof then [] else [t] := by
  unfold passed
  split <;> rfl

/-- An error leaf that is not made up is passed. -/
theorem tokensOf_ofErrorLeaf (errors : ErrorIndex) (spent : List Nat) (t : Token) :
    tokensOf (ofErrorLeaf errors spent t).1 = View.read [.error t] := by
  unfold ofErrorLeaf
  by_cases hconjured : t.isConjured = true
  · simp [hconjured, tokensOf, tokens, View.read, View.leavesOf, View.leaves]
  · have hread : View.read [.error t] = if t.isEof then [] else [t] := by
      by_cases heof : t.isEof = true <;>
        simp [View.read, View.leavesOf, View.leaves, hconjured, heof]
    rw [if_neg hconjured, hread, ← tokensOf_passed]
    simp only
    split <;> simp [tokensOf, tokens]

mutual

/-- **An outline passes the tokens of the input** among the leaves of its tree. -/
theorem tokensOf_ofView (e : ElementTypes) (errors : ErrorIndex) : ∀ (v : View) (spent : List Nat),
    (∀ l ∈ v.leaves, l.1 = true → l.2.isConjured = false) →
      tokensOf (ofView e errors spent v).1 = View.read [v]
  | .rule r children, spent, h => by
      have hinside := tokensOf_ofViews e errors children spent (by simpa only [View.leaves] using h)
      rw [View.read_rule, ← hinside, ofView]
      cases r.exception <;> simp [tokensOf, tokens]
  | .terminal t, spent, h => by
      have hreal : t.isConjured = false := h (true, t) (by simp [View.leaves]) rfl
      rw [ofView, tokensOf_passed]
      by_cases heof : t.isEof = true <;>
        simp [View.read, View.leavesOf, View.leaves, hreal, heof]
  | .error t, spent, _ => tokensOf_ofErrorLeaf errors spent t

/-- Outlines pass the tokens of the input among the leaves of their trees. -/
theorem tokensOf_ofViews (e : ElementTypes) (errors : ErrorIndex) :
    ∀ (vs : List View) (spent : List Nat),
      (∀ l ∈ View.leavesOf vs, l.1 = true → l.2.isConjured = false) →
        tokensOf (ofViews e errors spent vs).1 = View.read vs
  | [], _, _ => rfl
  | v :: rest, spent, h => by
      have hsplit : View.read (v :: rest) = View.read [v] ++ View.read rest :=
        View.read_append [v] rest
      simp only [View.leavesOf, List.mem_append] at h
      rw [ofViews, tokensOf_append, hsplit, tokensOf_ofView e errors v spent fun l hl =>
        h l (.inl hl), tokensOf_ofViews e errors rest _ fun l hl => h l (.inr hl)]

end

end Outline

/-! ## What a replay does -/

namespace Projector

/-- **A replay has carried out outlines**: the offsets whose errors have been placed are as they tell, and so
is the builder. -/
structure Played (p : Projector β) (os : List Outline) (spent : List Nat) (q : Projector β) :
    Prop where
  /-- The errors of the parse are the same. -/
  errors : q.errors = p.errors
  /-- The regions open for rules are the same. -/
  markers : q.markers = p.markers
  /-- The offsets whose errors have been placed. -/
  spent : q.spent = spent
  /-- The kinds are the same. -/
  elements : q.host.elements = p.host.elements
  /-- The outlines have been carried out. -/
  build : Outline.builds os p.host.builder = .ok q.host.builder

variable {p q r : Projector β}

/-- First some outlines have been carried out, then others. -/
theorem Played.trans {os os' : List Outline} {spent spent' : List Nat} (h : Played p os spent q)
    (h' : Played q os' spent' r) : Played p (os ++ os') spent' r where
  errors := h'.errors.trans h.errors
  markers := h'.markers.trans h.markers
  spent := h'.spent
  elements := h'.elements.trans h.elements
  build := by rw [Outline.builds_append h.build, h'.build]

/-- The passing of a leaf's token. -/
theorem played_passed (p : Projector β) (t : Token) : Played p (Outline.passed t) p.spent (p.passed t) := by
  refine ⟨passed_errors, passed_markers, passed_spent, passed_elements, ?_⟩
  unfold Outline.passed passed
  split
  · rfl
  · rw [Outline.builds_singleton]
    rfl

/-- The replay of a matched token. -/
theorem answers_terminal (t : Token) :
    Answers (terminal t) p fun _ q => Played p (Outline.passed t) p.spent q := by
  unfold terminal
  refine (Ends.bind_of_ok (advance_eq t p)).mpr ?_
  have hpassed := played_passed p t
  exact fun _ _ => ⟨hpassed.errors, hpassed.markers, hpassed.spent, hpassed.elements, hpassed.build⟩

/-- The closing of a region as an error element. -/
theorem answers_error (marker : Nat) (message : String) :
    Answers (error marker message) p fun _ q => ∃ b,
      TreeBuilder.error p.host.builder marker message = .ok b ∧
        q = { p with host := p.host.counted b } := by
  refine (error_settles marker message p).mono ?_
  rintro _ q (⟨hb⟩ | _) _ ⟨⟩
  exact ⟨_, hb, rfl⟩

/-- The closing of a region as a node. -/
theorem answers_done (marker : Nat) (kind : Kind) :
    Answers (done marker kind) p fun _ q => ∃ b,
      TreeBuilder.done p.host.builder marker kind = .ok b ∧
        q = { p with host := p.host.counted b } := by
  refine (done_settles marker kind p).mono ?_
  rintro _ q (⟨hb⟩ | _) _ ⟨⟩
  exact ⟨_, hb, rfl⟩

/-- The opening of a region. -/
theorem answers_mark : Answers (mark : ProjectorM β Nat) p fun marker q =>
    marker = (TreeBuilder.mark p.host.builder).1 ∧
      q = { p with host := p.host.counted (TreeBuilder.mark p.host.builder).2 } := by
  rintro _ ⟨⟩
  exact ⟨rfl, rfl⟩

/-- The outline of a token of the input where texts are to be placed. -/
theorem ofErrorLeaf_wrapped {t : Token} {message : String} (hreal : t.isConjured = false)
    (hwaiting : p.waiting? t = some message) : Outline.ofErrorLeaf p.errors p.spent t =
      ([.error message (Outline.passed t)], t.start?.getD 0 :: p.spent) := by
  unfold waiting? at hwaiting
  simp only [Outline.ofErrorLeaf, hreal, hwaiting, Bool.false_eq_true, if_false]

/-- The outline of a token of the input where none are. -/
theorem ofErrorLeaf_plain {t : Token} (hreal : t.isConjured = false) (hwaiting : p.waiting? t = none) :
    Outline.ofErrorLeaf p.errors p.spent t = (Outline.passed t, p.spent) := by
  unfold waiting? at hwaiting
  simp only [Outline.ofErrorLeaf, hreal, hwaiting, Bool.false_eq_true, if_false]

/-- **The replay of an error leaf.** -/
theorem answers_errorLeaf (t : Token) : Answers (errorLeaf t) p fun _ q =>
    Played p (Outline.ofErrorLeaf p.errors p.spent t).1
      (Outline.ofErrorLeaf p.errors p.spent t).2 q := by
  refine (errorLeaf_places t p).mono ?_
  rintro _ q hends _ ⟨⟩
  cases hends with
  | conjured hconjured hanswer =>
      unfold Outline.ofErrorLeaf
      rw [if_pos hconjured]
      refine ⟨rfl, rfl, rfl, rfl, ?_⟩
      rw [Outline.builds_singleton, Outline.build]
      exact hanswer
  | wrapped hreal hwaiting hanswer =>
      have hpassed := played_passed p.marked t
      have hbuild : Outline.builds (Outline.passed t) (TreeBuilder.mark p.host.builder).2 = _ := hpassed.build
      rw [ofErrorLeaf_wrapped hreal hwaiting]
      refine ⟨hpassed.errors, hpassed.markers, congrArg (_ :: ·) hpassed.spent, hpassed.elements, ?_⟩
      rw [Outline.builds_singleton, Outline.build]
      simp only [hbuild, bind, Except.bind]
      exact hanswer
  | plain hreal hwaiting =>
      have hpassed := played_passed p t
      rw [ofErrorLeaf_plain hreal hwaiting]
      exact ⟨hpassed.errors, hpassed.markers, hpassed.spent, hpassed.elements, hpassed.build⟩

/-- The opening of a rule's region.  The run has not been called off. -/
theorem answers_enterRule (r : RuleNode) : Answers (enterRule (β := β) r) p fun _ q =>
    p.host.cancelled = false ∧ q.errors = p.errors ∧ q.spent = p.spent ∧
      q.markers = (TreeBuilder.mark p.host.builder).1 :: p.markers ∧
      q.host.elements = p.host.elements ∧
      q.host.builder = (TreeBuilder.mark p.host.builder).2 := by
  refine (enterRule_opens r p).mono ?_
  rintro _ q (_ | ⟨hrunning⟩) _ ⟨⟩
  exact ⟨hrunning, rfl, rfl, rfl, rfl, rfl⟩

/-- The region that is closed for a rule. -/
def closing (e : ElementTypes) (errors : ErrorIndex) (r : RuleNode) (marker : Nat) (b : β) :
    Except Violation β :=
  match r.exception with
  | some x => TreeBuilder.error b marker (failureMessage errors x)
  | none => TreeBuilder.done b marker (e.kindOf r.rule)

/-- The closing of a rule's region, which is the innermost one. -/
theorem answers_exitRule (r : RuleNode) {marker : Nat} {rest : List Nat}
    (hmarkers : p.markers = marker :: rest) : Answers (exitRule r) p fun _ q =>
      q.errors = p.errors ∧ q.spent = p.spent ∧ q.markers = rest ∧
        q.host.elements = p.host.elements ∧
        closing p.host.elements p.errors r marker p.host.builder = .ok q.host.builder := by
  refine (exitRule_closes r p).mono ?_
  rintro _ q hends _ ⟨⟩
  unfold closing
  cases hends with
  | failed _ markers exception answer =>
      obtain ⟨rfl, rfl⟩ := List.cons.inj (hmarkers.symm.trans markers)
      rw [exception]
      exact ⟨rfl, rfl, rfl, rfl, answer⟩
  | done _ markers exception known answer =>
      obtain ⟨rfl, rfl⟩ := List.cons.inj (hmarkers.symm.trans markers)
      rw [exception, ElementTypes.kindOf_of_rule known]
      exact ⟨rfl, rfl, rfl, rfl, answer⟩

mutual

/-- **What the replay of a tree does**, if it succeeds: it carries out the outline of the tree. -/
theorem answers_replayView : ∀ (v : View) (p : Projector β), Answers (replayView v) p fun _ q =>
    Played p (Outline.ofView p.host.elements p.errors p.spent v).1
      (Outline.ofView p.host.elements p.errors p.spent v).2 q
  | .rule r children, p => by
      rw [replayView]
      refine (answers_enterRule r).bind fun _ p₁ h₁ => ?_
      obtain ⟨-, herrors, hspent, hmarkers, helements, hbuilder⟩ := h₁
      refine (answers_replayViews children p₁).bind fun _ p₂ h₂ => ?_
      rw [herrors, hspent, helements] at h₂
      refine (answers_exitRule r (h₂.markers.trans hmarkers)).mono fun _ q hq => ?_
      obtain ⟨herrors', hspent', hmarkers', helements', hclosing⟩ := hq
      have hinside := h₂.build
      rw [hbuilder] at hinside
      rw [h₂.errors, h₂.elements, herrors, helements] at hclosing
      have hbuild : Outline.builds (Outline.ofView p.host.elements p.errors p.spent
          (.rule r children)).1 p.host.builder = .ok q.host.builder := by
        rw [Outline.ofView]
        unfold closing at hclosing
        -- how the region is closed depends on the exception, and so does the outline of the tree
        cases hexception : r.exception <;> rw [hexception] at hclosing <;>
          simp only [Outline.builds_singleton, Outline.build, hinside, bind, Except.bind] <;>
          exact hclosing
      refine ⟨?_, hmarkers', ?_, ?_, hbuild⟩
      · rw [herrors', h₂.errors, herrors]
      · rw [hspent', h₂.spent, Outline.ofView]
        cases r.exception <;> rfl
      · rw [helements', h₂.elements, helements]
  | .terminal t, p => answers_terminal t
  | .error t, p => answers_errorLeaf t

/-- What the replay of several trees does, if it succeeds. -/
theorem answers_replayViews : ∀ (vs : List View) (p : Projector β),
    Answers (replayViews vs) p fun _ q =>
      Played p (Outline.ofViews p.host.elements p.errors p.spent vs).1
        (Outline.ofViews p.host.elements p.errors p.spent vs).2 q
  | [], p => fun _ _ => ⟨rfl, rfl, rfl, rfl, rfl⟩
  | v :: rest, p => by
      rw [replayViews]
      refine (answers_replayView v p).bind fun _ p₁ h₁ => ?_
      refine (answers_replayViews rest p₁).mono fun _ q hq => ?_
      rw [h₁.errors, h₁.spent, h₁.elements] at hq
      exact h₁.trans hq

end

/-- The replay of a rule succeeds only if the run has not been called off. -/
theorem answers_replayView_rule (r : RuleNode) (children : List View) :
    Answers (replayView (.rule r children)) p fun _ _ => p.host.cancelled = false := by
  rw [replayView]
  refine (answers_enterRule r).bind fun _ p₁ h₁ => ?_
  exact Ends.mono (Ends.self _ p₁) fun _ _ _ _ _ => h₁.1

end Projector

end TreeProjection
