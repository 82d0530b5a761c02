import TreeProjection.Proofs.Faithful
import TreeProjection.Proofs.Silence

/-! # The counts of a projection

While a tree is replayed, regions, passed tokens and made-up tokens are counted, and so are the tokens that are left
over.  The counts agree with the parse tree, with the outline that is carried out, and with the host tree that the
builder makes of its record afterwards.

* `ProjectionStats.Grown` — the counts before and after some trees have been replayed.
* `Projector.counts_replayView` — a replay counts what it does.
* `Outline.Told` — an outline whose nodes are not of the kind of error elements; `Outline.length_errorSpansOf_laid` —
  then there are as many error elements as messages.
* `Session.project_adds_up` — the counts of a projection add up. -/

namespace TreeProjection

open ParseNode (View)

/-! ## Counts of a replay -/

/-- **The counts before and after** some trees have been replayed, whose outlines have been carried out. -/
structure ProjectionStats.Grown (before : ProjectionStats) (os : List Outline) (vs : List View)
    (after : ProjectionStats) : Prop where
  /-- Each rule has been entered. -/
  entered : after.rulesEntered = before.rulesEntered + (View.collectAll ParseNode.rule? vs).length
  /-- A rule that is well has been closed as a node. -/
  done : after.rulesDone = before.rulesDone +
    (View.collectAll ParseNode.rule? vs).countP fun r => r.exception.isNone
  /-- A rule that an exception ended has been closed as an error element. -/
  errored : after.rulesErrored = before.rulesErrored +
    (View.collectAll ParseNode.rule? vs).countP fun r => r.exception.isSome
  /-- Each message is that of a rule or of an error leaf. -/
  told : after.rulesErrored + after.errorMarkers =
    before.rulesErrored + before.errorMarkers + (Outline.messagesOf os).length
  /-- The made-up tokens among the error leaves. -/
  conjured : after.conjured = before.conjured + (View.leavesOf vs).countP fun l => !l.1 && l.2.isConjured
  /-- The tokens that have been passed. -/
  advances : after.advances = before.advances + (Outline.tokensOf os).length
  /-- No token has been left over so far. -/
  drained : after.drained = before.drained

namespace ProjectionStats.Grown

variable {s s' s'' : ProjectionStats} {os os' : List Outline} {vs vs' : List View}

/-- Nothing has been replayed. -/
theorem nil (s : ProjectionStats) : s.Grown [] [] s := by
  constructor <;> rfl

/-- First some trees have been replayed, then others. -/
theorem append {v : View} (h : s.Grown os [v] s') (h' : s'.Grown os' vs s'') : s.Grown (os ++ os') (v :: vs) s'' where
  entered := by
    have hfirst := h.entered
    have hrest := h'.entered
    simp only [View.collectAll, List.append_nil, List.length_append] at hfirst hrest ⊢
    omega
  done := by
    have hfirst := h.done
    have hrest := h'.done
    simp only [View.collectAll, List.append_nil, List.countP_append] at hfirst hrest ⊢
    omega
  errored := by
    have hfirst := h.errored
    have hrest := h'.errored
    simp only [View.collectAll, List.append_nil, List.countP_append] at hfirst hrest ⊢
    omega
  told := by
    have hfirst := h.told
    have hrest := h'.told
    rw [Outline.messagesOf_append, List.length_append]
    omega
  conjured := by
    have hfirst := h.conjured
    have hrest := h'.conjured
    simp only [View.leavesOf, List.append_nil, List.countP_append] at hfirst hrest ⊢
    omega
  advances := by
    have hfirst := h.advances
    have hrest := h'.advances
    rw [Outline.tokensOf_append, List.length_append]
    omega
  drained := h'.drained.trans h.drained

end ProjectionStats.Grown

namespace Projector

variable {β τ : Type} [TreeBuilder β τ] {p : Projector β}

/-- The passing of a leaf's token is counted. -/
theorem stats_passed (p : Projector β) (t : Token) : (p.passed t).stats =
    { p.stats with advances := p.stats.advances + (Outline.tokensOf (Outline.passed t)).length } := by
  unfold passed
  rw [Outline.tokensOf_passed]
  split <;> rfl

/-- What a leaf adds to the counts, if it has this outline. -/
theorem grown_leaf {s s' : ProjectionStats} {os : List Outline} {v : View} (matched : Bool) (t : Token)
    (hrules : v.collect ParseNode.rule? = []) (hleaves : v.leaves = [(matched, t)]) (hs : s' =
      { s with
        errorMarkers := s.errorMarkers + (Outline.messagesOf os).length
        conjured := s.conjured + if !matched && t.isConjured then 1 else 0
        advances := s.advances + (Outline.tokensOf os).length }) : s.Grown os [v] s' := by
  subst hs
  constructor <;> simp [View.collectAll, View.leavesOf, hrules, hleaves, List.countP_cons, Nat.add_assoc]

/-- **The replay of a matched token** counts it. -/
theorem counts_terminal (t : Token) : Answers (terminal t) p fun _ q =>
    p.stats.Grown (Outline.passed t) [.terminal t] q.stats := by
  unfold terminal
  refine (Ends.bind_of_ok (advance_eq t p)).mpr ?_
  intro _ _
  apply grown_leaf true t rfl rfl
  show (p.passed t).stats = _
  rw [stats_passed, Outline.messagesOf_passed]
  rfl

/-- **The replay of an error leaf** counts the error element, if there is one, and the token, if it is passed. -/
theorem counts_errorLeaf (t : Token) : Answers (errorLeaf t) p fun _ q =>
    p.stats.Grown (Outline.ofErrorLeaf p.errors p.spent t).1 [.error t] q.stats := by
  refine (errorLeaf_places t p).mono ?_
  rintro _ q hends _ ⟨⟩
  apply grown_leaf false t rfl rfl
  cases hends with
  | conjured hconjured =>
      simp [Outline.ofErrorLeaf, hconjured, Outline.messagesOf, Outline.messages, Outline.tokensOf, Outline.tokens]
  | wrapped hreal hwaiting =>
      rw [ofErrorLeaf_wrapped hreal hwaiting]
      simp [hreal, stats_passed, marked, Outline.messagesOf, Outline.messages, Outline.messagesOf_passed,
        Outline.tokensOf, Outline.tokens]
  | plain hreal hwaiting =>
      rw [ofErrorLeaf_plain hreal hwaiting]
      simp [hreal, stats_passed, Outline.messagesOf_passed]

/-- The opening of a rule's region is counted. -/
theorem counts_enterRule (r : RuleNode) : Answers (enterRule r) p fun _ q =>
    q.stats = { p.stats with rulesEntered := p.stats.rulesEntered + 1 } := by
  refine (enterRule_opens r p).mono ?_
  rintro _ q (_ | _) _ ⟨⟩
  rfl

/-- The closing of a rule's region is counted, as that of an error element if an exception ended the rule. -/
theorem counts_exitRule (r : RuleNode) : Answers (exitRule r) p fun _ q => q.stats =
    match r.exception with
    | some _ => { p.stats with rulesErrored := p.stats.rulesErrored + 1 }
    | none => { p.stats with rulesDone := p.stats.rulesDone + 1 } := by
  refine (exitRule_closes r p).mono ?_
  rintro _ q hends _ ⟨⟩
  cases hends with
  | failed _ _ exception => rw [exception]
  | done _ _ exception => rw [exception]

/-- What a rule adds to the counts, when its children have been replayed in between. -/
theorem grown_rule {s s₁ s₂ s' : ProjectionStats} {e : ElementTypes} {errors : ErrorIndex} {spent : List Nat}
    {r : RuleNode} {children : List View} (henter : s₁ = { s with rulesEntered := s.rulesEntered + 1 })
    (hinside : s₁.Grown (Outline.ofViews e errors spent children).1 children s₂)
    (hexit : s' = match r.exception with
      | some _ => { s₂ with rulesErrored := s₂.rulesErrored + 1 }
      | none => { s₂ with rulesDone := s₂.rulesDone + 1 }) :
    s.Grown (Outline.ofView e errors spent (.rule r children)).1 [.rule r children] s' := by
  obtain ⟨hentered, hdone, herrored, htold, hconjured, hadvances, hdrained⟩ := hinside
  subst henter
  dsimp only at hentered hdone herrored htold hconjured hadvances hdrained
  have hrules : View.collectAll ParseNode.rule? [.rule r children] = r :: View.collectAll ParseNode.rule? children := by
    simp [View.collectAll, View.collect, ParseNode.rule?]
  unfold Outline.ofView
  cases hexception : r.exception with
  | some x =>
      rw [hexception] at hexit
      subst hexit
      constructor <;>
        simp [hrules, hexception, Outline.messagesOf, Outline.messages, Outline.tokensOf, Outline.tokens] <;> omega
  | none =>
      rw [hexception] at hexit
      subst hexit
      constructor <;>
        simp [hrules, hexception, Outline.messagesOf, Outline.messages, Outline.tokensOf, Outline.tokens] <;> omega

mutual

/-- **A replay counts what it does.** -/
theorem counts_replayView : ∀ (v : View) (p : Projector β), Answers (replayView v) p fun _ q =>
    p.stats.Grown (Outline.ofView p.host.elements p.errors p.spent v).1 [v] q.stats
  | .rule r children, p => by
      rw [replayView]
      refine ((answers_enterRule r).and (counts_enterRule r)).bind fun _ p₁ h₁ => ?_
      obtain ⟨⟨-, herrors, hspent, -, helements, -⟩, henter⟩ := h₁
      refine (counts_replayViews children p₁).bind fun _ p₂ hinside => ?_
      rw [herrors, hspent, helements] at hinside
      refine (counts_exitRule r).mono fun _ q hexit => ?_
      exact grown_rule henter hinside hexit
  | .terminal t, p => counts_terminal t
  | .error t, p => counts_errorLeaf t

/-- The replay of several trees counts what it does. -/
theorem counts_replayViews : ∀ (vs : List View) (p : Projector β), Answers (replayViews vs) p fun _ q =>
    p.stats.Grown (Outline.ofViews p.host.elements p.errors p.spent vs).1 vs q.stats
  | [], p => fun _ _ => .nil p.stats
  | v :: rest, p => by
      rw [replayViews]
      refine ((answers_replayView v p).and (counts_replayView v p)).bind fun _ p₁ h₁ => ?_
      obtain ⟨hplayed, hfirst⟩ := h₁
      refine (counts_replayViews rest p₁).mono fun _ q hrest => ?_
      rw [hplayed.errors, hplayed.spent, hplayed.elements] at hrest
      exact hfirst.append hrest

end

end Projector

/-! ## Error elements -/

namespace Outline

mutual

/-- **No node is of the kind of error elements**: what is an error element has a message. -/
def Told : Outline → Prop
  | token _ => True
  | node kind parts => kind ≠ .error ∧ ToldAll parts
  | error _ parts => ToldAll parts

/-- No node in several outlines is of the kind of error elements. -/
def ToldAll : List Outline → Prop
  | [] => True
  | o :: rest => Told o ∧ ToldAll rest

end

theorem toldAll_append {os os' : List Outline} : ToldAll (os ++ os') ↔ ToldAll os ∧ ToldAll os' := by
  induction os with
  | nil => simp [ToldAll]
  | cons o os ih => rw [List.cons_append, ToldAll, ToldAll, ih, and_assoc]

/-- A leaf of a matched token is no node. -/
theorem toldAll_passed (t : Token) : ToldAll (passed t) := by
  unfold passed
  split
  · trivial
  · exact ⟨trivial, trivial⟩

/-- Tokens are no nodes. -/
theorem toldAll_map_token (ts : List Token) : ToldAll (ts.map .token) := by
  induction ts with
  | nil => trivial
  | cons t ts ih => exact ⟨trivial, ih⟩

/-- An error leaf is no node. -/
theorem toldAll_ofErrorLeaf (errors : ErrorIndex) (spent : List Nat) (t : Token) :
    ToldAll (ofErrorLeaf errors spent t).1 := by
  unfold ofErrorLeaf
  by_cases hconjured : t.isConjured = true
  · rw [if_pos hconjured]
    exact ⟨trivial, trivial⟩
  · rw [if_neg hconjured]
    simp only
    split
    · exact ⟨toldAll_passed t, trivial⟩
    · exact toldAll_passed t

mutual

/-- **The outline of a tree** has no node of the kind of error elements, if none of the well rules has that kind. -/
theorem toldAll_ofView {e : ElementTypes} (errors : ErrorIndex) : ∀ (v : View) (spent : List Nat),
    (∀ r ∈ v.collect ParseNode.rule?, r.exception = none → e.kindOf r.rule ≠ .error) →
      ToldAll (ofView e errors spent v).1
  | .rule r children, spent, hkinds => by
      have hinside := toldAll_ofViews errors children spent fun r' hr' => hkinds r' (List.mem_cons_of_mem _ hr')
      rw [ofView]
      cases hexception : r.exception with
      | some x => exact ⟨hinside, trivial⟩
      | none => exact ⟨⟨hkinds r List.mem_cons_self hexception, hinside⟩, trivial⟩
  | .terminal t, spent, _ => toldAll_passed t
  | .error t, spent, _ => toldAll_ofErrorLeaf errors spent t

/-- The outlines of several trees have no node of the kind of error elements. -/
theorem toldAll_ofViews {e : ElementTypes} (errors : ErrorIndex) : ∀ (vs : List View) (spent : List Nat),
    (∀ r ∈ View.collectAll ParseNode.rule? vs, r.exception = none → e.kindOf r.rule ≠ .error) →
      ToldAll (ofViews e errors spent vs).1
  | [], _, _ => trivial
  | v :: rest, spent, hkinds => by
      rw [ofViews, toldAll_append]
      exact ⟨toldAll_ofView errors v spent fun r hr => hkinds r (List.mem_append_left _ hr),
        toldAll_ofViews errors rest _ fun r hr => hkinds r (List.mem_append_right _ hr)⟩

end

/-- The error elements of a node that comes after tokens. -/
theorem errorSpansOf_stretch_node (h : HostText) (m n start : Nat) (kind : Kind) (inside : List PlacedTree) :
    ∃ from', (GreenTree.errorSpansOf start (PlacedTree.greens (h.stretch m n ++ [.node kind inside]))).length =
      (GreenTree.errorSpansOf from' (PlacedTree.greens inside)).length + if kind = .error then 1 else 0 := by
  refine ⟨start + GreenTree.lengths (PlacedTree.greens (h.stretch m n)), ?_⟩
  rw [PlacedTree.greens_append, GreenTree.errorSpansOf_append, HostText.stretch, PlacedTree.errorSpansOf_map_token,
    List.nil_append, PlacedTree.greens, PlacedTree.greens, PlacedTree.green, GreenTree.errorSpansOf,
    GreenTree.errorSpansOf, List.append_nil, GreenTree.errorSpans]
  split <;> rfl

mutual

/-- **There are as many error elements as messages**, if no node is of their kind. -/
theorem length_errorSpansOf_laid (h : HostText) (l : Language) : ∀ {o : Outline} (i m start : Nat), o.Told →
    (GreenTree.errorSpansOf start (PlacedTree.greens (laid h l i m o).1)).length = o.messages.length
  | .token t, i, m, start, _ => by
      rw [laid, HostText.stretch, PlacedTree.errorSpansOf_map_token]
      rfl
  | .node kind parts, i, m, start, htold => by
      rw [laid, messages]
      obtain ⟨from', hspans⟩ := errorSpansOf_stretch_node h m (h.placeAt l i) start kind
        (laidAll h l i (max m (h.placeAt l i)) parts).1
      rw [hspans, if_neg htold.1]
      exact length_errorSpansOf_laidAll h l _ _ _ htold.2
  | .error message parts, i, m, start, htold => by
      rw [laid, messages, List.length_cons]
      obtain ⟨from', hspans⟩ := errorSpansOf_stretch_node h m (h.placeAt l i) start .error
        (laidAll h l i (max m (h.placeAt l i)) parts).1
      rw [hspans, if_pos rfl, length_errorSpansOf_laidAll h l _ _ _ htold]

/-- There are as many error elements as messages in several outlines, if no node is of their kind. -/
theorem length_errorSpansOf_laidAll (h : HostText) (l : Language) :
    ∀ {os : List Outline} (i m start : Nat), ToldAll os →
      (GreenTree.errorSpansOf start (PlacedTree.greens (laidAll h l i m os).1)).length = (messagesOf os).length
  | [], _, _, _, _ => rfl
  | o :: rest, i, m, start, htold => by
      rw [laidAll, messagesOf, PlacedTree.greens_append, GreenTree.errorSpansOf_append, List.length_append,
        List.length_append, length_errorSpansOf_laid h l i m start htold.1,
        length_errorSpansOf_laidAll h l _ _ _ htold.2]

end

end Outline

/-- **The tree that an outline under a root becomes has as many error elements as the outline has messages**, if neither
the root nor a node is of their kind. -/
theorem GreenBuilder.length_errorSpans_finish {h : HostText} {l : Language} {root : Kind} {os : List Outline}
    {b : GreenBuilder} {tree : HostTree} (hbuild : Outline.build (.node root os) (ofText h l) = .ok b)
    (hfinish : b.finish = .ok tree) (hlen : (Outline.tokensOf os).length = (h.significant l).length)
    (hroot : root ≠ .error) (htold : Outline.ToldAll os) :
    (tree.green.errorSpans 0).length = (Outline.messagesOf os).length := by
  rw [(finish_eq hbuild hfinish hlen).1, GreenTree.errorSpans, if_neg hroot, PlacedTree.greens_append,
    GreenTree.errorSpansOf_append, List.length_append, Outline.length_errorSpansOf_laidAll h l _ _ _ htold,
    HostText.stretch, PlacedTree.errorSpansOf_map_token]
  rfl

/-! ## Counts of a whole parse -/

/-- A rule is well, or an exception ended it. -/
theorem RuleNode.countP_exception (rules : List RuleNode) :
    (rules.countP fun r => r.exception.isSome) + (rules.countP fun r => r.exception.isNone) = rules.length := by
  rw [List.length_eq_countP_add_countP fun r : RuleNode => r.exception.isSome]
  congr 2
  funext r
  cases r.exception <;> rfl

namespace Parser.Whole

variable {x : Tape} {σ : Type} [TokenSource σ] {q : Parser σ} {r : RuleNode} {vs : List View}

/-- **The made-up tokens of a whole parse** are those among its error leaves. -/
theorem countP_conjured (h : q.Whole x r vs) :
    (View.leavesOf vs).countP (fun l => !l.1 && l.2.isConjured) =
      (View.leavesOf vs).countP (fun l => l.2.isConjured) := by
  apply List.countP_congr
  intro l hl
  rcases h.walk.of_mem hl with ⟨herror, hconjured⟩ | ⟨a, -, -, ha⟩
  · simp [herror, hconjured]
  · simp [ha]

/-- **The tokens that the outline of a whole parse passes** are as many as the leaves of tokens of the input, the end
apart. -/
theorem length_read (h : q.Whole x r vs) (e : ElementTypes) (errors : ErrorIndex) (spent : List Nat) :
    (Outline.tokensOf (Outline.ofView e errors spent (.rule r vs)).1).length =
      (View.leavesOf vs).countP (fun l => !l.2.isConjured && !l.2.isEof) := by
  rw [h.tokensOf_ofView, ← h.read, View.read, ← List.countP_eq_length_filter, List.countP_map]
  rfl

end Parser.Whole

/-! ## Counts of a projection -/

namespace Session

variable {β τ : Type} [TreeBuilder β τ]

/-- The replay of a tree from its root, that of a rule, counts what it does. -/
theorem counts_replay {p : Projector β} {t : ParseTree} {r : RuleNode} {vs : List View} (hroot : t.root = some 0)
    (hsize : t.size = (View.rule r vs).size) (h : t.Shows 0 (.rule r vs)) : Answers (Projector.replay t) p fun _ q =>
      p.stats.Grown (Outline.ofView p.host.elements p.errors p.spent (.rule r vs)).1 [.rule r vs] q.stats := by
  rw [Projector.replay_eq hroot hsize h]
  refine (Projector.counts_replayView _ _).bind ?_
  rintro _ q hq
  change Ends _ q _
  rw [ends_get_bind]
  cases q.markers.isEmpty with
  | false => rintro _ ⟨⟩
  | true => exact fun _ _ => hq

variable [CursorBuilder β]

/-- **The second half of a projection counts** what the replay of the tree does, and the tokens that are left. -/
theorem counts_replayUnder {p : Projector β} (snapshot : Nat) (root : Kind) {t : ParseTree} {r : RuleNode}
    {vs : List View} (hroot : t.root = some 0) (hsize : t.size = (View.rule r vs).size)
    (h : t.Shows 0 (.rule r vs)) (hspent : p.spent = []) {ts : List Token}
    (hts : ∀ b, TreeBuilder.rollback p.host.builder snapshot = .ok b →
      TreeBuilder.remaining b = (Outline.tokensOf
        (Outline.ofView p.host.elements p.errors [] (.rule r vs)).1).length + ts.length) :
    Answers (replayUnder (τ := τ) snapshot root t) p fun _ q => ∃ stats,
      p.stats.Grown (Outline.ofView p.host.elements p.errors [] (.rule r vs)).1 [.rule r vs] stats ∧
        q.stats = { stats with drained := ts.length } := by
  rw [replayUnder_eq]
  refine (exists_laidOut snapshot root t).bind ?_
  rintro _ q ⟨b, p₁, _, hlaid⟩
  obtain ⟨-, rfl, -⟩ := hlaid.played hroot hsize h hspent (hts b hlaid.back)
  have hgrown := (counts_replay hroot hsize h).of_ok hlaid.replayed
  simp only [Projector.marked, hspent, Supervised.counted] at hgrown
  change Ends _ q _
  rw [ends_get_bind]
  refine (Projector.answers_orBroken _).mono ?_
  rintro tree _ ⟨-, rfl⟩
  exact ⟨p₁.stats, hgrown, hlaid.stats⟩

/-- **What a projection that succeeds has counted**: what the replay of its tree does, and the tokens that the tree does
not hold. -/
theorem Projected.counts {s : Session} {g : Grammar} {entry : RuleIndex} {root : Kind} {host : Supervised β}
    {tree : τ} {q : Parser (Supervised β)} {r : RuleNode} {vs : List View}
    (hprojected : s.Projected g entry root host tree q r vs) (hstart : host.cursor.position = 0)
    (hok : (s.project g entry root host).1.outcome = .ok tree)
    (hpassed : q.input.source.Passed host.mark.2.builder host.elements) :
    ∃ stats : ProjectionStats, ({} : ProjectionStats).Grown
        (Outline.ofView host.elements (.ofReports q.reports) [] (.rule r vs)).1 [.rule r vs] stats ∧
      (s.project (τ := τ) g entry root host).1.stats = { stats with
        drained := ((host.cursor.tape host.elements).between q.index host.cursor.tokens.size).length } ∧
      (s.project (τ := τ) g entry root host).2.stats = (s.project (τ := τ) g entry root host).1.stats := by
  obtain ⟨hvalid, t, errors, p, houtcome, hreplay⟩ := exists_of_project_ok hok
  rw [project_of_outcome hvalid houtcome, hreplay]
  have hrun := hprojected.run
  have hwhole := hprojected.whole
  rw [← host.remaining_mark] at hrun
  simp only [runRecognizer, Recognition.start, hrun] at houtcome hreplay
  cases houtcome
  have hcounts := (counts_replayUnder host.mark.1 root hwhole.root hwhole.size hwhole.shows rfl
    (remaining_rollback hpassed hstart hwhole _ _)).of_ok hreplay
  obtain ⟨stats, hgrown, hdrained⟩ := hcounts
  rw [hpassed.elements] at hgrown
  exact ⟨stats, hgrown, hdrained, rfl⟩

/-- The rules of a tree that has been projected are not of the kind of error elements, if kinds are laid out. -/
theorem Projected.toldAll {s : Session} {g : Grammar} {entry : RuleIndex} {root : Kind} {host : Supervised β}
    {tree : τ} {q : Parser (Supervised β)} {r : RuleNode} {vs : List View}
    (hprojected : s.Projected g entry root host tree q r vs)
    (hok : (s.project g entry root host).1.outcome = .ok tree)
    (helements : q.input.source.elements = host.elements) {tokens rules : Nat}
    (hlayout : ElementTypes.mk? tokens rules = .ok host.elements) (errors : ErrorIndex) :
    Outline.ToldAll (Outline.ofView host.elements errors [] (.rule r vs)).1 := by
  apply Outline.toldAll_ofView
  intro r' hr' hwell
  -- a rule without an exception has a kind, or it could not have been projected
  obtain ⟨kind, hkind⟩ := hprojected.kinds hok helements r' hr' hwell
  rw [ElementTypes.kindOf_of_rule hkind]
  intro herror
  exact ElementTypes.rule_ne_error hlayout _ (herror ▸ hkind)

/-- **The host tree of a projection has an error element for each message of the outline**, and no other one, if kinds
are laid out and the root is none. -/
theorem Projected.length_errors {s : Session} {g : Grammar} {entry : RuleIndex} {root : Kind} {h : HostText}
    {host : Supervised GreenBuilder} {tree : HostTree} {q : Parser (Supervised GreenBuilder)} {r : RuleNode}
    {vs : List View} (hprojected : s.Projected g entry root host tree q r vs)
    (hbuilder : host.builder = .ofText h g.language) (hok : (s.project g entry root host).1.outcome = .ok tree)
    (helements : q.input.source.elements = host.elements) {tokens rules : Nat}
    (hlayout : ElementTypes.mk? tokens rules = .ok host.elements) (hroot : root ≠ .error) {os : List Outline}
    (hos : os = (Outline.ofView host.elements (.ofReports q.reports) [] (.rule r vs)).1) :
    tree.errors.length = (Outline.messagesOf os).length ∧
      (tree.green.errorSpans 0).length = (Outline.messagesOf os).length := by
  have htold : Outline.ToldAll os := hos ▸ hprojected.toldAll hok helements hlayout _
  obtain ⟨b, hbuild, hfinish, hin, hlen⟩ := hprojected.carried hbuilder rfl
  rw [← hos] at hbuild hin hlen
  have hmessages := congrArg List.length (GreenBuilder.finish_build hbuild hfinish hin hlen).2.2
  have hspans := GreenBuilder.length_errorSpans_finish hbuild hfinish hlen hroot
    (Outline.toldAll_append.mpr ⟨htold, Outline.toldAll_map_token _⟩)
  rw [Outline.messagesOf_append, Outline.messagesOf_map_token, List.append_nil] at hmessages hspans
  exact ⟨by simpa using hmessages, hspans⟩

/-- **The counts of a projection add up.**  When a projection succeeds, with a root that is no error element: as many
rules have been entered as the parse tree has, and each has been closed as a node or, if an exception ended it, as an
error element; as many tokens have been passed as the tree has leaves of tokens of the input, the end apart; with those
that are left they are all tokens but trivia; as many tokens have been made up as the tree has leaves of such tokens;
and the host tree has an error element for each rule that was closed as one and for each error leaf that became one. -/
theorem project_adds_up {s : Session} {g : Grammar} {entry : RuleIndex} {root : Kind} {h : HostText}
    {host : Supervised GreenBuilder} {tree : HostTree} (hbuilder : host.builder = .ofText h g.language)
    (hrule : ∀ tokens, (g.entry (stepsFor tokens) entry).OrdinaryRule) {tokens rules : Nat}
    (hlayout : ElementTypes.mk? tokens rules = .ok host.elements) (hroot : root ≠ .error)
    (hok : (s.project g entry root host).1.outcome = .ok tree) :
    ∃ t errors v stats, (s.recognize g entry host).1.outcome = .ok (t, errors) ∧ t.view? = some v ∧
      (s.project (τ := HostTree) g entry root host).1.stats = stats ∧
      (s.project (τ := HostTree) g entry root host).2.stats = stats ∧
      stats.rulesEntered = (v.collect ParseNode.rule?).length ∧
      stats.rulesDone + stats.rulesErrored = stats.rulesEntered ∧
      stats.rulesErrored = (v.collect ParseNode.rule?).countP (fun r => r.exception.isSome) ∧
      stats.advances = v.leaves.countP (fun l => !l.2.isConjured && !l.2.isEof) ∧
      stats.advances + stats.drained = (h.significant g.language).length ∧
      stats.conjured = v.leaves.countP (fun l => l.2.isConjured) ∧
      tree.errors.length = stats.rulesErrored + stats.errorMarkers ∧
      (tree.green.errorSpans 0).length = stats.rulesErrored + stats.errorMarkers := by
  have hcursor : host.cursor = .ofText h g.language := congrArg CursorBuilder.cursor hbuilder
  have hstart : host.cursor.position = 0 := by
    rw [hcursor]
    rfl
  obtain ⟨q, r, vs, hprojected⟩ := projected (hrule _) hstart hok
  have hwhole := hprojected.whole
  have hpassed := Ends.of_ok ((hrule _).ordinary.passed (b := host.mark.2.builder) (e := host.elements) ⟨rfl, 0, rfl⟩)
    hprojected.run
  obtain ⟨stats, hgrown, hstats, hsession⟩ := hprojected.counts hstart hok hpassed
  obtain ⟨herrors, hspans⟩ := hprojected.length_errors hbuilder hok hpassed.elements hlayout hroot rfl
  have hread := hwhole.length_read host.elements (.ofReports q.reports) []
  have htokens := hwhole.length_tokensOf host.elements (.ofReports q.reports) []
  have hsize : host.cursor.tokens.size = (h.significant g.language).length := by
    simp [hcursor, HostCursor.ofText]
  have hrules : View.collectAll ParseNode.rule? [.rule r vs] = (View.rule r vs).collect ParseNode.rule? :=
    List.append_nil _
  have hleaves : View.leavesOf [.rule r vs] = (View.rule r vs).leaves := List.append_nil _
  obtain ⟨hentered, hdone, herrored, htold, hconjured, hadvances, -⟩ := hgrown
  rw [hrules] at hentered hdone herrored
  rw [hleaves] at hconjured
  simp only [Nat.zero_add] at hentered hdone herrored htold hconjured hadvances
  refine ⟨q.tree, _, .rule r vs, _, hprojected.recognize (hrule _), hwhole.view, rfl, hsession, ?_⟩
  rw [hstats]
  refine ⟨hentered, ?_, herrored, hadvances.trans hread, ?_, hconjured.trans hwhole.countP_conjured, ?_, ?_⟩
  · -- a rule is well, or an exception ended it
    show stats.rulesDone + stats.rulesErrored = stats.rulesEntered
    rw [hdone, herrored, hentered, Nat.add_comm]
    exact RuleNode.countP_exception _
  · show stats.advances + _ = _
    rw [hadvances, htokens, hsize]
  · exact herrors.trans htold.symm
  · exact hspans.trans htold.symm

/-- A function with two errors in it and a token after it: three error elements, one of them of a rule, and one of them
of a token that is made up. -/
theorem project_adds_up_call : ∃ (tree : HostTree) (t : ParseTree) (errors : ErrorIndex) (v : View),
    (({} : Session).project Sample.grammar Sample.functionRule .file
      (Sample.host "func f ( a b ) \x7b var = 1 + ; // \n \x7d g")).1.outcome = .ok tree ∧
    (({} : Session).recognize Sample.grammar Sample.functionRule
      (Sample.host "func f ( a b ) \x7b var = 1 + ; // \n \x7d g")).1.outcome = .ok (t, errors) ∧ t.view? = some v ∧
    (({} : Session).project (τ := HostTree) Sample.grammar Sample.functionRule .file
      (Sample.host "func f ( a b ) \x7b var = 1 + ; // \n \x7d g")).2.stats = ⟨9, 8, 1, 2, 1, 13, 1⟩ ∧
    (v.collect ParseNode.rule?).length = 9 ∧
    v.leaves.countP (fun l => !l.2.isConjured && !l.2.isEof) = 13 ∧
    v.leaves.countP (fun l => l.2.isConjured) = 1 ∧
    tree.errors.length = 3 ∧ (tree.green.errorSpans 0).length = 3 := by
  have hrun : (∃ tree : HostTree, (({} : Session).project Sample.grammar Sample.functionRule .file
        (Sample.host "func f ( a b ) \x7b var = 1 + ; // \n \x7d g")).1.outcome = .ok tree) ∧
      (({} : Session).project (τ := HostTree) Sample.grammar Sample.functionRule .file
        (Sample.host "func f ( a b ) \x7b var = 1 + ; // \n \x7d g")).1.stats = ⟨9, 8, 1, 2, 1, 13, 1⟩ := by
    decide +kernel
  obtain ⟨⟨tree, houtcome⟩, hcounts⟩ := hrun
  obtain ⟨t, errors, v, stats, hrecognize, hview, hstats, hsession, hentered, -, -, hadvances, -, hconjured,
    herrors, hspans⟩ := project_adds_up (h := Sample.cut "func f ( a b ) \x7b var = 1 + ; // \n \x7d g") rfl
      (fun tokens => Sample.ordinaryRule_stepsFor tokens _)
      (rfl : ElementTypes.mk? 20 9 = .ok Sample.language.elements) (by decide) houtcome
  rw [hcounts] at hstats
  subst hstats
  exact ⟨tree, t, errors, v, houtcome, hrecognize, hview, hsession, hentered.symm, hadvances.symm, hconjured.symm,
    herrors, hspans⟩

end Session

end TreeProjection
