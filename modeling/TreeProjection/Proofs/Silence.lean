import TreeProjection.Proofs.Attending
import TreeProjection.Proofs.Fates
import TreeProjection.Proofs.Kinds
import TreeProjection.Proofs.Pairing
import TreeProjection.Proofs.Spacing

/-! # Silence means clean

A parser adds error leaves, makes tokens up and marks rules with exceptions only while reports are held back, and before
they are held back there is a report.  So where nothing has been reported, the tree consists of well rules and of matched
tokens of the input, and nothing in the host tree is an error element.

* `ParseTree.Clean` — a tree of well rules and of matched tokens of the input.
* `Recognizer.Ordinary.ends_clean` — without a report the tree stays clean, however a recognizer ends.
* `Session.Projected.errors_of_clean` — the projection of a clean tree has no error elements.
* `Recognizer.OrdinaryRule.leaves_classified` — what the leaves of a tree tell, and what silence tells. -/

namespace TreeProjection

open ParseNode (View)
open TreeProjection.Parser

/-! ## Clean trees -/

/-- **A clean tree**: its rules are well, and its leaves are matched tokens of the input. -/
structure ParseTree.Clean (t : ParseTree) : Prop where
  /-- There are no error leaves. -/
  matched : ∀ token, ParseNode.error token ∉ t.nodes
  /-- No token is made up. -/
  real : ∀ token, ParseNode.terminal token ∈ t.nodes → token.isConjured = false
  /-- No rule has been ended by an exception. -/
  well : ∀ r, ParseNode.rule r ∈ t.nodes → r.exception = none

/-- Whether a tree is clean shows in its leaves and in its exceptions. -/
theorem ParseTree.clean_iff {t : ParseTree} :
    t.Clean ↔ (∀ l ∈ t.leaves, l.1 = true ∧ l.2.isConjured = false) ∧ t.exceptions = [] := by
  simp only [leaves, exceptions, List.filterMap_eq_nil_iff, List.mem_filterMap, Array.mem_toList_iff]
  constructor
  · intro h
    refine ⟨?_, ?_⟩
    · rintro l ⟨node, hnode, hleaf⟩
      cases node with
      | rule r => cases hleaf
      | terminal token =>
          cases hleaf
          exact ⟨rfl, h.real token hnode⟩
      | error token => exact absurd hnode (h.matched token)
    · intro node hnode
      cases node with
      | rule r => exact h.well r hnode
      | terminal token => rfl
      | error token => rfl
  · rintro ⟨hleaves, hexceptions⟩
    exact ⟨fun token htoken => Bool.false_ne_true (hleaves (false, token) ⟨_, htoken, rfl⟩).1,
      fun token htoken => (hleaves (true, token) ⟨_, htoken, rfl⟩).2, fun r hr => hexceptions _ hr⟩

variable {σ α : Type} [TokenSource σ] {p : Parser σ}

/-- A tree without nodes is clean. -/
theorem ParseTree.Clean.empty : ({} : ParseTree).Clean := ParseTree.clean_iff.mpr ⟨(fun _ h => nomatch h), rfl⟩

/-- **Without a report the tree stays clean**, unless reports are held back from the start. -/
theorem Recognizer.Ordinary.ends_clean {r : Recognizer α} (h : r.Ordinary) (hp : p.Earnest)
    (hfree : p.recovery.inRecovery = false) (hclean : p.tree.Clean) :
    Ends r.run p fun _ q => q.syntaxErrors = p.syntaxErrors → q.tree.Clean := by
  refine Ends.mono (h.tells hp) ?_
  rintro o q ⟨ds, hcourse, htold⟩ hsilent
  have htallied := hcourse.tallied
  have hcount : q.syntaxErrors = p.syntaxErrors + ds.count .reported := htallied.errors
  have hnone : Deed.reported ∉ ds := List.count_eq_zero.mp (by omega)
  obtain ⟨b, horderly⟩ := htold.orderly
  -- without a report all that has been done is matching
  have hmatched := horderly.matched_of_silent hfree hnone
  have hmarked : Deed.marked ∉ ds := fun hmem => by
    obtain ⟨t, ht, -⟩ := hmatched _ hmem
    cases ht
  have hleaves : q.tree.leaves = p.tree.leaves ++ ds.filterMap Deed.leaf? := htallied.leaves
  have hexceptions : q.tree.exceptions = p.tree.exceptions := htallied.exceptions hmarked
  rw [ParseTree.clean_iff] at hclean ⊢
  rw [hleaves, hexceptions]
  refine ⟨fun l hl => ?_, hclean.2⟩
  -- a leaf was there before, or it is one of a match
  rcases List.mem_append.mp hl with hl | hl
  · exact hclean.1 l hl
  · obtain ⟨d, hd, hleaf⟩ := List.mem_filterMap.mp hl
    obtain ⟨t, rfl, hreal⟩ := hmatched d hd
    cases hleaf
    exact ⟨rfl, hreal⟩

/-! ## Projections of clean trees -/

/-- The rule of a node. -/
def ParseNode.rule? : ParseNode → Option RuleNode
  | rule r => some r
  | _ => none

/-- **A clean tree, seen as a whole.** -/
structure ParseNode.View.Clean (v : View) : Prop where
  /-- Each leaf is a matched token of the input. -/
  leaves : ∀ l ∈ v.leaves, l.1 = true ∧ l.2.isConjured = false
  /-- No rule has been ended by an exception. -/
  exceptions : v.collect ParseNode.exception? = []

/-- Several clean trees. -/
structure ParseNode.View.CleanAll (vs : List View) : Prop where
  /-- Each leaf is a matched token of the input. -/
  leaves : ∀ l ∈ View.leavesOf vs, l.1 = true ∧ l.2.isConjured = false
  /-- No rule has been ended by an exception. -/
  exceptions : View.collectAll ParseNode.exception? vs = []

namespace ParseNode.View

/-- The rule at the root of a clean tree is well, and the trees below it are clean. -/
theorem Clean.rule {r : RuleNode} {children : List View} (h : View.Clean (.rule r children)) :
    r.exception = none ∧ CleanAll children := by
  have hexceptions := h.exceptions
  rw [collect, List.append_eq_nil_iff, Option.toList_eq_nil_iff] at hexceptions
  exact ⟨hexceptions.1, h.leaves, hexceptions.2⟩

/-- The first of several clean trees, and the others. -/
theorem CleanAll.cons {v : View} {rest : List View} (h : CleanAll (v :: rest)) : v.Clean ∧ CleanAll rest := by
  have hexceptions := h.exceptions
  have hleaves := h.leaves
  rw [collectAll, List.append_eq_nil_iff] at hexceptions
  rw [leavesOf] at hleaves
  exact ⟨⟨fun l hl => hleaves l (List.mem_append_left _ hl), hexceptions.1⟩,
    fun l hl => hleaves l (List.mem_append_right _ hl), hexceptions.2⟩

/-- An error leaf is not clean. -/
theorem not_clean_error (t : Token) : ¬ View.Clean (.error t) :=
  fun h => Bool.false_ne_true (h.leaves (false, t) (List.mem_singleton.mpr rfl)).1

mutual

/-- The exceptions of the rules of a tree. -/
theorem collect_exception : ∀ v : View,
    v.collect ParseNode.exception? = (v.collect ParseNode.rule?).filterMap RuleNode.exception
  | .rule r children => by
      rw [collect, collect, collectAll_exception children]
      change r.exception.toList ++ _ = (r :: _).filterMap _
      cases h : r.exception <;> simp [h]
  | .terminal _ => rfl
  | .error _ => rfl

/-- The exceptions of the rules of several trees. -/
theorem collectAll_exception : ∀ vs : List View,
    collectAll ParseNode.exception? vs = (collectAll ParseNode.rule? vs).filterMap RuleNode.exception
  | [] => rfl
  | v :: rest => by
      rw [collectAll, collectAll, List.filterMap_append, collect_exception v, collectAll_exception rest]

end

/-- The rules of a clean tree are well. -/
theorem Clean.exception_eq_none {v : View} (h : v.Clean) {r : RuleNode} (hr : r ∈ v.collect ParseNode.rule?) :
    r.exception = none := by
  have hexceptions := h.exceptions
  rw [collect_exception, List.filterMap_eq_nil_iff] at hexceptions
  exact hexceptions r hr

/-- **A clean tree is seen as one.** -/
theorem clean_of_shows {t : ParseTree} {v : View} (ht : t.Clean) (h : t.Shows 0 v) (hsize : t.size = v.size) :
    v.Clean := by
  obtain ⟨hleaves, hexceptions⟩ := ParseTree.clean_iff.mp ht
  refine ⟨?_, ?_⟩
  · rwa [← ParseTree.leaves_of_shows h hsize]
  · rw [← ParseTree.collect_of_shows h hsize]
    exact hexceptions

end ParseNode.View

namespace Outline

/-- A leaf of a matched token has no message. -/
theorem messagesOf_passed (t : Token) : messagesOf (passed t) = [] := by
  unfold passed
  split <;> rfl

/-- A leaf of a matched token is no error element. -/
theorem soundAll_passed (t : Token) : SoundAll (passed t) := by
  unfold passed
  split
  · trivial
  · exact ⟨trivial, trivial⟩

mutual

/-- **The outline of a clean tree has no messages.** -/
theorem messagesOf_ofView (e : ElementTypes) (errors : ErrorIndex) : ∀ (v : View) (spent : List Nat), v.Clean →
    messagesOf (ofView e errors spent v).1 = []
  | .rule r children, spent, h => by
      obtain ⟨hwell, hchildren⟩ := h.rule
      have hinside := messagesOf_ofViews e errors children spent hchildren
      rw [ofView, hwell]
      simp only [messagesOf, messages, hinside, List.append_nil]
  | .terminal t, spent, _ => messagesOf_passed t
  | .error t, spent, h => absurd h (View.not_clean_error t)

/-- The outlines of several clean trees have no messages. -/
theorem messagesOf_ofViews (e : ElementTypes) (errors : ErrorIndex) : ∀ (vs : List View) (spent : List Nat),
    View.CleanAll vs → messagesOf (ofViews e errors spent vs).1 = []
  | [], _, _ => rfl
  | v :: rest, spent, h => by
      obtain ⟨hfirst, hothers⟩ := h.cons
      rw [ofViews, messagesOf_append, messagesOf_ofView e errors v spent hfirst,
        messagesOf_ofViews e errors rest _ hothers, List.nil_append]

end

mutual

/-- **The outline of a clean tree is sound**, if the kinds of its rules are not that of error elements. -/
theorem soundAll_ofView {e : ElementTypes} (errors : ErrorIndex) : ∀ (v : View) (spent : List Nat), v.Clean →
    (∀ r ∈ v.collect ParseNode.rule?, e.kindOf r.rule ≠ .error) → SoundAll (ofView e errors spent v).1
  | .rule r children, spent, h, hkinds => by
      obtain ⟨hwell, hchildren⟩ := h.rule
      have hinside := soundAll_ofViews errors children spent hchildren fun r' hr' =>
        hkinds r' (List.mem_cons_of_mem _ hr')
      rw [ofView, hwell]
      exact ⟨⟨hkinds r List.mem_cons_self, hinside⟩, trivial⟩
  | .terminal t, spent, _, _ => soundAll_passed t
  | .error t, spent, h, _ => absurd h (View.not_clean_error t)

/-- The outlines of several clean trees are sound. -/
theorem soundAll_ofViews {e : ElementTypes} (errors : ErrorIndex) : ∀ (vs : List View) (spent : List Nat),
    View.CleanAll vs → (∀ r ∈ View.collectAll ParseNode.rule? vs, e.kindOf r.rule ≠ .error) →
      SoundAll (ofViews e errors spent vs).1
  | [], _, _, _ => trivial
  | v :: rest, spent, h, hkinds => by
      obtain ⟨hfirst, hothers⟩ := h.cons
      rw [ofViews, soundAll_append]
      exact ⟨soundAll_ofView errors v spent hfirst fun r hr => hkinds r (List.mem_append_left _ hr),
        soundAll_ofViews errors rest _ hothers fun r hr => hkinds r (List.mem_append_right _ hr)⟩

end

end Outline

namespace Projector

variable {β τ : Type} [TreeBuilder β τ] {p : Projector β}

/-- A rule's region is closed as a node only if the rule has a kind. -/
theorem answers_exitRule_kind (r : RuleNode) : Answers (exitRule r) p fun _ _ =>
    r.exception = none → ∃ kind, p.host.elements.rule r.rule = .ok kind := by
  refine (exitRule_closes r p).mono ?_
  rintro _ q hends _ ⟨⟩ hwell
  cases hends with
  | failed _ _ exception => cases hwell.symm.trans exception
  | done _ _ _ known => exact ⟨_, known⟩

mutual

/-- **A tree is replayed only if its rules have kinds**, but for those that an exception ended. -/
theorem answers_replayView_kinds : ∀ (v : View) (p : Projector β), Answers (replayView v) p fun _ _ =>
    ∀ r ∈ v.collect ParseNode.rule?, r.exception = none → ∃ kind, p.host.elements.rule r.rule = .ok kind
  | .rule r children, p => by
      rw [replayView]
      refine (answers_enterRule r).bind fun _ p₁ h₁ => ?_
      obtain ⟨-, -, -, -, helements, -⟩ := h₁
      refine ((answers_replayViews children p₁).and (answers_replayViews_kinds children p₁)).bind
        fun _ p₂ h₂ => ?_
      refine (answers_exitRule_kind r).mono fun _ q hq => ?_
      rw [h₂.1.elements, helements] at hq
      rw [helements] at h₂
      exact List.forall_mem_cons.mpr ⟨hq, h₂.2⟩
  | .terminal t, p => Ends.mono (Ends.self _ p) fun _ _ _ _ _ _ h => nomatch h
  | .error t, p => Ends.mono (Ends.self _ p) fun _ _ _ _ _ _ h => nomatch h

/-- Several trees are replayed only if their rules have kinds. -/
theorem answers_replayViews_kinds : ∀ (vs : List View) (p : Projector β), Answers (replayViews vs) p fun _ _ =>
    ∀ r ∈ View.collectAll ParseNode.rule? vs, r.exception = none →
      ∃ kind, p.host.elements.rule r.rule = .ok kind
  | [], p => fun _ _ _ h => nomatch h
  | v :: rest, p => by
      rw [replayViews]
      refine ((answers_replayView v p).and (answers_replayView_kinds v p)).bind fun _ p₁ h₁ => ?_
      refine (answers_replayViews_kinds rest p₁).mono fun _ q hq => ?_
      rw [h₁.1.elements] at hq
      exact List.forall_mem_append.mpr ⟨h₁.2, hq⟩

end

end Projector

namespace Session

variable {β τ : Type} [TreeBuilder β τ]

/-- **A tree is projected only if its rules have kinds**, but for those that an exception ended. -/
theorem answers_replayUnder_kinds {p : Projector β} (snapshot : Nat) (root : Kind) {t : ParseTree} {r : RuleNode}
    {vs : List View} (hroot : t.root = some 0) (hsize : t.size = (View.rule r vs).size)
    (h : t.Shows 0 (.rule r vs)) : Answers (replayUnder (τ := τ) snapshot root t) p fun _ _ =>
      ∀ s ∈ (View.rule r vs).collect ParseNode.rule?, s.exception = none →
        ∃ kind, p.host.elements.rule s.rule = .ok kind := by
  rw [replayUnder_eq]
  refine (exists_laidOut snapshot root t).bind ?_
  rintro _ q ⟨b, p₁, _, hlaid⟩
  have hreplay := hlaid.replayed
  rw [Projector.replay_eq hroot hsize h] at hreplay
  obtain ⟨_, _, hview, -⟩ := exists_of_bind_ok hreplay
  have hkinds := (Projector.answers_replayView_kinds _ _).of_ok hview
  exact Ends.mono (Ends.self _ q) fun _ _ _ _ _ => hkinds

/-- The rules of a tree that has been projected have kinds. -/
theorem Projected.kinds [CursorBuilder β] {s : Session} {g : Grammar} {entry : RuleIndex} {root : Kind}
    {host : Supervised β}
    {tree : τ} {q : Parser (Supervised β)} {r : RuleNode} {vs : List View}
    (hprojected : s.Projected g entry root host tree q r vs)
    (hok : (s.project g entry root host).1.outcome = .ok tree)
    (helements : q.input.source.elements = host.elements) :
    ∀ s ∈ (View.rule r vs).collect ParseNode.rule?, s.exception = none →
      ∃ kind, host.elements.rule s.rule = .ok kind := by
  obtain ⟨-, t, errors, p, houtcome, hreplay⟩ := exists_of_project_ok hok
  have hrun := hprojected.run
  have hwhole := hprojected.whole
  rw [← host.remaining_mark] at hrun
  simp only [runRecognizer, Recognition.start, hrun] at houtcome hreplay
  cases houtcome
  have hkinds := (answers_replayUnder_kinds host.mark.1 root hwhole.root hwhole.size hwhole.shows).of_ok hreplay
  rwa [helements] at hkinds

/-- **The projection of a clean tree has no error elements**, and no node of that kind either, if kinds are laid out. -/
theorem Projected.errors_of_clean {s : Session} {g : Grammar} {entry : RuleIndex} {root : Kind} {h : HostText}
    {host : Supervised GreenBuilder} {tree : HostTree} {q : Parser (Supervised GreenBuilder)} {r : RuleNode}
    {vs : List View} (hprojected : s.Projected g entry root host tree q r vs)
    (hbuilder : host.builder = .ofText h g.language)
    (hok : (s.project g entry root host).1.outcome = .ok tree)
    (helements : q.input.source.elements = host.elements) (hclean : q.tree.Clean) :
    tree.errors = [] ∧ ∀ tokens rules, ElementTypes.mk? tokens rules = .ok host.elements → root ≠ .error →
      tree.green.errorSpans 0 = [] := by
  obtain ⟨b, hbuild, hfinish, hin, hlen⟩ := hprojected.carried hbuilder rfl
  have hview := View.clean_of_shows hclean hprojected.whole.shows hprojected.whole.size
  refine ⟨?_, fun tokens rules hkinds hroot => ?_⟩
  · have hmessages := (GreenBuilder.finish_build hbuild hfinish hin hlen).2.2
    rw [Outline.messagesOf_append, Outline.messagesOf_ofView _ _ _ _ hview,
      Outline.messagesOf_map_token] at hmessages
    exact List.map_eq_nil_iff.mp hmessages
  · refine (GreenBuilder.finish_sound hbuild hfinish hlen hroot (Outline.soundAll_append.mpr ⟨?_,
      Outline.soundAll_map_token _⟩)).1
    refine Outline.soundAll_ofView _ _ _ hview fun r' hr' => ?_
    -- a rule without an exception has a kind, or it could not have been projected
    obtain ⟨kind, hkind⟩ := hprojected.kinds hok helements r' hr' (hview.exception_eq_none hr')
    rw [ElementTypes.kindOf_of_rule hkind]
    intro herror
    exact ElementTypes.rule_ne_error hkinds _ (herror ▸ hkind)

/-- **If nothing is reported, a projection that succeeds has no error elements.** -/
theorem project_clean {s : Session} {g : Grammar} {entry : RuleIndex} {root : Kind} {h : HostText}
    {host : Supervised GreenBuilder} {tree : HostTree} (hbuilder : host.builder = .ofText h g.language)
    (hrule : (g.entry (stepsFor (TreeBuilder.remaining host.builder)) entry).OrdinaryRule)
    (hok : (s.project g entry root host).1.outcome = .ok tree)
    (hsilent : (s.project (τ := HostTree) g entry root host).1.journal.filterMap Note.report? = []) :
    tree.errors = [] ∧ ∀ tokens rules, ElementTypes.mk? tokens rules = .ok host.elements → root ≠ .error →
      tree.green.errorSpans 0 = [] := by
  have hcursor : host.cursor = .ofText h g.language := congrArg CursorBuilder.cursor hbuilder
  obtain ⟨q, r, vs, hprojected⟩ := projected hrule (by rw [hcursor]; rfl) hok
  have hrun := hprojected.run
  have hearnest : (s.parser g.language host.mark.2).Earnest := ⟨rfl, rfl, rfl, Stream.numbered_ofSource _⟩
  obtain ⟨ds, hcourse, -⟩ := Ends.of_ok (hrule.ordinary.tells hearnest) hrun
  -- there is a listener, so what has not been heard has not been reported
  have hheard : q.reports.length = ds.count .reported :=
    (hcourse.tallied.heard Nat.one_pos).trans (Nat.zero_add _)
  have hcount : q.syntaxErrors = ds.count .reported := hcourse.tallied.errors.trans (Nat.zero_add _)
  have herrors : q.syntaxErrors = 0 := by
    rw [hcount, ← hheard, ← hprojected.reports, hsilent, List.length_nil]
  have hclean := Ends.of_ok (hrule.ordinary.ends_clean hearnest rfl .empty) hrun herrors
  have hpassed := Ends.of_ok (hrule.ordinary.passed (b := host.mark.2.builder) (e := host.elements) ⟨rfl, 0, rfl⟩) hrun
  exact hprojected.errors_of_clean hbuilder hok hpassed.elements hclean

end Session

/-- **What the leaves of a tree tell, and what silence tells.** If a recognizer leaves it to other operations to consume
tokens, then the leaves of its finished tree, those for made-up tokens and for the end apart, tell in order what has
become of the tokens of the input: a token is a matched leaf exactly if it was matched where its own type was expected,
and an error leaf exactly if it was skipped.  If no error has been found, then however a parse ends, all leaves of its
tree are matched tokens of the input and no rule is marked with an exception; and a host tree that is projected while
nothing is reported has no error elements. -/
theorem Recognizer.OrdinaryRule.leaves_classified {e : Recognizer Unit} (h : e.OrdinaryRule)
    {source : σ} (hsource : TokenSource.RunsOut source) {strategy : Strategy}
    (hstrategy : strategy = .default ∨ strategy = .anchored) (language : Language)
    (recursionLimit : Option Nat) (listeners : Nat) {p : Parser σ}
    (hp : p = { input := .ofSource source, language, strategy, recursionLimit, listeners }) :
    (e.LeavesConsuming → Ends e.run p fun o q => o = .ok () → ∃ v, q.tree.view? = some v ∧
      v.leaves.filter isKept = (e.fates p).map Fate.leaf ∧
      (∀ ty t, Fate.matched ty t ∈ e.fates p → t.ty = ty) ∧
      ∀ t, t.isConjured = false → t.isEof = false →
        ((true, t) ∈ v.leaves ↔ Fate.matched t.ty t ∈ e.fates p) ∧
        ((false, t) ∈ v.leaves ↔ Fate.skipped t ∈ e.fates p)) ∧
    (Ends e.run p fun _ q => q.syntaxErrors = 0 → q.tree.Clean) ∧
    ∀ (s : Session) (g : Grammar) (entry : RuleIndex) (root : Kind) (text : HostText)
      (host : Supervised GreenBuilder) (tree : HostTree), host.builder = .ofText text g.language →
      g.entry (stepsFor (TreeBuilder.remaining host.builder)) entry = e →
      (s.project g entry root host).1.outcome = .ok tree →
      (s.project (τ := HostTree) g entry root host).1.journal.filterMap Note.report? = [] →
      tree.errors = [] ∧ ∀ tokens rules, ElementTypes.mk? tokens rules = .ok host.elements → root ≠ .error →
        tree.green.errorSpans 0 = [] := by
  subst hp
  obtain ⟨x, hx⟩ := hsource.exists_feeds
  have hdoes : strategy.noted = false ∧ strategy.denied = [] := by
    rcases hstrategy with rfl | rfl <;> exact ⟨rfl, rfl⟩
  have hearnest : ({ input := .ofSource source, language, strategy, recursionLimit, listeners } :
      Parser σ).Earnest := ⟨rfl, hdoes.1, hdoes.2, Stream.numbered_ofSource source⟩
  -- what has become of tokens is told of the whole run, and the rest of each of its steps and of projections
  refine ⟨fun he => ?_, h.ordinary.ends_clean hearnest rfl .empty, ?_⟩
  · have hruns := h.runs_recounts he (Stream.reads_ofSource hx) rfl hearnest.acting hdoes.1 hdoes.2 rfl rfl
    refine Ends.mono hruns fun o q hq ho => ?_
    subst ho
    obtain ⟨v, hview, haccounts⟩ := hq
    exact ⟨v, hview, haccounts.leaves, haccounts.types, fun t hreal hinner =>
      ⟨haccounts.mem_matched t, haccounts.mem_skipped hreal hinner⟩⟩
  · rintro s g entry root text host tree hbuilder rfl hok hsilent
    exact Session.project_clean hbuilder h hok hsilent

namespace Misplaced

/-- The recognizer does not consume tokens by itself. -/
theorem leavesConsuming_recognizer : recognizer.LeavesConsuming :=
  ⟨⟨rfl, fun _ => ⟨rfl, fun _ => trivial⟩⟩, fun _ => trivial⟩

/-- A language of a rule and three token types. -/
def grammar : Grammar where
  language :=
    { name := "pairs"
      vocabulary := .ofNames [] [none, some "A", some "B", some "C"]
      rules := #[("pair", ⟨0⟩)]
      elements := ⟨4, 1⟩ }
  entry _ _ := recognizer

/-- A source in which both tokens are in their places. -/
def host : Supervised GreenBuilder where
  builder := .ofText ⟨[⟨3, "a"⟩, ⟨4, "b"⟩], ""⟩ grammar.language
  elements := grammar.language.elements

/-- The two tokens that do not belong there are skipped, and the other two are matched; where the two are in their places,
the host tree has no error elements. -/
theorem leaves_classified_misplaced :
    (∃ q v, recognizer.run { input := .ofSource source, language := default } = .ok () q ∧ q.tree.view? = some v ∧
      (v.leaves.filter isKept).map (fun l => (l.1, l.2.text)) =
        [(false, "c"), (true, "a"), (false, "c"), (true, "b")]) ∧
    ∃ tree : HostTree, (({} : Session).project grammar ⟨0⟩ .file host).1.outcome = .ok tree ∧
      tree.errors = [] ∧ tree.green.errorSpans 0 = [] := by
  have hsource : TokenSource.RunsOut source := ListedTokens.runsOut (by decide)
  have hall := fun (p : Parser ListedTokens) (hp : p = { input := .ofSource source, language := default }) =>
    ordinaryRule_recognizer.leaves_classified hsource (.inl rfl) default none 0 hp
  have hfates : ((recognizer.fates { input := .ofSource source, language := default }).map Fate.leaf).map
      (fun l => (l.1, l.2.text)) = [(false, "c"), (true, "a"), (false, "c"), (true, "b")] := by decide +kernel
  have hend : ∃ u q, recognizer.run { input := .ofSource source, language := default } = .ok u q ∧
      q.syntaxErrors = 2 := by decide +kernel
  refine ⟨?_, ?_⟩
  · generalize hp : ({ input := .ofSource source, language := default } : Parser ListedTokens) = p at hend hfates ⊢
    obtain ⟨_, q, hrun, -⟩ := hend
    obtain ⟨v, hview, hleaves, -⟩ := Ends.of_ok ((hall p hp.symm).1 leavesConsuming_recognizer) hrun rfl
    exact ⟨q, v, hrun, hview, hleaves ▸ hfates⟩
  · have hok : ∃ tree : HostTree, (({} : Session).project grammar ⟨0⟩ .file host).1.outcome = .ok tree := by
      decide +kernel
    have hsilent : (({} : Session).project (τ := HostTree) grammar ⟨0⟩ .file host).1.journal.filterMap
        Note.report? = [] := by decide +kernel
    obtain ⟨tree, houtcome⟩ := hok
    obtain ⟨herrors, hspans⟩ := (hall _ rfl).2.2 {} grammar ⟨0⟩ .file ⟨[⟨3, "a"⟩, ⟨4, "b"⟩], ""⟩ host tree rfl rfl
      houtcome hsilent
    exact ⟨tree, houtcome, herrors, hspans 4 1 (by decide) (by decide)⟩

end Misplaced

end TreeProjection
