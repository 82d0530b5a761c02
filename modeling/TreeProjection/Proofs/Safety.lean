import TreeProjection.Proofs.Attending
import TreeProjection.Proofs.Balance
import TreeProjection.Proofs.CallingOff

/-! # Runs break no contract

A run over a source never breaks a contract of the parser, of the projection or of the builder.  It may be given up
for want of a rule to begin with, because it has been called off, because too many rules are active, or because the
recognizer has used up its steps; but for that it succeeds.

* `Outline.openMarkers_build` — carrying out an outline leaves the same regions open.
* `Projector.Unhindered` — an action of a projection that fails only if the run has been called off.
* `Projector.unhindered_replayView`, `Session.unhindered_replayUnder` — replaying a tree, and the second half of a
  projection.
* `Session.outcome_foreseen` — what comes of a run. -/

namespace TreeProjection

open ParseNode (View)

variable {α β τ : Type}

/-! ## Regions of a green builder -/

namespace GreenBuilder

/-- Passing a token leaves the same regions open. -/
@[simp] theorem openMarkers_advance (b : GreenBuilder) : b.advance.openMarkers = b.openMarkers := by
  unfold advance
  cases b.cursor.current? <;> rfl

/-- The region that has been closed was the innermost one. -/
theorem openMarkers_close {b b' : GreenBuilder} {marker : Nat} {closing : Closing}
    (h : b.close marker closing = .ok b') : b.openMarkers = marker :: b'.openMarkers := by
  unfold close at h
  cases hopen : b.openMarkers with
  | nil =>
      rw [hopen] at h
      cases h
  | cons m rest =>
      rw [hopen] at h
      by_cases hm : m = marker
      · simp only [hm, if_true] at h
        cases h
        rw [hm]
      · simp only [hm, if_false] at h
        cases h

/-- The closing of the innermost region is not refused. -/
theorem close_ne_error {b : GreenBuilder} {marker : Nat} {rest : List Nat} (h : b.openMarkers = marker :: rest)
    (closing : Closing) (v : Violation) : b.close marker closing ≠ .error v := by
  unfold close
  rw [h]
  simp only [if_true]
  exact nofun

end GreenBuilder

namespace Outline

mutual

/-- **Carrying out an outline leaves the same regions open.** -/
theorem openMarkers_build : ∀ {o : Outline} {b b' : GreenBuilder}, build o b = .ok b' →
    b'.openMarkers = b.openMarkers
  | .token t, b, b', h => by
      cases h
      exact b.openMarkers_advance
  | .node kind parts, b, b', h => by
      simp only [build, bind, Except.bind] at h
      split at h
      · cases h
      · rename_i b₁ hparts
        have hinside := openMarkers_builds hparts
        rw [GreenBuilder.openMarkers_close h] at hinside
        exact (List.cons.inj hinside).2
  | .error message parts, b, b', h => by
      simp only [build, bind, Except.bind] at h
      split at h
      · cases h
      · rename_i b₁ hparts
        have hinside := openMarkers_builds hparts
        rw [GreenBuilder.openMarkers_close h] at hinside
        exact (List.cons.inj hinside).2

/-- Carrying out several outlines leaves the same regions open. -/
theorem openMarkers_builds : ∀ {os : List Outline} {b b' : GreenBuilder}, builds os b = .ok b' →
    b'.openMarkers = b.openMarkers
  | [], b, b', h => by
      cases h
      rfl
  | o :: rest, b, b', h => by
      simp only [builds, bind, Except.bind] at h
      split at h
      · cases h
      · rename_i b₁ ho
        rw [openMarkers_builds h, openMarkers_build ho]

end

end Outline

/-! ## Projections that nothing hinders -/

namespace Projector

/-- **An action fails only if the run has been called off.** -/
def Unhindered (x : ProjectorM β α) (p : Projector β) : Prop :=
  Ends x p fun o _ => ∀ a, o = .error a → a = .error .cancelled

/-- One action after the other. -/
theorem Unhindered.bind {γ : Type} {x : ProjectorM β α} {f : α → ProjectorM β γ} {p : Projector β}
    {mid : α → Projector β → Prop} (h : Unhindered x p) (hmid : Answers x p mid)
    (hnext : ∀ a q, mid a q → Unhindered (f a) q) : Unhindered (x >>= f) p := by
  refine Ends.bind (Ends.and h hmid) (fun a q hq => hnext a q (hq.2 a rfl)) ?_
  rintro a q ⟨hfails, -⟩ _ ⟨⟩
  exact hfails a rfl

/-- What the host does not refuse. -/
theorem unhindered_host {p : Projector β} (act : Supervised β → Except Violation (Supervised β))
    (h : ∃ host, act p.host = .ok host) :
    Unhindered (do
      let p ← get
      let host ← orBroken (act p.host)
      set { p with host }) p := by
  obtain ⟨host, hact⟩ := h
  unfold Unhindered
  rw [ends_get_bind, hact]
  exact nofun

variable [TreeBuilder β τ] {p : Projector β}

/-- Replaying a matched token. -/
theorem unhindered_terminal (t : Token) : Unhindered (terminal t) p := by
  unfold terminal Unhindered
  exact (Ends.bind_of_ok (advance_eq t p)).mpr nofun

/-- Opening the region of a rule. -/
theorem unhindered_enterRule (r : RuleNode) : Unhindered (enterRule (β := β) r) p := by
  refine (enterRule_opens r p).mono ?_
  rintro _ _ (_ | _) _ ⟨⟩
  rfl

section

variable {p : Projector GreenBuilder} {marker : Nat} {rest : List Nat}

/-- Closing the innermost region as a node. -/
theorem unhindered_done (h : p.host.builder.openMarkers = marker :: rest) (kind : Kind) :
    Unhindered (done marker kind) p := by
  refine (done_settles marker kind p).mono ?_
  rintro _ _ (_ | ⟨answer⟩) _ ⟨⟩
  exact absurd answer (GreenBuilder.close_ne_error h _ _)

/-- Replaying an error leaf.  The region that is opened for it is the innermost one when it is closed. -/
theorem unhindered_errorLeaf (t : Token) : Unhindered (errorLeaf t) p := by
  refine (errorLeaf_places t p).mono ?_
  rintro _ q hends _ ⟨⟩
  cases hends with
  | refused inside answer =>
      have hopen : q.host.builder.openMarkers =
          (TreeBuilder.mark p.host.builder).1 :: p.host.builder.openMarkers := by
        rcases inside with rfl | rfl
        · rfl
        · exact Outline.openMarkers_builds (played_passed p.marked t).build
      exact absurd answer (GreenBuilder.close_ne_error hopen _ _)

/-- Closing the region of a rule that has a kind. -/
theorem unhindered_exitRule {r : RuleNode} {kind : Kind} {above : List Nat}
    (hmarkers : p.markers = marker :: above) (hopen : p.host.builder.openMarkers = marker :: rest)
    (hkind : p.host.elements.rule r.rule = .ok kind) : Unhindered (exitRule r) p := by
  refine (exitRule_closes r p).mono ?_
  rintro _ q hends _ ⟨⟩
  cases hends with
  | calledOff => rfl
  | unopened markers => cases hmarkers.symm.trans markers
  | unknown _ _ unknown => cases hkind.symm.trans unknown
  | unfailed markers _ answer =>
      obtain ⟨rfl, rfl⟩ := List.cons.inj (hmarkers.symm.trans markers)
      exact absurd answer (GreenBuilder.close_ne_error hopen _ _)
  | undone markers _ _ answer =>
      obtain ⟨rfl, rfl⟩ := List.cons.inj (hmarkers.symm.trans markers)
      exact absurd answer (GreenBuilder.close_ne_error hopen _ _)

end

mutual

/-- **Nothing hinders the replay of a tree** all the rules of which have kinds. -/
theorem unhindered_replayView {t : ParseTree} {e : ElementTypes}
    (hkinds : ∀ (n : Nat) (r : RuleNode), t.nodes[n]? = some (.rule r) →
      ∃ kind, e.rule r.rule = .ok kind) :
    ∀ (v : View) (lo : Nat) (p : Projector GreenBuilder), t.Shows lo v → p.host.elements = e →
      Unhindered (replayView v) p
  | .rule r children, lo, p, hshows, helements => by
      rw [replayView]
      refine (unhindered_enterRule r).bind (answers_enterRule r) fun _ p₁ h₁ => ?_
      obtain ⟨-, -, -, hmarkers, helements₁, hbuilder⟩ := h₁
      -- the children leave the marker of the rule on top
      refine (unhindered_replayViews hkinds children (lo + 1) p₁ hshows.2.2
        (helements₁.trans helements)).bind (answers_replayViews children p₁) fun _ p₂ h₂ => ?_
      obtain ⟨kind, hkind⟩ := hkinds lo r hshows.1
      -- the region that was opened for the rule is the innermost one again
      have hopen : p₂.host.builder.openMarkers =
          (TreeBuilder.mark p.host.builder).1 :: p.host.builder.openMarkers := by
        rw [Outline.openMarkers_builds h₂.build, hbuilder]
        rfl
      rw [← helements, ← helements₁, ← h₂.elements] at hkind
      exact unhindered_exitRule (h₂.markers.trans hmarkers) hopen hkind
  | .terminal t, lo, p, _, _ => unhindered_terminal t
  | .error t, lo, p, _, _ => unhindered_errorLeaf t

/-- Nothing hinders the replay of several trees. -/
theorem unhindered_replayViews {t : ParseTree} {e : ElementTypes}
    (hkinds : ∀ (n : Nat) (r : RuleNode), t.nodes[n]? = some (.rule r) →
      ∃ kind, e.rule r.rule = .ok kind) :
    ∀ (vs : List View) (lo : Nat) (p : Projector GreenBuilder), t.ShowsAll lo vs →
      p.host.elements = e → Unhindered (replayViews vs) p
  | [], lo, p, _, _ => nofun
  | v :: rest, lo, p, hshows, helements => by
      rw [replayViews]
      refine (unhindered_replayView hkinds v lo p hshows.1 helements).bind
        (answers_replayView v p) fun _ p₁ h₁ => ?_
      exact unhindered_replayViews hkinds rest _ p₁ hshows.2 (h₁.elements.trans helements)

end

/-- Nothing hinders the replay of a tree from its root, where no region is open for a rule. -/
theorem unhindered_replay {p : Projector GreenBuilder} {t : ParseTree} {r : RuleNode}
    {vs : List View} (hroot : t.root = some 0) (hsize : t.size = (View.rule r vs).size)
    (h : t.Shows 0 (.rule r vs)) (hmarkers : p.markers = [])
    (hkinds : ∀ (n : Nat) (r : RuleNode), t.nodes[n]? = some (.rule r) →
      ∃ kind, p.host.elements.rule r.rule = .ok kind) : Unhindered (replay t) p := by
  rw [replay_eq hroot hsize h]
  refine (unhindered_replayView hkinds _ 0 p h rfl).bind (answers_replayView _ p) fun _ q hq => ?_
  unfold Unhindered
  rw [ends_get_bind, hq.markers, hmarkers]
  exact nofun

end Projector

namespace Session

open Projector

/-- Nothing hinders passing the tokens that are left. -/
theorem unhindered_drain [TreeBuilder β τ] (fuel passed : Nat) (p : Projector β) :
    Unhindered (drain fuel passed) p := by
  refine (drain_ends fuel passed p).mono ?_
  rintro _ _ ⟨n, -, -, rfl | ⟨rfl, -⟩⟩ _ ⟨⟩
  rfl

/-- Passing the tokens that are left leaves the same regions open. -/
theorem openMarkers_drain (fuel passed : Nat) (p : Projector GreenBuilder) :
    Answers (drain fuel passed) p fun _ q =>
      q.host.builder.openMarkers = p.host.builder.openMarkers := by
  refine (drain_ends fuel passed p).mono ?_
  rintro _ _ ⟨n, -, rfl, -⟩ _ -
  induction n with
  | zero => rfl
  | succ n ih =>
      rw [Function.iterate_succ_apply']
      exact (GreenBuilder.openMarkers_advance _).trans ih

section

variable {h : HostText} {l : Language} {p : Projector GreenBuilder} {snapshot : Nat} {t : ParseTree}
  {r : RuleNode} {vs : List View} {b : GreenBuilder}

/-- **Nothing hinders laying out a tree**, if the host can be taken back. -/
theorem unhindered_layOut (root : Kind) (hroot : t.root = some 0)
    (hsize : t.size = (View.rule r vs).size) (hshows : t.Shows 0 (.rule r vs))
    (hmarkers : p.markers = [])
    (hkinds : ∀ (n : Nat) (r : RuleNode), t.nodes[n]? = some (.rule r) →
      ∃ kind, p.host.elements.rule r.rule = .ok kind)
    (hback : TreeBuilder.rollback p.host.builder snapshot = .ok b) :
    Unhindered (layOut snapshot root t) p := by
  unfold layOut
  have hrewind : Unhindered (rewind snapshot) p := by
    refine unhindered_host (fun s => s.rollback snapshot) ⟨{ p.host with builder := b }, ?_⟩
    unfold Supervised.rollback
    rw [hback]
    rfl
  refine hrewind.bind (answers_rewind snapshot) ?_
  rintro _ _ ⟨b, -, rfl⟩
  refine Unhindered.bind nofun answers_mark ?_
  rintro marker p₁ ⟨hmarker, hp₁⟩
  have hmarkers₁ : p₁.markers = [] := by
    rw [hp₁]
    exact hmarkers
  have helements₁ : p₁.host.elements = p.host.elements := by
    rw [hp₁]
    rfl
  have hopen : p₁.host.builder.openMarkers = marker :: b.openMarkers := by
    rw [hmarker, hp₁]
    rfl
  rw [← helements₁] at hkinds
  refine (unhindered_replay hroot hsize hshows hmarkers₁ hkinds).bind
    (answers_replay hroot hsize hshows) ?_
  rintro _ p₂ ⟨hplayed, -⟩
  unfold Unhindered
  rw [ends_get_bind]
  refine (unhindered_drain _ 0 p₂).bind (openMarkers_drain _ 0 p₂) fun drained p₃ hdrained => ?_
  -- the region that is left open is that of the root
  rw [Outline.openMarkers_builds hplayed.build, hopen] at hdrained
  unfold Projector.tell Projector.count Unhindered
  rw [ends_modify_bind, ends_modify_bind]
  exact unhindered_done (p := { p₃ with
    events := p₃.events.push (.drain drained), stats := { p₃.stats with drained } }) hdrained root

/-- **Nothing hinders the second half of a projection**, if the host can be taken back to the start, and the tree and
the tokens `ts` that are left are all tokens of the source. -/
theorem unhindered_replayUnder (root : Kind) (hroot : t.root = some 0)
    (hsize : t.size = (View.rule r vs).size) (hshows : t.Shows 0 (.rule r vs))
    (hmarkers : p.markers = []) (hspent : p.spent = [])
    (hkinds : ∀ (n : Nat) (r : RuleNode), t.nodes[n]? = some (.rule r) →
      ∃ kind, p.host.elements.rule r.rule = .ok kind)
    (hback : TreeBuilder.rollback p.host.builder snapshot = .ok (GreenBuilder.ofText h l))
    {ts : List Token} (hlen : (Outline.tokensOf (Outline.ofView p.host.elements p.errors []
      (.rule r vs)).1).length + ts.length = (h.significant l).length) :
    Unhindered (replayUnder snapshot root t) p := by
  rw [replayUnder_eq]
  refine (unhindered_layOut root hroot hsize hshows hmarkers hkinds hback).bind
    (answers_layOut_ofText root hroot hsize hshows hspent hback hlen) ?_
  -- what has been laid out is one region over all tokens, and that can be finished
  intro _ q hbuild
  obtain ⟨tree, hfinish, -⟩ := GreenBuilder.finish_of_build hbuild (by
    rw [Outline.tokensOf_append, Outline.tokensOf_map_token, List.length_append, hlen])
  unfold Unhindered
  have hhanded : TreeBuilder.finish q.host.builder = .ok tree := hfinish
  rw [ends_get_bind, hhanded]
  exact nofun

end

/-- The parser of a run over a host is in order. -/
theorem sound_start [TreeBuilder β τ] [CursorBuilder β] (s : Session) (l : Language)
    (host : Supervised β) (hstart : host.cursor.position = 0) (rules : RuleIndex → Prop) :
    (s.parser l host).Sound (host.cursor.tape host.elements) rules where
  facing := ⟨_, .fresh (s.parser_fresh l host hstart).reads rfl rfl, Nat.zero_le _⟩
  rules := by
    intro n r hr
    cases hr

/-- **Recognition is given up for foreseen reasons only.** -/
theorem runRecognizer_foreseen [TreeBuilder β τ] [CursorBuilder β] {s : Session} {g : Grammar}
    {entry : RuleIndex} {host : Supervised β} {rules : RuleIndex → Prop} {steps : Prop}
    (hwithin : (g.entry (stepsFor (TreeBuilder.remaining host.builder)) entry).Within
      TokenSet.Fits rules steps)
    (hstart : host.cursor.position = 0) {a : Abort}
    (ha : (s.runRecognizer g entry host).outcome = .error a) : a.Foreseen steps := by
  -- The contract that the recognizer keeps says how it may be given up.
  have hkept := hwithin.keeps (fun _ _ => Supervised.pull_error) _
    (s.sound_start g.language host hstart rules)
  unfold runRecognizer at ha
  cases hrun : (g.entry (stepsFor (TreeBuilder.remaining host.builder)) entry).run
      (s.parser g.language host) with
  | ok u q =>
      simp only [hrun] at ha
      cases ha
  | error i q =>
      simp only [hrun] at ha
      cases i with
      | recognition e => cases ha
      | abort b =>
          obtain rfl : b = a := Except.error.inj ha
          exact Ends.of_error hkept hrun

/-- The rules of the tree that a recognition has made are admissible. -/
theorem Recognized.admissible [TreeBuilder β τ] [CursorBuilder β] {s : Session} {g : Grammar}
    {entry : RuleIndex} {host : Supervised β} {t : ParseTree} {errors : ErrorIndex}
    {q : Parser (Supervised β)} {r : RuleNode} {vs : List View} {rules : RuleIndex → Prop}
    {steps : Prop} (h : s.Recognized g entry host t errors q r vs)
    (hwithin : (g.entry (stepsFor (TreeBuilder.remaining host.builder)) entry).Within
      TokenSet.Fits rules steps)
    (hstart : host.cursor.position = 0) {n : Nat} {r : RuleNode}
    (hr : q.tree.nodes[n]? = some (.rule r)) : rules r.rule := by
  have hkept := Ends.of_ok (hwithin.keeps (fun _ _ => Supervised.pull_error) _
    (s.sound_start g.language host hstart rules)) h.run
  exact hkept.1.rules n r hr

/-- A rule that is refused is none of the language's. -/
theorem ruleName?_of_checkEntry {l : Language} {entry : RuleIndex} {e : Error}
    (h : l.checkEntry entry = .error e) :
    l.ruleName? entry = none ∧ e = .unknownRule s!"#{entry.toNat}" := by
  unfold Language.checkEntry at h
  cases hname : l.ruleName? entry with
  | none =>
      rw [hname] at h
      exact ⟨rfl, (Except.error.inj h).symm⟩
  | some name =>
      rw [hname] at h
      cases h

section

variable {s : Session} {g : Grammar} {entry : RuleIndex} {root : Kind} {h : HostText}
  {host : Supervised GreenBuilder} {steps : Prop}

/-- **Laying out the tree of a recognition** fails only if the run has been called off. -/
theorem Recognized.unhindered {t : ParseTree} {errors : ErrorIndex}
    {q : Parser (Supervised GreenBuilder)} {r : RuleNode} {vs : List View}
    (hrecognized : s.Recognized g entry host.mark.2 t errors q r vs)
    (hbuilder : host.builder = .ofText h g.language)
    (hkinds : ∀ (n : Nat) (r : RuleNode), t.nodes[n]? = some (.rule r) →
      r.rule.code < host.elements.ruleCount) (events : Array ProjectionEvent) :
    Unhindered (replayUnder (τ := HostTree) host.mark.1 root t)
      { host := (s.runRecognizer g entry host.mark.2).host, errors, events } := by
  have hcursor : host.cursor = .ofText h g.language := congrArg CursorBuilder.cursor hbuilder
  obtain ⟨-, rfl, -, hleft, hwhole, hpassed, -⟩ := hrecognized
  rw [host.cursor_mark, hcursor] at hwhole
  have hsize : (HostCursor.ofText h g.language).tokens.size = (h.significant g.language).length := by
    simp [HostCursor.ofText]
  have hlen := (hwhole.length_tokensOf q.input.source.elements errors []).trans hsize
  rw [hleft]
  refine unhindered_replayUnder (h := h) (l := g.language) root hwhole.root hwhole.size
    hwhole.shows rfl rfl ?_ ?_ hlen
  · intro n r hr
    have hlt : r.rule.toNat < q.input.source.elements.ruleCount.toNat := by
      rw [hpassed.elements]
      exact UInt16.lt_iff_toNat_lt.mp (hkinds n r hr)
    unfold ElementTypes.rule ElementTypes.ensureRule
    rw [if_pos hlt]
    exact ⟨_, rfl⟩
  · -- recognition has only passed tokens since the mark
    change TreeBuilder.rollback q.input.source.builder host.mark.1 = _
    rw [hpassed.rollback, hbuilder]

/-- **Nothing but the foreseen comes of a run over a source.** If the recognizer keeps to types that fit into sets and
to rules that have kinds, then both recognition and projection are given up only because they have been called off,
because too many rules are active, or, if `steps` allows for that, because the recognizer has used up its steps; or
else they refuse a rule that the language does not have. -/
theorem outcome_foreseen (hbuilder : host.builder = .ofText h g.language)
    (hrule : ∀ tokens, (g.entry (stepsFor tokens) entry).OrdinaryRule)
    (hwithin : ∀ tokens, (g.entry (stepsFor tokens) entry).Within TokenSet.Fits
      (fun r => r.code < host.elements.ruleCount) steps) :
    (∀ a, (s.recognize g entry host).1.outcome = .error a → a.Foreseen steps ∨
      g.language.ruleName? entry = none ∧ a = .error (.unknownRule s!"#{entry.toNat}")) ∧
    ∀ a, (s.project (τ := HostTree) g entry root host).1.outcome = .error a → a.Foreseen steps ∨
      g.language.ruleName? entry = none ∧ a = .error (.unknownRule s!"#{entry.toNat}") := by
  have hstart : host.cursor.position = 0 := by
    rw [Supervised.cursor, hbuilder]
    rfl
  have hmarked : host.mark.2.cursor.position = 0 :=
    (congrArg HostCursor.position host.cursor_mark).trans hstart
  constructor
  · intro a ha
    unfold recognize at ha
    cases hvalid : g.language.checkEntry entry with
    | error e =>
        rw [hvalid] at ha
        obtain ⟨hnone, rfl⟩ := ruleName?_of_checkEntry hvalid
        exact .inr ⟨hnone, (Except.error.inj ha).symm⟩
    | ok u =>
        rw [hvalid] at ha
        exact .inl (runRecognizer_foreseen (hwithin _) hstart ha)
  · intro a ha
    rcases exists_of_project_error ha with ⟨e, hvalid, rfl⟩ | ha | ⟨t, errors, p, houtcome, hreplay⟩
    · obtain ⟨hnone, rfl⟩ := ruleName?_of_checkEntry hvalid
      exact .inr ⟨hnone, rfl⟩
    · exact .inl (runRecognizer_foreseen (hwithin _) hmarked ha)
    · -- recognition has gone through, so that it is the replay that has failed
      obtain ⟨q, r, vs, hrecognized⟩ := recognized (hrule _) hmarked houtcome
      have hkinds : ∀ (n : Nat) (r : RuleNode), t.nodes[n]? = some (.rule r) →
          r.rule.code < host.elements.ruleCount := by
        intro n r hr
        rw [hrecognized.tree] at hr
        exact hrecognized.admissible (hwithin _) hmarked hr
      have hcancelled := Ends.of_error (hrecognized.unhindered hbuilder hkinds _) hreplay
      rw [hcancelled a rfl]
      exact .inl .cancelled

end

end Session

namespace Unattended

/-- Neither rule asks for more than the language has, and neither gives up. -/
theorem within_entry (guard : TokenSet) (steps : Nat) (r : RuleIndex) :
    ((grammar guard).entry steps r).Within TokenSet.Fits
      (fun r => r.code < language.elements.ruleCount) False := by
  have hmatch : TokenSet.Fits ⟨1⟩ := by decide
  have hitem : (⟨1⟩ : RuleIndex).code < language.elements.ruleCount := by decide
  have hmain : (⟨0⟩ : RuleIndex).code < language.elements.ruleCount := by decide
  exact ⟨hmain, ⟨⟨hitem, ⟨trivial, fun _ => trivial⟩, fun _ => trivial⟩,
    fun _ => ⟨hmatch, fun _ => trivial⟩⟩, fun _ => trivial⟩

/-- A run that is called off by the third call of the builder, one that may have one rule active only, and one of a
rule that the language does not have. -/
theorem outcome_foreseen_call :
    (∃ a, (({} : Session).project (τ := HostTree) (grammar (.single ⟨2⟩)) ⟨0⟩ .file
        { host [⟨3, "b"⟩] with cancelAt := some 3 }).1.outcome = .error a ∧ a.Foreseen False) ∧
    (∃ a, (({ recursionLimit := some 1 } : Session).project (τ := HostTree) (grammar (.single ⟨2⟩))
        ⟨0⟩ .file { host [⟨3, "b"⟩] with cancelAt := none }).1.outcome = .error a ∧ a.Foreseen False) ∧
    ∃ a, (({} : Session).recognize (grammar (.single ⟨2⟩)) ⟨2⟩
        { host [⟨3, "b"⟩] with cancelAt := none }).1.outcome = .error a ∧
      (a.Foreseen False ∨ language.ruleName? ⟨2⟩ = none ∧ a = .error (.unknownRule "#2")) := by
  have hall := fun (s : Session) (entry : RuleIndex) (cancelAt : Option Nat) =>
    @Session.outcome_foreseen s (grammar (.single ⟨2⟩)) entry .file ⟨[⟨3, "b"⟩], ""⟩
      { host [⟨3, "b"⟩] with cancelAt } False rfl (fun _ => ordinaryRule_entry _ _ _)
      fun _ => within_entry _ _ _
  have hfails : ∀ {γ : Type} {o : Except Abort γ}, o.toBool = false → ∃ a, o = .error a := by
    rintro γ (a | b) ho
    · exact ⟨a, rfl⟩
    · cases ho
  have hmain : ∀ {a : Abort}, ¬(language.ruleName? ⟨0⟩ = none ∧ a = .error (.unknownRule "#0")) :=
    fun h => absurd h.1 (by decide)
  refine ⟨?_, ?_, ?_⟩
  · obtain ⟨a, ha⟩ := hfails (o := (({} : Session).project (τ := HostTree) (grammar (.single ⟨2⟩)) ⟨0⟩
      .file { host [⟨3, "b"⟩] with cancelAt := some 3 }).1.outcome) (by decide +kernel)
    exact ⟨a, ha, ((hall _ _ _).2 a ha).resolve_right hmain⟩
  · obtain ⟨a, ha⟩ := hfails (o := (({ recursionLimit := some 1 } : Session).project (τ := HostTree)
      (grammar (.single ⟨2⟩)) ⟨0⟩ .file { host [⟨3, "b"⟩] with cancelAt := none }).1.outcome)
      (by decide +kernel)
    exact ⟨a, ha, ((hall _ _ _).2 a ha).resolve_right hmain⟩
  · obtain ⟨a, ha⟩ := hfails (o := (({} : Session).recognize (grammar (.single ⟨2⟩)) ⟨2⟩
      { host [⟨3, "b"⟩] with cancelAt := none }).1.outcome) (by decide +kernel)
    exact ⟨a, ha, (hall _ _ _).1 a ha⟩

end Unattended

end TreeProjection
