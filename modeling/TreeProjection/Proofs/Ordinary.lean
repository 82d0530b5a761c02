import TreeProjection.Proofs.Trial

/-! # What ordinary recognizers do

Whatever an ordinary recognizer decides, and whether it succeeds or fails, what it has done is a step.  A whole
parse begins with a rule that becomes the root of the tree, and ends with a tree whose leaves, in order, are
the visible tokens that were passed.

* `Recognizer.Ordinary.runs` — every ordinary recognizer is a step.
* `Parser.Fresh` — a parser before it has read anything.
* `Parser.Whole` — what a parse from its outermost rule on has done.
* `Recognizer.OrdinaryRule.runs` — an ordinary recognizer from its outermost rule on. -/

namespace TreeProjection

open ParseNode (View)
open TreeProjection.Parser

variable {σ : Type} [TokenSource σ] {x : Tape} {p q r : Parser σ} {fair : List Report → Prop}

/-- **An action is a step**, and if it fails, it fails where the input stands. -/
def Parser.Acts {α : Type} (x : Tape) (p : Parser σ) (o : Except RecognitionException α)
    (q : Parser σ) : Prop :=
  ∃ vs rs, Step x p vs rs q ∧ ∀ e, o = .error e → e.anchor = x.token q.index

/-- First a step, and then an action that is one. -/
theorem Parser.Acts.after {α : Type} {vs : List View} {rs : List Report}
    {o : Except RecognitionException α} (hstep : Step x p vs rs q) (h : Acts x q o r) :
    Acts x p o r := by
  obtain ⟨ws, rs', hrest, hanchor⟩ := h
  exact ⟨vs ++ ws, rs ++ rs', hstep.trans hrest, hanchor⟩

/-- An action that has failed has failed where the input stands. -/
theorem Parser.Failed.acts {α : Type} {e : RecognitionException} (h : Failed x p e q) :
    Acts x p (.error e : Except RecognitionException α) q := by
  refine ⟨[], [], h.step, ?_⟩
  rintro _ ⟨⟩
  rw [h.anchor, h.index]

/-- A step that has not failed. -/
theorem Parser.Step.acts {α : Type} {vs : List View} {rs : List Report} (h : Step x p vs rs q)
    (a : α) : Acts x p (.ok a) q :=
  ⟨vs, rs, h, nofun⟩

/-- Matching a token is a step. -/
theorem Parser.Matched.acts {ty : TokenType} {follow : TokenSet}
    {o : Except RecognitionException Token} (h : Matched x p ty follow q o) : Acts x p o q := by
  cases h with
  | here _ step => exact step.acts _
  | dropped _ _ _ _ step => exact step.acts _
  | madeUp _ _ _ _ _ _ _ step => exact step.acts _
  | failed _ _ failed => exact failed.acts

/-- **An operation is a step.** -/
theorem Operation.runs {β : Type} (op : Operation β) (hp : Ready x p)
    (hfair : ∀ rs, fair (p.reports ++ rs)) : Runs op.run p fair fun o q => Acts x p o q := by
  have hfair₀ : fair p.reports := by
    have := hfair []
    rwa [List.append_nil] at this
  cases op with
  | ahead k =>
      refine (runs_ahead (.standing hp.standing) hfair₀ k).mono ?_
      rintro _ _ ⟨rfl, s, hs, rfl⟩
      exact (hp.reread hs).acts _
  | expect ty follow =>
      exact (runs_expect hp hfair₀ ty follow fun _ _ r _ => hfair [r]).mono fun _ _ h => h.acts
  | consume =>
      refine (runs_consume hp hfair₀).mono ?_
      rintro _ q ⟨rfl, hstep, -⟩
      exact hstep.acts _
  | sync expecting =>
      refine (runs_sync hp hfair₀ expecting fun _ _ r _ => hfair [r]).mono ?_
      rintro _ q ⟨rfl, h⟩
      cases h with
      | «open» step => exact step.acts _
      | passed _ _ _ _ step => exact step.acts _
      | stayed _ _ _ step => exact step.acts _
  | require holds text =>
      refine (runs_require hp hfair₀ holds text).mono ?_
      rintro _ q (⟨rfl, -, rfl⟩ | ⟨e, rfl, hfailed, -⟩)
      · exact hp.refl.acts _
      · exact hfailed.acts
  | noViableAlt depth =>
      refine (runs_raiseNoViableAlt hp hfair₀ depth).mono ?_
      rintro _ q ⟨e, rfl, hfailed, -⟩
      exact hfailed.acts
  | mismatch expected =>
      refine (runs_raiseMismatch hp hfair₀ expected).mono ?_
      rintro _ q ⟨e, rfl, hfailed, -⟩
      exact hfailed.acts

/-- What is asked of the body of a rule holds of an action that is a step. -/
theorem Parser.Acts.bodyEnd {p₁ : Parser σ} {o : Except RecognitionException Unit}
    (h : Acts x p₁ o q) (hfair : ∀ rs, fair (p₁.reports ++ rs)) :
    ∃ vs rs, BodyEnd x p₁ fair (fun _ _ _ _ => True) o q vs rs := by
  obtain ⟨vs, rs, hstep, hanchor⟩ := h
  refine ⟨vs, rs, hstep, trivial, hanchor, ?_, fun _ _ _ r _ => hstep.fair_after hfair [r]⟩
  rw [hstep.reports]
  exact hfair rs

/-- **Every ordinary recognizer is a step.** -/
theorem Recognizer.Ordinary.runs {α : Type} {r : Recognizer α} (h : r.Ordinary) (hp : Ready x p)
    (hfair : ∀ rs, fair (p.reports ++ rs)) : Runs r.run p fair fun o q => Acts x p o q := by
  have hfair₀ : ∀ {p : Parser σ}, (∀ rs, fair (p.reports ++ rs)) → fair p.reports := by
    intro p hfair
    have := hfair []
    rwa [List.append_nil] at this
  -- induction on the recognizer: each part is a step from a ready state, and ready states are kept by steps
  induction r generalizing p with
  | pure a => exact hp.refl.acts a
  | outOfSteps => exact hfair₀ hfair
  | step op next ih =>
      refine (op.runs hp hfair).bind ?_ ?_
      · rintro b q ⟨vs, rs, hstep, -⟩
        exact (ih b (h b) (hstep.ready hp) (hstep.fair_after hfair)).mono fun _ _ hr =>
          hr.after hstep
      · rintro e q ⟨vs, rs, hstep, hanchor⟩
        exact ⟨vs, rs, hstep, fun _ he => hanchor _ (congrArg _ (Except.error.inj he))⟩
  | direct d next ih => exact h.elim
  | rule r body next ihbody ihnext =>
      refine (runs_rule hp (hfair₀ hfair) (fun _ _ _ _ => True) fun p₁ h₁ => ?_).bind ?_
        (by rintro e q ⟨⟨⟩, -⟩)
      · have hfair₁ : ∀ rs, fair (p₁.reports ++ rs) := by
          rw [h₁.reports]
          exact hfair
        exact (ihbody () h.1 h₁.ready hfair₁).mono fun _ _ hq => hq.bodyEnd hfair₁
      · rintro u q ⟨-, node, vs, rs, -, hstep, -⟩
        exact (ihnext u (h.2 u) (hstep.ready hp) (hstep.fair_after hfair)).mono fun _ _ hr =>
          hr.after hstep
  | invoke follow body next ihbody ihnext =>
      refine (runs_invoke (ihbody () h.1 (hp.invoked follow) hfair)).bind ?_ ?_
      · rintro b _ ⟨q, ⟨vs, rs, hbody, -⟩, rfl⟩
        have hstep := hbody.of_invoke
        exact (ihnext b (h.2 b) (hstep.ready hp) (hstep.fair_after hfair)).mono fun _ _ hr =>
          hr.after hstep
      · rintro e _ ⟨q, ⟨vs, rs, hbody, hanchor⟩, rfl⟩
        exact ⟨vs, rs, hbody.of_invoke, fun _ he => hanchor _ (congrArg _ (Except.error.inj he))⟩
  | speculate body next ihbody ihnext =>
      -- a trial is traceless by the lemma for trials, so it counts as a step that adds nothing
      refine (runs_speculate hp.standing (hfair₀ hfair) (fun _ => True)
        fun p₁ hp₁ _ hfair₁ => (Ordinary.runs_trying h.1 hp₁ hfair₁).mono
          fun _ _ hq => ⟨hq, trivial⟩).bind ?_ ?_
      · rintro b _ ⟨_, s, n, -, hs, hn, rfl, -⟩
        have hstep := hp.aside hs p.recovery hn (k := p.syntaxErrors)
        exact (ihnext b (h.2 b) (hstep.ready hp) hfair).mono fun _ _ hr => hr.after hstep
      · rintro e _ ⟨_, _, _, ⟨⟩, -⟩
  | attempt body next ihbody ihnext =>
      refine (runs_attempt (ihbody () h.1 hp hfair)).bind ?_ (by rintro e q ⟨_, ⟨⟩, -⟩)
      rintro b q ⟨_, -, vs, rs, hstep, -⟩
      exact (ihnext b (h.2 b) (hstep.ready hp) (hstep.fair_after hfair)).mono fun _ _ hr =>
        hr.after hstep

/-! ## A whole parse -/

namespace Parser

/-- **A parser before it has read anything.** Its errors are to be placed in the tree, and someone listens. -/
structure Fresh (x : Tape) (p : Parser σ) : Prop where
  /-- The input is the tape. -/
  reads : p.input.Reads x
  /-- Nothing has been read. -/
  started : p.input.started = false
  /-- Every error leaves something in the tree. -/
  strategy : p.strategy = .anchored
  /-- Someone listens. -/
  listeners : 0 < p.listeners
  /-- Nothing has been invoked. -/
  follow : p.follow = []
  /-- The parser is not looking ahead on trial. -/
  speculating : p.speculating = 0
  /-- No rule is active. -/
  frames : p.frames = []
  /-- There is no node. -/
  tree : p.tree = {}
  /-- The listeners have been told of nothing. -/
  reports : p.reports = []
  /-- Recovery keeps nothing in mind. -/
  recovery : p.recovery = {}

/-- **What a whole parse has done**: the outermost rule is the root of the tree, and the leaves walk along the
tape from the first visible token to where the input stands. -/
structure Whole (x : Tape) (q : Parser σ) (node : RuleNode) (vs : List View) : Prop where
  /-- There is a root. -/
  root : q.tree.root = some 0
  /-- There are no nodes apart. -/
  size : q.tree.size = (View.rule node vs).size
  /-- The tree is that of the outermost rule. -/
  shows : q.tree.Shows 0 (.rule node vs)
  /-- The input stands at a place of the tape. -/
  standing : q.input.Standing x q.index
  /-- The leaves walk along the tape. -/
  walk : Walk x (x.stop 0) (View.leavesOf vs) q.index

/-- **What has been reported is placed at tokens of the tape.** -/
def Anchored (x : Tape) (q : Parser σ) : Prop := ∀ r ∈ q.reports, ∃ a, a ≤ x.size ∧ r.anchor = x.token a

/-- The leaves hold the tokens that were passed. -/
theorem Whole.read {node : RuleNode} {vs : List View} (h : Whole x q node vs) :
    View.read vs = x.between 0 q.index := by
  rw [← x.between_append (Nat.zero_le _) h.walk.le, x.between_to_stop, List.nil_append]
  exact h.walk.passed

omit [TokenSource σ] in
/-- The tree of a whole parse, seen as a whole. -/
theorem Whole.view [TokenSource σ] {node : RuleNode} {vs : List View} (h : Whole x q node vs) :
    q.tree.view? = some (.rule node vs) := by
  unfold ParseTree.view?
  rw [h.root, Option.bind_some]
  exact ParseTree.viewAt_of_shows _ _ _ h.shows (Nat.le_of_eq h.size.symm)

/-- **A parse from its outermost rule on.** The rule has been entered at the first visible token. -/
theorem runs_rule_fresh (hp : Fresh x p) (hfair : fair []) {r : RuleIndex}
    {body : ParserM σ Unit}
    (ends : Except RecognitionException Unit → List View → List Report → Parser σ → Prop)
    (hbody : ∀ p₁, Entered x (x.stop 0) r p p₁ →
      Runs body p₁ fair fun o q => ∃ vs rs, BodyEnd x p₁ fair ends o q vs rs) :
    Runs (rule r body) p fair fun o q => o = .ok () ∧ ∃ p₁ node vs rs,
      Entered x (x.stop 0) r p p₁ ∧ node.rule = r ∧ Whole x q node vs ∧ Moves x p₁ vs rs q ∧
      q.reports = rs ∧ RuleEnd x ends q node vs rs := by
  have hp' : p.strategy.noted = false ∧ p.strategy.denied = [] := by
    rw [hp.strategy]
    exact ⟨rfl, rfl⟩
  refine (runs_rule_entry (.fresh hp.reads hp.started rfl) hp.speculating hp'.1 hp'.2 hp.frames
    hp.tree (by rwa [hp.reports]) hbody).mono ?_
  rintro _ q ⟨rfl, p₁, node, vs, rs, hentered, hrule, hroot, hsize, hshows, hmoves, hend⟩
  have hfirst : p₁.index = x.stop 0 := hentered.index
  refine ⟨rfl, p₁, node, vs, rs, hentered, hrule, ⟨hroot, hsize, hshows, hmoves.standing, ?_⟩, hmoves,
    ?_, hend⟩
  · rw [← hfirst]
    exact hmoves.walk
  · rw [hmoves.reports, hentered.reports, hp.reports, List.nil_append]

end Parser

/-! ## How ordinary recognizers are put together -/

namespace Recognizer

variable {α β : Type}

/-- First an ordinary recognizer, then another one. -/
theorem Ordinary.bind {r : Recognizer α} {f : α → Recognizer β} (h : r.Ordinary)
    (hf : ∀ a, (f a).Ordinary) : (r.bind f).Ordinary := by
  induction r with
  | pure a => exact hf a
  | outOfSteps => trivial
  | step op next ih => exact fun b => ih b (h b) hf
  | direct d next ih => exact h.elim
  | rule r body next _ ih => exact ⟨h.1, fun u => ih u (h.2 u) hf⟩
  | invoke follow body next _ ih => exact ⟨h.1, fun b => ih b (h.2 b) hf⟩
  | speculate body next _ ih => exact ⟨h.1, fun b => ih b (h.2 b) hf⟩
  | attempt body next _ ih => exact ⟨h.1, fun b => ih b (h.2 b) hf⟩

/-- A single operation is ordinary. -/
theorem ordinary_perform (op : Operation β) : (perform op).Ordinary := fun _ => trivial

/-- Looking ahead is ordinary. -/
theorem ordinary_typeAhead (k : Nat) : (typeAhead k).Ordinary := fun _ => trivial

/-- Matching a token is ordinary. -/
theorem ordinary_expect (ty : TokenType) (follow : TokenSet) : (expect ty follow).Ordinary :=
  fun _ => trivial

/-- Failing is ordinary. -/
theorem ordinary_noViableAlt (depth : Nat) : (noViableAlt depth : Recognizer α).Ordinary :=
  fun b => nomatch b

/-- A rule with an ordinary body is ordinary. -/
theorem ordinary_asRule {r : RuleIndex} {body : Unit → Recognizer Unit}
    (h : (body ()).Ordinary) : (asRule r body).Ordinary := ⟨h, fun _ => trivial⟩

/-- Invoking an ordinary body is ordinary. -/
theorem ordinary_within {follow : TokenSet} {body : Unit → Recognizer β}
    (h : (body ()).Ordinary) : (within follow body).Ordinary := ⟨h, fun _ => trivial⟩

/-- Trying an ordinary body is ordinary. -/
theorem ordinary_trial {body : Unit → Recognizer Unit} (h : (body ()).Ordinary) :
    (trial body).Ordinary := ⟨h, fun _ => trivial⟩

/-- Repeating an ordinary body is ordinary. -/
theorem ordinary_repeatWhile {body : Unit → Recognizer Bool} (h : (body ()).Ordinary) :
    ∀ rounds, (repeatWhile body rounds).Ordinary
  | 0 => trivial
  | rounds + 1 => by
      refine h.bind fun again => ?_
      cases again with
      | true => exact ordinary_repeatWhile h rounds
      | false => trivial

/-- **A property of recognizers that are put together as grammars are.** It is one of single operations, and one
that goes over to what is made of recognizers that have it.  A guarded loop is taken together with the token that
is matched after it: the guard lets that token through, and the loop ends at all tokens that it would pass over. -/
structure Composed (P : {α : Type} → Recognizer α → Prop) : Prop where
  /-- Giving up. -/
  outOfSteps {α : Type} : P (.outOfSteps : Recognizer α)
  /-- Answering. -/
  pure {α : Type} (a : α) : P (.pure a)
  /-- One recognizer after the other. -/
  bind {α β : Type} {r : Recognizer α} {f : α → Recognizer β} (h : P r) (hf : ∀ a, P (f a)) :
    P (r.bind f)
  /-- Looking ahead. -/
  typeAhead (k : Nat) : P (typeAhead k)
  /-- Matching a token. -/
  expect (ty : TokenType) (follow : TokenSet) : P (expect ty follow)
  /-- Failing. -/
  noViableAlt {α : Type} (depth : Nat) : P (noViableAlt depth : Recognizer α)
  /-- A rule. -/
  asRule (r : RuleIndex) {body : Unit → Recognizer Unit} (h : P (body ())) : P (asRule r body)
  /-- Invoking a body. -/
  within {β : Type} (follow : TokenSet) {body : Unit → Recognizer β} (h : P (body ())) :
    P (within follow body)
  /-- Trying a body. -/
  trial {body : Unit → Recognizer Unit} (hord : (body ()).Ordinary) (h : P (body ())) : P (trial body)
  /-- A loop without a guard. -/
  repeatWhile {body : Unit → Recognizer Bool} (h : P (body ())) (rounds : Nat) :
    P (repeatWhile body rounds)
  /-- A guarded loop, and the token that is matched after it. -/
  guarded {body : TokenType → Recognizer Bool} (set : TokenSet) (ty : TokenType) (follow : TokenSet)
    (hbody : ∀ t, P (body t)) (hend : ∀ t, set.contains t = false → body t = .pure false)
    (hty : set.contains ty = true) (rounds : Nat) :
    P ((Recognizer.repeatWhile (fun _ => (sync set).bind fun _ =>
      (Recognizer.typeAhead 1).bind body) rounds).bind fun _ => Recognizer.expect ty follow)

/-- Being ordinary is such a property. -/
theorem composed_ordinary : Composed Ordinary where
  outOfSteps := trivial
  pure _ := trivial
  bind h hf := h.bind hf
  typeAhead := ordinary_typeAhead
  expect := ordinary_expect
  noViableAlt := ordinary_noViableAlt
  asRule _ _ h := ordinary_asRule h
  within _ _ h := ordinary_within h
  trial _ h := ordinary_trial h
  repeatWhile h := ordinary_repeatWhile h
  guarded _ _ follow hbody _ _ rounds :=
    (ordinary_repeatWhile ((ordinary_perform _).bind fun _ =>
      (ordinary_typeAhead 1).bind hbody) rounds).bind fun _ => ordinary_expect _ follow

/-- What decides on types and texts of tokens alone, one after the other, does so altogether. -/
theorem LexemeDriven.bind {r : Recognizer α} {f : α → Recognizer β} (h : r.LexemeDriven)
    (hf : ∀ a, (f a).LexemeDriven) : (r.bind f).LexemeDriven := by
  induction r with
  | pure a => exact hf a
  | outOfSteps => trivial
  | step op next ih =>
      exact ⟨fun a b hab => congrArg (·.bind f) (h.1 a b hab), fun b => ih b (h.2 b) hf⟩
  | direct d next ih => exact fun b => ih b (h b) hf
  | rule r body next _ ih => exact ⟨h.1, fun u => ih u (h.2 u) hf⟩
  | invoke follow body next _ ih => exact ⟨h.1, fun b => ih b (h.2 b) hf⟩
  | speculate body next _ ih => exact ⟨h.1, fun b => ih b (h.2 b) hf⟩
  | attempt body next _ ih =>
      exact ⟨h.1, fun a b hab => congrArg (·.bind f) (h.2.1 a b hab), fun b => ih b (h.2.2 b) hf⟩

/-- Repeating what decides so. -/
theorem lexemeDriven_repeatWhile {body : Unit → Recognizer Bool} (h : (body ()).LexemeDriven) :
    ∀ rounds, (repeatWhile body rounds).LexemeDriven
  | 0 => trivial
  | rounds + 1 => by
      refine h.bind fun again => ?_
      cases again with
      | true => exact lexemeDriven_repeatWhile h rounds
      | false => trivial

/-- Looking ahead for the type of a token. -/
theorem lexemeDriven_typeAhead (k : Nat) : (typeAhead k).LexemeDriven :=
  ⟨fun _ _ hab => congrArg (fun l : Lexeme => Recognizer.pure l.ty) hab, fun _ => trivial⟩

/-- **Deciding on types and texts of tokens alone** is such a property, as grammars ask for types alone. -/
theorem composed_lexemeDriven : Composed LexemeDriven where
  outOfSteps := trivial
  pure _ := trivial
  bind h hf := h.bind hf
  typeAhead := lexemeDriven_typeAhead
  expect _ _ := ⟨fun _ _ _ => rfl, fun _ => trivial⟩
  noViableAlt _ := ⟨nofun, nofun⟩
  asRule _ _ h := ⟨h, fun _ => trivial⟩
  within _ _ h := ⟨h, fun _ => trivial⟩
  trial _ h := ⟨h, fun _ => trivial⟩
  repeatWhile h := lexemeDriven_repeatWhile h
  guarded _ _ _ hbody _ _ rounds := by
    refine (lexemeDriven_repeatWhile ?_ rounds).bind fun _ => ⟨fun _ _ _ => rfl, fun _ => trivial⟩
    refine LexemeDriven.bind ⟨fun _ _ hab => congrArg Recognizer.pure hab, fun _ => trivial⟩ fun _ => ?_
    exact (lexemeDriven_typeAhead 1).bind hbody

/-- **What holds of recognizers that are put together so holds of the bodies of rules** among them. -/
theorem Composed.withBody {P : {α : Type} → Recognizer α → Prop} (h : Composed P) :
    Composed fun {_} r => P r ∧ ∀ r' body next, r = .rule r' body next → P (body ()) where
  outOfSteps := ⟨h.outOfSteps, nofun⟩
  pure a := ⟨h.pure a, nofun⟩
  bind := by
    intro α β r f hr hf
    refine ⟨h.bind hr.1 fun a => (hf a).1, fun r' body next heq => ?_⟩
    -- a sequence begins with a rule if its first part does, or is over at once and the second part does
    cases r with
    | pure a => exact (hf a).2 r' body next heq
    | rule r'' body'' next'' =>
        obtain ⟨-, rfl, -⟩ := rule.inj heq
        exact hr.2 r'' body'' next'' rfl
    | _ => cases heq
  typeAhead k := ⟨h.typeAhead k, nofun⟩
  expect ty follow := ⟨h.expect ty follow, nofun⟩
  noViableAlt depth := ⟨h.noViableAlt depth, nofun⟩
  asRule r body hbody := by
    refine ⟨h.asRule r hbody.1, fun r' body' next heq => ?_⟩
    obtain ⟨-, rfl, -⟩ := rule.inj heq
    exact hbody.1
  within follow _ hbody := ⟨h.within follow hbody.1, nofun⟩
  trial hord hbody := ⟨h.trial hord hbody.1, nofun⟩
  repeatWhile := by
    intro body hbody rounds
    refine ⟨h.repeatWhile hbody.1 rounds, fun r' body' next heq => ?_⟩
    -- the first round that does not answer outright decides with what the loop begins
    induction rounds with
    | zero => cases heq
    | succ rounds ih =>
        rw [Recognizer.repeatWhile] at heq
        cases hr : body () with
        | rule r'' body'' next'' =>
            rw [hr] at heq
            obtain ⟨-, rfl, -⟩ := rule.inj heq
            exact hbody.2 r'' body'' next'' hr
        | pure again =>
            rw [hr] at heq
            cases again with
            | true => exact ih heq
            | false => cases heq
        | _ =>
            rw [hr] at heq
            cases heq
  guarded set ty follow hbody hend hty rounds := by
    refine ⟨h.guarded set ty follow (fun t => (hbody t).1) hend hty rounds, fun r' body' next heq => ?_⟩
    cases rounds <;> cases heq

/-- Whether a recognizer runs inside one rule, and is ordinary. -/
def OrdinaryRule (e : Recognizer Unit) : Prop :=
  ∃ r body, e = .rule r body .pure ∧ (body ()).Ordinary

/-- A recognizer that runs inside one rule and is ordinary there is ordinary as a whole. -/
theorem OrdinaryRule.ordinary {e : Recognizer Unit} (h : e.OrdinaryRule) : e.Ordinary := by
  obtain ⟨r, body, rfl, hbody⟩ := h
  exact ⟨hbody, fun _ => trivial⟩

/-- A rule with an ordinary body runs inside one rule. -/
theorem ordinaryRule_asRule {r : RuleIndex} {body : Unit → Recognizer Unit}
    (h : (body ()).Ordinary) : (asRule r body).OrdinaryRule := ⟨r, body, rfl, h⟩

end Recognizer

section

variable {α β : Type}

/-- One recognizer after the other is one action after the other. -/
theorem Parser.run_bind (r : Recognizer α) (f : α → Recognizer β) :
    (r.bind f).run = (r.run >>= fun a => (f a).run : ParserM σ β) := by
  induction r with
  | pure a => exact (pure_bind a fun a => (f a).run).symm
  | outOfSteps => rfl
  | step op next ih => simp only [Recognizer.bind, Recognizer.run, ih, bind_assoc]
  | direct d next ih => simp only [Recognizer.bind, Recognizer.run, ih, bind_assoc]
  | rule r body next _ ih => simp only [Recognizer.bind, Recognizer.run, ih, bind_assoc]
  | invoke follow body next _ ih => simp only [Recognizer.bind, Recognizer.run, ih, bind_assoc]
  | speculate body next _ ih => simp only [Recognizer.bind, Recognizer.run, ih, bind_assoc]
  | attempt body next _ ih => simp only [Recognizer.bind, Recognizer.run, ih, bind_assoc]

/-- What comes after one recognizer in an ordinary one is ordinary, and so is that one. -/
theorem Recognizer.Ordinary.of_bind {r : Recognizer α} {f : α → Recognizer β}
    (h : (r.bind f).Ordinary) :
    r.Ordinary ∧ ∀ p : Parser σ, Answers r.run p fun a _ => (f a).Ordinary := by
  have htop : ∀ {γ : Type} (act : ParserM σ γ) (p : Parser σ), Answers act p fun _ _ => True :=
    fun act p => (Ends.self act p).mono fun _ _ _ _ _ => trivial
  -- induction on the recognizer; no answer needs to be known, so any end of a first part will do
  induction r with
  | pure a => exact ⟨trivial, fun p => .of_pure h⟩
  | outOfSteps => exact ⟨trivial, fun p => nofun⟩
  | step op next ih =>
      exact ⟨fun b => (ih b (h b)).1, fun p => (htop _ p).bind fun b q _ => (ih b (h b)).2 q⟩
  | direct d next ih => exact h.elim
  | rule r body next _ ih =>
      exact ⟨⟨h.1, fun u => (ih u (h.2 u)).1⟩,
        fun p => (htop _ p).bind fun u q _ => (ih u (h.2 u)).2 q⟩
  | invoke follow body next _ ih =>
      exact ⟨⟨h.1, fun b => (ih b (h.2 b)).1⟩,
        fun p => (htop _ p).bind fun b q _ => (ih b (h.2 b)).2 q⟩
  | speculate body next _ ih =>
      exact ⟨⟨h.1, fun b => (ih b (h.2 b)).1⟩,
        fun p => (htop _ p).bind fun b q _ => (ih b (h.2 b)).2 q⟩
  | attempt body next _ ih =>
      exact ⟨⟨h.1, fun b => (ih b (h.2 b)).1⟩,
        fun p => (htop _ p).bind fun b q _ => (ih b (h.2 b)).2 q⟩

end

/-- A recognizer that runs inside one rule is that rule. -/
theorem Parser.run_rule_pure (r : RuleIndex) (body : Unit → Recognizer Unit) :
    (Recognizer.rule r body .pure).run = (Parser.rule r (body ()).run : ParserM σ Unit) := by
  change (Parser.rule r (body ()).run >>= fun u => Pure.pure u) = _
  exact bind_pure _

/-- **An ordinary recognizer from its outermost rule on.** -/
theorem Recognizer.OrdinaryRule.runs {e : Recognizer Unit} (h : e.OrdinaryRule) (hp : Fresh x p) :
    Runs e.run p (fun _ => True) fun o q => o = .ok () ∧
      (∃ node vs, Whole x q node vs) ∧ Anchored x q := by
  obtain ⟨r, body, rfl, hbody⟩ := h
  rw [run_rule_pure]
  refine (runs_rule_fresh hp trivial (fun _ _ _ _ => True) fun p₁ h₁ => ?_).mono ?_
  · exact (hbody.runs h₁.ready fun _ => trivial).mono fun _ _ hq => hq.bodyEnd fun _ => trivial
  · rintro _ q ⟨rfl, _, node, vs, _, -, -, hwhole, hmoves, rfl, -⟩
    refine ⟨rfl, ⟨node, vs, hwhole⟩, fun e he => ?_⟩
    obtain ⟨a, -, ha, hanchor⟩ := hmoves.anchored e he
    exact ⟨a, Nat.le_trans ha hmoves.standing.le_size, hanchor⟩

end TreeProjection
