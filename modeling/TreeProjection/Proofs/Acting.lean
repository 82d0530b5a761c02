import TreeProjection.Proofs.Repair

/-! # The operations of recognizers, one by one

What each operation does to a parse.  Matching a token, guarding a loop, invoking a body and trying one are
steps, and so is a rule: its body may fail, but then the rule reports the failure and goes on after it.

* `Parser.runs_expect`, `Parser.runs_sync` — matching and guarding.
* `Parser.runs_rule`, `Parser.runs_rule_entry` — a rule below another one, and the outermost rule.
* `Parser.runs_invoke`, `Parser.runs_attempt` — running a body. -/

namespace TreeProjection.Parser

open ParseNode (View)

variable {σ α : Type} [TokenSource σ] {x : Tape} {p p₁ q : Parser σ} {fair : List Report → Prop}
  {rs : List Report} {vs : List View} {i n : Nat}

/-! ## Matching and guarding -/

/-- **How an expected token is matched**, and what that adds to the tree. -/
inductive Matched (x : Tape) (p : Parser σ) (ty : TokenType) (follow : TokenSet) (q : Parser σ) :
    Except RecognitionException Token → Prop where
  /-- It is the current token. -/
  | here (type : x.type p.index = ty) (step : Step x p [.terminal (x.token p.index)] [] q)
    (index : q.index = x.stop (p.index + 1)) (recovery : q.recovery = {}) :
    Matched x p ty follow q (.ok (x.token p.index))
  /-- It comes after a token that is dropped. -/
  | dropped (type : x.type p.index ≠ ty) (next : x.type (x.stop (p.index + 1)) = ty)
    (rs : List Report) (heard : Heard p (Mending x p ty follow) rs)
    (step : Step x p
      [.error (x.token p.index), .terminal (x.token (x.stop (p.index + 1)))] rs q)
    (recovery : q.recovery = {}) : Matched x p ty follow q (.ok (x.token (x.stop (p.index + 1))))
  /-- It is made up. -/
  | madeUp (type : x.type p.index ≠ ty) (t : Token) (conjured : t.isConjured = true)
    (made : t.ty = ty) (viable : (p.viableFollow follow).contains (x.type p.index) = true)
    (rs : List Report) (heard : Heard p (Mending x p ty follow) rs)
    (step : Step x p [.error t] rs q) (index : q.index = p.index)
    (recovery : q.recovery = { p.recovery with inRecovery := true }) : Matched x p ty follow q (.ok t)
  /-- It is not there, and the rule fails. -/
  | failed (type : x.type p.index ≠ ty) (e : RecognitionException) (failed : Failed x p e q)
    (kind : e.kind = .inputMismatch) (offending : e.offending = x.token p.index) :
    Matched x p ty follow q (.error e)

/-- **Matching a token.** -/
theorem runs_expect (hp : Ready x p) (hfair : fair p.reports) (ty : TokenType)
    (follow : TokenSet)
    (hmade : x.type p.index ≠ ty → p.recovery.inRecovery = false →
      ∀ r, Mending x p ty follow r → fair (p.reports ++ [r])) :
    Runs (expect ty follow) p fair fun o q => Matched x p ty follow q o := by
  unfold expect
  refine (runs_ahead_one (.standing hp.standing) hfair).bind ?_ (by rintro e q ⟨⟨⟩, -⟩)
  rintro _ _ ⟨⟨⟩, s, hs, rfl⟩
  have hstep := hp.reread hs
  have hindex : ({ p with input := s } : Parser σ).index = p.index := hs.cursor
  have hacting : ({ p with input := s } : Parser σ).isSpeculating = false := by
    simp [isSpeculating, hp.acting]
  by_cases hty : x.type p.index = ty
  · have heq : ((x.token p.index).ty == ty) = true := by simpa [Tape.type] using hty
    simp only [heq, if_true]
    refine Runs.of_get ?_
    simp only [hacting, Bool.false_eq_true, if_false]
    refine (runs_reportMatch (hstep.ready hp)).bind ?_ (by rintro e q ⟨⟨⟩, -⟩)
    rintro _ _ ⟨-, rfl⟩
    have hmatched := hstep.silent_trans ((hstep.ready hp).remind {})
    refine (runs_consume (hmatched.ready hp) hfair).mono ?_
    rintro _ q ⟨rfl, hconsumed, hrecovery, hnext⟩
    have hsame : ({ p with input := s, recovery := {} } : Parser σ).index = p.index := hs.cursor
    rw [hsame] at hconsumed hnext ⊢
    exact .here hty (hmatched.silent_trans hconsumed) hnext hrecovery
  · have hne : ((x.token p.index).ty == ty) = false := by simpa [Tape.type] using hty
    simp only [hne, Bool.false_eq_true, if_false]
    refine Runs.of_get ?_
    simp only [hacting, Bool.false_eq_true, if_false]
    -- reading the current token has changed nothing that reports are made of
    have hmending : ∀ r, Mending x { p with input := s } ty follow r → Mending x p ty follow r := by
      rintro _ (hnext | hviable)
      · rw [hindex] at hnext ⊢
        exact .extraneous hnext
      · rw [hindex] at hviable ⊢
        exact .missing hviable
    refine (runs_recoverInline (hstep.ready hp) hfair ty follow fun hfree r hr =>
      hmade hty hfree r (hmending r hr)).bind ?_ ?_
    · rw [hindex]
      rintro t q (⟨⟨⟩, hnext, rs, hheard, hrecovery, hdropped⟩ |
        ⟨_, ⟨⟩, hconjured, hmadety, hviable, rs, hreported⟩ | ⟨e, ⟨⟩, -⟩)
      · exact .dropped hty hnext rs ((hheard.mono hmending).of_same rfl rfl)
          (hstep.silent_trans hdropped) hrecovery
      · have hnoted := hstep.silent_trans hreported.step
        have hheard := (hreported.heard.mono hmending).of_same (p := p) rfl rfl
        simp only [hconjured, if_true]
        refine (runs_addErrorLeaf (hnoted.ready hp) (.inl hconjured)).bind ?_
          (by rintro e q ⟨⟨⟩, -⟩)
        rintro _ r ⟨-, hleaf, hsame, hrecovery⟩
        have hfinal := hnoted.trans hleaf
        rw [List.append_nil] at hfinal
        exact .madeUp hty t hconjured hmadety hviable rs hheard hfinal
          (hsame.trans (hreported.index.trans hindex)) (hrecovery.trans hreported.recovery)
    · rintro e q (⟨⟨⟩, -⟩ | ⟨_, ⟨⟩, -⟩ | ⟨_, ⟨⟩, hfailed, hkind, hoffending⟩)
      refine .failed hty e ⟨hstep.silent_trans hfailed.step, hfailed.index.trans hindex,
        hfailed.recovery, ?_, hfailed.id⟩ hkind ?_
      · rw [hfailed.anchor, hindex]
      · rw [hoffending, hindex]

/-- **Guarding a loop.** -/
inductive Guarded (x : Tape) (p : Parser σ) (expecting : TokenSet) (q : Parser σ) : Prop where
  /-- There was nothing to guard against. -/
  | open (step : Step x p [] [] q) (index : q.index = p.index) (recovery : q.recovery = p.recovery)
    (free : p.recovery.inRecovery = true ∨ expecting.contains (x.type p.index) = true ∨
      expecting.endOfRule = true)
  /-- The current token was reported, and tokens were passed over. -/
  | passed (free : p.recovery.inRecovery = false)
    (type : expecting.contains (x.type p.index) = false) (vs : List View) (rs : List Report)
    (step : Step x p vs rs q) (inRecovery : q.recovery.inRecovery = true)
    (heard : Heard p (Unwanted x p expecting) rs) (leads : Leads x p vs)
    (errors : ∀ v ∈ vs, ∃ t, v = View.error t)
  /-- The current token was reported, but a caller can go on with it. -/
  | stayed (free : p.recovery.inRecovery = false)
    (type : expecting.contains (x.type p.index) = false) (rs : List Report)
    (step : Step x p [] rs q) (index : q.index = p.index) (inRecovery : q.recovery.inRecovery = true)
    (heard : Heard p (Unwanted x p expecting) rs)
    (caller : p.strategy.anchoring = true →
      p.index < x.size ∧ p.recoverySet.contains (x.type p.index) = true)
    (closed : expecting.endOfRule = false)

/-- Outside trials, a loop is guarded by the hook. -/
theorem runs_sync_of_syncHook (hp : Ready x p) {expecting : TokenSet}
    {good : Except RecognitionException Unit → Parser σ → Prop} (h : Runs (syncHook expecting) p fair good) :
    Runs (sync expecting) p fair good := by
  unfold sync
  refine Runs.of_get ?_
  rwa [if_neg (by simp [hp.isSpeculating])]

/-- The end of a loop's guard. -/
theorem runs_sync (hp : Ready x p) (hfair : fair p.reports) (expecting : TokenSet)
    (hmade : expecting.contains (x.type p.index) = false → p.recovery.inRecovery = false →
      ∀ r, Unwanted x p expecting r → fair (p.reports ++ [r])) :
    Runs (sync expecting) p fair fun o q => o = .ok () ∧ Guarded x p expecting q := by
  refine runs_sync_of_syncHook hp ((runs_syncHook hp hfair expecting hmade).mono ?_)
  rintro _ q ⟨rfl, ⟨hstep, hindex, hrecovery, -, hopen⟩ |
    ⟨hfree, htype, hclosed, q₀, rs, ts, hreported, -, hskip, hts⟩⟩
  · exact ⟨rfl, .open hstep hindex hrecovery hopen⟩
  · have hstep := hreported.step.trans hskip.skipped.step
    rw [List.nil_append, List.append_nil] at hstep
    have hrec := hskip.skipped.inRecovery
    obtain ⟨rfl, hindex, hcaller⟩ | ⟨us, rfl⟩ := hts
    · refine ⟨rfl, .stayed hfree htype rs hstep hindex hrec hreported.heard (fun h => ?_) hclosed⟩
      have := hcaller h
      rwa [TokenSet.contains_union, htype, Bool.false_or] at this
    · exact ⟨rfl, .passed hfree htype _ rs hstep hrec hreported.heard ⟨_, rfl⟩ hskip.skipped.errors⟩

/-! ## Rules -/

/-- **A rule has been entered** at a place of the tape: its node is the last one, and nothing else has
changed. -/
structure Entered (x : Tape) (i : Nat) (r : RuleIndex) (p p₁ : Parser σ) : Prop where
  /-- The parser is in the rule. -/
  ready : Ready x p₁
  /-- The input stands at the place. -/
  index : p₁.index = i
  /-- The listeners have been told of nothing. -/
  reports : p₁.reports = p.reports
  /-- Recovery keeps in mind what it did. -/
  recovery : p₁.recovery = p.recovery
  /-- The situation is as before. -/
  situation : p₁.situation = p.situation
  /-- No exception has been numbered. -/
  nextException : p₁.nextException = p.nextException
  /-- The rule is active. -/
  frames : p₁.frames = ⟨r, some p.tree.nodes.size⟩ :: p.frames
  /-- The node of the rule has been added. -/
  tree : ∃ node : RuleNode, node.rule = r ∧ node.children = #[] ∧ node.exception = none ∧
    p₁.tree = (p.tree.push p.currentNode? (.rule node)).2
  /-- It is the last node. -/
  opened : ∃ node : RuleNode, node.rule = r ∧ node.exception = none ∧
    p₁.tree.Opened p.tree.nodes.size node [] p₁.tree

/-- Entering a rule outside trials takes the current token for its first one. -/
theorem runs_enterRule_opened (h : p.input.Facing x i) (hacting : p.speculating = 0) (hfair : fair p.reports)
    (r : RuleIndex) : Runs (enterRule r) p fair fun o q =>
      o = .ok () ∧ ∃ s, s.Standing x i ∧ q = ({ p with input := s }).openRule r (x.token i).index := by
  have hahead := runs_ahead_one h hfair
  refine Ends.mono (enterRule_activates r p) ?_
  intro o q hends
  cases hends with
  | calledOff | tooDeep => exact hfair
  | unmarked _ trying => simp [isSpeculating, hacting] at trying
  | @unread interrupt _ _ _ ahead =>
      have hgiven := Ends.of_error hahead ahead
      cases interrupt with
      | recognition e => cases hgiven.1
      | abort a => exact hgiven
  | marked _ _ ahead =>
      obtain ⟨⟨⟩, s, hs, rfl⟩ := Ends.of_ok hahead ahead
      exact ⟨rfl, s, hs, rfl⟩

/-- Entering a rule. -/
theorem runs_enterRule (h : p.input.Facing x i) (hacting : p.speculating = 0)
    (hnoted : p.strategy.noted = false) (hdenied : p.strategy.denied = [])
    (hfair : fair p.reports) (r : RuleIndex) :
    Runs (enterRule r) p fair fun o q => o = .ok () ∧ Entered x i r p q := by
  refine (runs_enterRule_opened h hacting hfair r).mono ?_
  rintro _ _ ⟨rfl, s, hs, rfl⟩
  have hcursor : s.cursor = i := hs.cursor
  let node : RuleNode := { rule := r, start := (x.token i).index }
  have hid := p.tree.push_fst p.currentNode? (.rule node)
  have hsize := p.tree.size_nodes_push p.currentNode? (.rule node)
  have hlast := p.tree.getElem?_push_last p.currentNode? (.rule node)
  refine ⟨rfl, ⟨?_, hnoted, hdenied, hacting, ⟨p.tree.nodes.size, node, ?_, hlast⟩⟩, hcursor, rfl,
    rfl, rfl, rfl, ?_, ⟨node, rfl, rfl, rfl, rfl⟩, node, rfl, rfl, .start hsize hlast rfl⟩
  · simpa only [openRule, index, hcursor] using hs
  · simp only [openRule, currentNode?, List.head?_cons, Option.bind_some]
    exact congrArg some hid
  · exact congrArg (fun id => (⟨r, some id⟩ : Frame) :: p.frames) hid

/-- What has happened since a rule was entered has happened since before it was. -/
theorem Moves.of_entered {r : RuleIndex} (h : Moves x p₁ vs rs q)
    (hentered : Entered x p.index r p p₁) : Moves x p vs rs q where
  standing := h.standing
  situation := h.situation.trans hentered.situation
  reports := by rw [h.reports, hentered.reports]
  nextException := by
    rw [← hentered.nextException]
    exact h.nextException
  walk := by
    rw [← hentered.index]
    exact h.walk
  anchored := by
    rw [← hentered.index]
    exact h.anchored

/-- Leaving a rule. -/
theorem runs_exitRule {r : RuleIndex} {frames : List Frame} (hfair : fair p.reports)
    (hframes : p.frames = ⟨r, some n⟩ :: frames) : Runs exitRule p fair fun o q =>
      o = .ok () ∧ ∃ stop : RuleNode → Option Nat, q = { p with
        frames := frames
        tree := p.tree.modifyRule n fun node => { node with stop := stop node } } := by
  refine Ends.mono (exitRule_retires p) fun o q hends => ?_
  obtain ⟨rfl | rfl, rfl⟩ := hends.of_active hframes
  · exact ⟨rfl, _, rfl⟩
  · exact hfair

/-- **How a rule ends**, when its body ends in one of the ways that `ends` allows: as the body ends, or, if
the body fails, by a report and the passing over of tokens. -/
inductive RuleEnd (x : Tape) (ends : Except RecognitionException Unit → List View → List Report →
    Parser σ → Prop) (q : Parser σ) (node : RuleNode) : List View → List Report → Prop where
  /-- The body has ended well. -/
  | well (vs : List View) (rs : List Report) (q₀ : Parser σ) (h : ends (.ok ()) vs rs q₀)
    (exception : node.exception = none) (recovery : q.recovery = q₀.recovery)
    (index : q.index = q₀.index) : RuleEnd x ends q node vs rs
  /-- The body has failed. -/
  | failed (e : RecognitionException) (vs ws : List View) (rs rs' : List Report) (q₀ : Parser σ)
    (h : ends (.error e) vs rs q₀) (exception : node.exception = some e)
    (heard : Heard q₀ (OfException e) rs') (inRecovery : q.recovery.inRecovery = true)
    (resumed : Resumed x node.rule q₀ q) (errors : ∀ v ∈ ws, ∃ t, v = View.error t) : RuleEnd x ends q node (vs ++ ws) (rs ++ rs')

/-- **What is asked of the body of a rule**, for the rule to be a step: the body is one, it fails where the
input stands, and it is fair both as it ends and once its failure has been reported. -/
structure BodyEnd (x : Tape) (p₁ : Parser σ) (fair : List Report → Prop)
    (ends : Except RecognitionException Unit → List View → List Report → Parser σ → Prop)
    (o : Except RecognitionException Unit) (q : Parser σ) (vs : List View) (rs : List Report) :
    Prop where
  /-- The body is a step. -/
  step : Step x p₁ vs rs q
  /-- It ends in a way that is allowed. -/
  allowed : ends o vs rs q
  /-- A failure is placed where the input stands. -/
  anchor : ∀ e, o = .error e → e.anchor = x.token q.index
  /-- The reports up to there are fair. -/
  isFair : fair q.reports
  /-- They stay so when a failure is reported. -/
  made : ∀ e, o = .error e → q.recovery.inRecovery = false →
    ∀ r, OfException e r → fair (q.reports ++ [r])

/-- **Handling the failure of a rule's body.** -/
theorem runs_handleRecognition (hp : Ready x p) {e : RecognitionException}
    (he : e.anchor = x.token p.index) (hfair : fair p.reports)
    (hmade : p.recovery.inRecovery = false → ∀ r, OfException e r → fair (p.reports ++ [r]))
    {t : ParseTree} {node : RuleNode} {r : RuleIndex} (hrule : p.currentRule? = some r) (hnode : p.currentNode? = some n)
    (hopen : t.Opened n node vs p.tree) :
    Runs (handleRecognition e) p fair fun o q => o = .ok () ∧ ∃ ws rs node',
      Moves x p ws rs q ∧ (∀ v ∈ ws, ∃ t, v = .error t) ∧ q.frames = p.frames ∧
        q.recovery.inRecovery = true ∧ Resumed x r p q ∧
        Heard p (OfException e) rs ∧ t.Opened n node' (vs ++ ws) q.tree ∧
        node'.rule = node.rule ∧ node'.exception = some e := by
  unfold handleRecognition
  refine Runs.of_modify ?_
  simp only [hnode]
  -- the exception is noted at the rule's node before anything is reported or passed over
  have hmarked := hopen.modify (fun r => { r with exception := some e }) rfl
  have hready : Ready x { p with
      tree := p.tree.modifyRule n fun r => { r with exception := some e } } :=
    ⟨hp.standing, hp.noted, hp.denied, hp.acting, n, _, hnode, hmarked.node⟩
  refine (runs_reportError hready he).bind ?_ (by rintro e q ⟨⟨⟩, -⟩)
  rintro _ q ⟨-, rs, hreported⟩
  have hheard := hreported.heard.of_same (p := p) rfl rfl
  have hfair' : fair q.reports := by
    rw [hreported.step.reports]
    exact hheard.fair_after hfair hmade
  have hrule' : q.currentRule? = some r := by
    simp only [currentRule?, hreported.step.frames] at hrule ⊢
    exact hrule
  refine (runs_recover (hreported.step.ready hready) hfair' hreported.inRecovery hrule' e).mono ?_
  rintro _ q' ⟨rfl, given, ts, hrecovered⟩
  have hskipped := hrecovered.skipped
  have hstep := hreported.step.trans hskipped.step
  rw [List.nil_append, List.append_nil] at hstep
  obtain ⟨c, hc, hgrows⟩ := hstep.grows
  rw [show c = n from Option.some.inj (hc.symm.trans hnode)] at hgrows
  exact ⟨rfl, _, rs, _, ⟨hstep.standing, hstep.situation, hstep.reports, hstep.nextException,
    hstep.walk, hstep.anchored⟩, hskipped.errors, hstep.frames, hskipped.inRecovery,
    hrecovered.resumed.of_noted hreported.index hreported.recovery, hheard, hmarked.grow hgrows, rfl, rfl⟩

/-- Whatever happens when a rule is left, nothing is reported, and no exception is raised. -/
theorem ends_exitRule_kept (p : Parser σ) :
    Ends exitRule p fun _ q => q.nextException = p.nextException ∧ q.reports = p.reports := by
  refine (exitRule_retires p).mono fun o q hends => ?_
  cases hends with
  | outside | unmarked | marked => exact ⟨rfl, rfl⟩

/-- Leaving a rule whose body has not been given up. -/
theorem runs_leaveRule {r : RuleIndex} {frames : List Frame} {t : ParseTree} {node : RuleNode}
    (hfair : fair q.reports) (hframes : q.frames = ⟨r, some n⟩ :: frames)
    (hopen : t.Opened n node vs q.tree) (hmoves : Moves x p₁ vs rs q) :
    Runs (do
      let exited ← observe exitRule
      release (.ok ())
      release exited) q fair fun o q' => o = .ok () ∧ ∃ node', t.Opened n node' vs q'.tree ∧
        node'.rule = node.rule ∧ node'.exception = node.exception ∧ q'.frames = frames ∧
        Moves x p₁ vs rs q' ∧ q'.recovery = q.recovery ∧ q'.index = q.index := by
  refine (runs_exitRule hfair hframes).of_observe ?_ (by rintro e q ⟨⟨⟩, -⟩) fun a q hq => hq
  rintro _ _ ⟨-, stop, rfl⟩
  exact ⟨rfl, _, hopen.modify _ rfl, rfl, rfl, rfl, ⟨hmoves.standing, hmoves.situation,
    hmoves.reports, hmoves.nextException, hmoves.walk, hmoves.anchored⟩,
    rfl, rfl⟩

/-- Leaving a rule whose body has been given up. -/
theorem runs_leaveRule_of_abort (hfair : fair q.reports) (a : Abort)
    {good : Except RecognitionException Unit → Parser σ → Prop} :
    Runs (do
      let exited ← observe exitRule
      release (.error (.abort a))
      release exited) q fair good := by
  have hexit : Runs exitRule q fair fun _ r => fair r.reports := by
    refine (ends_exitRule_kept q).mono fun o r hr => ?_
    have hfair' : fair r.reports := by rwa [hr.2]
    match o with
    | .ok _ => exact hfair'
    | .error (.recognition _) => exact hfair'
    | .error (.abort _) => exact hfair'
  exact hexit.of_observe (fun _ _ h => h) (fun _ _ h => h) fun _ _ h => h

/-- **A rule after it has been entered.** Its body runs, a failure is handled, and the rule is left. -/
theorem runs_ruleBody {r : RuleIndex} {body : ParserM σ Unit}
    {ends : Except RecognitionException Unit → List View → List Report → Parser σ → Prop}
    (h : Entered x i r p p₁)
    (hbody : Runs body p₁ fair fun o q => ∃ vs rs, BodyEnd x p₁ fair ends o q vs rs) :
    Runs (do
      let outcome ← observe body
      let outcome ← match outcome with
        | .error (.recognition e) =>
          if (← get).isSpeculating then pure outcome else observe (handleRecognition e)
        | _ => pure outcome
      let exited ← observe exitRule
      release outcome
      release exited) p₁ fair fun o q => o = .ok () ∧ ∃ node vs rs,
        node.rule = r ∧ q.frames = p.frames ∧
        p₁.tree.Opened p.tree.nodes.size node vs q.tree ∧ Moves x p₁ vs rs q ∧
        RuleEnd x ends q node vs rs := by
  obtain ⟨node, hrule, hexception, hopened⟩ := h.opened
  have hcurrent : p₁.currentNode? = some p.tree.nodes.size := by
    simp only [currentNode?, h.frames, List.head?_cons, Option.bind_some]
  -- the body answers, or fails, or the parse was given up inside it
  refine hbody.of_observe ?_ ?_ ?_
  · rintro _ q₀ ⟨vs, rs, hend⟩
    obtain ⟨c, hc, hgrows⟩ := hend.step.grows
    rw [show c = p.tree.nodes.size from Option.some.inj (hc.symm.trans hcurrent)] at hgrows
    refine Runs.mono (runs_leaveRule hend.isFair (hend.step.frames.trans h.frames)
      (hopened.grow hgrows) hend.step.toMoves) ?_
    rintro _ q ⟨rfl, node', hopen, hrule', hexception', hframes, hmoves, hrecovery, hindex⟩
    exact ⟨rfl, node', vs, rs, hrule'.trans hrule, hframes, hopen, hmoves,
      .well vs rs q₀ hend.allowed (hexception'.trans hexception) hrecovery hindex⟩
  · rintro e q₀ ⟨vs, rs, hend⟩
    obtain ⟨c, hc, hgrows⟩ := hend.step.grows
    rw [show c = p.tree.nodes.size from Option.some.inj (hc.symm.trans hcurrent)] at hgrows
    have hready := hend.step.ready h.ready
    refine Runs.of_get ?_
    rw [if_neg (by simp [hready.isSpeculating])]
    have hnode := hend.step.currentNode.trans hcurrent
    have hactive : q₀.currentRule? = some r := by
      simp only [currentRule?, hend.step.frames, h.frames, List.head?_cons, Option.map_some]
    refine (runs_handleRecognition hready (hend.anchor e rfl) hend.isFair (hend.made e rfl) hactive
      hnode (hopened.grow hgrows)).of_observe ?_ (by rintro e q ⟨⟨⟩, -⟩) ?_
    · rintro _ q₁ ⟨-, ws, rs', node₁, hmoves, herrors, hframes, hrecovery, hresumed, hheard, hopen, hrule₁,
        hexc₁⟩
      have hfair : fair q₁.reports := by
        rw [hmoves.reports]
        exact hheard.fair_after hend.isFair (hend.made e rfl)
      refine Runs.mono (runs_leaveRule hfair (hframes.trans (hend.step.frames.trans h.frames)) hopen
        (hend.step.toMoves.trans hmoves)) ?_
      rintro _ q ⟨rfl, node₂, hopen, hrule₂, hexc₂, hframes, hmoves, hrecovery₂, hindex₂⟩
      have hrule₃ : node₂.rule = r := (hrule₂.trans hrule₁).trans hrule
      refine ⟨rfl, node₂, vs ++ ws, rs ++ rs', hrule₃, hframes, hopen, hmoves,
        .failed e vs ws rs rs' q₀ hend.allowed (hexc₂.trans hexc₁) hheard ?_ ?_ herrors⟩
      · rw [hrecovery₂, hrecovery]
      -- where the rule is left decides with what state of recovery its caller goes on
      · rw [hrule₃]
        exact hresumed.left hindex₂ hrecovery₂
    · exact fun a q hfair => runs_leaveRule_of_abort hfair a
  · exact fun a q hfair => runs_leaveRule_of_abort hfair a

/-- **A rule**, from the state on in which it has been entered. -/
theorem runs_rule_entered (h : p.input.Facing x i) (hacting : p.speculating = 0)
    (hnoted : p.strategy.noted = false) (hdenied : p.strategy.denied = [])
    (hfair : fair p.reports) {r : RuleIndex} {body : ParserM σ Unit}
    (ends : Parser σ → Except RecognitionException Unit → List View → List Report → Parser σ → Prop)
    (hbody : ∀ p₁, enterRule r p = .ok () p₁ → Entered x i r p p₁ →
      Runs body p₁ fair fun o q => ∃ vs rs, BodyEnd x p₁ fair (ends p₁) o q vs rs) :
    Runs (rule r body) p fair fun o q => o = .ok () ∧ ∃ p₁ node vs rs,
      enterRule r p = .ok () p₁ ∧ Entered x i r p p₁ ∧ node.rule = r ∧ q.frames = p.frames ∧
      p₁.tree.Opened p.tree.nodes.size node vs q.tree ∧ Moves x p₁ vs rs q ∧
      RuleEnd x (ends p₁) q node vs rs := by
  have hself : Answers (enterRule r) p fun a q => enterRule r p = .ok a q := by
    refine (Ends.self (enterRule r) p).mono ?_
    rintro _ q hq a rfl
    exact hq
  have henters := (runs_enterRule h hacting hnoted hdenied hfair r).and_answers hself
  unfold rule
  refine henters.bind ?_ (by rintro e q ⟨⟨⟨⟩, -⟩, -⟩)
  rintro _ p₁ ⟨⟨-, hentered⟩, hfrom⟩
  have hfrom := hfrom () rfl
  refine (runs_ruleBody hentered (hbody p₁ hfrom hentered)).mono ?_
  rintro _ q ⟨rfl, node, vs, rs, hrule, hframes, hopen, hmoves, hend⟩
  exact ⟨rfl, p₁, node, vs, rs, hfrom, hentered, hrule, hframes, hopen, hmoves, hend⟩

/-- A rule below another one is a step. -/
theorem Moves.step_of_opened {node : RuleNode} {r : RuleIndex} (hp : Ready x p)
    (hentered : Entered x p.index r p p₁) (hmoves : Moves x p₁ vs rs q) (hframes : q.frames = p.frames)
    (hopen : p₁.tree.Opened p.tree.nodes.size node vs q.tree) : Step x p [.rule node vs] rs q := by
  obtain ⟨c, r₀, hc, hr₀⟩ := hp.inRule
  obtain ⟨fresh, -, -, -, htree⟩ := hentered.tree
  rw [htree, hc] at hopen
  have hmoved := hmoves.of_entered hentered
  have hwalk : Walk x p.index (View.leavesOf [.rule node vs]) q.index := by
    rw [View.leavesOf_rule]
    exact hmoved.walk
  exact ⟨{ hmoved with walk := hwalk }, hframes, c, hc, hopen.grows hr₀⟩

/-- **A rule below another one.** -/
theorem runs_rule (hp : Ready x p) (hfair : fair p.reports) {r : RuleIndex}
    {body : ParserM σ Unit}
    (ends : Except RecognitionException Unit → List View → List Report → Parser σ → Prop)
    (hbody : ∀ p₁, Entered x p.index r p p₁ →
      Runs body p₁ fair fun o q => ∃ vs rs, BodyEnd x p₁ fair ends o q vs rs) :
    Runs (rule r body) p fair fun o q => o = .ok () ∧ ∃ node vs rs, node.rule = r ∧
      Step x p [.rule node vs] rs q ∧ RuleEnd x ends q node vs rs := by
  refine (runs_rule_entered (.standing hp.standing) hp.acting hp.noted hp.denied hfair
    (fun _ => ends) fun p₁ _ => hbody p₁).mono ?_
  rintro _ q ⟨rfl, p₁, node, vs, rs, -, hentered, hrule, hframes, hopen, hmoves, hend⟩
  exact ⟨rfl, node, vs, rs, hrule, hmoves.step_of_opened hp hentered hframes hopen, hend⟩

/-- **The outermost rule**, with the trees that have been added below it, is the whole tree. -/
theorem Entered.shows_of_opened {r : RuleIndex} {node : RuleNode} (h : Entered x i r p p₁)
    (hframes : p.frames = []) (htree : p.tree = {})
    (hopen : p₁.tree.Opened p.tree.nodes.size node vs q.tree) :
    q.tree.root = some 0 ∧ q.tree.size = (View.rule node vs).size ∧ q.tree.Shows 0 (.rule node vs) := by
  have hnode : p.currentNode? = none := by simp only [currentNode?, hframes, List.head?_nil,
    Option.bind_none]
  obtain ⟨fresh, -, -, -, htree₁⟩ := h.tree
  rw [htree₁, htree, hnode, ParseTree.push_empty] at hopen
  refine ⟨hopen.root, ?_, hopen.shows_rule⟩
  have hsize := hopen.size
  simp only [View.size, ParseTree.size]
  exact hsize.trans (Nat.add_comm _ _)

/-- **The outermost rule.** It becomes the root of the tree. -/
theorem runs_rule_entry (h : p.input.Facing x i) (hacting : p.speculating = 0)
    (hnoted : p.strategy.noted = false) (hdenied : p.strategy.denied = [])
    (hframes : p.frames = []) (htree : p.tree = {}) (hfair : fair p.reports) {r : RuleIndex}
    {body : ParserM σ Unit}
    {ends : Except RecognitionException Unit → List View → List Report → Parser σ → Prop}
    (hbody : ∀ p₁, Entered x i r p p₁ →
      Runs body p₁ fair fun o q => ∃ vs rs, BodyEnd x p₁ fair ends o q vs rs) :
    Runs (rule r body) p fair fun o q => o = .ok () ∧ ∃ p₁ node vs rs, Entered x i r p p₁ ∧
      node.rule = r ∧ q.tree.root = some 0 ∧ q.tree.size = (View.rule node vs).size ∧
      q.tree.Shows 0 (.rule node vs) ∧ Moves x p₁ vs rs q ∧ RuleEnd x ends q node vs rs := by
  refine (runs_rule_entered h hacting hnoted hdenied hfair (fun _ => ends)
    fun p₁ _ => hbody p₁).mono ?_
  rintro _ q ⟨rfl, p₁, node, vs, rs, -, hentered, hrule, -, hopen, hmoves, hend⟩
  obtain ⟨hroot, hsize, hshows⟩ := hentered.shows_of_opened hframes htree hopen
  exact ⟨rfl, p₁, node, vs, rs, hentered, hrule, hroot, hsize, hshows, hmoves, hend⟩

/-! ## Running a body -/

omit [TokenSource σ] in
/-- **Invoking a body.** What may come after it is in mind while it runs. -/
theorem runs_invoke {follow : TokenSet} {body : ParserM σ α}
    {good : Except RecognitionException α → Parser σ → Prop}
    (hbody : Runs body { p with follow := follow :: p.follow } fair good) :
    Runs (invoke follow body) p fair fun o q =>
      ∃ q', good o q' ∧ q = { q' with follow := q'.follow.tail } := by
  unfold invoke
  refine Runs.of_modify (hbody.of_observe ?_ ?_ ?_)
  · exact fun a q hq => ⟨q, hq, rfl⟩
  · exact fun e q hq => ⟨q, hq, rfl⟩
  · exact fun _ _ hfair => hfair

/-- A body that has been invoked is a step if the body is one. -/
theorem Step.of_invoke {follow : TokenSet}
    (h : Step x { p with follow := follow :: p.follow } vs rs q) :
    Step x p vs rs { q with follow := q.follow.tail } := by
  have hsituation := h.situation
  simp only [situation, Situation.mk.injEq] at hsituation
  obtain ⟨h1, h2, h3, h4, h5, h6⟩ := hsituation
  refine ⟨⟨h.standing, ?_, h.reports, h.nextException, h.walk, h.anchored⟩, h.frames,
    h.grows⟩
  simp only [situation, h1, h2, h3, h4, h5, h6, List.tail_cons]

/-- What may come after a body that is invoked is in mind while it runs, and nothing else has changed. -/
theorem Ready.invoked (hp : Ready x p) (follow : TokenSet) :
    Ready x { p with follow := follow :: p.follow } :=
  ⟨hp.standing, hp.noted, hp.denied, hp.acting, hp.inRule⟩

omit [TokenSource σ] in
/-- **Running a body for its exception.** -/
theorem runs_attempt {body : ParserM σ α} {good : Except RecognitionException α → Parser σ → Prop}
    (hbody : Runs body p fair good) :
    Runs (attempt body) p fair fun o q => ∃ a, o = .ok a ∧ good a q := by
  unfold attempt
  refine hbody.of_observe ?_ ?_ ?_
  · exact fun a q hq => ⟨.ok a, rfl, hq⟩
  · exact fun e q hq => ⟨.error e, rfl, hq⟩
  · exact fun _ _ hfair => hfair

end TreeProjection.Parser
