import TreeProjection.Proofs.Covering
import TreeProjection.Proofs.Faithful

/-! # Guards that attend to their callers

A loop's guard may report a token and leave it where it is, because some caller can go on with it.  If that caller
then matches the token, nothing in the tree tells of the report.  This cannot happen where a guard lets through
whatever its callers can go on with: then every error that is reported has an error element.

* `HostCursor.distinct_tape` — tokens with texts stand at different offsets.
* `Recognizer.Attends` — every guard lets through what its callers can go on with.
* `Recognizer.Attends.runs` — such a recognizer leaves something in the tree for each of its reports.
* `Session.project_shows_errors` — errors of such recognizers show in the host tree.
* `Unattended.project_hides_error` — a guard that passes over too much hides an error. -/

namespace TreeProjection

open ParseNode (View)

/-! ## Offsets of tokens -/

/-- The offset of the token at a place of what a cursor gives. -/
theorem HostCursor.offset_tape_of_lt {h : HostText} {l : Language} (e : ElementTypes) {i : Nat}
    (hi : i < (h.significant l).length) :
    ((ofText h l).tape e).offset i = (h.significant l)[i].start := by
  have hget : (ofText h l).tokens[i]? = some (h.significant l)[i] := by simp [ofText, hi]
  rw [Tape.offset, token_tape e _ hget]
  rfl

/-- The offset of the end of what a cursor gives. -/
theorem HostCursor.offset_tape_size {h : HostText} {l : Language} (e : ElementTypes) {i : Nat}
    (hi : (h.significant l).length ≤ i) : ((ofText h l).tape e).offset i = h.length := by
  have hsize : ((ofText h l).tape e).size ≤ i := by rwa [size_tape_ofText]
  rw [Tape.offset, Tape.token, Tape.getD_all_of_le _ hsize]
  rfl

/-- **Tokens with texts stand at different offsets**, and none of them where the source ends. -/
theorem HostCursor.distinct_tape {h : HostText} {l : Language} (e : ElementTypes)
    (htexts : ∀ t ∈ h.significant l, 0 < t.text.utf8ByteSize) : ((ofText h l).tape e).Distinct := by
  have hpairwise : (h.significant l).Pairwise fun t u => t.start + t.text.utf8ByteSize ≤ u.start :=
    HostText.pairwise_placeFrom.filter _
  -- the offsets go up from each token to the next, and to the end
  have hlt : ∀ i j, i < j → j ≤ (h.significant l).length →
      ((ofText h l).tape e).offset i < ((ofText h l).tape e).offset j := by
    intro i j hij hj
    have hi : i < (h.significant l).length := by omega
    have htext := htexts _ (List.getElem_mem hi)
    rw [offset_tape_of_lt e hi]
    rcases Nat.eq_or_lt_of_le hj with rfl | hj
    · rw [offset_tape_size e (Nat.le_refl _), HostText.length_eq]
      have hmem : (h.significant l)[i] ∈ h.placed := (List.mem_filter.mp (List.getElem_mem hi)).1
      have hbounds := (HostText.start_of_mem_placeFrom hmem).2
      omega
    · rw [offset_tape_of_lt e hj]
      have hbefore := List.pairwise_iff_getElem.mp hpairwise i j hi hj hij
      omega
  intro a b ha hb heq
  rw [size_tape_ofText] at ha hb
  rcases Nat.lt_trichotomy a b with h | h | h
  · exact absurd heq (Nat.ne_of_lt (hlt a b h hb))
  · exact h
  · exact absurd heq.symm (Nat.ne_of_lt (hlt b a h ha))

/-! ## Recognizers whose guards attend to their callers -/

/-- **What the callers can go on with**, when these sets tell what may come after each active invocation. -/
def TokenSet.ofCallers (follow : List TokenSet) : TokenSet :=
  follow.foldr (fun s acc => acc.union s.withoutEndOfRule) (.single .eof)

/-- **A guard attends to its callers** if it lets through every token that one of them can go on with. -/
def Operation.Attends {β : Type} (follow : List TokenSet) : Operation β → Prop
  | .sync expecting => expecting.endOfRule = true ∨ ∀ ty, ty ≠ .eof →
      (TokenSet.ofCallers follow).contains ty = true → expecting.contains ty = true
  | _ => True

/-- **An ordinary recognizer all of whose guards attend to their callers**, when it runs inside these invocations.
On trial nothing is guarded. -/
def Recognizer.Attends {α : Type} : Recognizer α → List TokenSet → Prop
  | .pure _, _ => True
  | .outOfSteps, _ => True
  | .step op next, follow => op.Attends follow ∧ ∀ b, (next b).Attends follow
  | .direct _ _, _ => False
  | .rule _ body next, follow => (body ()).Attends follow ∧ ∀ u, (next u).Attends follow
  | .invoke set body next, follow => (body ()).Attends (set :: follow) ∧ ∀ b, (next b).Attends follow
  | .speculate body next, follow => (body ()).Ordinary ∧ ∀ b, (next b).Attends follow
  | .attempt body next, follow => (body ()).Attends follow ∧ ∀ b, (next b).Attends follow

/-- Whether a recognizer runs inside one rule, and all guards there attend to their callers. -/
def Recognizer.AttendsRule (e : Recognizer Unit) : Prop :=
  ∃ r body, e = .rule r body .pure ∧ (body ()).Attends []

/-- A recognizer whose guards attend to their callers is ordinary. -/
theorem Recognizer.Attends.ordinary {α : Type} {r : Recognizer α} {follow : List TokenSet}
    (h : r.Attends follow) : r.Ordinary := by
  -- induction on the recognizer: only the guards look at what may follow, and an invocation adds to that
  induction r generalizing follow with
  | pure a => trivial
  | outOfSteps => trivial
  | step op next ih => exact fun b => ih b (h.2 b)
  | direct d next ih => exact h.elim
  | rule r body next ihbody ihnext => exact ⟨ihbody () h.1, fun u => ihnext u (h.2 u)⟩
  | invoke set body next ihbody ihnext => exact ⟨ihbody () h.1, fun b => ihnext b (h.2 b)⟩
  | speculate body next ihbody ihnext => exact ⟨h.1, fun b => ihnext b (h.2 b)⟩
  | attempt body next ihbody ihnext => exact ⟨ihbody () h.1, fun b => ihnext b (h.2 b)⟩

/-- A recognizer that runs inside one rule and attends to its callers there is ordinary. -/
theorem Recognizer.AttendsRule.ordinaryRule {e : Recognizer Unit} (h : e.AttendsRule) :
    e.OrdinaryRule := by
  obtain ⟨r, body, rfl, hbody⟩ := h
  exact ⟨r, body, rfl, hbody.ordinary⟩

/-! ## Every report has something in the tree -/

section

open TreeProjection.Parser

variable {σ : Type} [TokenSource σ] {x : Tape} {p q r : Parser σ} {vs : List View}
  {rs : List Report}

/-- **An action is a step whose reports are settled**, and if it fails, it fails where the input stands. -/
def Parser.Attended {α : Type} (x : Tape) (p : Parser σ) (o : Except RecognitionException α)
    (q : Parser σ) : Prop :=
  ∃ vs rs, Step x p vs rs q ∧ (∀ e, o = .error e → e.anchor = x.token q.index) ∧
    Settled x p.index vs rs

/-- First a step whose reports are settled, and then an action that is one. -/
theorem Parser.Attended.after {α : Type} {o : Except RecognitionException α} (hplain : x.Plain)
    (hstep : Step x p vs rs q) (hsettled : Settled x p.index vs rs) (h : Attended x q o r) :
    Attended x p o r := by
  obtain ⟨ws, rs', hrest, hanchor, hrest'⟩ := h
  refine ⟨vs ++ ws, rs ++ rs', hstep.trans hrest, hanchor, hsettled.append ?_⟩
  rwa [← hstep.index_eq hplain]

/-- A step without a report. -/
theorem Parser.Step.attended {α : Type} (h : Step x p vs [] q) (a : α) :
    Attended x p (.ok a) q :=
  ⟨vs, [], h, (by rintro _ ⟨⟩), .nil vs⟩

/-- What has failed has reported nothing yet. -/
theorem Parser.Failed.attended {α : Type} {e : RecognitionException} (h : Failed x p e q) :
    Attended x p (.error e : Except RecognitionException α) q := by
  refine ⟨[], [], h.step, ?_, .nil []⟩
  rintro _ ⟨⟩
  rw [h.anchor, h.index]

/-- How an action ends does not depend on what type of answer it would have given. -/
theorem Parser.Attended.of_error {α β : Type} {e : RecognitionException}
    (h : Attended x p (.error e : Except RecognitionException α) q) :
    Attended x p (.error e : Except RecognitionException β) q := by
  obtain ⟨vs, rs, hstep, hanchor, hsettled⟩ := h
  exact ⟨vs, rs, hstep, fun _ he => hanchor _ (congrArg _ (Except.error.inj he)), hsettled⟩

/-- What is matched instead of the current token leaves an error leaf before it. -/
theorem Parser.Matched.attended {ty : TokenType} {follow : TokenSet}
    {o : Except RecognitionException Token} (hp : Ready x p) (h : Matched x p ty follow q o) :
    Attended x p o q := by
  cases h with
  | here type step => exact step.attended _
  | dropped type next rs heard step =>
      exact ⟨_, rs, step, (by rintro _ ⟨⟩), .of_leaf hp.standing.le_size heard fun _ h => h.anchor⟩
  | madeUp type t _ _ _ rs heard step =>
      exact ⟨_, rs, step, (by rintro _ ⟨⟩), .of_leaf hp.standing.le_size heard fun _ h => h.anchor⟩
  | failed type e failed => exact failed.attended

/-- **A guard that attends to its callers** does not leave a token to them that it has reported. -/
theorem Parser.Guarded.attended {set : TokenSet} (hp : Ready x p)
    (hanchoring : p.strategy.anchoring = true) (h : Guarded x p set q)
    (hset : (Operation.sync set).Attends p.follow) : Attended x p (.ok ()) q := by
  cases h with
  | «open» step => exact step.attended ()
  | passed free type vs rs step inRecovery heard leads =>
      obtain ⟨ws, rfl⟩ := leads
      exact ⟨_, rs, step, (by rintro _ ⟨⟩), .of_leaf hp.standing.le_size heard fun _ h => h.anchor⟩
  | stayed free type rs step index inRecovery heard caller closed =>
      -- the token has been left to a caller, so that the guard would have let it through
      obtain ⟨hlt, hcaller⟩ := caller hanchoring
      have heof : x.type p.index ≠ .eof := fun h => by
        have := x.type_eq_eof_iff.mp h
        omega
      rcases hset with hset | hset
      · rw [closed] at hset
        cases hset
      · have := hset _ heof hcaller
        rw [type] at this
        cases this

/-- An operation leaves something in the tree for each of its reports. -/
theorem Operation.Attends.runs {β : Type} {op : Operation β} (h : op.Attends p.follow)
    (hp : Ready x p) (hanchoring : p.strategy.anchoring = true) :
    Runs op.run p (fun _ => True) (Attended x p) := by
  -- what is reported is at the place of a leaf; only a guard needs to know what may follow for that
  cases op with
  | ahead k =>
      refine (runs_ahead (.standing hp.standing) trivial k).mono ?_
      rintro _ _ ⟨rfl, s, hs, rfl⟩
      exact (hp.reread hs).attended _
  | expect ty follow =>
      exact (runs_expect hp trivial ty follow fun _ _ _ _ => trivial).mono fun _ _ hq => hq.attended hp
  | consume =>
      refine (runs_consume hp trivial).mono ?_
      rintro _ q ⟨rfl, hstep, -⟩
      exact hstep.attended _
  | sync expecting =>
      refine (runs_sync hp trivial expecting fun _ _ _ _ => trivial).mono ?_
      rintro _ q ⟨rfl, hq⟩
      exact hq.attended hp hanchoring h
  | require holds text =>
      refine (runs_require hp trivial holds text).mono ?_
      rintro _ q (⟨rfl, -, rfl⟩ | ⟨e, rfl, hfailed, -⟩)
      · exact hp.refl.attended _
      · exact hfailed.attended
  | noViableAlt depth =>
      refine (runs_raiseNoViableAlt hp trivial depth).mono ?_
      rintro _ q ⟨e, rfl, hfailed, -⟩
      exact hfailed.attended
  | mismatch expected =>
      refine (runs_raiseMismatch hp trivial expected).mono ?_
      rintro _ q ⟨e, rfl, hfailed, -⟩
      exact hfailed.attended

/-- What comes after an action whose reports are settled, inside the same invocations. -/
theorem Parser.Attended.runs_next {α β : Type} {o : Except RecognitionException β}
    {next : ParserM σ α} (hplain : x.Plain) (hp : Ready x p)
    (hanchoring : p.strategy.anchoring = true) (h : Attended x p o q)
    (hnext : Ready x q → q.strategy.anchoring = true → q.follow = p.follow →
      Runs next q (fun _ => True) (Attended x q)) :
    Runs next q (fun _ => True) (Attended x p) := by
  obtain ⟨vs, rs, hstep, -, hsettled⟩ := h
  have hstrategy : q.strategy = p.strategy := congrArg Situation.strategy hstep.situation
  have hfollow : q.follow = p.follow := congrArg Situation.follow hstep.situation
  refine (hnext (hstep.ready hp) (by rw [hstrategy]; exact hanchoring) hfollow).mono ?_
  exact fun _ _ hr => hr.after hplain hstep hsettled

/-- **A recognizer whose guards attend to their callers leaves something in the tree for each of its reports.** -/
theorem Recognizer.Attends.runs {α : Type} {e : Recognizer α} (h : e.Attends p.follow)
    (hplain : x.Plain) (hp : Ready x p) (hanchoring : p.strategy.anchoring = true) :
    Runs e.run p (fun _ => True) (Attended x p) := by
  induction e generalizing p with
  | pure a => exact hp.refl.attended a
  | outOfSteps => trivial
  | step op next ih =>
      refine (h.1.runs hp hanchoring).bind ?_ fun e q hq => hq.of_error
      intro b q hq
      exact hq.runs_next hplain hp hanchoring fun hready hanchoring hfollow =>
        ih b (hfollow ▸ h.2 b) hready hanchoring
  | direct d next ih => exact h.elim
  | rule r body next ihbody ihnext =>
      refine (runs_rule hp trivial (fun o vs rs _ => ∀ a, o = .ok a → Settled x p.index vs rs)
        fun p₁ h₁ => ?_).bind ?_ (by rintro e q ⟨⟨⟩, -⟩)
      · -- the body runs inside the same invocations as the rule
        have hfollow : p₁.follow = p.follow := congrArg Situation.follow h₁.situation
        have hstrategy : p₁.strategy = p.strategy := congrArg Situation.strategy h₁.situation
        refine (ihbody () (hfollow ▸ h.1) h₁.ready (hstrategy ▸ hanchoring)).mono ?_
        rintro o q ⟨vs, rs, hstep, hanchor, hsettled⟩
        rw [h₁.index] at hsettled
        exact ⟨vs, rs, hstep, fun _ _ => hsettled, hanchor, trivial, fun _ _ _ _ _ => trivial⟩
      · rintro u q ⟨-, node, vs, rs, rfl, hstep, hend⟩
        have hindex := hstep.index_eq hplain
        rw [View.read_rule] at hindex
        have hruled : Attended x p (.ok u) q := ⟨_, rs, hstep, (by rintro _ ⟨⟩),
          settled_ruleEnd hindex hstep.standing.le_size hstep.anchored hend⟩
        exact hruled.runs_next hplain hp hanchoring fun hready hanchoring hfollow =>
          ihnext u (hfollow ▸ h.2 u) hready hanchoring
  | invoke set body next ihbody ihnext =>
      refine (runs_invoke (ihbody () h.1 (hp.invoked set) hanchoring)).bind ?_ ?_
      · rintro b _ ⟨q, ⟨vs, rs, hbody, -, hsettled⟩, rfl⟩
        have hinvoked : Attended x p (.ok b) { q with follow := q.follow.tail } :=
          ⟨vs, rs, hbody.of_invoke, (by rintro _ ⟨⟩), hsettled⟩
        exact hinvoked.runs_next hplain hp hanchoring fun hready hanchoring hfollow =>
          ihnext b (hfollow ▸ h.2 b) hready hanchoring
      · rintro e _ ⟨q, ⟨vs, rs, hbody, hanchor, hsettled⟩, rfl⟩
        exact ⟨vs, rs, hbody.of_invoke,
          fun _ he => hanchor _ (congrArg _ (Except.error.inj he)), hsettled⟩
  | speculate body next ihbody ihnext =>
      -- a trial reports nothing and takes back what it has read
      refine (runs_speculate hp.standing trivial (fun _ => True) fun p₁ hp₁ _ _ =>
        (h.1.runs_trying hp₁ trivial).mono fun _ _ hq => ⟨hq, trivial⟩).bind ?_ ?_
      · rintro b _ ⟨_, s, n, -, hs, hn, rfl, -⟩
        exact ((hp.aside hs p.recovery hn (k := p.syntaxErrors)).attended b).runs_next hplain hp
          hanchoring fun hready hanchoring hfollow => ihnext b (hfollow ▸ h.2 b) hready hanchoring
      · rintro e _ ⟨_, _, _, ⟨⟩, -⟩
  | attempt body next ihbody ihnext =>
      refine (runs_attempt (ihbody () h.1 hp hanchoring)).bind ?_ (by rintro e q ⟨_, ⟨⟩, -⟩)
      rintro b q ⟨_, -, hq⟩
      exact hq.runs_next hplain hp hanchoring fun hready hanchoring hfollow =>
        ihnext b (hfollow ▸ h.2 b) hready hanchoring

/-- **A whole parse by such a recognizer settles its reports.** -/
theorem Recognizer.AttendsRule.runs {e : Recognizer Unit} (h : e.AttendsRule) (hp : Fresh x p)
    (hplain : x.Plain) : Runs e.run p (fun _ => True) fun o q => o = .ok () ∧
      ∃ node vs, Whole x q node vs ∧ Settled x 0 [.rule node vs] q.reports := by
  obtain ⟨r, body, rfl, hbody⟩ := h
  rw [run_rule_pure]
  refine (runs_rule_settled hp hplain fun p₁ h₁ => ?_)
  have hfollow : p₁.follow = [] :=
    (congrArg Situation.follow h₁.situation).trans hp.follow
  have hstrategy : p₁.strategy = .anchored :=
    (congrArg Situation.strategy h₁.situation).trans hp.strategy
  rw [← hfollow] at hbody
  refine (hbody.runs hplain h₁.ready (by rw [hstrategy]; rfl)).mono ?_
  rintro o q ⟨vs, rs, hstep, hanchor, hsettled⟩
  exact ⟨vs, rs, hstep, hanchor, fun _ _ => hsettled⟩

end

/-! ## Errors in the host tree -/

/-- The errors that are collected in a projection. -/
def Projection.errors {τ : Type} (p : Projection τ) : Array SyntaxError :=
  (ErrorCollector.ofReports (p.journal.filterMap Note.report?)).errors

namespace Session

variable {β τ : Type} [TreeBuilder β τ] [CursorBuilder β]

/-- What a projection that succeeds has written down is what its recognizer has. -/
theorem Projected.reports {s : Session} {g : Grammar} {entry : RuleIndex} {root : Kind}
    {host : Supervised β} {tree : τ} {q : Parser (Supervised β)} {r : RuleNode} {vs : List View}
    (h : s.Projected g entry root host tree q r vs) :
    (s.project (τ := τ) g entry root host).1.journal.filterMap Note.report? = q.reports := by
  have hrun := h.run
  rw [journal_project h.valid]
  simp only [runRecognizer, host.remaining_mark, hrun]
  rfl

/-- **A settled projection has an error element for each error**, around the place where it is anchored. -/
theorem Projected.exists_covers {s : Session} {g : Grammar} {entry : RuleIndex} {root : Kind}
    {h : HostText} {host : Supervised β} {tree : τ} {q : Parser (Supervised β)} {r : RuleNode}
    {vs : List View} (hprojected : s.Projected g entry root host tree q r vs)
    (hcursor : host.cursor = .ofText h g.language)
    (htexts : ∀ t ∈ h.tokens, 0 < t.text.utf8ByteSize)
    (hruns : (s.parser g.language host.mark.2).Fresh (host.cursor.tape host.elements) →
      Runs (g.entry (stepsFor (TreeBuilder.remaining host.builder)) entry).run
        (s.parser g.language host.mark.2) (fun _ => True) fun o q => o = .ok () ∧ ∃ node vs,
          q.Whole (host.cursor.tape host.elements) node vs ∧
          Parser.Settled (host.cursor.tape host.elements) 0 [.rule node vs] q.reports)
    {e : SyntaxError} (he : e ∈ (ErrorCollector.ofReports q.reports).errors) :
    ∃ a, a ≤ (h.significant g.language).length ∧
      e.offending = (host.cursor.tape host.elements).token a ∧
      Outline.CoversAny a 0 (Outline.ofView host.elements (.ofReports q.reports) [] (.rule r vs)).1 := by
  have hplain := HostCursor.plain_tape host.elements host.cursor
  have hdistinct : (host.cursor.tape host.elements).Distinct := by
    rw [hcursor]
    refine HostCursor.distinct_tape _ fun t ht => htexts t.toHostToken ?_
    rw [← HostText.map_toHostToken_placeFrom 0 0 h.tokens]
    exact List.mem_map_of_mem (List.mem_filter.mp ht).1
  have hsize : (host.cursor.tape host.elements).size = (h.significant g.language).length := by
    rw [hcursor]
    exact HostCursor.size_tape_ofText
  have hfresh := s.parser_fresh g.language host.mark.2 (by rw [host.cursor_mark, hcursor]; rfl)
  have helements : host.mark.2.elements = host.elements := rfl
  rw [host.cursor_mark, helements] at hfresh
  obtain ⟨-, node, ws, hwhole, hsettled⟩ := Ends.of_ok (hruns hfresh) hprojected.run
  -- both views are of one tree
  have hsame : View.rule node ws = View.rule r vs :=
    Option.some.inj (hwhole.view.symm.trans hprojected.whole.view)
  obtain ⟨rfl, rfl⟩ := View.rule.inj hsame
  have hwalk := hwhole.walk
  rw [hplain.stop, Nat.zero_min] at hwalk
  obtain ⟨a, ha, hoffending, hcovers⟩ := Outline.coversAny_of_settled (v := .rule node ws) hplain
    hdistinct hwalk hsettled host.elements he
  exact ⟨a, hsize ▸ ha, hoffending, hcovers⟩

/-- **A projection whose outline has an error element** ends in a tree that has one. -/
theorem Projected.errors_ne_nil {s : Session} {g : Grammar} {entry : RuleIndex} {root : Kind}
    {h : HostText} {host : Supervised GreenBuilder} {tree : HostTree}
    {q : Parser (Supervised GreenBuilder)} {r : RuleNode} {vs : List View} {a : Nat}
    (hprojected : s.Projected g entry root host tree q r vs)
    (hbuilder : host.builder = .ofText h g.language)
    (hcovers : Outline.CoversAny a 0
      (Outline.ofView host.elements (.ofReports q.reports) [] (.rule r vs)).1) :
    tree.errors ≠ [] := by
  obtain ⟨b, hbuild, hfinish, hin, hlen⟩ := hprojected.carried hbuilder rfl
  have hmessages := (GreenBuilder.finish_build hbuild hfinish hin hlen).2.2
  intro hnil
  rw [hnil, List.map_nil] at hmessages
  exact Outline.messagesOf_ne_nil ((Outline.coversAny_append _ _).mpr (.inl hcovers)) hmessages.symm

/-- **Errors show in the host tree.** If every guard of the recognizer attends to its callers, then a projection that
succeeds and has collected an error has an error element. -/
theorem project_shows_errors {s : Session} {g : Grammar} {entry : RuleIndex} {root : Kind}
    {h : HostText} {host : Supervised GreenBuilder} {tree : HostTree}
    (hbuilder : host.builder = .ofText h g.language)
    (htexts : ∀ t ∈ h.tokens, 0 < t.text.utf8ByteSize)
    (hrule : ∀ tokens, (g.entry (stepsFor tokens) entry).AttendsRule)
    (hok : (s.project g entry root host).1.outcome = .ok tree)
    (herrors : (s.project (τ := HostTree) g entry root host).1.errors ≠ #[]) :
    tree.hasErrors = true := by
  have hcursor : host.cursor = .ofText h g.language := congrArg CursorBuilder.cursor hbuilder
  obtain ⟨q, r, vs, hprojected⟩ := projected (hrule _).ordinaryRule (by rw [hcursor]; rfl) hok
  rw [Projection.errors, hprojected.reports] at herrors
  obtain ⟨e, he⟩ := Array.exists_mem_of_ne_empty _ herrors
  have hplain := HostCursor.plain_tape host.elements host.cursor
  obtain ⟨a, -, -, hcovers⟩ := hprojected.exists_covers hcursor htexts
    (fun hfresh => (hrule _).runs hfresh hplain) he
  have hne := hprojected.errors_ne_nil hbuilder hcovers
  rw [HostTree.hasErrors, Bool.not_eq_true', List.isEmpty_eq_false_iff]
  exact hne

end Session

/-! ## Guards that do and do not attend to their caller -/

namespace Unattended

/-- A language of two token types and two rules. -/
def language : Language where
  name := "guarded"
  vocabulary := .ofNames [] [none, some "B", some "C"]
  rules := #[("main", ⟨0⟩), ("item", ⟨1⟩)]
  elements := ⟨3, 2⟩

/-- The first rule invokes the second one, which may be followed by a `B`, and then matches a `B`.  All that the
second rule does is to guard a loop by a set. -/
def grammar (guard : TokenSet) : Grammar where
  language := language
  entry _ _ := .asRule ⟨0⟩ fun _ =>
    (Recognizer.within (.single ⟨1⟩) fun _ => .asRule ⟨1⟩ fun _ => .sync guard).bind fun _ =>
      .expect ⟨1⟩ ∅

/-- A source in that language. -/
def host (tokens : List HostToken) : Supervised GreenBuilder where
  builder := .ofText ⟨tokens, ""⟩ language
  elements := language.elements

/-- What is run over the tokens with a guard. -/
def project (guard : TokenSet) (tokens : List HostToken) : Projection HostTree :=
  (({} : Session).project (grammar guard) ⟨0⟩ .file (host tokens)).1

/-- Whatever the guard is, the operations are those of a grammar. -/
theorem ordinaryRule_entry (guard : TokenSet) (steps : Nat) (r : RuleIndex) :
    ((grammar guard).entry steps r).OrdinaryRule := by
  apply Recognizer.ordinaryRule_asRule
  refine Recognizer.Ordinary.bind ?_ fun _ => Recognizer.ordinary_expect _ _
  exact Recognizer.ordinary_within (Recognizer.ordinary_asRule (Recognizer.ordinary_perform _))

/-- If the guard lets a `B` through, it attends to its caller. -/
theorem attendsRule_entry {guard : TokenSet} (h : guard.contains ⟨1⟩ = true) (steps : Nat)
    (r : RuleIndex) : ((grammar guard).entry steps r).AttendsRule := by
  have hguard : (Operation.sync guard).Attends [.single ⟨1⟩] := by
    refine .inr fun ty hne hcaller => ?_
    have hcallers : (TokenSet.ofCallers [.single ⟨1⟩]).contains ty = (ty == .eof || ty == ⟨1⟩) := by
      simp only [TokenSet.ofCallers, List.foldr_cons, List.foldr_nil, TokenSet.contains_union,
        TokenSet.contains_withoutEndOfRule]
      rw [TokenSet.contains_single (.inl rfl), TokenSet.contains_single (by decide)]
    have hty : ty = ⟨1⟩ := by
      rw [hcallers] at hcaller
      simpa [hne] using hcaller
    rwa [hty]
  exact ⟨⟨0⟩, _, rfl, ⟨⟨hguard, fun _ => trivial⟩, fun _ => trivial⟩, fun _ => ⟨trivial, fun _ => trivial⟩⟩

/-- **A guard that passes over what its caller goes on with hides an error.** A guard of `C`s reports the `B` and leaves
it to the first rule, which matches it: an error has been collected, but the tree has no error element. -/
theorem project_hides_error :
    (∀ steps r, ((grammar (.single ⟨2⟩)).entry steps r).OrdinaryRule) ∧
    ∃ tree, (project (.single ⟨2⟩) [⟨3, "b"⟩]).outcome = .ok tree ∧
      (project (.single ⟨2⟩) [⟨3, "b"⟩]).errors.size = 1 ∧ tree.hasErrors = false := by
  have hrun : ∃ tree, (project (.single ⟨2⟩) [⟨3, "b"⟩]).outcome = .ok tree ∧ tree.hasErrors = false := by
    decide +kernel
  obtain ⟨tree, hok, hclean⟩ := hrun
  exact ⟨ordinaryRule_entry _, tree, hok, by decide +kernel, hclean⟩

/-- With a guard that lets the `B` through, the error at a `C` before it shows. -/
theorem project_shows_errors_call : ∃ tree,
    (project (.ofList [⟨1⟩, ⟨2⟩]) [⟨4, "c"⟩, ⟨3, "b"⟩]).outcome = .ok tree ∧
      (∀ steps r, ((grammar (.ofList [⟨1⟩, ⟨2⟩])).entry steps r).AttendsRule) ∧
      (project (.ofList [⟨1⟩, ⟨2⟩]) [⟨4, "c"⟩, ⟨3, "b"⟩]).errors ≠ #[] ∧ tree.hasErrors = true := by
  have hattends : ∀ steps r, ((grammar (.ofList [⟨1⟩, ⟨2⟩])).entry steps r).AttendsRule :=
    attendsRule_entry (by decide)
  have herrors : (project (.ofList [⟨1⟩, ⟨2⟩]) [⟨4, "c"⟩, ⟨3, "b"⟩]).errors ≠ #[] := by
    decide +kernel
  have hrun : ∃ tree, (project (.ofList [⟨1⟩, ⟨2⟩]) [⟨4, "c"⟩, ⟨3, "b"⟩]).outcome = .ok tree := by
    decide +kernel
  obtain ⟨tree, houtcome⟩ := hrun
  have htexts : ∀ t ∈ [⟨4, "c"⟩, (⟨3, "b"⟩ : HostToken)], 0 < t.text.utf8ByteSize := by
    decide +kernel
  have hshows := @Session.project_shows_errors {} (grammar (.ofList [⟨1⟩, ⟨2⟩])) ⟨0⟩ .file
    ⟨[⟨4, "c"⟩, ⟨3, "b"⟩], ""⟩ (host [⟨4, "c"⟩, ⟨3, "b"⟩]) tree rfl htexts
    fun tokens => hattends _ _
  refine ⟨tree, houtcome, hattends, herrors, ?_⟩
  unfold project at houtcome herrors
  exact hshows houtcome herrors

end Unattended

end TreeProjection
