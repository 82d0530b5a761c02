import TreeProjection.Proofs.Course
import TreeProjection.Proofs.Fates

/-! # The moments at which recovery acts

A parse matches tokens, guards its loops, and recovers from the failures of its rules.  These are the moments at which
recovery does something or forgets what it has done, and each is told by the state that the parser is in.  Between two of
them recovery keeps in mind what it did, and the input does not go back: whatever a recognizer tries in between leaves no
trace.

* `Moment`, `Recognizer.moments` — the moments of a run, in order.
* `Recognizer.Ordinary.moments_trying` — there are none on trial.
* `Parser.History` — how a parse has come from one state to another, by way of moments.
* `Recognizer.Ordinary.recounted`, `Recognizer.OrdinaryRule.recounted` — a run comes to each of its moments by way of
  those before it. -/

namespace TreeProjection

open ParseNode (View)
open TreeProjection.Parser

variable {σ α β : Type}

/-- **A moment of a run**, with the state that the parser is in. -/
inductive Moment (σ : Type) where
  /-- A token is about to be matched. -/
  | matching (p : Parser σ)
  /-- A loop is about to be guarded. -/
  | guarding (expecting : TokenSet) (p : Parser σ)
  /-- A rule is about to recover from its failure, which has been reported. -/
  | recovering (e : RecognitionException) (p : Parser σ)

/-- The state that the parser is in. -/
def Moment.state : Moment σ → Parser σ
  | matching p => p
  | guarding _ p => p
  | recovering _ p => p

/-- Whether a token is about to be matched. -/
def Moment.isMatching : Moment σ → Bool
  | matching _ => true
  | _ => false

/-- The current token, once it has been taken from the source. -/
def Stream.current? (s : Stream σ) : Option Token := s.buffer[s.cursor]?

/-- Note the failure of a rule's body on the rule's node and report it. -/
def Parser.announce (e : RecognitionException) : ParserM σ Unit := do
  modify fun p =>
    match p.currentNode? with
    | some node => { p with tree := p.tree.modifyRule node fun r => { r with exception := some e } }
    | none => p
  reportError e

variable [TokenSource σ]

/-- A failure is announced, and then the rule recovers. -/
theorem Parser.handleRecognition_eq (e : RecognitionException) :
    (handleRecognition e : ParserM σ Unit) = announce e >>= fun _ => recover e := rfl

/-- The moments of an operation.  A token is matched if it is one of the input that is the answer. -/
def Operation.moments (op : Operation β) (p : Parser σ) : List (Moment σ) :=
  match op with
  | .expect ty follow =>
    if p.isSpeculating then []
    else onward (Parser.expect ty follow) p fun t _ => if t.isConjured then [] else [.matching p]
  | .sync expecting => if p.isSpeculating then [] else [.guarding expecting p]
  | _ => []

/-- The moment at which a rule recovers, if its body fails. -/
def Parser.failures (body : ParserM σ Unit) (p : Parser σ) : List (Moment σ) :=
  match body p with
  | .error (.recognition e) q =>
    if q.isSpeculating then [] else onward (announce e) q fun _ s => [.recovering e s]
  | _ => []

/-- **The moments of a run**, one after the other. -/
def Recognizer.moments {α : Type} : Recognizer α → Parser σ → List (Moment σ)
  | .pure _, _ => []
  | .outOfSteps, _ => []
  | .step op next, p => op.moments p ++ onward op.run p fun b q => (next b).moments q
  | .direct d next, p => onward d.run p fun b q => (next b).moments q
  | .rule r body next, p =>
    (onward (Parser.enterRule r) p fun _ p₁ => (body ()).moments p₁ ++ failures (body ()).run p₁) ++
    onward (Parser.rule r (body ()).run) p fun u q => (next u).moments q
  | .invoke follow body next, p =>
    (body ()).moments { p with follow := follow :: p.follow } ++
    onward (Parser.invoke follow (body ()).run) p fun b q => (next b).moments q
  | .speculate body next, p =>
    (onward (Parser.ahead 1) p fun _ q => (body ()).moments { q with speculating := q.speculating + 1 }) ++
    onward (Parser.speculate (body ()).run) p fun b q => (next b).moments q
  | .attempt body next, p =>
    (body ()).moments p ++ onward (Parser.attempt (body ()).run) p fun b q => (next b).moments q

/-- The current token of a stream at a place is the one of the tape. -/
theorem Stream.Standing.current?_eq {x : Tape} {s : Stream σ} {i : Nat} (h : s.Standing x i) :
    s.current? = some (x.token i) := by
  rw [Stream.current?, h.cursor]
  exact h.reads.get i h.lt_size

/-! ## No moments on trial -/

omit [TokenSource σ] in
/-- Nothing comes of an action if nothing comes of any answer. -/
theorem Parser.onward_eq_nil {γ : Type} {act : ParserM σ α} {p : Parser σ} {f : α → Parser σ → List γ}
    (h : Answers act p fun a q => f a q = []) : onward act p f = [] := by
  unfold onward
  unfold Answers Ends at h
  cases hact : act p with
  | ok a q =>
      rw [hact] at h
      exact h a rfl
  | error i q => rfl

omit [TokenSource σ] in
/-- Nothing comes of an idle action on trial, if nothing comes of any answer on trial. -/
theorem Parser.onward_trying {γ : Type} {act : ParserM σ α} {p : Parser σ} {f : α → Parser σ → List γ}
    (hp : p.isSpeculating = true) (hact : Ends act p fun _ q => p.Idle q)
    (hf : ∀ a q, q.isSpeculating = true → f a q = []) : onward act p f = [] :=
  onward_eq_nil (hact.mono fun _ _ hq a _ => hf a _ (hq.isSpeculating.trans hp))

omit [TokenSource σ] in
/-- No rule recovers on trial. -/
theorem Parser.failures_trying {body : ParserM σ Unit} {p : Parser σ} (hp : p.isSpeculating = true)
    (hbody : Ends body p fun _ q => p.Idle q) : failures body p = [] := by
  unfold failures
  cases hrun : body p with
  | ok u q => rfl
  | error i q =>
      cases i with
      | abort _ => rfl
      | recognition e => exact if_pos ((hbody.of_error hrun).isSpeculating.trans hp)

/-- An operation on trial has no moments. -/
theorem Operation.moments_trying (op : Operation β) {p : Parser σ} (hp : p.isSpeculating = true) : op.moments p = [] := by
  cases op with
  | expect ty follow => exact if_pos hp
  | sync expecting => exact if_pos hp
  | _ => rfl

/-- **There are no moments on trial.** -/
theorem Recognizer.Ordinary.moments_trying {p : Parser σ} {r : Recognizer α} (h : r.Ordinary)
    (hp : p.isSpeculating = true) : r.moments p = [] := by
  -- induction on the recognizer: what is idle is on trial again, and an empty list is added each time
  induction r generalizing p with
  | pure a => rfl
  | outOfSteps => rfl
  | step op next ih =>
      rw [Recognizer.moments, onward_trying hp (op.ends_trying hp) fun b q hq => ih b (h b) hq,
        op.moments_trying hp, List.append_nil]
  | direct d next ih => exact h.elim
  | rule r body next ihbody ihnext =>
      have hbody : ∀ q : Parser σ, q.isSpeculating = true → Ends (body ()).run q fun _ q' => q.Idle q' :=
        fun q hq => h.1.ends_idle hq
      have hinside : ∀ (_ : Unit) (q : Parser σ), q.isSpeculating = true →
          (body ()).moments q ++ failures (body ()).run q = [] := fun _ q hq => by
        rw [ihbody () h.1 hq, failures_trying hq (hbody q hq), List.append_nil]
      rw [Recognizer.moments, onward_trying hp ((ends_enterRule_idle r p).mono fun _ _ hq => hq.1) hinside,
        onward_trying hp (ends_rule_trying hbody hp) fun u q hq => ihnext u (h.2 u) hq, List.append_nil]
  | invoke follow body next ihbody ihnext =>
      have hinvoked : ({ p with follow := follow :: p.follow } : Parser σ).isSpeculating = true := hp
      rw [Recognizer.moments, ihbody () h.1 hinvoked,
        onward_trying hp (ends_invoke_idle (h.1.ends_idle hinvoked)) fun b q hq => ihnext b (h.2 b) hq,
        List.append_nil]
  | speculate body next ihbody ihnext =>
      have hbody : ∀ q : Parser σ, q.isSpeculating = true → Ends (body ()).run q fun _ q' => q.Idle q' :=
        fun q hq => h.1.ends_idle hq
      have hinside : ∀ (_ : Token) (q : Parser σ), q.isSpeculating = true →
          (body ()).moments { q with speculating := q.speculating + 1 } = [] :=
        fun _ q _ => ihbody () h.1 (by simp [isSpeculating])
      rw [Recognizer.moments, onward_trying hp ((ends_ahead_idle 1 p).mono fun _ _ hq => hq.1) hinside,
        onward_trying hp ((ends_speculate_idle hbody p).mono fun _ _ hq => hq.1) fun b q hq => ihnext b (h.2 b) hq,
        List.append_nil]
  | attempt body next ihbody ihnext =>
      rw [Recognizer.moments, ihbody () h.1 hp,
        onward_trying hp (ends_attempt_idle (h.1.ends_idle hp)) fun b q hq => ihnext b (h.2 b) hq,
        List.append_nil]

/-! ## From one moment to the next -/

namespace Parser

variable {x : Tape} {p p₁ q r : Parser σ}

/-- **Recovery keeps in mind what it did**, and the input has not gone back. -/
structure Quiet (p q : Parser σ) : Prop where
  /-- The input has not gone back. -/
  index_le : p.index ≤ q.index
  /-- The place where a rule recovered last is the same. -/
  lastErrorIndex : q.recovery.lastErrorIndex = p.recovery.lastErrorIndex
  /-- The rules that have recovered are the same. -/
  lastErrorRules : q.recovery.lastErrorRules = p.recovery.lastErrorRules

namespace Quiet

omit [TokenSource σ] in
/-- Nothing has happened. -/
theorem refl (p : Parser σ) : Quiet p p := ⟨Nat.le_refl _, rfl, rfl⟩

omit [TokenSource σ] in
/-- First one quiet stretch, then another. -/
theorem trans (h : Quiet p q) (h' : Quiet q r) : Quiet p r :=
  ⟨Nat.le_trans h.index_le h'.index_le, h'.lastErrorIndex.trans h.lastErrorIndex,
    h'.lastErrorRules.trans h.lastErrorRules⟩

omit [TokenSource σ] in
/-- Whether reports are held back makes no difference. -/
theorem of_recovery (hindex : p.index ≤ q.index)
    (h : q.recovery = p.recovery ∨ q.recovery = { p.recovery with inRecovery := true }) : Quiet p q := by
  rcases h with h | h
  · exact ⟨hindex, by rw [h], by rw [h]⟩
  · exact ⟨hindex, by rw [h], by rw [h]⟩

end Quiet

/-- **What has happened at a moment** once it is over. -/
inductive Happens (x : Tape) : Moment σ → Parser σ → Prop where
  /-- A token has been matched, and recovery has forgotten what it did. -/
  | matching {p q : Parser σ} (index_le : p.index ≤ q.index) (recovery : q.recovery = {}) : Happens x (.matching p) q
  /-- A loop has been guarded. -/
  | guarding {expecting : TokenSet} {p q : Parser σ} (quiet : Quiet p q) : Happens x (.guarding expecting p) q
  /-- A rule has recovered. -/
  | recovering {e : RecognitionException} {p q : Parser σ} (ran : recover e p = .ok () q) (r : RuleIndex)
    (rule : p.currentRule? = some r) (given ts : List Token) (recovered : Recovered x r p given ts q) :
    Happens x (.recovering e p) q

/-- **How a parse has come from one state to another**, by way of moments. -/
inductive History (x : Tape) : Parser σ → List (Moment σ) → Parser σ → Prop where
  /-- There were none. -/
  | nil {p q : Parser σ} (quiet : Quiet p q) : History x p [] q
  /-- There was one, and then there were others. -/
  | cons {p q r : Parser σ} {m : Moment σ} {ms : List (Moment σ)} (before : Quiet p m.state) (happens : Happens x m q)
    (rest : History x q ms r) : History x p (m :: ms) r

/-- The input has not gone back. -/
theorem Happens.index_le {m : Moment σ} (h : Happens x m q) : m.state.index ≤ q.index := by
  cases h with
  | matching index_le => exact index_le
  | guarding quiet => exact quiet.index_le
  | recovering _ _ _ _ _ recovered => exact recovered.skipped.step.index_le

namespace History

variable {ms ms' : List (Moment σ)}

/-- The input has not gone back. -/
theorem index_le (h : History x p ms q) : p.index ≤ q.index := by
  induction h with
  | nil quiet => exact quiet.index_le
  | cons before happens _ ih => exact Nat.le_trans before.index_le (Nat.le_trans happens.index_le ih)

/-- It begins quietly. -/
theorem after_quiet (h : History x q ms r) (hquiet : Quiet p q) : History x p ms r := by
  cases h with
  | nil quiet => exact .nil (hquiet.trans quiet)
  | cons before happens rest => exact .cons (hquiet.trans before) happens rest

/-- First some moments, then others. -/
theorem append (h : History x p ms q) (h' : History x q ms' r) : History x p (ms ++ ms') r := by
  induction h with
  | nil quiet => exact h'.after_quiet quiet
  | cons before happens _ ih => exact .cons before happens (ih h')

/-- It ends quietly. -/
theorem before_quiet (h : History x p ms q) (hquiet : Quiet q r) : History x p ms r := by
  have hhistory := h.append (.nil hquiet)
  rwa [List.append_nil] at hhistory

/-- What has happened at a single moment. -/
theorem single {m : Moment σ} (h : Happens x m q) : History x m.state [m] q :=
  .cons (.refl _) h (.nil (.refl _))

end History

/-- **Whether a moment fits**: the parser is in a rule, and it is one that recovers only once its failure has been
reported. -/
def Fits (x : Tape) : Moment σ → Prop
  | .recovering _ p => Ready x p ∧ p.recovery.inRecovery = true ∧ ∃ r, p.currentRule? = some r
  | m => Ready x m.state

/-- **A parse comes to each of its moments by way of those before it.** -/
def Reaches (x : Tape) (p : Parser σ) (ms : List (Moment σ)) : Prop :=
  ∀ before m after, ms = before ++ m :: after → History x p before m.state ∧ Fits x m

namespace Reaches

variable {ms ms' : List (Moment σ)}

/-- There are no moments. -/
theorem nil : Reaches x p [] := fun _ _ _ h => absurd h.symm (by simp)

/-- There is one moment. -/
theorem single {m : Moment σ} (hquiet : Quiet p m.state) (hfits : Fits x m) : Reaches x p [m] := by
  rintro before m' after h
  obtain ⟨rfl, rfl, -⟩ : before = [] ∧ m' = m ∧ after = [] := by
    cases before with
    | nil => simpa using h.symm
    | cons _ _ => simp at h
  exact ⟨.nil hquiet, hfits⟩

/-- First some moments, and then others that are come to by way of the first ones. -/
theorem append (h : Reaches x p ms)
    (h' : ∀ before m after, ms' = before ++ m :: after → History x p (ms ++ before) m.state ∧ Fits x m) :
    Reaches x p (ms ++ ms') := by
  intro before m after happend
  rcases List.append_eq_append_iff.mp happend with ⟨bs, rfl, hsecond⟩ | ⟨bs, hfirst, hsecond⟩
  · exact h' bs m after hsecond
  · cases bs with
    | nil =>
        rw [List.append_nil] at hfirst
        subst hfirst
        have hfound := h' [] m after hsecond.symm
        rwa [List.append_nil] at hfound
    | cons m' bs =>
        rw [List.cons_append, List.cons.injEq] at hsecond
        obtain ⟨rfl, -⟩ := hsecond
        exact h before m bs hfirst

/-- They are come to from before a quiet stretch. -/
theorem after_quiet (h : Reaches x q ms) (hquiet : Quiet p q) : Reaches x p ms := fun before m after hms =>
  (h before m after hms).imp_left fun hhistory => hhistory.after_quiet hquiet

/-- They are come to from before other moments. -/
theorem from_history (h : Reaches x q ms') (hhistory : History x p ms q) :
    ∀ before m after, ms' = before ++ m :: after → History x p (ms ++ before) m.state ∧ Fits x m :=
  fun before m after hms => (h before m after hms).imp_left hhistory.append

end Reaches

/-- **An action that comes by way of moments to where it ends**, unless it gives the parse up; and even then it has come
to each of its moments by way of those before it. -/
structure Recounted (x : Tape) (act : ParserM σ α) (p : Parser σ) (ms : List (Moment σ)) : Prop where
  /-- How it has come to its moments. -/
  reached : Reaches x p ms
  /-- How it has come to its end. -/
  ended : Runs act p (fun _ => True) fun _ q => History x p ms q

namespace Recounted

variable {act : ParserM σ α} {next : α → ParserM σ β} {ms : List (Moment σ)} {f : α → Parser σ → List (Moment σ)}

/-- A quiet action has no moments. -/
theorem quiet (h : Runs act p (fun _ => True) fun _ q => Quiet p q) : Recounted x act p [] :=
  ⟨.nil, h.mono fun _ _ hq => .nil hq⟩

/-- **One action after the other.** -/
theorem bind {mid : Except RecognitionException α → Parser σ → Prop} (h : Recounted x act p ms)
    (hmid : Runs act p (fun _ => True) mid) (hnext : ∀ a q, mid (.ok a) q → Recounted x (next a) q (f a q)) :
    Recounted x (act >>= next) p (ms ++ onward act p f) where
  reached := by
    refine h.reached.append ?_
    unfold onward
    cases hact : act p with
    | ok a q => exact (hnext a q (Ends.of_ok hmid hact)).reached.from_history (Ends.of_ok h.ended hact)
    | error i q => exact fun _ _ _ hms => absurd hms (by simp)
  ended := by
    refine (ran (h.ended.and hmid)).bind ?_ ?_
    · rintro a q ⟨⟨hhistory, hq⟩, hran⟩
      rw [hran.onward_ok]
      exact (hnext a q hq).ended.mono fun _ _ hr => hhistory.append hr
    · rintro e q ⟨⟨hhistory, -⟩, hran⟩
      rw [hran.onward_error, List.append_nil]
      exact hhistory

end Recounted

/-! ## Rules -/

/-- **Announcing a failure** adds a report and the exception. -/
theorem runs_announce (hp : Ready x p) {e : RecognitionException} (he : e.anchor = x.token p.index) {r : RuleIndex}
    (hr : p.currentRule? = some r) : Runs (announce e) p (fun _ => True) fun o q =>
      o = .ok () ∧ Quiet p q ∧ Fits x (.recovering e q) := by
  unfold announce
  obtain ⟨c, r₀, hc, hr₀⟩ := hp.inRule
  refine Runs.of_modify ?_
  simp only [hc]
  have hready : Ready x { p with tree := p.tree.modifyRule c fun r => { r with exception := some e } } :=
    ⟨hp.standing, hp.noted, hp.denied, hp.acting, c, _, hc, ParseTree.getElem?_modifyRule_self hr₀ _⟩
  refine (runs_reportError hready he).mono ?_
  rintro _ q ⟨rfl, rs, hreported⟩
  refine ⟨rfl, .of_recovery (Nat.le_of_eq hreported.index.symm) (.inr hreported.recovery),
    hreported.step.ready hready, hreported.inRecovery, r, ?_⟩
  simp only [currentRule?, hreported.step.frames] at hr ⊢
  exact hr

/-- **A rule recovers** once its failure has been reported. -/
theorem Fits.runs_recover {e : RecognitionException} (h : Fits x (.recovering e p)) :
    Runs (recover e) p (fun _ => True) fun o q => o = .ok () ∧ Happens x (.recovering e p) q := by
  obtain ⟨hp, hin, r, hr⟩ := h
  refine (ran (Parser.runs_recover hp trivial hin hr e)).mono ?_
  rintro _ q ⟨⟨rfl, given, ts, hrecovered⟩, hran⟩
  exact ⟨rfl, .recovering hran r hr given ts hrecovered⟩

/-- **Handling a failure**: it is announced, and then the rule recovers. -/
theorem recounted_handleRecognition (hp : Ready x p) {e : RecognitionException} (he : e.anchor = x.token p.index)
    {r : RuleIndex} (hr : p.currentRule? = some r) :
    Recounted x (handleRecognition e) p (onward (announce e) p fun _ s => [.recovering e s]) ∧
      Runs (handleRecognition e) p (fun _ => True) fun o _ => o = .ok () := by
  have hannounce := runs_announce hp he hr
  have hquiet : Recounted x (announce e) p [] := .quiet (hannounce.mono fun _ _ hq => hq.2.1)
  rw [handleRecognition_eq]
  refine ⟨hquiet.bind hannounce fun _ s hs => ⟨.single (.refl s) hs.2.2, ?_⟩, ?_⟩
  · exact hs.2.2.runs_recover.mono fun _ _ hq => .single (m := .recovering e s) hq.2
  · exact hannounce.bind (fun _ s hs => hs.2.2.runs_recover.mono fun _ _ hq => hq.1) (by rintro e q ⟨⟨⟩, -⟩)

/-- **Leaving a rule is quiet** if its body has not been given up. -/
theorem runs_leave_quiet (p : Parser σ) :
    Runs (do
      let exited ← observe exitRule
      release (.ok ())
      release exited) p (fun _ => True) fun _ q => Quiet p q := by
  have hexit : Runs exitRule p (fun _ => True) fun o q => o = .ok () ∧ Quiet p q := by
    refine Ends.mono (exitRule_retires p) fun o q hends => ?_
    cases hends with
    | outside => trivial
    | unmarked _ _ goes | marked _ _ goes =>
        obtain rfl | rfl := goes
        · exact ⟨rfl, Nat.le_refl _, rfl, rfl⟩
        · trivial
  exact hexit.of_observe (fun _ _ hq => hq.2) (by rintro e q ⟨⟨⟩, -⟩) fun _ _ _ => trivial

/-- **A rule after it has been entered.** Its body may fail, and then the rule recovers. -/
theorem recounted_ruleBody (hp : Ready x p) {r : RuleIndex} (hr : p.currentRule? = some r) {body : ParserM σ Unit}
    {ms : List (Moment σ)} (hacts : Runs body p (fun _ => True) (Acts x p)) (hbody : Recounted x body p ms) :
    Recounted x (do
      let outcome ← observe body
      let outcome ← match outcome with
        | .error (.recognition e) =>
          if (← get).isSpeculating then pure outcome else observe (handleRecognition e)
        | _ => pure outcome
      let exited ← observe exitRule
      release outcome
      release exited) p (ms ++ failures body p) := by
  -- a body that fails leaves the parser in the rule
  have hfailed : ∀ e q, Acts x p (.error e : Except RecognitionException Unit) q → q.isSpeculating = false ∧
      Recounted x (handleRecognition e) q (onward (announce e) q fun _ s => [.recovering e s]) ∧
        Runs (handleRecognition e) q (fun _ => True) fun o _ => o = .ok () := by
    rintro e q ⟨vs, rs, hstep, hanchor⟩
    have hready := hstep.ready hp
    have hrule : q.currentRule? = some r := by
      simp only [currentRule?, hstep.frames] at hr ⊢
      exact hr
    exact ⟨hready.isSpeculating,
      recounted_handleRecognition hready (hanchor e rfl) hrule⟩
  constructor
  · refine hbody.reached.append fun before m after hms => ?_
    unfold failures at hms
    cases hrun : body p with
    | ok u q => simp [hrun] at hms
    | error i q =>
        cases i with
        | abort a => simp [hrun] at hms
        | recognition e =>
            obtain ⟨hacting, hhandled, -⟩ := hfailed e q (Ends.of_error hacts hrun)
            simp only [hrun, hacting, Bool.false_eq_true, if_false] at hms
            exact hhandled.reached.from_history (Ends.of_error hbody.ended hrun) before m after hms
  · refine (ran (hbody.ended.and hacts)).of_observe ?_ ?_ ?_
    · rintro u q ⟨⟨hhistory, -⟩, hran⟩
      have hrun : body p = .ok u q := hran
      have hnone : failures body p = [] := by simp only [failures, hrun]
      rw [hnone, List.append_nil]
      exact Runs.mono (runs_leave_quiet q) fun _ _ hq => hhistory.before_quiet hq
    · rintro e q ⟨⟨hhistory, hq⟩, hran⟩
      have hrun : body p = .error (.recognition e) q := hran
      obtain ⟨hacting, hhandled, hanswers⟩ := hfailed e q hq
      have hone : failures body p = onward (announce e) q fun _ s => [.recovering e s] := by
        simp only [failures, hrun, hacting, Bool.false_eq_true, if_false]
      rw [hone]
      refine Runs.of_get ?_
      rw [if_neg (by simp [hacting])]
      refine (hhandled.ended.and hanswers).of_observe ?_ (by rintro e q ⟨-, ⟨⟩⟩) fun a s _ =>
        runs_leaveRule_of_abort trivial a
      rintro u s ⟨hrecovered, -⟩
      exact Runs.mono (runs_leave_quiet s) fun _ _ hs => hhistory.append (hrecovered.before_quiet hs)
    · exact fun a q _ => runs_leaveRule_of_abort trivial a

/-- **A rule**, wherever it is entered. -/
theorem recounted_rule {i : Nat} (h : p.input.Facing x i) (hle : p.index ≤ i) (hacting : p.speculating = 0)
    (hnoted : p.strategy.noted = false) (hdenied : p.strategy.denied = [])
    {r : RuleIndex} {body : ParserM σ Unit} {f : Parser σ → List (Moment σ)}
    (hacts : ∀ p₁, Ready x p₁ → Runs body p₁ (fun _ => True) (Acts x p₁))
    (hbody : ∀ p₁, Ready x p₁ → Recounted x body p₁ (f p₁)) :
    Recounted x (rule r body) p (onward (enterRule r) p fun _ p₁ => f p₁ ++ failures body p₁) := by
  have henter : Runs (enterRule r) p (fun _ => True) fun o q => o = .ok () ∧ Entered x i r p q :=
    runs_enterRule h hacting hnoted hdenied trivial r
  -- entering a rule only reads, so nothing comes between the moments before it and those of the body
  have hquiet : Recounted x (enterRule r) p [] := by
    refine .quiet (henter.mono ?_)
    rintro _ q ⟨-, hentered⟩
    exact .of_recovery (by rwa [hentered.index]) (.inl hentered.recovery)
  unfold rule
  refine hquiet.bind henter ?_
  rintro _ p₁ ⟨-, hentered⟩
  have hr : p₁.currentRule? = some r := by
    simp only [currentRule?, hentered.frames, List.head?_cons, Option.map_some]
  exact recounted_ruleBody hentered.ready hr (hacts p₁ hentered.ready) (hbody p₁ hentered.ready)

omit [TokenSource σ] in
/-- What may come after a body is no matter of recovery. -/
theorem Quiet.with_follow (p : Parser σ) (follow : List TokenSet) : Quiet p { p with follow } :=
  ⟨Nat.le_refl p.index, rfl, rfl⟩

/-- **Invoking a body.** -/
theorem recounted_invoke {follow : TokenSet} {body : ParserM σ α} {ms : List (Moment σ)}
    (h : Recounted x body { p with follow := follow :: p.follow } ms) : Recounted x (invoke follow body) p ms where
  reached := h.reached.after_quiet (.with_follow p _)
  ended := by
    refine (runs_invoke h.ended).mono ?_
    rintro _ _ ⟨q, hhistory, rfl⟩
    exact (hhistory.after_quiet (.with_follow p _)).before_quiet (.with_follow q _)

/-- **Running a body for its exception.** -/
theorem recounted_attempt {body : ParserM σ α} {ms : List (Moment σ)} (h : Recounted x body p ms) :
    Recounted x (attempt body) p ms where
  reached := h.reached
  ended := by
    refine (runs_attempt h.ended).mono ?_
    rintro _ q ⟨o, -, hhistory⟩
    exact hhistory

/-- **Matching a token** is a moment, unless the token has been made up. -/
theorem Matched.happens {ty : TokenType} {follow : TokenSet} {t : Token} (h : Matched x p ty follow q (.ok t))
    (ht : t.isConjured = false) : Happens x (.matching p) q := by
  cases h with
  | here type step index recovery => exact .matching step.index_le recovery
  | dropped type next rs heard step recovery => exact .matching step.index_le recovery
  | madeUp type t conjured => exact absurd (ht.symm.trans conjured) Bool.false_ne_true

/-- Nothing is forgotten where no token has been matched. -/
theorem Matched.quiet_of_conjured {ty : TokenType} {follow : TokenSet} {t : Token} (h : Matched x p ty follow q (.ok t))
    (ht : t.isConjured = true) : Quiet p q := by
  cases h with
  | here => exact absurd ((x.isConjured_token _).symm.trans ht) Bool.false_ne_true
  | dropped => exact absurd ((x.isConjured_token _).symm.trans ht) Bool.false_ne_true
  | madeUp type t conjured made viable rs heard step index recovery => exact .of_recovery step.index_le (.inr recovery)

/-- Nothing is forgotten by an action that has failed. -/
theorem Failed.quiet {e : RecognitionException} (h : Failed x p e q) : Quiet p q :=
  .of_recovery h.step.index_le (.inl h.recovery)

/-- Guarding a loop is quiet. -/
theorem runs_sync_quiet (hp : Ready x p) (expecting : TokenSet) :
    Runs (sync expecting) p (fun _ => True) fun _ q => Quiet p q := by
  refine runs_sync_of_syncHook hp ((runs_syncHook hp trivial expecting fun _ _ _ _ => trivial).mono ?_)
  rintro _ q ⟨rfl, ⟨-, hindex, hrecovery, -⟩ | ⟨-, -, -, q₀, rs, ts, hreported, hrecovery, hskipped, -⟩⟩
  · exact .of_recovery (Nat.le_of_eq hindex.symm) (.inl hrecovery)
  · refine .of_recovery ?_ (.inr (hrecovery.trans hreported.recovery))
    rw [← hreported.index]
    exact hskipped.skipped.step.index_le

end Parser

/-- **An operation** comes by way of its moments to where it ends. -/
theorem Operation.recounted {x : Tape} {p : Parser σ} (op : Operation β) (hp : Ready x p) :
    Recounted x op.run p (op.moments p) := by
  have hacting := hp.isSpeculating
  cases op with
  | ahead k =>
      refine .quiet ((runs_ahead (.standing hp.standing) trivial k).mono ?_)
      rintro _ _ ⟨-, s, hs, rfl⟩
      exact .of_recovery (hp.reread hs).index_le (.inl rfl)
  | expect ty follow =>
      simp only [Operation.moments, hacting, Bool.false_eq_true, if_false]
      have hexpect : Runs (Parser.expect ty follow) p (fun _ => True) fun o q => Matched x p ty follow q o :=
        runs_expect hp trivial ty follow fun _ _ _ _ => trivial
      refine ⟨?_, (ran hexpect).mono ?_⟩
      · unfold onward
        cases Parser.expect ty follow p with
        | error i q => exact .nil
        | ok t q =>
            simp only
            split
            · exact .nil
            · exact .single (.refl p) hp
      · rintro o q ⟨hmatched, hran⟩
        cases o with
        | error e =>
            rw [hran.onward_error]
            cases hmatched with
            | failed type e failed => exact .nil failed.quiet
        | ok t =>
            rw [hran.onward_ok]
            cases hconjured : t.isConjured with
            | true => exact .nil (hmatched.quiet_of_conjured hconjured)
            | false => exact .single (hmatched.happens hconjured)
  | consume =>
      refine .quiet ((runs_consume hp trivial).mono ?_)
      rintro _ q ⟨-, hstep, hrecovery, -⟩
      exact .of_recovery hstep.index_le (.inl hrecovery)
  | sync expecting =>
      simp only [Operation.moments, hacting, Bool.false_eq_true, if_false]
      refine ⟨.single (.refl p) hp, (runs_sync_quiet hp expecting).mono fun _ q hq => ?_⟩
      exact .single (m := .guarding expecting p) (.guarding hq)
  | require holds text =>
      refine .quiet ((runs_require hp trivial holds text).mono ?_)
      rintro _ q (⟨-, -, rfl⟩ | ⟨e, -, hfailed, -⟩)
      · exact .refl q
      · exact hfailed.quiet
  | noViableAlt depth =>
      refine .quiet ((runs_raiseNoViableAlt hp trivial depth).mono ?_)
      rintro _ q ⟨e, -, hfailed, -⟩
      exact hfailed.quiet
  | mismatch expected =>
      refine .quiet ((runs_raiseMismatch hp trivial expected).mono ?_)
      rintro _ q ⟨e, -, hfailed, -⟩
      exact hfailed.quiet

/-- **An ordinary recognizer comes to each of its moments by way of those before it**, and by way of all of them to where
it ends. -/
theorem Recognizer.Ordinary.recounted {x : Tape} {p : Parser σ} {r : Recognizer α} (h : r.Ordinary)
    (hp : Ready x p) : Recounted x r.run p (r.moments p) := by
  -- induction on the recognizer: the way to a moment of a later part leads through all of the earlier parts
  induction r generalizing p with
  | pure a => exact .quiet (.refl p)
  | outOfSteps => exact .quiet trivial
  | step op next ih =>
      refine (op.recounted hp).bind (op.runs hp fun _ => trivial) ?_
      rintro b q ⟨vs, rs, hstep, -⟩
      exact ih b (h b) (hstep.ready hp)
  | direct d next ih => exact h.elim
  | rule r body next ihbody ihnext =>
      have hacts : ∀ p₁ : Parser σ, Ready x p₁ → Runs (body ()).run p₁ (fun _ => True) (Acts x p₁) :=
        fun p₁ hp₁ => h.1.runs hp₁ fun _ => trivial
      refine (recounted_rule (.standing hp.standing) (Nat.le_refl _) hp.acting hp.noted hp.denied
        hacts fun p₁ hp₁ => ihbody () h.1 hp₁).bind (runs_rule hp trivial (fun _ _ _ _ => True) fun p₁ h₁ =>
          (hacts p₁ h₁.ready).mono fun _ _ hq => hq.bodyEnd fun _ => trivial) ?_
      rintro u q ⟨-, node, vs, rs, -, hstep, -⟩
      exact ihnext u (h.2 u) (hstep.ready hp)
  | invoke follow body next ihbody ihnext =>
      refine (recounted_invoke (ihbody () h.1 (hp.invoked follow))).bind
        (runs_invoke (h.1.runs (hp.invoked follow) fun _ => trivial)) ?_
      rintro b _ ⟨q, ⟨vs, rs, hbody, -⟩, rfl⟩
      exact ihnext b (h.2 b) (hbody.of_invoke.ready hp)
  | speculate body next ihbody ihnext =>
      -- a trial has no moments, and what it leaves behind is the input as it was
      have hnone : (onward (Parser.ahead 1) p fun _ q =>
          (body ()).moments { q with speculating := q.speculating + 1 }) = [] := by
        refine onward_eq_nil ((Ends.self (Parser.ahead 1) p).mono fun _ q _ _ _ => ?_)
        exact h.1.moments_trying (by simp [isSpeculating])
      have htrial : Runs (Parser.speculate (body ()).run) p (fun _ => True) fun _ q => ∃ s n,
          s.Standing x p.index ∧ p.nextException ≤ n ∧ q = { p with input := s, nextException := n } := by
        refine (runs_speculate hp.standing trivial (fun _ => True) fun p₁ hp₁ _ _ =>
          (Ordinary.runs_trying h.1 hp₁ trivial).mono fun _ _ hq => ⟨hq, trivial⟩).mono ?_
        rintro _ q ⟨b, s, n, -, hs, hn, hq, -⟩
        exact ⟨s, n, hs, hn, hq⟩
      have hquiet : Recounted x (Parser.speculate (body ()).run) p [] := by
        refine .quiet (htrial.mono ?_)
        rintro _ _ ⟨s, n, hs, hn, rfl⟩
        exact .of_recovery (hp.aside hs p.recovery hn).index_le (.inl rfl)
      rw [Recognizer.moments, hnone]
      refine hquiet.bind htrial ?_
      rintro b _ ⟨s, n, hs, hn, rfl⟩
      exact ihnext b (h.2 b) ((hp.aside hs p.recovery hn).ready hp)
  | attempt body next ihbody ihnext =>
      refine (recounted_attempt (ihbody () h.1 hp)).bind (runs_attempt (h.1.runs hp fun _ => trivial)) ?_
      rintro b q ⟨_, -, vs, rs, hstep, -⟩
      exact ihnext b (h.2 b) (hstep.ready hp)

/-- **A whole parse comes to each of its moments by way of those before it.** -/
theorem Recognizer.OrdinaryRule.recounted {x : Tape} {p : Parser σ} {e : Recognizer Unit} (h : e.OrdinaryRule)
    (hreads : p.input.Reads x) (hstarted : p.input.started = false) (hcursor : p.input.cursor = 0)
    (hacting : p.speculating = 0) (hnoted : p.strategy.noted = false) (hdenied : p.strategy.denied = []) :
    Recounted x e.run p (e.moments p) := by
  obtain ⟨r, body, rfl, hbody⟩ := h
  have hle : p.index ≤ x.stop 0 := by
    simp only [Parser.index, hcursor, Nat.zero_le]
  have hrule := recounted_rule (.fresh hreads hstarted rfl) hle hacting hnoted hdenied (r := r)
    (fun p₁ hp₁ => hbody.runs hp₁ fun _ => trivial) fun p₁ hp₁ => hbody.recounted hp₁
  exact hrule.bind hrule.ended fun _ q _ => .quiet (.refl q)

/-- A parse with a plain strategy over a source that runs out. -/
theorem Recognizer.OrdinaryRule.exists_recounted {e : Recognizer Unit} (h : e.OrdinaryRule) {source : σ}
    (hsource : TokenSource.RunsOut source) {strategy : Strategy} (hstrategy : strategy = .default ∨ strategy = .anchored)
    (language : Language) (recursionLimit : Option Nat) (listeners : Nat) {p : Parser σ}
    (hp : p = { input := .ofSource source, language, strategy, recursionLimit, listeners }) :
    ∃ x, Recounted x e.run p (e.moments p) := by
  subst hp
  obtain ⟨x, hx⟩ := hsource.exists_feeds
  have hdoes : strategy.noted = false ∧ strategy.denied = [] := by
    rcases hstrategy with rfl | rfl <;> exact ⟨rfl, rfl⟩
  exact ⟨x, h.recounted (Stream.reads_ofSource hx) rfl rfl rfl hdoes.1 hdoes.2⟩

end TreeProjection
