import TreeProjection.Proofs.Acting
import TreeProjection.Recognition.Recognizer

/-! # Looking ahead on trial

A body that is tried adds nothing to the tree and reports nothing, whatever it does and however it ends: all
that it leaves behind are tokens that have been read ahead, and numbers of exceptions that are used up.  After
the trial the input is back where it was.

* `Parser.Trying` — a parser that looks ahead on trial.
* `Parser.Traceless` — nothing has happened but reading and numbering.
* `Recognizer.Ordinary.runs_trying` — every ordinary recognizer is traceless on trial.
* `Parser.runs_speculate` — a trial from outside. -/

namespace TreeProjection

namespace Parser

variable {σ α : Type} [TokenSource σ] {x : Tape} {p q r : Parser σ} {fair : List Report → Prop}

/-- **A parser that looks ahead on trial**, with its input at a place of the tape. -/
structure Trying (x : Tape) (p : Parser σ) : Prop where
  /-- The input stands at a place of the tape. -/
  standing : p.input.Standing x p.index
  /-- A trial is under way. -/
  trying : 0 < p.speculating

/-- **Nothing has happened** but that the input has moved on and exceptions have been numbered. -/
inductive Traceless (x : Tape) (p : Parser σ) : Parser σ → Prop where
  /-- The input is here, and the next exception has this number. -/
  | intro (s : Stream σ) (n : Nat) (standing : s.Standing x s.cursor)
    (index_le : p.index ≤ s.cursor) (nextException : p.nextException ≤ n) :
    Traceless x p { p with input := s, nextException := n }

namespace Traceless

/-- First nothing has happened, and then nothing. -/
theorem trans (h : Traceless x p q) (h' : Traceless x q r) : Traceless x p r := by
  obtain ⟨s, n, -, hle, hn⟩ := h
  obtain ⟨s', n', hs', hle', hn'⟩ := h'
  exact .intro s' n' hs' (Nat.le_trans hle hle') (Nat.le_trans hn hn')

/-- The trial is still under way. -/
theorem trying (h : Traceless x p q) (hp : Trying x p) : Trying x q := by
  have htrying := hp.trying
  obtain ⟨s, n, hs, -, -⟩ := h
  exact ⟨hs, htrying⟩

/-- Nothing has been reported. -/
theorem reports (h : Traceless x p q) : q.reports = p.reports := by
  obtain ⟨s, n, -, -, -⟩ := h
  rfl

end Traceless

/-- Tokens have been read ahead. -/
theorem Traceless.reread {s : Stream σ} (hs : s.Standing x p.index) {n : Nat}
    (hn : p.nextException ≤ n) : Traceless x p { p with input := s, nextException := n } := by
  have hcursor : s.cursor = p.index := hs.cursor
  exact .intro s n (by rwa [hcursor]) (Nat.le_of_eq hcursor.symm) hn

namespace Trying

theorem isSpeculating (hp : Trying x p) : p.isSpeculating = true := by
  simp [Parser.isSpeculating, hp.trying]

/-- Nothing has happened. -/
theorem refl (hp : Trying x p) : Traceless x p p := Traceless.reread hp.standing (Nat.le_refl _)

end Trying

/-! ## Operations on trial -/

/-- Looking ahead on trial. -/
theorem runs_ahead_trying (hp : Trying x p) (hfair : fair p.reports) (k : Nat) :
    Runs (ahead k) p fair fun o q =>
      o = .ok (x.token (x.skip (k - 1) p.index)) ∧ Traceless x p q ∧ q.index = p.index := by
  refine (runs_ahead (.standing hp.standing) hfair k).mono ?_
  rintro _ _ ⟨rfl, s, hs, rfl⟩
  exact ⟨rfl, Traceless.reread hs (Nat.le_refl _), hs.cursor⟩

/-- Consuming on trial. -/
theorem runs_consume_trying (hp : Trying x p) (hfair : fair p.reports) :
    Runs consume p fair fun o q => o = .ok (x.token p.index) ∧ Traceless x p q ∧
      q.index = x.stop (p.index + 1) := by
  unfold consume
  refine (runs_ahead_one (.standing hp.standing) hfair).bind ?_ (by rintro e q ⟨⟨⟩, -⟩)
  rintro _ _ ⟨⟨⟩, s, hs, rfl⟩
  refine (Runs.of_onInput (p := { p with input := s }) (Stream.answers_consume (.standing hs))
    hfair).bind ?_ (by rintro e q ⟨_, _, ⟨⟩, -⟩)
  rintro _ _ ⟨_, u, ⟨⟩, hu, rfl⟩
  have hcursor : u.cursor = x.stop (p.index + 1) := hu.cursor
  refine Runs.of_get ?_
  rw [if_pos (by simp [Parser.isSpeculating, hp.trying])]
  refine ⟨rfl, .intro u p.nextException (by rwa [hcursor]) ?_ (Nat.le_refl _), hcursor⟩
  rw [hcursor]
  exact x.le_stop_succ hp.standing.le_size

/-- Failing on trial. -/
theorem runs_throw_trying {s : Stream σ} (hs : s.Standing x p.index)
    (kind : ExceptionKind) (offending : Token) (expected : TokenSet) :
    Runs (do throw (.recognition (← newException kind offending expected)) : ParserM σ α)
      { p with input := s } fair fun o q => ∃ e, o = .error e ∧ Traceless x p q :=
  ⟨_, rfl, Traceless.reread hs (Nat.le_succ _)⟩

/-- Failing on trial because of the current token. -/
theorem runs_raiseMismatch_trying (hp : Trying x p) (hfair : fair p.reports)
    (expected : TokenSet) : Runs (raiseMismatch expected : ParserM σ α) p fair fun o q =>
      ∃ e, o = .error e ∧ Traceless x p q := by
  unfold raiseMismatch
  refine (runs_ahead_one (.standing hp.standing) hfair).bind ?_ (by rintro e q ⟨⟨⟩, -⟩)
  rintro _ _ ⟨⟨⟩, s, hs, rfl⟩
  exact runs_throw_trying hs _ _ _

/-- Failing on trial because no alternative fits. -/
theorem runs_raiseNoViableAlt_trying (hp : Trying x p) (hfair : fair p.reports) (depth : Nat) :
    Runs (raiseNoViableAlt depth : ParserM σ α) p fair fun o q =>
      ∃ e, o = .error e ∧ Traceless x p q := by
  unfold raiseNoViableAlt
  refine (runs_ahead_one (.standing hp.standing) hfair).bind ?_ (by rintro e q ⟨⟨⟩, -⟩)
  rintro _ _ ⟨⟨⟩, s, hs, rfl⟩
  refine (runs_ahead (p := { p with input := s }) (.standing hs) hfair _).bind ?_
    (by rintro e q ⟨⟨⟩, -⟩)
  rintro _ _ ⟨⟨⟩, s', hs', rfl⟩
  exact runs_throw_trying hs' _ _ _

/-- **Matching a token on trial.** -/
theorem runs_expect_trying (hp : Trying x p) (hfair : fair p.reports) (ty : TokenType)
    (follow : TokenSet) : Runs (expect ty follow) p fair fun o q => Traceless x p q ∧
      ((o = .ok (x.token p.index) ∧ x.type p.index = ty ∧ q.index = x.stop (p.index + 1)) ∨
        ∃ e, o = .error e ∧ x.type p.index ≠ ty) := by
  unfold expect
  refine (runs_ahead_trying hp hfair 1).bind ?_ (by rintro e q ⟨⟨⟩, -⟩)
  rintro _ q ⟨⟨⟩, htraceless, hindex⟩
  have hq := htraceless.trying hp
  have hfair' : fair q.reports := by rwa [htraceless.reports]
  -- on trial a mismatch is raised at once, with no mending
  by_cases hty : x.type p.index = ty
  · have heq : ((x.token (x.skip (1 - 1) p.index)).ty == ty) = true := by
      simpa [Tape.type, Tape.skip] using hty
    simp only [heq, if_true]
    refine Runs.of_get ?_
    simp only [hq.isSpeculating, if_true]
    refine (runs_consume_trying hq hfair').mono ?_
    rintro _ r ⟨rfl, hconsumed, hnext⟩
    rw [hindex] at hnext ⊢
    exact ⟨htraceless.trans hconsumed, .inl ⟨rfl, hty, hnext⟩⟩
  · have hne : ((x.token (x.skip (1 - 1) p.index)).ty == ty) = false := by
      simpa [Tape.type, Tape.skip] using hty
    simp only [hne, Bool.false_eq_true, if_false]
    refine Runs.of_get ?_
    simp only [hq.isSpeculating, if_true]
    refine Runs.of_orBroken hfair' fun _ _ => (runs_raiseMismatch_trying hq hfair' _).mono ?_
    rintro _ r ⟨e, rfl, hfailed⟩
    exact ⟨htraceless.trans hfailed, .inr ⟨e, rfl, hty⟩⟩

/-- Entering a rule on trial. -/
theorem runs_enterRule_trying (hp : Trying x p) (hfair : fair p.reports) (r : RuleIndex) :
    Runs (enterRule r) p fair fun o q =>
      o = .ok () ∧ q = { p with frames := ⟨r, none⟩ :: p.frames } := by
  refine Ends.mono (enterRule_activates r p) fun o q hends => ?_
  cases hends with
  | calledOff | tooDeep => exact hfair
  | unmarked => exact ⟨rfl, rfl⟩
  | unread _ acting => cases acting.symm.trans hp.isSpeculating
  | marked _ acting => cases acting.symm.trans hp.isSpeculating

/-- Leaving a rule on trial. -/
theorem runs_leaveRule_trying {r : RuleIndex} {frames : List Frame} (hfair : fair q.reports)
    (hframes : q.frames = ⟨r, none⟩ :: frames) (o : Except Interrupt Unit) :
    Runs (do
      let exited ← observe exitRule
      release o
      release exited) q fair fun _ q' => q' = { q with frames := frames } := by
  -- leaving a rule raises no exception of its own, so the outcome of the body decides
  have hexit : Ends exitRule q fun o q' =>
      q' = { q with frames := frames } ∧ ∀ e, o ≠ .error (.recognition e) := by
    exact (exitRule_retires q).mono fun _ _ hends => ⟨(hends.of_active hframes).2, hends.ne_recognition⟩
  have hobserved : Ends (observe exitRule) q fun o q' => ∃ exited, o = .ok exited ∧
      q' = { q with frames := frames } ∧ ∀ e, exited ≠ .error (.recognition e) :=
    ends_observe (hexit.mono fun o q' h => ⟨o, rfl, h⟩)
  refine hobserved.bind ?_ (by rintro e q ⟨_, ⟨⟩, -⟩)
  rintro exited _ ⟨_, ⟨⟩, rfl, hexited⟩
  match o, exited with
  | .ok _, .ok _ => rfl
  | .ok _, .error (.recognition e) => exact absurd rfl (hexited e)
  | .ok _, .error (.abort _) => exact hfair
  | .error (.recognition _), _ => rfl
  | .error (.abort _), _ => exact hfair

/-- A rule on trial has no node. -/
theorem runs_rule_trying (hp : Trying x p) (hfair : fair p.reports) {r : RuleIndex}
    {body : ParserM σ Unit}
    (hbody : ∀ p₁, Trying x p₁ → fair p₁.reports →
      Runs body p₁ fair fun _ q => Traceless x p₁ q) :
    Runs (rule r body) p fair fun _ q => Traceless x p q := by
  unfold rule
  -- however the body has ended, leaving the rule takes its frame away again
  have hleave : ∀ (o : Except Interrupt Unit) (q : Parser σ),
      Traceless x { p with frames := ⟨r, none⟩ :: p.frames } q →
        Runs (do
          let exited ← observe exitRule
          release o
          release exited) q fair fun _ q' => Traceless x p q' := by
    intro o q hq
    have hfair' : fair q.reports := by
      rw [hq.reports]
      exact hfair
    have hframes : q.frames = ⟨r, none⟩ :: p.frames := by
      cases hq
      rfl
    refine (runs_leaveRule_trying hfair' hframes o).mono ?_
    rintro _ _ rfl
    obtain ⟨s, n, hs, hle, hn⟩ := hq
    exact .intro s n hs hle hn
  refine (runs_enterRule_trying hp hfair r).bind ?_ (by rintro e q ⟨⟨⟩, -⟩)
  rintro _ _ ⟨-, rfl⟩
  have hentered : Trying x { p with frames := ⟨r, none⟩ :: p.frames } := ⟨hp.standing, hp.trying⟩
  refine (hbody _ hentered hfair).of_observe ?_ ?_ ?_
  · exact fun _ q hq => hleave _ q hq
  · intro e q hq
    refine Runs.of_get ?_
    rw [if_pos (hq.trying hentered).isSpeculating]
    exact hleave _ q hq
  · exact fun a q hq => runs_leaveRule_of_abort hq a

/-! ## Recognizers on trial -/

/-- Taking the input back after a trial. -/
theorem runs_takeBack (hp : p.input.Standing x p.index) {s : Stream σ}
    (hs : s.Standing x s.cursor) {n : Nat} (hn : p.nextException ≤ n) (hfair : fair p.reports) :
    Runs (onInput (Stream.seek p.index)) { p with input := s, nextException := n } fair fun o q =>
      o = .ok () ∧ ∃ s n, s.Standing x p.index ∧ p.nextException ≤ n ∧
        q = { p with input := s, nextException := n } := by
  refine (Runs.of_onInput (p := { p with input := s, nextException := n })
    (Stream.answers_seek (.standing hs) p.index) hfair).mono ?_
  rintro _ _ ⟨_, u, rfl, hu, rfl⟩
  rw [hp.stop_eq] at hu
  exact ⟨rfl, u, n, hu, hn, rfl⟩

/-- **A trial.** If its body is traceless, the trial leaves nothing behind, and the input is back where it
was. -/
theorem runs_speculate (hp : p.input.Standing x p.index) (hfair : fair p.reports)
    {body : ParserM σ Unit} (good : Except RecognitionException Unit → Prop)
    (hbody : ∀ p₁ : Parser σ, Trying x p₁ → p₁.index = p.index → fair p₁.reports →
      Runs body p₁ fair fun o q => Traceless x p₁ q ∧ good o) :
    Runs (speculate body) p fair fun o q => ∃ b s n, o = .ok b ∧ s.Standing x p.index ∧
      p.nextException ≤ n ∧ q = { p with input := s, nextException := n } ∧
        ∃ o', good o' ∧ (b = true ↔ o' = .ok ()) := by
  unfold speculate
  refine (runs_ahead_one (.standing hp) hfair).bind ?_ (by rintro e q ⟨⟨⟩, -⟩)
  rintro _ _ ⟨-, s, hs, rfl⟩
  refine Runs.of_get (Runs.of_modify ?_)
  have hcursor : s.cursor = p.index := hs.cursor
  have hindex : ({ p with input := s } : Parser σ).index = p.index := hs.cursor
  have htrying : Trying x { p with input := s, speculating := p.speculating + 1 } :=
    ⟨by simpa only [index, hcursor] using hs, Nat.succ_pos _⟩
  -- whether the body answers or fails, what it took on is taken back, and only the verdict differs
  refine (hbody _ htrying hcursor hfair).of_observe ?_ ?_ ?_
  · rintro a _ ⟨⟨u, n, hu, -, hn⟩, hgood⟩
    refine Runs.of_modify ?_
    simp only [lastOf_length, Nat.add_sub_cancel, hindex]
    refine (runs_takeBack hp hu hn hfair).bind ?_ (by rintro e q ⟨⟨⟩, -⟩)
    rintro _ _ ⟨-, u, n, hu, hn, rfl⟩
    exact ⟨true, u, n, rfl, hu, hn, rfl, _, hgood, by simp⟩
  · rintro e _ ⟨⟨u, n, hu, -, hn⟩, hgood⟩
    refine Runs.of_modify ?_
    simp only [lastOf_length, Nat.add_sub_cancel, hindex]
    refine (runs_takeBack hp hu hn hfair).bind ?_ (by rintro e q ⟨⟨⟩, -⟩)
    rintro _ _ ⟨-, u, n, hu, hn, rfl⟩
    exact ⟨false, u, n, rfl, hu, hn, rfl, _, hgood, by simp⟩
  · intro a q hq
    refine Runs.of_modify ?_
    refine Runs.bind (Runs.of_onInput ((Ends.self _ _).mono fun _ _ _ _ _ => trivial) hq) ?_
      (by rintro e q ⟨_, _, ⟨⟩, -⟩)
    rintro _ _ ⟨_, _, -, -, rfl⟩
    exact hq

end Parser

open TreeProjection.Parser

variable {σ : Type} [TokenSource σ] {x : Tape} {p q : Parser σ} {fair : List Report → Prop}

/-- An operation on trial is traceless. -/
theorem Operation.runs_trying {β : Type} (op : Operation β) (hp : Trying x p)
    (hfair : fair p.reports) : Runs op.run p fair fun _ q => Traceless x p q := by
  cases op with
  | ahead k => exact (runs_ahead_trying hp hfair k).mono fun _ _ h => h.2.1
  | expect ty follow => exact (runs_expect_trying hp hfair ty follow).mono fun _ _ h => h.1
  | consume => exact (runs_consume_trying hp hfair).mono fun _ _ h => h.2.1
  -- on trial a loop is not guarded
  | sync expecting =>
      change Runs (Parser.sync expecting) p fair _
      unfold Parser.sync
      refine Runs.of_get ?_
      rw [hp.isSpeculating]
      exact hp.refl
  | require holds text =>
      change Runs (Parser.require holds text) p fair _
      unfold Parser.require
      cases holds with
      | true => exact hp.refl
      | false =>
          refine (runs_ahead_one (.standing hp.standing) hfair).bind ?_ (by rintro e q ⟨⟨⟩, -⟩)
          rintro _ _ ⟨⟨⟩, s, hs, rfl⟩
          exact (runs_throw_trying hs _ _ _).mono fun _ _ ⟨_, _, h⟩ => h
  | noViableAlt depth =>
      exact (runs_raiseNoViableAlt_trying hp hfair depth).mono fun _ _ ⟨_, _, h⟩ => h
  | mismatch expected =>
      exact (runs_raiseMismatch_trying hp hfair expected).mono fun _ _ ⟨_, _, h⟩ => h

/-- **Every ordinary recognizer is traceless on trial.** -/
theorem Recognizer.Ordinary.runs_trying {α : Type} {r : Recognizer α} (h : r.Ordinary)
    (hp : Trying x p) (hfair : fair p.reports) :
    Runs r.run p fair fun _ q => Traceless x p q := by
  -- induction on the recognizer: what went before leaves no trace, so the rest starts from a trial too
  induction r generalizing p with
  | pure a => exact hp.refl
  | outOfSteps => exact hfair
  | step op next ih =>
      refine (op.runs_trying hp hfair).bind (fun b q hq => ?_) fun _ _ hq => hq
      refine (ih b (h b) (hq.trying hp) ?_).mono fun _ _ hr => hq.trans hr
      rwa [hq.reports]
  | direct d next ih => exact h.elim
  | rule r body next ihbody ihnext =>
      refine (runs_rule_trying hp hfair fun p₁ hp₁ hfair₁ =>
        ihbody () h.1 hp₁ hfair₁).bind (fun u q hq => ?_) fun _ _ hq => hq
      refine (ihnext u (h.2 u) (hq.trying hp) ?_).mono fun _ _ hr => hq.trans hr
      rwa [hq.reports]
  | invoke follow body next ihbody ihnext =>
      refine (runs_invoke (ihbody () h.1 (p := { p with follow := follow :: p.follow })
        ⟨hp.standing, hp.trying⟩ hfair)).bind ?_ ?_
      · rintro b _ ⟨_, ⟨s, n, hs, hle, hn⟩, rfl⟩
        have hq : Traceless x p { p with input := s, nextException := n } := .intro s n hs hle hn
        exact (ihnext b (h.2 b) (hq.trying hp) hfair).mono fun _ _ hr => hq.trans hr
      · rintro e _ ⟨_, ⟨s, n, hs, hle, hn⟩, rfl⟩
        exact .intro s n hs hle hn
  | speculate body next ihbody ihnext =>
      refine (runs_speculate hp.standing hfair (fun _ => True) fun p₁ hp₁ _ hfair₁ =>
        (ihbody () h.1 hp₁ hfair₁).mono fun _ _ hq => ⟨hq, trivial⟩).bind ?_ ?_
      · rintro b _ ⟨_, s, n, -, hs, hn, rfl, -⟩
        have hq : Traceless x p { p with input := s, nextException := n } := .reread hs hn
        exact (ihnext b (h.2 b) (hq.trying hp) hfair).mono fun _ _ hr => hq.trans hr
      · rintro e _ ⟨_, _, _, ⟨⟩, -⟩
  | attempt body next ihbody ihnext =>
      refine (runs_attempt (ihbody () h.1 hp hfair)).bind ?_ (by rintro e q ⟨_, ⟨⟩, -⟩)
      rintro b q ⟨_, -, hq⟩
      refine (ihnext b (h.2 b) (hq.trying hp) ?_).mono fun _ _ hr => hq.trans hr
      rwa [hq.reports]

end TreeProjection
