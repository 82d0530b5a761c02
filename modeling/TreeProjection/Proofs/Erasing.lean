import TreeProjection.Proofs.Expecting
import TreeProjection.Proofs.Limiting
import TreeProjection.Proofs.Predicting

/-! # What a trial leaves behind

A body that is tried may do what it likes and end as it likes: it may succeed, fail to recognize the input, or end the
whole parse, be it because the source fails, because too many rules are active, or because the run has been called off.
Afterwards the parser is in the state in which it was, but that tokens have been taken from the source and that numbers
of exceptions are used up.

* `Stream.Kept` — what reading and moving do not change.
* `Recognizer.Tentative` — the bodies that are tried.
* `Parser.Erased` — nothing but reading and numbering has happened.
* `Parser.ends_speculate_erased` — a trial, however its body ends. -/

namespace TreeProjection

variable {σ α β : Type}

/-! ## What reading does not change -/

namespace Stream

variable [TokenSource σ] {P Q : Stream σ → Prop} {s : Stream σ} {x : Tape} {i n : Nat}

/-- **What is kept** when a stream is read, however that ends. -/
structure Kept (P : Stream σ → Prop) : Prop where
  /-- Looking ahead keeps it. -/
  ahead : ∀ k s, P s → Ends (ahead k) s fun _ t => P t
  /-- Moving past a token keeps it. -/
  consume : ∀ s, P s → Ends consume s fun _ t => P t
  /-- Moving to a place keeps it. -/
  seek : ∀ i s, P s → Ends (seek i) s fun _ t => P t

/-- What reading cannot break is kept. -/
theorem Stable.kept (h : Stable P) : Kept P :=
  ⟨fun k _ hs => h.ahead k hs, fun _ hs => h.consume hs, fun i _ hs => h.seek i hs⟩

/-- Two things that are kept are kept together. -/
theorem Kept.and (h : Kept P) (h' : Kept Q) : Kept fun s => P s ∧ Q s :=
  ⟨fun k s hs => (h.ahead k s hs.1).and (h'.ahead k s hs.2),
    fun s hs => (h.consume s hs.1).and (h'.consume s hs.2), fun i s hs => (h.seek i s hs.1).and (h'.seek i s hs.2)⟩

/-- Nothing is known, and that is kept. -/
theorem kept_trivial : Kept fun _ : Stream σ => True :=
  Stable.kept ⟨fun _ _ h => h, fun _ _ h => h, fun _ _ h => h, fun _ h => h⟩

/-- **Where the source does not fail, a stream stays on its tape.** -/
theorem kept_facing {calm : σ → Prop} (hsteady : TokenSource.Steady calm) (x : Tape) :
    Kept fun s : Stream σ => calm s.source ∧ ∃ i, s.Facing x i := by
  -- a calm source does not fail, so each operation answers, and its answer says where the stream stands
  have hanswers : ∀ {γ : Type} {act : StreamM σ γ} {s : Stream σ}, calm s.source → Stalls act s →
      (Answers act s fun _ t => ∃ i, t.Standing x i) → Ends act s fun _ t => calm t.source ∧ ∃ i, t.Facing x i := by
    intro γ act s hcalm hstalls hact
    apply (hstalls.and hact).mono
    rintro (e | a) t ⟨⟨hdrawn, hfails⟩, hanswer⟩
    · obtain ⟨source, failure, hfurther, hpull, -⟩ := hfails e rfl
      obtain ⟨token, htoken⟩ := (hsteady.pull source (hsteady.drawn hfurther hcalm)).1
      cases htoken.symm.trans hpull
    · obtain ⟨i, hi⟩ := hanswer a rfl
      exact ⟨hsteady.drawn hdrawn hcalm, i, .standing hi⟩
  constructor
  · rintro k s ⟨hcalm, i, hi⟩
    exact hanswers hcalm (stalls_ahead hi k) ((answers_ahead hi k).mono fun _ _ h => ⟨i, h.2⟩)
  · rintro s ⟨hcalm, i, hi⟩
    exact hanswers hcalm (stalls_consume hi) ((answers_consume hi).mono fun _ _ h => ⟨_, h⟩)
  · rintro j s ⟨hcalm, i, hi⟩
    exact hanswers hcalm (stalls_seek j s) ((answers_seek hi j).mono fun _ _ h => ⟨_, h⟩)

/-- Taking tokens does not move the cursor. -/
theorem ends_fetchFrom_cursor (i n : Nat) (s : Stream σ) : Ends (fetchFrom i n) s fun _ t => t.cursor = s.cursor := by
  induction n generalizing s with
  | zero => rfl
  | succ n ih =>
      unfold Ends fetchFrom
      cases hpull : TokenSource.pull s.source with
      | mk answer source =>
          cases answer with
          | error e => rfl
          | ok t =>
              by_cases hstop : (t.isEof || (decide (i ≤ s.buffer.size) && t.isVisible)) = true
              · simp only [hstop, if_true]
                rfl
              · simp only [hstop, if_false, Bool.false_eq_true]
                exact ih _

/-- Looking for where to read on does not move the cursor. -/
theorem ends_nextStop_cursor (i : Nat) (s : Stream σ) : Ends (nextStop i) s fun _ t => t.cursor = s.cursor := by
  unfold Ends nextStop
  cases s.findStop? i with
  | some j => rfl
  | none =>
      by_cases hended : s.ended = true
      · simp only [hended, if_true]
      · simp only [hended, if_false, Bool.false_eq_true]
        exact ends_fetchFrom_cursor i _ s

/-- A stream that fails to be started has not moved. -/
theorem ends_start_cursor (s : Stream σ) : Ends start s fun o t => ∀ e, o = .error e → t.cursor = s.cursor := by
  unfold start
  change Ends (get >>= _) s _
  rw [ends_get_bind]
  by_cases hstarted : s.started = true
  · rw [if_pos hstarted]
    exact nofun
  · rw [if_neg hstarted, ends_set_bind]
    exact (ends_nextStop_cursor 0 _).bind (fun _ _ _ => nofun) fun _ _ ht _ _ => ht

/-- **A stream of which the current token is looked at** comes to stand there, or the source fails, and then it has not
moved. -/
theorem ends_ahead_one (h : s.Facing x i) : Ends (ahead 1) s fun o t =>
    (∃ a, o = .ok a ∧ t.Standing x i) ∨ (∃ e, o = .error e) ∧ t.cursor = s.cursor := by
  cases hstart : start s with
  | error e t =>
      have hahead : ahead 1 s = .error e t := by simp only [ahead, bind, EStateM.bind, hstart]
      unfold Ends
      rw [hahead]
      exact .inr ⟨⟨e, rfl⟩, (ends_start_cursor s).of_error hstart e rfl⟩
  | ok u t =>
      have ht : t.Standing x i := (answers_start h).of_ok hstart
      -- the place has been taken, so that looking at its token takes nothing more
      have hahead : ahead 1 s = ahead 1 t := by
        simp only [ahead, bind, EStateM.bind, hstart, start_of_started ht.started]
      unfold Ends
      rw [hahead, ht.ahead_one]
      exact .inl ⟨_, rfl, ht⟩

end Stream

/-! ## Bodies that are tried -/

/-- Whether an operation that reaches past those of a grammar adds an error leaf or looks at the parser's state. -/
def Direct.isTentative : Direct β → Bool
  | .errorLeaf _ => true
  | .probe _ => true
  | _ => false

/-- **Whether a recognizer may be tried**: it is made of the operations of grammars, adds error leaves and looks at the
parser's state. -/
def Recognizer.Tentative {α : Type} : Recognizer α → Prop
  | .pure _ => True
  | .outOfSteps => True
  | .step _ next => ∀ b, (next b).Tentative
  | .direct d next => d.isTentative = true ∧ ∀ b, (next b).Tentative
  | .rule _ body next => (body ()).Tentative ∧ ∀ u, (next u).Tentative
  | .invoke _ body next => (body ()).Tentative ∧ ∀ b, (next b).Tentative
  | .speculate body next => (body ()).Tentative ∧ ∀ b, (next b).Tentative
  | .attempt body next => (body ()).Tentative ∧ ∀ b, (next b).Tentative

/-- Ordinary recognizers may be tried. -/
theorem Recognizer.Ordinary.tentative {r : Recognizer α} (h : r.Ordinary) : r.Tentative := by
  induction r with
  | pure a => exact trivial
  | outOfSteps => exact trivial
  | step op next ih => exact fun b => ih b (h b)
  | direct d next ih => exact h.elim
  | rule r body next ihbody ihnext => exact ⟨ihbody () h.1, fun u => ihnext u (h.2 u)⟩
  | invoke follow body next ihbody ihnext => exact ⟨ihbody () h.1, fun b => ihnext b (h.2 b)⟩
  | speculate body next ihbody ihnext => exact ⟨ihbody () h.1, fun b => ihnext b (h.2 b)⟩
  | attempt body next ihbody ihnext => exact ⟨ihbody () h.1, fun b => ihnext b (h.2 b)⟩

namespace Parser

variable {P : Stream σ → Prop} {p q r : Parser σ}

/-- **Nothing has happened but reading and numbering**: the input has been read, which has kept what was known of it, and
numbers of exceptions have been used up. -/
structure Erased (P : Stream σ → Prop) (p q : Parser σ) : Prop where
  /-- All the rest is as it was. -/
  same : q = { p with input := q.input, nextException := q.nextException }
  /-- What was known of the input is known still. -/
  input : P q.input
  /-- Numbers are not given twice. -/
  numbers : p.nextException ≤ q.nextException

namespace Erased

/-- Nothing at all has happened. -/
theorem refl (h : P p.input) : Erased P p p := ⟨rfl, h, Nat.le_refl _⟩

/-- First nothing has happened, then nothing. -/
theorem trans (h : Erased P p q) (h' : Erased P q r) : Erased P p r where
  same := by
    rw [h'.same, h.same]
  input := h'.input
  numbers := Nat.le_trans h.numbers h'.numbers

/-- The input has been read. -/
theorem reread {s : Stream σ} (h : P s) : Erased P p { p with input := s } := ⟨rfl, h, Nat.le_refl _⟩

/-- The parser is on trial as before. -/
theorem isSpeculating (h : Erased P p q) : q.isSpeculating = p.isSpeculating := by
  rw [h.same]
  rfl

/-- **What has been set aside for a while is put back.** -/
theorem restored (frames : List Frame) (follow : List TokenSet) (speculating : Nat)
    (h : Erased P { p with frames, follow, speculating } q) :
    Erased P p { q with frames := p.frames, follow := p.follow, speculating := p.speculating } where
  same := by
    rw [h.same]
  input := h.input
  numbers := h.numbers

end Erased

/-- First one action that erases its traces, then another. -/
theorem ends_erased_bind {x : ParserM σ α} {f : α → ParserM σ β} (h : Ends x p fun _ q => Erased P p q)
    (hnext : ∀ a q, Erased P p q → Ends (f a) q fun _ r => Erased P q r) :
    Ends (x >>= f) p fun _ r => Erased P p r :=
  h.bind (fun a q hq => (hnext a q hq).mono fun _ _ hr => hq.trans hr) fun _ _ hq => hq

/-- First an action that erases its traces is observed, then another one is carried out. -/
theorem ends_erased_observe_bind {x : ParserM σ α} {f : Except Interrupt α → ParserM σ β}
    (h : Ends x p fun _ q => Erased P p q) (hnext : ∀ o q, Erased P p q → Ends (f o) q fun _ r => Erased P q r) :
    Ends (observe x >>= f) p fun _ r => Erased P p r :=
  ends_observe_bind h fun o q hq => (hnext o q hq).mono fun _ _ hr => hq.trans hr

/-! ## Operations on trial -/

/-- Reading. -/
theorem ends_onInput_erased {act : StreamM σ α} (h : Ends act p.input fun _ s => P s) :
    Ends (onInput act) p fun _ q => Erased P p q :=
  ends_onInput (h.mono fun _ _ hs => .reread hs)

/-- Numbering an exception, and failing with it. -/
theorem ends_fail_erased (kind : ExceptionKind) (offending : Token) (expected : TokenSet) (hp : P p.input) :
    Ends (do throw (.recognition (← newException kind offending expected)) : ParserM σ α) p
      fun _ q => Erased P p q :=
  ⟨rfl, hp, Nat.le_succ _⟩

variable [TokenSource σ] (hkept : Stream.Kept P)

include hkept

/-- Looking ahead. -/
theorem ends_ahead_erased (k : Nat) (hp : P p.input) : Ends (ahead k) p fun _ q => Erased P p q :=
  ends_onInput_erased (hkept.ahead k _ hp)

/-- Failing because of the current token. -/
theorem ends_raiseMismatch_erased (expected : TokenSet) (hp : P p.input) :
    Ends (raiseMismatch expected : ParserM σ α) p fun _ q => Erased P p q := by
  unfold raiseMismatch
  apply ends_erased_bind (ends_ahead_erased hkept 1 hp)
  intro t q hq
  exact ends_fail_erased _ _ _ hq.input

/-- Failing because no alternative fits. -/
theorem ends_raiseNoViableAlt_erased (depth : Nat) (hp : P p.input) :
    Ends (raiseNoViableAlt depth : ParserM σ α) p fun _ q => Erased P p q := by
  unfold raiseNoViableAlt
  apply ends_erased_bind (ends_ahead_erased hkept 1 hp)
  intro start q hq
  apply ends_erased_bind (ends_ahead_erased hkept _ hq.input)
  intro t r hr
  exact ends_fail_erased _ _ _ hr.input

/-- Failing unless a condition holds. -/
theorem ends_require_erased (holds : Bool) (text : String) (hp : P p.input) :
    Ends (require holds text) p fun _ q => Erased P p q := by
  unfold require
  cases holds with
  | true => exact .refl hp
  | false =>
      apply ends_erased_bind (ends_ahead_erased hkept 1 hp)
      intro t q hq
      exact ends_fail_erased _ _ _ hq.input

/-- Consuming on trial. -/
theorem ends_consume_erased (hp : P p.input) (htrial : p.isSpeculating = true) :
    Ends consume p fun _ q => Erased P p q := by
  unfold consume
  apply ends_erased_bind (ends_ahead_erased hkept 1 hp)
  intro t q hq
  apply ends_erased_bind (ends_onInput_erased (hkept.consume _ hq.input))
  intro _ r hr
  rw [ends_get_bind, if_pos (hr.isSpeculating.trans (hq.isSpeculating.trans htrial))]
  exact .refl hr.input

/-- Matching on trial. -/
theorem ends_expect_erased (ty : TokenType) (follow : TokenSet) (hp : P p.input) (htrial : p.isSpeculating = true) :
    Ends (expect ty follow) p fun _ q => Erased P p q := by
  unfold expect
  apply ends_erased_bind (ends_ahead_erased hkept 1 hp)
  intro t q hq
  have hstill : q.isSpeculating = true := hq.isSpeculating.trans htrial
  by_cases hty : (t.ty == ty) = true
  · simp only [hty, if_true]
    rw [ends_get_bind]
    simp only [hstill, if_true]
    exact ends_consume_erased hkept hq.input hstill
  · simp only [hty, if_false, Bool.false_eq_true]
    rw [ends_get_bind]
    simp only [hstill, if_true]
    cases TokenSet.single? ty with
    | ok set => exact ends_raiseMismatch_erased hkept set hq.input
    | error v => exact .refl hq.input

/-- Looking at the parser's state. -/
theorem ends_probe_erased (probe : Probe) (hp : P p.input) : Ends probe.run p fun _ q => Erased P p q := by
  have hahead : ∀ {γ : Type} (k : Nat) (f : Token → ParserM σ γ),
      (∀ t q, Erased P p q → Ends (f t) q fun _ r => Erased P q r) → Ends (ahead k >>= f) p fun _ r => Erased P p r :=
    fun k f hf => ends_erased_bind (ends_ahead_erased hkept k hp) hf
  cases probe with
  | typeAhead k => exact hahead k _ fun t q hq => .refl hq.input
  | tokenAhead k => exact hahead k _ fun t q hq => .refl hq.input
  | textAhead first last =>
      apply hahead first
      intro a q hq
      apply ends_erased_bind (ends_ahead_erased hkept last hq.input)
      intro b r hr
      exact .refl hr.input
  | tokenBehind | index | rule | speculating | errors | recovery | viableFollow | recoverySet | tree | textBetween =>
      exact .refl hp

/-! ## Rules, invocations and trials on trial -/

omit [TokenSource σ] hkept in
/-- **A rule on trial is taken off again.** -/
theorem ends_popRule_erased {r : RuleIndex} (h : Erased P { p with frames := ⟨r, none⟩ :: p.frames } q) :
    Ends popRule q fun o q' => o = .ok () ∧ Erased P p q' := by
  have hframes : q.frames = ⟨r, none⟩ :: p.frames := by rw [h.same]
  have hfollow : q.follow = p.follow := by rw [h.same]
  have hspeculating : q.speculating = p.speculating := by rw [h.same]
  have hrestored := Erased.restored (p := p) _ p.follow p.speculating h
  rw [← hfollow, ← hspeculating] at hrestored
  unfold popRule
  rw [ends_get_bind, hframes]
  exact ⟨rfl, hrestored⟩

omit hkept in
/-- Looking whether the run has been called off. -/
theorem ends_checkCancelled_erased (hp : P p.input) : Ends checkCancelled p fun _ q => Erased P p q := by
  apply (ends_checkCancelled_idle p).mono
  rintro _ q ⟨rfl, -⟩
  exact .refl hp

omit hkept in
/-- Leaving a rule on trial, and handing on how its body has ended. -/
theorem ends_leave_erased {r : RuleIndex} (h : Erased P { p with frames := ⟨r, none⟩ :: p.frames } q)
    (o : Except Interrupt Unit) :
    Ends (do
      let exited ← observe exitRule
      release o
      release exited) q fun _ q' => Erased P p q' := by
  have hexit : Ends exitRule q fun _ q' => Erased P p q' := by
    rw [exitRule_eq]
    apply (ends_popRule_erased h).bind
    · rintro _ q₁ ⟨-, h₁⟩
      exact (ends_checkCancelled_erased h₁.input).mono fun _ _ h₂ => h₁.trans h₂
    · rintro _ q₁ ⟨⟨⟩, -⟩
  refine ends_observe_bind hexit fun exited q₁ h₁ => ?_
  cases o with
  | ok u => exact (ends_release exited).mpr h₁
  | error i => exact h₁

omit hkept in
/-- **A rule on trial**, however its body ends. -/
theorem ends_rule_erased {r : RuleIndex} {body : ParserM σ Unit} (hp : P p.input) (htrial : p.isSpeculating = true)
    (hbody : ∀ q : Parser σ, P q.input → q.isSpeculating = true → Ends body q fun _ q' => Erased P q q') :
    Ends (rule r body) p fun _ q => Erased P p q := by
  have henter : Ends (enterRule r) p fun o q =>
      (o = .ok () ∧ Erased P { p with frames := ⟨r, none⟩ :: p.frames } q) ∨ (∃ i, o = .error i) ∧ Erased P p q := by
    rw [enterRule_eq]
    apply (ends_checkCancelled_idle p).bind
    · rintro _ q ⟨rfl, -⟩
      rw [ends_get_bind]
      by_cases hlimit : q.recursionLimit.any (· ≤ q.frames.length) = true
      · rw [if_pos hlimit]
        exact .inr ⟨⟨_, rfl⟩, .refl hp⟩
      · rw [if_neg hlimit]
        unfold beginRule
        rw [ends_get_bind, if_pos htrial]
        exact .inl ⟨rfl, rfl, hp, Nat.le_refl _⟩
    · rintro i q ⟨rfl, -⟩
      exact .inr ⟨⟨i, rfl⟩, .refl hp⟩
  unfold rule
  apply henter.bind
  · rintro u q (⟨-, hq⟩ | ⟨⟨i, ⟨⟩⟩, -⟩)
    have hstill : q.isSpeculating = true := hq.isSpeculating.trans htrial
    refine ends_observe_bind (hbody q hq.input hstill) fun o q' hq' => ?_
    -- on trial a failure is not handled, and the rule is left in any case
    have hleave := ends_leave_erased (hq.trans hq') o
    match o with
    | .ok _ => exact hleave
    | .error (.abort _) => exact hleave
    | .error (.recognition _) =>
        change Ends (get >>= _) _ _
        rw [ends_get_bind, if_pos (hq'.isSpeculating.trans hstill)]
        exact hleave
  · rintro i q (⟨⟨⟩, -⟩ | ⟨-, hq⟩)
    exact hq

omit [TokenSource σ] hkept in
/-- **Invoking a body**, however it ends. -/
theorem ends_invoke_erased {follow : TokenSet} {body : ParserM σ α}
    (hbody : Ends body { p with follow := follow :: p.follow } fun _ q =>
      Erased P { p with follow := follow :: p.follow } q) : Ends (invoke follow body) p fun _ q => Erased P p q := by
  unfold invoke
  rw [ends_modify_bind]
  refine ends_observe_bind hbody fun o q hq => ?_
  rw [ends_modify_bind, ends_release]
  have hfollow : q.follow.tail = p.follow := by rw [hq.same, List.tail_cons]
  have hframes : q.frames = p.frames := by rw [hq.same]
  have hspeculating : q.speculating = p.speculating := by rw [hq.same]
  have hrestored := Erased.restored (p := p) p.frames _ p.speculating hq
  rw [hfollow]
  rwa [← hframes, ← hspeculating] at hrestored

omit [TokenSource σ] hkept in
/-- Running a body for its exception. -/
theorem ends_attempt_erased {body : ParserM σ α} (hbody : Ends body p fun _ q => Erased P p q) :
    Ends (attempt body) p fun _ q => Erased P p q := by
  unfold attempt
  refine ends_erased_observe_bind hbody fun o q hq => ?_
  match o with
  | .ok _ => exact .refl hq.input
  | .error (.recognition _) => exact .refl hq.input
  | .error (.abort _) => exact .refl hq.input

omit [TokenSource σ] hkept in
/-- **When a trial is over**, all that its body has left behind is what has been read and numbered. -/
theorem Erased.over (h : Erased P { p with speculating := p.speculating + 1 } q) : Erased P p { q with
    speculating := q.speculating - 1
    frames := lastOf p.frames.length q.frames
    follow := lastOf p.follow.length q.follow } := by
  have hframes : lastOf p.frames.length q.frames = p.frames := by
    rw [h.same]
    exact lastOf_length p.frames
  have hfollow : lastOf p.follow.length q.follow = p.follow := by
    rw [h.same]
    exact lastOf_length p.follow
  have hspeculating : q.speculating - 1 = p.speculating := by
    rw [h.same]
    exact Nat.add_sub_cancel ..
  rw [hframes, hfollow, hspeculating]
  exact Erased.restored p.frames p.follow _ h

/-- A trial within a trial. -/
theorem ends_speculate_trying {body : ParserM σ Unit} (hp : P p.input)
    (hbody : ∀ q : Parser σ, P q.input → q.isSpeculating = true → Ends body q fun _ q' => Erased P q q') :
    Ends (speculate body) p fun _ q => Erased P p q := by
  unfold speculate
  apply ends_erased_bind (ends_ahead_erased hkept 1 hp)
  intro t q hq
  rw [ends_get_bind, ends_modify_bind]
  -- the frames and invocations of the body are dropped, and the input goes back, however it ended
  refine ends_observe_bind (hbody _ hq.input (by simp [isSpeculating])) fun o r hr => ?_
  rw [ends_modify_bind]
  apply (ends_onInput_erased (p := { r with
    speculating := r.speculating - 1
    frames := lastOf q.frames.length r.frames
    follow := lastOf q.follow.length r.follow }) (hkept.seek q.index _ hr.input)).bind
  · rintro _ t ht
    have herased := hr.over.trans ht
    rcases o with (e | a) | u
    · exact herased
    · exact herased
    · exact herased
  · rintro i t ht
    exact hr.over.trans ht

end Parser

open TreeProjection.Parser

variable [TokenSource σ] {P : Stream σ → Prop} {p : Parser σ}

/-- An operation on trial. -/
theorem Operation.ends_erased (hkept : Stream.Kept P) (op : Operation β) (hp : P p.input)
    (htrial : p.isSpeculating = true) : Ends op.run p fun _ q => p.Erased P q := by
  cases op with
  | ahead k => exact ends_ahead_erased hkept k hp
  | expect ty follow => exact ends_expect_erased hkept ty follow hp htrial
  | consume => exact ends_consume_erased hkept hp htrial
  | sync expecting =>
      change Ends (get >>= _) _ _
      rw [ends_get_bind, if_pos htrial]
      exact .refl hp
  | require holds text => exact ends_require_erased hkept holds text hp
  | noViableAlt depth => exact ends_raiseNoViableAlt_erased hkept depth hp
  | mismatch expected => exact ends_raiseMismatch_erased hkept expected hp

/-- An error leaf on trial, and a look at the parser's state. -/
theorem Direct.ends_erased (hkept : Stream.Kept P) {d : Direct β} (hd : d.isTentative = true) (hp : P p.input)
    (htrial : p.isSpeculating = true) : Ends d.run p fun _ q => p.Erased P q := by
  cases d with
  | errorLeaf t =>
      change Ends (get >>= _) _ _
      rw [ends_get_bind, if_pos htrial]
      exact .refl hp
  | probe probe => exact ends_probe_erased hkept probe hp
  | report | dropListeners | cancel | note | hook => cases hd

/-- **On trial nothing happens but reading and numbering**, however a recognizer ends. -/
theorem Recognizer.Tentative.ends_erased (hkept : Stream.Kept P) {r : Recognizer α} (h : r.Tentative) (hp : P p.input)
    (htrial : p.isSpeculating = true) : Ends r.run p fun _ q => p.Erased P q := by
  -- what comes next starts on trial again, from an input of the same kind
  have hnext : ∀ {γ : Type} {next : Recognizer γ} {p q : Parser σ}, p.Erased P q → p.isSpeculating = true →
      (∀ {p : Parser σ}, P p.input → p.isSpeculating = true → Ends next.run p fun _ q => p.Erased P q) →
      Ends next.run q fun _ r => q.Erased P r :=
    fun hq htrial ih => ih hq.input (hq.isSpeculating.trans htrial)
  induction r generalizing p with
  | pure a => exact .refl hp
  | outOfSteps => exact .refl hp
  | step op next ih =>
      exact ends_erased_bind (op.ends_erased hkept hp htrial) fun b q hq => hnext hq htrial (ih b (h b))
  | direct d next ih =>
      exact ends_erased_bind (Direct.ends_erased hkept h.1 hp htrial) fun b q hq => hnext hq htrial (ih b (h.2 b))
  | rule r body next ihbody ihnext =>
      exact ends_erased_bind (ends_rule_erased hp htrial fun q hq htrial => ihbody () h.1 hq htrial) fun u q hq =>
        hnext hq htrial (ihnext u (h.2 u))
  | invoke follow body next ihbody ihnext =>
      exact ends_erased_bind (ends_invoke_erased (ihbody () h.1 (p := { p with follow := follow :: p.follow }) hp htrial))
        fun b q hq => hnext hq htrial (ihnext b (h.2 b))
  | speculate body next ihbody ihnext =>
      exact ends_erased_bind (ends_speculate_trying hkept hp fun q hq htrial => ihbody () h.1 hq htrial) fun b q hq =>
        hnext hq htrial (ihnext b (h.2 b))
  | attempt body next ihbody ihnext =>
      exact ends_erased_bind (ends_attempt_erased (ihbody () h.1 hp htrial)) fun b q hq =>
        hnext hq htrial (ihnext b (h.2 b))

/-! ## A trial from outside -/

/-- **What a trial leaves behind**, from every state in which the input is on a tape, whether the source fails or not and
however the body ends: what has been read and numbered.  The input has been started, and stands where it stood, or
at the first visible token if it had not been started before. -/
theorem Parser.ends_speculate_erased (hkept : Stream.Kept P) {body : Recognizer Unit} (hbody : body.Tentative) {x : Tape}
    {i : Nat} (hp : P p.input) (hfacing : p.input.Facing x i) : Ends (speculate body.run) p fun _ q =>
      p.Erased P q ∧ q.input.started = true ∧ (q.index = p.index ∨ p.input.started = false ∧ q.index = i) := by
  have hindex : ∀ q : Parser σ, q.index = i → q.index = p.index ∨ p.input.started = false ∧ q.index = i := by
    intro q hq
    cases hfacing with
    | standing h => exact .inl (hq.trans h.cursor.symm)
    | fresh _ hstarted _ => exact .inr ⟨hstarted, hq⟩
  have hahead : Ends (ahead 1) p fun o q => q = { p with input := q.input } ∧ P q.input ∧ q.input.started = true ∧
      ((∃ t, o = .ok t ∧ q.input.Standing x i) ∨ (∃ e, o = .error e) ∧ q.index = p.index) := by
    have hread := (Stream.ends_ahead_one hfacing).and ((hkept.ahead 1 _ hp).and (Stream.ends_ahead_started 1 _))
    refine ends_onInput (hread.mono ?_)
    rintro _ s ⟨⟨t, rfl, hs⟩ | ⟨⟨e, rfl⟩, hcursor⟩, hkeep, hstarted⟩
    · exact ⟨rfl, hkeep, hstarted, .inl ⟨t, rfl, hs⟩⟩
    · exact ⟨rfl, hkeep, hstarted, .inr ⟨⟨_, rfl⟩, hcursor⟩⟩
  unfold speculate
  apply hahead.bind
  · rintro t q ⟨hsame, hq, -, ⟨_, -, hstanding⟩ | ⟨⟨e, ⟨⟩⟩, -⟩⟩
    have hread : p.Erased P q := by
      rw [hsame]
      exact .reread hq
    have hcursor : q.index = i := hstanding.cursor
    -- while the body is tried, the token that was current stays where it is
    have hstays := hkept.and ((Stream.stable_started (σ := σ)).kept.and (Stream.stable_getElem? i (x.token i)).kept)
    have hnow : P q.input ∧ q.input.started = true ∧ q.input.buffer[i]? = some (x.token i) :=
      ⟨hq, hstanding.started, hstanding.reads.get i hstanding.lt_size⟩
    rw [ends_get_bind, ends_modify_bind]
    refine ends_observe_bind (hbody.ends_erased hstays (p := { q with speculating := q.speculating + 1 }) hnow
      (by simp [isSpeculating])) fun o r hr => ?_
    rw [ends_modify_bind, hcursor]
    obtain ⟨hkeep, hstarted, hget⟩ := hr.input
    have hseek := Stream.seek_of_isStop hstarted hget hstanding.isStop
    have hback : P { r.input with cursor := i } := (hkept.seek i r.input hkeep).of_ok hseek
    have hover : p.Erased P { r with
        input := { r.input with cursor := i }
        speculating := r.speculating - 1
        frames := lastOf q.frames.length r.frames
        follow := lastOf q.follow.length r.follow } := by
      have herased : q.Erased P _ := (Erased.mk hr.same hkeep hr.numbers).over
      exact (hread.trans herased).trans (.reread hback)
    refine (Ends.bind_of_ok (a := ()) (by simp only [onInput, hseek]; rfl)).mpr ?_
    rcases o with (e | a) | u
    · exact ⟨hover, hstarted, hindex _ rfl⟩
    · exact ⟨hover, hstarted, hindex _ rfl⟩
    · exact ⟨hover, hstarted, hindex _ rfl⟩
  · rintro e q ⟨hsame, hq, hstarted, ⟨_, ⟨⟩, -⟩ | ⟨-, hcursor⟩⟩
    rw [hsame] at hcursor ⊢
    exact ⟨.reread hq, hstarted, .inl hcursor⟩

end TreeProjection
