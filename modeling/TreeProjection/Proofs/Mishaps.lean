import TreeProjection.Proofs.Moments

/-! # Exceptions on their way

An operation that cannot go on raises an exception, and the next rule around it catches the exception, unless someone
has taken it before: a recognizer that runs a body for its exception, or a trial.  Each exception has a number of its
own, wherever it is raised and whatever becomes of it.

* `Mishap`, `Recognizer.mishaps` — the exceptions that a run raises and catches, in order.
* `Ascending` — numbers that are given out one after the other.
* `Recognizer.Ordinary.ends_tried` — on trial exceptions are raised, and none is caught. -/

namespace TreeProjection

open TreeProjection.Parser

variable {σ α β : Type}

/-- **A mishap of a run**, with the state that the parser is in. -/
inductive Mishap (σ : Type) where
  /-- An operation has raised an exception. -/
  | raised (e : RecognitionException) (p : Parser σ)
  /-- The body of a rule has failed, and the rule is about to report that. -/
  | caught (e : RecognitionException) (p : Parser σ)

namespace Mishap

/-- The exception that has been raised. -/
def raised? : Mishap σ → Option RecognitionException
  | raised e _ => some e
  | caught .. => none

/-- The exception that has been raised on trial. -/
def tried? : Mishap σ → Option RecognitionException
  | raised e p => if p.isSpeculating then some e else none
  | caught .. => none

/-- The exception that has been raised outside trials. -/
def acted? : Mishap σ → Option RecognitionException
  | raised e p => if p.isSpeculating then none else some e
  | caught .. => none

/-- The exception that a rule has caught. -/
def caught? : Mishap σ → Option RecognitionException
  | raised .. => none
  | caught e _ => some e

end Mishap

namespace Parser

/-- What comes of the failure of an action, if it fails. -/
def failing {γ : Type} (x : ParserM σ α) (p : Parser σ) (f : RecognitionException → Parser σ → List γ) : List γ :=
  match x p with
  | .error (.recognition e) q => f e q
  | _ => []

/-- The exception that the body of a rule fails with is caught, unless the parser is on trial. -/
def catching (body : ParserM σ Unit) (p : Parser σ) : List (Mishap σ) :=
  failing body p fun e q => if q.isSpeculating then [] else [.caught e q]

/-- What the listeners are told of a failure: nothing while reports are held back. -/
def told (p : Parser σ) (e : RecognitionException) : List Report :=
  if p.recovery.inRecovery then [] else [p.failureReport e]

/-- What the listeners are told of a failure tells of its exception. -/
theorem exception_of_mem_told {p : Parser σ} {e : RecognitionException} {r : Report} (h : r ∈ p.told e) :
    r.exception = some e := by
  unfold told at h
  split at h
  · cases h
  · rw [List.mem_singleton.mp h]
    rfl

end Parser

/-- What the listeners are told of a mishap. -/
def Mishap.told : Mishap σ → List Report
  | raised .. => []
  | caught e p => p.told e

/-- The numbers of the exceptions that are raised. -/
def Mishap.numbers (ms : List (Mishap σ)) : List Nat := (ms.filterMap raised?).map RecognitionException.id

@[simp] theorem Mishap.numbers_append (ms ms' : List (Mishap σ)) : numbers (ms ++ ms') = numbers ms ++ numbers ms' := by
  simp [numbers]

variable [TokenSource σ]

/-- **The mishaps of a run**, one after the other. -/
def Recognizer.mishaps {α : Type} : Recognizer α → Parser σ → List (Mishap σ)
  | .pure _, _ => []
  | .outOfSteps, _ => []
  | .step op next, p =>
    (failing op.run p fun e q => [.raised e q]) ++ onward op.run p fun b q => (next b).mishaps q
  | .direct d next, p =>
    (failing d.run p fun e q => [.raised e q]) ++ onward d.run p fun b q => (next b).mishaps q
  | .rule r body next, p =>
    (onward (Parser.enterRule r) p fun _ p₁ => (body ()).mishaps p₁ ++ catching (body ()).run p₁) ++
    onward (Parser.rule r (body ()).run) p fun u q => (next u).mishaps q
  | .invoke follow body next, p =>
    (body ()).mishaps { p with follow := follow :: p.follow } ++
    onward (Parser.invoke follow (body ()).run) p fun b q => (next b).mishaps q
  | .speculate body next, p =>
    (onward (Parser.ahead 1) p fun _ q => (body ()).mishaps { q with speculating := q.speculating + 1 }) ++
    onward (Parser.speculate (body ()).run) p fun b q => (next b).mishaps q
  | .attempt body next, p =>
    (body ()).mishaps p ++ onward (Parser.attempt (body ()).run) p fun b q => (next b).mishaps q

/-! ## Numbers that are given out -/

/-- **Numbers that are given out one after the other**, from one on and below another. -/
structure Ascending (n : Nat) (ids : List Nat) (m : Nat) : Prop where
  /-- Numbers are not given back. -/
  le : n ≤ m
  /-- Each is greater than those before it. -/
  pairwise : ids.Pairwise (· < ·)
  /-- They lie between the two. -/
  bounds : ∀ i ∈ ids, n ≤ i ∧ i < m

namespace Ascending

variable {n m k : Nat} {ids ids' : List Nat}

/-- No number has been given out. -/
theorem nil (h : n ≤ m) : Ascending n [] m := ⟨h, .nil, nofun⟩

/-- One number has been given out. -/
theorem single (h : n ≤ k) (h' : k < m) : Ascending n [k] m :=
  ⟨Nat.le_trans h (Nat.le_of_lt h'), List.pairwise_singleton _ _, by simpa using ⟨h, h'⟩⟩

/-- First some numbers are given out, then others. -/
theorem append (h : Ascending n ids m) (h' : Ascending m ids' k) : Ascending n (ids ++ ids') k where
  le := Nat.le_trans h.le h'.le
  pairwise := List.pairwise_append.mpr ⟨h.pairwise, h'.pairwise, fun i hi j hj =>
    Nat.lt_of_lt_of_le (h.bounds i hi).2 (h'.bounds j hj).1⟩
  bounds i hi := by
    have hle := h.le
    have hle' := h'.le
    rcases List.mem_append.mp hi with hi | hi
    · have hbounds := h.bounds i hi
      omega
    · have hbounds := h'.bounds i hi
      omega

/-- No number is given out twice. -/
theorem nodup (h : Ascending n ids m) : ids.Nodup := h.pairwise.imp Nat.ne_of_lt

end Ascending

/-! ## On trial -/

namespace Parser

variable {p q r : Parser σ}

/-- **An exception takes the next number**, and nothing else takes one. -/
def Takes (p : Parser σ) : Except Interrupt α → Parser σ → Prop
  | .error (.recognition e), q => e.id = p.nextException ∧ q.nextException = p.nextException + 1
  | _, q => q.nextException = p.nextException

omit [TokenSource σ] in
/-- Reading takes no number, and what comes after it may fail. -/
theorem ends_takes_bind {act : ParserM σ α} {next : α → ParserM σ β}
    (h : Ends act p fun o q => p.Idle q ∧ (∃ s, q = { p with input := s }) ∧ ∀ e, o ≠ .error (.recognition e))
    (hnext : ∀ a q, p.Idle q → Ends (next a) q (Takes q)) : Ends (act >>= next) p (Takes p) := by
  refine h.bind ?_ ?_
  · rintro a _ ⟨hidle, ⟨s, rfl⟩, -⟩
    exact hnext a _ hidle
  · rintro i _ ⟨-, ⟨s, rfl⟩, hi⟩
    cases i with
    | recognition e => exact absurd rfl (hi e)
    | abort _ => rfl

/-- Failing takes a number. -/
theorem ends_raiseMismatch_takes (expected : TokenSet) : Ends (raiseMismatch expected : ParserM σ α) p (Takes p) :=
  ends_takes_bind (ends_ahead_idle 1 p) fun _ _ _ => ⟨rfl, rfl⟩

/-- Failing takes a number. -/
theorem ends_raiseNoViableAlt_takes (depth : Nat) : Ends (raiseNoViableAlt depth : ParserM σ α) p (Takes p) :=
  ends_takes_bind (ends_ahead_idle 1 p) fun _ q _ => ends_takes_bind (ends_ahead_idle _ q) fun _ _ _ => ⟨rfl, rfl⟩

/-- Failing unless a condition holds takes a number if it does not. -/
theorem ends_require_takes (holds : Bool) (text : String) : Ends (require holds text) p (Takes p) := by
  unfold require
  cases holds with
  | true => rfl
  | false => exact ends_takes_bind (ends_ahead_idle 1 p) fun _ _ _ => ⟨rfl, rfl⟩

/-- Consuming on trial takes no number. -/
theorem ends_consume_takes (hp : p.isSpeculating = true) : Ends consume p (Takes p) := by
  unfold consume
  refine ends_takes_bind (ends_ahead_idle 1 p) fun _ q hq => ?_
  refine ends_takes_bind (ends_pass_idle q) fun _ r hr => ?_
  rw [ends_get_bind, if_pos (by rw [hr.isSpeculating, hq.isSpeculating, hp])]
  rfl

/-- Matching on trial takes a number if it fails. -/
theorem ends_expect_takes (hp : p.isSpeculating = true) (ty : TokenType) (follow : TokenSet) :
    Ends (expect ty follow) p (Takes p) := by
  unfold expect
  refine ends_takes_bind (ends_ahead_idle 1 p) fun t q hq => ?_
  have htrial : q.isSpeculating = true := hq.isSpeculating.trans hp
  by_cases hty : (t.ty == ty) = true
  · simp only [hty, if_true]
    rw [ends_get_bind]
    simp only [htrial, if_true]
    exact ends_consume_takes htrial
  · simp only [hty, if_false, Bool.false_eq_true]
    rw [ends_get_bind]
    simp only [htrial, if_true]
    cases TokenSet.single? ty with
    | ok set => exact ends_raiseMismatch_takes set
    | error v => rfl

/-- **What happens on trial**: exceptions are raised, one after the other, and none is caught. -/
structure Tried (p : Parser σ) (ms : List (Mishap σ)) (q : Parser σ) : Prop where
  /-- Exceptions are numbered as they are raised. -/
  numbered : Ascending p.nextException (Mishap.numbers ms) q.nextException
  /-- All that happens is that exceptions are raised on trial. -/
  trying : ∀ m ∈ ms, ∃ e s, m = .raised e s ∧ s.isSpeculating = true

namespace Tried

variable {ms ms' : List (Mishap σ)}

omit [TokenSource σ] in
/-- Nothing has happened. -/
theorem nil (h : q.nextException = p.nextException) : Tried p [] q :=
  ⟨.nil (Nat.le_of_eq h.symm), fun _ hm => absurd hm List.not_mem_nil⟩

omit [TokenSource σ] in
/-- No number has been given out before. -/
theorem after (h : Tried q ms r) (hq : q.nextException = p.nextException) : Tried p ms r :=
  ⟨hq ▸ h.numbered, h.trying⟩

omit [TokenSource σ] in
/-- No number has been given out since. -/
theorem before (h : Tried p ms q) (hr : r.nextException = q.nextException) : Tried p ms r :=
  ⟨hr ▸ h.numbered, h.trying⟩

omit [TokenSource σ] in
/-- First one thing has happened, then another. -/
theorem append (h : Tried p ms q) (h' : Tried q ms' r) : Tried p (ms ++ ms') r where
  numbered := by
    rw [Mishap.numbers_append]
    exact h.numbered.append h'.numbered
  trying m hm := (List.mem_append.mp hm).elim (h.trying m) (h'.trying m)

end Tried

omit [TokenSource σ] in
/-- **One action after the other**, on trial. -/
theorem ends_tried_bind {act : ParserM σ α} {next : α → ParserM σ β} {ms : List (Mishap σ)}
    {f : α → Parser σ → List (Mishap σ)} (hp : p.isSpeculating = true)
    (h : Ends act p fun _ q => p.Idle q ∧ Tried p ms q)
    (hnext : ∀ a q, q.isSpeculating = true → Ends (next a) q fun _ r => Tried q (f a q) r) :
    Ends (act >>= next) p fun _ r => Tried p (ms ++ onward act p f) r := by
  refine (h.and (Ends.self act p)).bind ?_ ?_
  · rintro a q ⟨⟨hidle, htried⟩, hact⟩
    have honward : onward act p f = f a q := by simp only [onward, hact]
    rw [honward]
    exact (hnext a q (hidle.isSpeculating.trans hp)).mono fun _ _ hr => htried.append hr
  · rintro i q ⟨⟨-, htried⟩, hact⟩
    have honward : onward act p f = [] := by simp only [onward, hact]
    rwa [honward, List.append_nil]

/-- Entering a rule takes no number. -/
theorem ends_enterRule_next (r : RuleIndex) (p : Parser σ) :
    Ends (enterRule r) p fun _ q => q.nextException = p.nextException := by
  refine (enterRule_activates r p).mono fun o q hends => ?_
  cases hends with
  | calledOff | tooDeep | unmarked => rfl
  | unread _ _ ahead =>
      obtain ⟨-, ⟨s, rfl⟩, -⟩ := (ends_ahead_idle 1 p).of_error ahead
      rfl
  | marked _ _ ahead =>
      obtain ⟨-, ⟨s, rfl⟩, -⟩ := (ends_ahead_idle 1 p).of_ok ahead
      rfl

/-- Leaving a rule takes no number, and nothing is reported. -/
theorem ends_leave_kept (o : Except Interrupt Unit) (p : Parser σ) :
    Ends (do
      let exited ← observe exitRule
      release o
      release exited) p fun _ q => q.nextException = p.nextException ∧ q.reports = p.reports := by
  refine ends_observe_bind (ends_exitRule_kept p) ?_
  intro exited q hq
  cases o with
  | ok _ => exact (ends_release exited).mpr hq
  | error i => exact hq

/-- **A rule on trial.** What its body fails with is not caught. -/
theorem ends_rule_tried (hp : p.isSpeculating = true) {r : RuleIndex} {body : ParserM σ Unit}
    {f : Parser σ → List (Mishap σ)}
    (hbody : ∀ q, q.isSpeculating = true → Ends body q fun _ q' => q.Idle q' ∧ Tried q (f q) q') :
    Ends (rule r body) p fun _ q =>
      Tried p (onward (enterRule r) p fun _ p₁ => f p₁ ++ catching body p₁) q := by
  unfold rule
  refine (((ends_enterRule_idle r p).and (ends_enterRule_next r p)).and (Ends.self _ _)).bind ?_ ?_
  · rintro u p₁ ⟨⟨⟨hidle, -⟩, hnext⟩, henter⟩
    have htrial : p₁.isSpeculating = true := hidle.isSpeculating.trans hp
    -- on trial no failure is caught, so the rule adds no mishap of its own
    have hcatching : catching body p₁ = [] := by
      unfold catching failing
      cases hrun : body p₁ with
      | ok u q => rfl
      | error i q =>
          cases i with
          | abort _ => rfl
          | recognition e => exact if_pos (((hbody p₁ htrial).of_error hrun).1.isSpeculating.trans htrial)
    have honward : (onward (enterRule r) p fun _ p₁ => f p₁ ++ catching body p₁) = f p₁ := by
      simp only [onward, henter, hcatching, List.append_nil]
    rw [honward]
    refine ends_observe_bind (hbody p₁ htrial) fun o q hq => ?_
    -- the number that was taken last stays the last, whatever the rule is left with
    have hleave : ∀ o' : Except Interrupt Unit, Ends (do
        let exited ← observe exitRule
        release o'
        release exited) q fun _ q' => Tried p (f p₁) q' := fun o' =>
      (ends_leave_kept o' q).mono fun _ q' hq' => (hq.2.after hnext).before hq'.1
    match o with
    | .ok _ => exact hleave _
    | .error (.abort _) => exact hleave _
    | .error (.recognition _) =>
        change Ends (get >>= _) _ _
        rw [ends_get_bind, if_pos (hq.1.isSpeculating.trans htrial)]
        exact hleave _
  · rintro i q ⟨⟨-, hnext⟩, henter⟩
    have honward : (onward (enterRule r) p fun _ p₁ => f p₁ ++ catching body p₁) = [] := by
      simp only [onward, henter]
    rw [honward]
    exact .nil hnext

/-- **A trial**, wherever it is made. -/
theorem ends_speculate_tried {body : ParserM σ Unit} {f : Parser σ → List (Mishap σ)}
    (hbody : ∀ q, q.isSpeculating = true → Ends body q fun _ q' => q.Idle q' ∧ Tried q (f q) q') (p : Parser σ) :
    Ends (speculate body) p fun _ q =>
      Tried p (onward (ahead 1) p fun _ q => f { q with speculating := q.speculating + 1 }) q := by
  unfold speculate
  refine ((ends_ahead_idle 1 p).and (Ends.self (ahead 1) p)).bind ?_ ?_
  · rintro t _ ⟨⟨-, ⟨s, rfl⟩, -⟩, hahead⟩
    simp only [onward, hahead]
    rw [ends_get_bind, ends_modify_bind]
    refine ends_observe_bind (hbody _ (by simp [isSpeculating])) ?_
    rintro o q ⟨-, hq⟩
    rw [ends_modify_bind]
    refine (ends_seek_idle _ _).bind ?_ ?_
    · rintro _ _ ⟨-, ⟨u, rfl⟩, -⟩
      cases o with
      | ok _ => exact ⟨hq.numbered, hq.trying⟩
      | error i => cases i <;> exact ⟨hq.numbered, hq.trying⟩
    · rintro i _ ⟨-, ⟨u, rfl⟩, -⟩
      exact ⟨hq.numbered, hq.trying⟩
  · rintro i _ ⟨⟨-, ⟨s, rfl⟩, -⟩, hahead⟩
    simp only [onward, hahead]
    exact .nil rfl

end Parser

/-- An operation on trial takes a number if it fails. -/
theorem Operation.ends_takes {p : Parser σ} (op : Operation β) (hp : p.isSpeculating = true) :
    Ends op.run p (Takes p) := by
  cases op with
  | ahead k =>
      refine (ends_ahead_idle k p).mono ?_
      rintro o _ ⟨-, ⟨s, rfl⟩, ho⟩
      match o with
      | .ok _ => rfl
      | .error (.recognition e) => exact absurd rfl (ho e)
      | .error (.abort _) => rfl
  | expect ty follow => exact ends_expect_takes hp ty follow
  | consume => exact ends_consume_takes hp
  | sync expecting =>
      change Ends (get >>= _) _ _
      rw [ends_get_bind, if_pos hp]
      rfl
  | require holds text => exact ends_require_takes holds text
  | noViableAlt depth => exact ends_raiseNoViableAlt_takes depth
  | mismatch expected => exact ends_raiseMismatch_takes expected

/-- What happens when an operation is carried out on trial. -/
theorem Operation.ends_tried {p : Parser σ} (op : Operation β) (hp : p.isSpeculating = true) :
    Ends op.run p fun _ q => p.Idle q ∧ Tried p (failing op.run p fun e q => [.raised e q]) q := by
  refine (((op.ends_trying hp).and (op.ends_takes hp)).and (Ends.self op.run p)).mono ?_
  rintro o q ⟨⟨hidle, htakes⟩, hrun⟩
  refine ⟨hidle, ?_⟩
  match o with
  | .ok b =>
      simp only [failing, hrun]
      exact .nil htakes
  | .error (.abort _) =>
      simp only [failing, hrun]
      exact .nil htakes
  | .error (.recognition e) =>
      simp only [failing, hrun]
      obtain ⟨hid, hnext⟩ := htakes
      refine ⟨.single (Nat.le_of_eq hid.symm) (by omega), fun m hm => ?_⟩
      exact ⟨e, q, List.mem_singleton.mp hm, hidle.isSpeculating.trans hp⟩

/-- **On trial exceptions are raised, and none is caught.** -/
theorem Recognizer.Ordinary.ends_tried {p : Parser σ} {r : Recognizer α} (h : r.Ordinary)
    (hp : p.isSpeculating = true) : Ends r.run p fun _ q => Tried p (r.mishaps p) q := by
  -- whatever runs on trial stays on trial, so that no rule catches anything
  -- induction on the recognizer: mishaps take their numbers one after another, in the order of the parts
  induction r generalizing p with
  | pure a => exact .nil rfl
  | outOfSteps => exact .nil rfl
  | step op next ih => exact ends_tried_bind hp (op.ends_tried hp) fun b q hq => ih b (h b) hq
  | direct d next ih => exact h.elim
  | rule r body next ihbody ihnext =>
      have hbody : ∀ q : Parser σ, q.isSpeculating = true →
          Ends (body ()).run q fun _ q' => q.Idle q' ∧ Tried q ((body ()).mishaps q) q' :=
        fun q hq => (h.1.ends_idle hq).and (ihbody () h.1 hq)
      refine ends_tried_bind hp ?_ fun u q hq => ihnext u (h.2 u) hq
      exact (ends_rule_trying (fun q hq => h.1.ends_idle hq) hp).and (ends_rule_tried hp hbody)
  | invoke follow body next ihbody ihnext =>
      have hinvoked : ({ p with follow := follow :: p.follow } : Parser σ).isSpeculating = true := hp
      refine ends_tried_bind hp ?_ fun b q hq => ihnext b (h.2 b) hq
      refine (ends_invoke_idle (h.1.ends_idle hinvoked)).and ?_
      unfold Parser.invoke
      rw [ends_modify_bind]
      refine ends_observe_bind (ihbody () h.1 hinvoked) ?_
      rintro o q ⟨hnumbered, htrying⟩
      rw [ends_modify_bind, ends_release]
      exact ⟨hnumbered, htrying⟩
  | speculate body next ihbody ihnext =>
      have hbody : ∀ q : Parser σ, q.isSpeculating = true →
          Ends (body ()).run q fun _ q' => q.Idle q' ∧ Tried q ((body ()).mishaps q) q' :=
        fun q hq => (h.1.ends_idle hq).and (ihbody () h.1 hq)
      refine ends_tried_bind hp ?_ fun b q hq => ihnext b (h.2 b) hq
      exact ((ends_speculate_idle (fun q hq => h.1.ends_idle hq) p).mono fun _ _ hq => hq.1).and
        (ends_speculate_tried hbody p)
  | attempt body next ihbody ihnext =>
      refine ends_tried_bind hp ?_ fun b q hq => ihnext b (h.2 b) hq
      refine (ends_attempt_idle (h.1.ends_idle hp)).and ?_
      unfold Parser.attempt
      refine ends_observe_bind (ihbody () h.1 hp) fun o q hq => ?_
      match o with
      | .ok _ => exact hq
      | .error (.recognition _) => exact hq
      | .error (.abort _) => exact hq

end TreeProjection
