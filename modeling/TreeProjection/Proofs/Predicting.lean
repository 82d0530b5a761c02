import TreeProjection.Proofs.Bursts
import TreeProjection.Proofs.Consumed
import TreeProjection.Proofs.Lockstep

/-! # Trials foretell

A trial of a body answers whether the body, run in earnest from the same state, gets through without a report.  The two
runs go hand in hand: they read the same tokens and enter the same rules.  Only where a token does not fit do they part.
From there on the trial comes to its end, while the other run recovers, and a recovery begins with a report.

* `Recognizer.Foretold` — bodies that neither guard loops nor catch failures.
* `Recognizer.Falters` — somewhere on its way a run fails to recognize the input.
* `Parser.Level` — a parser on trial, and another one at the same point of the same run.
* `Parser.Mirrors` — what an action does on trial is what it does otherwise, up to a failure.
* `Recognizer.Foretold.speculate_foretells` — what a trial foretells. -/

namespace TreeProjection

variable {σ α β : Type}

/-! ## Bodies that can be foretold -/

/-- Whether an operation is the guard of a loop. -/
def Operation.isSync : Operation β → Bool
  | .sync _ => true
  | _ => false

/-- **Whether a recognizer can be foretold**: it is made of the operations of grammars, but neither guards loops nor
catches failures. -/
def Recognizer.Foretold {α : Type} : Recognizer α → Prop
  | .pure _ => True
  | .outOfSteps => True
  | .step op next => op.isSync = false ∧ ∀ b, (next b).Foretold
  | .direct _ _ => False
  | .rule _ body next => (body ()).Foretold ∧ ∀ u, (next u).Foretold
  | .invoke _ body next => (body ()).Foretold ∧ ∀ b, (next b).Foretold
  | .speculate body next => (body ()).Foretold ∧ ∀ b, (next b).Foretold
  | .attempt _ _ => False

/-- A recognizer that can be foretold is made of the operations of grammars. -/
theorem Recognizer.Foretold.ordinary {α : Type} {r : Recognizer α} (h : r.Foretold) : r.Ordinary := by
  induction r with
  | pure a => trivial
  | outOfSteps => trivial
  | step op next ih => exact fun b => ih b (h.2 b)
  | direct d next ih => exact h
  | rule r body next ihbody ihnext => exact ⟨ihbody () h.1, fun u => ihnext u (h.2 u)⟩
  | invoke follow body next ihbody ihnext => exact ⟨ihbody () h.1, fun b => ihnext b (h.2 b)⟩
  | speculate body next ihbody ihnext => exact ⟨ihbody () h.1, fun b => ihnext b (h.2 b)⟩
  | attempt body next ihbody ihnext => exact h.elim

variable [TokenSource σ]

/-- Whether an operation fails to recognize the input.  Where a type is expected, that is so if the current token has
another one, whether or not the parser mends it. -/
def Operation.Falters (op : Operation β) (p : Parser σ) : Prop :=
  match op with
  | .expect ty _ => ∃ t q, Parser.ahead 1 p = .ok t q ∧ t.ty ≠ ty
  | op => ∃ e q, op.run p = .error (.recognition e) q

/-- **Whether a run fails to recognize the input** somewhere on its way.  What is only tried does not count. -/
def Recognizer.Falters {α : Type} : Recognizer α → Parser σ → Prop
  | .pure _, _ => False
  | .outOfSteps, _ => False
  | .step op next, p => op.Falters p ∨ ∃ b q, op.run p = .ok b q ∧ (next b).Falters q
  | .direct d next, p => ∃ b q, d.run p = .ok b q ∧ (next b).Falters q
  | .rule r body next, p =>
    (∃ u p₁, Parser.enterRule r p = .ok u p₁ ∧ (body ()).Falters p₁) ∨
      ∃ u q, Parser.rule r (body ()).run p = .ok u q ∧ (next u).Falters q
  | .invoke follow body next, p =>
    (body ()).Falters { p with follow := follow :: p.follow } ∨
      ∃ b q, Parser.invoke follow (body ()).run p = .ok b q ∧ (next b).Falters q
  | .speculate body next, p => ∃ b q, Parser.speculate (body ()).run p = .ok b q ∧ (next b).Falters q
  | .attempt body next, p =>
    (body ()).Falters p ∨ ∃ b q, Parser.attempt (body ()).run p = .ok b q ∧ (next b).Falters q

/-! ## Starting a stream -/

namespace Stream

variable {s t : Stream σ} {x : Tape} {i : Nat}

/-- **A stream, and the same stream once it has been started**, if that does not call the run off. -/
def Opens (s t : Stream σ) : Prop :=
  s = t ∨ start s = .ok () t ∧ TokenSource.isCancelled s.source = TokenSource.isCancelled t.source

/-- What begins by starting a stream does the same once the stream has been started. -/
theorem Opens.start_bind (h : Opens s t) (ht : t.started = true) (f : Unit → StreamM σ α) :
    (start >>= f) s = (start >>= f) t := by
  obtain rfl | ⟨hstart, -⟩ := h
  · rfl
  · simp only [bind, EStateM.bind, hstart, start_of_started ht]

/-- Whether the run has been called off. -/
theorem Opens.isCancelled (h : Opens s t) :
    TokenSource.isCancelled s.source = TokenSource.isCancelled t.source := by
  obtain rfl | ⟨-, hsame⟩ := h
  · rfl
  · exact hsame

/-- Looking ahead. -/
theorem Opens.ahead_eq (h : Opens s t) (ht : t.started = true) (k : Nat) : ahead k s = ahead k t :=
  h.start_bind ht _

/-- Moving past the current token. -/
theorem Opens.consume_eq (h : Opens s t) (ht : t.started = true) : consume s = consume t :=
  h.start_bind ht _

/-- Moving to a place. -/
theorem Opens.seek_eq (h : Opens s t) (ht : t.started = true) (j : Nat) : seek j s = seek j t :=
  h.start_bind ht _

/-- The token where the cursor stands has been taken. -/
theorem Standing.ahead_one (h : s.Standing x i) : ahead 1 s = .ok (x.token i) s := by
  have hget : s.buffer[s.cursor]? = some (x.token i) := by
    rw [h.cursor]
    exact h.reads.get i h.lt_size
  rw [ahead_one_of_started h.started, hget, Option.elim_some]

/-- A stream that is to be read reads its tape. -/
theorem Facing.reads (h : s.Facing x i) : s.Reads x := by
  cases h with
  | standing h => exact h.reads
  | fresh reads _ _ => exact reads

/-- A stream whose first token is looked at has been started by that. -/
theorem Facing.opens (h : s.Facing x i) {token : Token} (hahead : ahead 1 s = .ok token t)
    (hsame : TokenSource.isCancelled s.source = TokenSource.isCancelled t.source) : Opens s t ∧ t.Standing x i := by
  obtain ⟨u, t', hstart, hrest⟩ := exists_of_bind_ok hahead
  have hstanding := (answers_start h).of_ok hstart
  -- looking again takes nothing more, so that the stream is the one that was started
  have hagain : ahead 1 t' = .ok token t := bind_ok (start_of_started hstanding.started) hrest
  rw [hstanding.ahead_one] at hagain
  cases hagain
  exact ⟨.inr ⟨hstart, hsame⟩, hstanding⟩

omit [TokenSource σ] in
/-- A token that has been taken stays where it is. -/
theorem stable_getElem? (i : Nat) (token : Token) : Stable fun s : Stream σ => s.buffer[i]? = some token where
  source _ _ h := h
  push s t h := by
    have hi := (Array.getElem?_eq_some_iff.mp h).1
    simp only [push, Array.getElem?_push_lt hi]
    rw [← Array.getElem?_eq_getElem hi]
    exact h
  cursor _ _ h := h
  started _ h := h

/-- Moving to a place that has been taken and that is one to stop at. -/
theorem seek_of_isStop (hstarted : s.started = true) {token : Token} (hget : s.buffer[i]? = some token)
    (hstop : isStop token = true) : seek i s = .ok () { s with cursor := i } := by
  have hfind : s.findStop? i = some i := by
    have hi := (Array.getElem?_eq_some_iff.mp hget).1
    obtain ⟨n, hn⟩ : ∃ n, s.buffer.size - i = n + 1 := ⟨s.buffer.size - i - 1, by omega⟩
    simp [findStop?, hn, stopAmong?, hget, hstop]
  change (start >>= fun _ => nextStop i >>= fun cursor => modify fun s => { s with cursor }) s = _
  simp only [bind, EStateM.bind, start_of_started hstarted, nextStop, hfind]
  rfl

/-- The tokens of a tape carry their places. -/
theorem Reads.numbered (h : s.Reads x) : s.Numbered := by
  intro t ht
  obtain ⟨i, hi, rfl⟩ := Array.mem_iff_getElem.mp ht
  have hget := h.get i hi
  rw [Array.getElem?_eq_getElem hi, Option.some.injEq] at hget
  rw [hget]
  exact x.isConjured_token i

end Stream

/-! ## Two parsers at the same point -/

namespace Parser

variable {x : Tape} {t r t' r' : Parser σ} {o : Except Interrupt α} {o' : Except Interrupt α}

/-- **A parser on trial, and another one at the same point of the same run**, which is on trial as well or in earnest.  In
earnest reports are not held back. -/
structure Level (x : Tape) (t r : Parser σ) : Prop where
  /-- Both read the same. -/
  opens : Stream.Opens r.input t.input
  /-- The input stands at a place of the tape. -/
  standing : t.input.Standing x t.index
  /-- The same number of rules are active. -/
  frames : r.frames.length = t.frames.length
  /-- Both are under the same limit. -/
  limit : r.recursionLimit = t.recursionLimit
  /-- The first one is on trial. -/
  trying : t.isSpeculating = true
  /-- If the other one is not, then it holds no reports back. -/
  mode : r.isSpeculating = true ∨ r.Earnest ∧ r.recovery.inRecovery = false

namespace Level

/-- Both have read on. -/
theorem read (h : Level x t r) {s : Stream σ} (hs : s.Standing x s.cursor) :
    Level x { t with input := s } { r with input := s } where
  opens := .inl rfl
  standing := hs
  frames := h.frames
  limit := h.limit
  trying := h.trying
  mode := h.mode.imp_right fun ⟨hr, hfree⟩ => ⟨⟨hr.acting, hr.noted, hr.denied, hs.reads.numbered⟩, hfree⟩

/-- The token that is current is the same on both sides. -/
theorem ahead_one (h : Level x t r) :
    ahead 1 t = .ok (x.token t.index) t ∧
      ahead 1 r = .ok (x.token t.index) { r with input := t.input } := by
  have hstream := h.standing.ahead_one
  have hother := (h.opens.ahead_eq h.standing.started 1).trans hstream
  constructor
  · simp only [ahead, onInput, hstream]
  · simp only [ahead, onInput, hother]

/-- The token that is current has been taken on both sides. -/
theorem settled (h : Level x t r) : Level x t { r with input := t.input } := h.read h.standing

end Level

/-- **Two actions have ended in the same way.** What failures hold is left open. -/
inductive Agree : Except Interrupt α → Except Interrupt α → Prop where
  /-- Both have given the same answer. -/
  | ok (a : α) : Agree (.ok a) (.ok a)
  /-- Both have failed. -/
  | failed (e e' : RecognitionException) : Agree (.error (.recognition e)) (.error (.recognition e'))
  /-- Both have given the parse up, for the same reason. -/
  | stopped (a : Abort) : Agree (.error (.abort a)) (.error (.abort a))

/-- **The other parser has kept step**: both have ended in the same way, and unless the parse is given up, they are at
the same point again.  Nothing has been reported. -/
structure InStep (x : Tape) (r : Parser σ) (o : Except Interrupt α) (t' : Parser σ) (o' : Except Interrupt α)
    (r' : Parser σ) : Prop where
  /-- Both have ended in the same way. -/
  agree : Agree o o'
  /-- Both have read the same. -/
  opens : Stream.Opens r'.input t'.input
  /-- Both are at the same point again. -/
  level : (∀ a, o ≠ .error (.abort a)) → Level x t' r'
  /-- The same speculations are under way. -/
  speculating : r'.speculating = r.speculating
  /-- Nothing has been reported. -/
  errors : r'.syntaxErrors = r.syntaxErrors

/-- **An action that keeps two parsers in step.** -/
def Lockstep (x : Tape) (act : ParserM σ α) (t r : Parser σ) : Prop :=
  Ends act t fun o t' => Ends act r fun o' r' => InStep x r o t' o' r'

/-- **How the other parser has come along**: it has kept step, or it has gone on in earnest from where the trial has
failed.  Then, if it gets through, it has reported something. -/
inductive Mirrored (x : Tape) (falters : Prop) (r : Parser σ) (o : Except Interrupt α) (t' : Parser σ)
    (o' : Except Interrupt α) (r' : Parser σ) : Prop where
  /-- It has kept step. -/
  | together (step : InStep x r o t' o' r')
    (well : r.isSpeculating = false → ¬ falters ∧ ∀ e, o ≠ .error (.recognition e))
  /-- It has gone on in earnest. -/
  | apart (real : r.isSpeculating = false) (falters : falters)
    (stops : (∃ e, o = .error (.recognition e)) ∨ ∃ v, o = .error (.abort (.broken v)))
    (reports : ∀ a, o' = .ok a → r.syntaxErrors < r'.syntaxErrors ∧ r'.Earnest)

/-- **What an action does on trial is what it does on another parser**, unless it falters there. -/
def Mirrors (x : Tape) (falters : Prop) (act : ParserM σ α) (t r : Parser σ) : Prop :=
  Ends act t fun o t' => Ends act r fun o' r' => Mirrored x falters r o t' o' r'

/-! ## One action after the other -/

/-- A failure is handed on. -/
theorem InStep.of_error {i j : Interrupt}
    (h : InStep x r (.error i : Except Interrupt α) t' (.error j) r') :
    InStep x r (.error i : Except Interrupt β) t' (.error j) r' where
  agree := by
    cases h.agree with
    | failed e e' => exact .failed e e'
    | stopped a => exact .stopped a
  opens := h.opens
  level hne := h.level fun a ha => hne a (congrArg _ (Except.error.inj ha))
  speculating := h.speculating
  errors := h.errors

/-- First one has kept step, and then the other. -/
theorem InStep.after {a : α} {o : Except Interrupt β} {o' : Except Interrupt β} {t₁ r₁ : Parser σ}
    (h : InStep x r (.ok a) t₁ (.ok a) r₁) (h' : InStep x r₁ o t' o' r') : InStep x r o t' o' r' :=
  ⟨h'.agree, h'.opens, h'.level, h'.speculating.trans h.speculating, h'.errors.trans h.errors⟩

/-- A parser that has kept step since some moment has kept step since an earlier one. -/
theorem InStep.since {r₁ : Parser σ} (h : InStep x r₁ o t' o' r') (hspeculating : r₁.speculating = r.speculating)
    (herrors : r₁.syntaxErrors = r.syntaxErrors) : InStep x r o t' o' r' :=
  ⟨h.agree, h.opens, h.level, h.speculating.trans hspeculating, h.errors.trans herrors⟩

/-- **Two actions that keep step** keep step one after the other. -/
theorem Lockstep.bind {act : ParserM σ α} {f : α → ParserM σ β} (h : Lockstep x act t r)
    (hf : ∀ a t' r', Level x t' r' → r'.speculating = r.speculating → Lockstep x (f a) t' r') :
    Lockstep x (act >>= f) t r := by
  refine Ends.bind h ?_ ?_
  · intro a t₁ h₁
    cases hact : act r with
    | ok b r₁ =>
        have hstep := Ends.of_ok h₁ hact
        cases hstep.agree
        refine (hf a t₁ r₁ (hstep.level fun _ h => nomatch h) hstep.speculating).mono fun o t' ho => ?_
        exact (Ends.bind_of_ok hact).mpr (Ends.mono ho fun o' r' h' => hstep.after h')
    | error j r₁ => exact nomatch (Ends.of_error h₁ hact).agree
  · intro i t₁ h₁
    cases hact : act r with
    | ok b r₁ => exact nomatch (Ends.of_ok h₁ hact).agree
    | error j r₁ => exact (Ends.bind_of_error hact).mpr (Ends.of_error h₁ hact).of_error

/-- **What comes after an action that may falter.** If it has, then the other parser goes on from there on its own. -/
theorem Mirrors.bind {act : ParserM σ α} {f : α → ParserM σ β} {falters : Prop}
    (h : Mirrors x falters act t r) (later : α → Parser σ → Prop)
    (hf : ∀ a t' r', Level x t' r' → r'.speculating = r.speculating → Mirrors x (later a r') (f a) t' r')
    (hgrows : falters → ∀ a r', r'.Earnest → Ends (f a) r' fun o r'' =>
      r'.syntaxErrors ≤ r''.syntaxErrors ∧ ∀ b, o = .ok b → r''.Earnest) :
    Mirrors x (falters ∨ ∃ b q, act r = .ok b q ∧ later b q) (act >>= f) t r := by
  refine Ends.bind h ?_ ?_
  · intro a t₁ h₁
    cases hact : act r with
    | error j r₁ =>
        cases Ends.of_error h₁ hact with
        | together step _ => cases step.agree
        | apart _ _ stops _ => obtain ⟨_, ⟨⟩⟩ | ⟨_, ⟨⟩⟩ := stops
    | ok b r₁ =>
        cases Ends.of_ok h₁ hact with
        | apart _ _ stops _ => obtain ⟨_, ⟨⟩⟩ | ⟨_, ⟨⟩⟩ := stops
        | together step well =>
            cases step.agree
            have hsame : r₁.isSpeculating = r.isSpeculating := by simp only [isSpeculating, step.speculating]
            -- up to here nothing has faltered, and what comes next decides
            refine (hf a t₁ r₁ (step.level (by rintro _ ⟨⟩)) step.speculating).mono fun o t' ho => ?_
            refine (Ends.bind_of_ok hact).mpr (Ends.mono ho fun o' r' hmirrored => ?_)
            cases hmirrored with
            | together step' well' =>
                refine .together (step.after step') fun hreal => ?_
                obtain ⟨hlater, hno⟩ := well' (hsame.trans hreal)
                refine ⟨?_, hno⟩
                rintro (hfirst | ⟨b, q, heq, hsecond⟩)
                · exact (well hreal).1 hfirst
                · cases heq
                  exact hlater hsecond
            | apart real falters' stops reports =>
                refine .apart (hsame ▸ real) (.inr ⟨a, r₁, rfl, falters'⟩) stops fun b hb => ?_
                rw [← step.errors]
                exact reports b hb
  · intro i t₁ h₁
    cases hact : act r with
    | ok b r₁ =>
        cases Ends.of_ok h₁ hact with
        | together step _ => cases step.agree
        | apart real falters' stops reports =>
            -- the trial is over, and the other run goes on alone with a report behind it, which no action takes back
            obtain ⟨hmore, hearnest⟩ := reports b rfl
            refine (Ends.bind_of_ok hact).mpr ((hgrows falters' b r₁ hearnest).mono fun o' r' ho => ?_)
            refine .apart real (.inl falters') ?_ fun c hc => ⟨Nat.lt_of_lt_of_le hmore ho.1, ho.2 c hc⟩
            obtain ⟨e, he⟩ | ⟨v, hv⟩ := stops
            · exact .inl ⟨e, congrArg _ (Except.error.inj he)⟩
            · exact .inr ⟨v, congrArg _ (Except.error.inj hv)⟩
    | error j r₁ =>
        refine (Ends.bind_of_error hact).mpr ?_
        cases Ends.of_error h₁ hact with
        | together step well =>
            refine .together step.of_error fun hreal => ⟨?_, fun e he => ?_⟩
            · rintro (hfirst | ⟨b, q, heq, -⟩)
              · exact (well hreal).1 hfirst
              · cases heq
            · exact (well hreal).2 e (congrArg _ (Except.error.inj he))
        | apart real falters' stops reports =>
            refine .apart real (.inl falters') ?_ (by rintro _ ⟨⟩)
            obtain ⟨e, he⟩ | ⟨v, hv⟩ := stops
            · exact .inl ⟨e, congrArg _ (Except.error.inj he)⟩
            · exact .inr ⟨v, congrArg _ (Except.error.inj hv)⟩

/-- **An action that keeps step mirrors**: it falters if it fails to recognize the input. -/
theorem Lockstep.mirrors {act : ParserM σ α} (h : Lockstep x act t r) :
    Mirrors x (∃ e q, act r = .error (.recognition e) q) act t r := by
  refine Ends.mono h fun o t' ho => ?_
  refine (Ends.and ho (Ends.self act r)).mono fun o' r' ⟨step, hself⟩ => ?_
  cases step.agree with
  | ok a =>
      refine .together step fun _ => ⟨?_, fun _ h => nomatch h⟩
      rintro ⟨e, q, heq⟩
      cases hself.symm.trans heq
  | stopped a =>
      refine .together step fun _ => ⟨?_, fun _ h => nomatch h⟩
      rintro ⟨e, q, heq⟩
      cases hself.symm.trans heq
  | failed e e' =>
      cases hreal : r.isSpeculating with
      | true => exact .together step fun h => nomatch hreal.symm.trans h
      | false => exact .apart hreal ⟨e', r', hself⟩ (.inl ⟨e, rfl⟩) fun _ h => nomatch h

/-- Saying otherwise when an action falters. -/
theorem Mirrors.congr {act : ParserM σ α} {falters falters' : Prop} (h : Mirrors x falters act t r)
    (hsame : falters ↔ falters') : Mirrors x falters' act t r := by
  rwa [← hsame]

/-! ## Operations -/

/-- An operation of the input that does the same on both sides. -/
theorem lockstep_onInput {act : StreamM σ α} (h : Level x t r) (hsame : act r.input = act t.input)
    (hstands : Answers act t.input fun _ s => s.Standing x s.cursor) : Lockstep x (onInput act) t r := by
  unfold Lockstep Ends onInput
  cases hact : act t.input with
  | ok a s =>
      simp only [hsame, hact]
      exact ⟨.ok a, .inl rfl, fun _ => h.read (hstands.of_ok hact), rfl, rfl⟩
  | error e s =>
      simp only [hsame, hact]
      exact ⟨.stopped e, .inl rfl, fun hne => absurd rfl (hne e), rfl, rfl⟩

/-- Looking ahead on both sides. -/
theorem lockstep_ahead (h : Level x t r) (k : Nat) : Lockstep x (ahead k) t r :=
  lockstep_onInput h (h.opens.ahead_eq h.standing.started k) <|
    (Stream.answers_ahead (.standing h.standing) k).mono fun _ _ hs => hs.2.cursor.symm ▸ hs.2

/-- Moving past the current token on both sides. -/
theorem lockstep_pass (h : Level x t r) : Lockstep x (onInput Stream.consume) t r :=
  lockstep_onInput h (h.opens.consume_eq h.standing.started) <|
    (Stream.answers_consume (.standing h.standing)).mono fun _ _ hs => hs.cursor.symm ▸ hs

/-- Answering on both sides. -/
theorem InStep.answer (h : Level x t r) (a : α) : InStep x r (.ok a) t (.ok a) r :=
  ⟨.ok a, h.opens, fun _ => h, rfl, rfl⟩

/-- Consuming on both sides. -/
theorem lockstep_consume (h : Level x t r) : Lockstep x consume t r := by
  unfold consume
  refine (lockstep_ahead h 1).bind fun token t₁ r₁ h₁ _ => (lockstep_pass h₁).bind fun _ t₂ r₂ h₂ _ => ?_
  unfold Lockstep
  rw [ends_get_bind]
  simp only [ends_get_bind, h₂.trying, if_true]
  rcases h₂.mode with htrial | ⟨hearnest, hfree⟩
  · simp only [htrial, if_true]
    exact .answer h₂ token
  · simp only [hearnest.isSpeculating, Bool.false_eq_true, if_false]
    refine ⟨.ok token, h₂.opens, fun _ => ?_, rfl, rfl⟩
    exact ⟨h₂.opens, h₂.standing, h₂.frames, h₂.limit, h₂.trying,
      .inr ⟨⟨hearnest.acting, hearnest.noted, hearnest.denied, hearnest.numbered⟩, hfree⟩⟩

/-- Failing on both sides. -/
theorem lockstep_throw (h : Level x t r) (kind : ExceptionKind) (offending : Token) (expected : TokenSet) :
    Lockstep x (do throw (.recognition (← newException kind offending expected)) : ParserM σ α) t r :=
  have hmode := h.mode.imp_right fun ⟨hr, hfree⟩ =>
    And.intro (Earnest.mk (p := { r with nextException := r.nextException + 1 }) hr.acting hr.noted hr.denied
      hr.numbered) hfree
  ⟨.failed _ _, h.opens, fun _ => ⟨h.opens, h.standing, h.frames, h.limit, h.trying, hmode⟩, rfl, rfl⟩

/-- Failing on both sides because of the current token. -/
theorem lockstep_raiseMismatch (h : Level x t r) (expected : TokenSet) :
    Lockstep x (raiseMismatch expected : ParserM σ α) t r := by
  unfold raiseMismatch
  exact (lockstep_ahead h 1).bind fun token _ _ h₁ _ => lockstep_throw h₁ _ _ _

/-- Failing on both sides because no alternative fits. -/
theorem lockstep_raiseNoViableAlt (h : Level x t r) (depth : Nat) :
    Lockstep x (raiseNoViableAlt depth : ParserM σ α) t r := by
  unfold raiseNoViableAlt
  exact (lockstep_ahead h 1).bind fun _ _ _ h₁ _ => (lockstep_ahead h₁ _).bind fun _ _ _ h₂ _ =>
    lockstep_throw h₂ _ _ _

/-- Failing on both sides unless a condition holds. -/
theorem lockstep_require (h : Level x t r) (holds : Bool) (text : String) :
    Lockstep x (require holds text) t r := by
  unfold require
  cases holds with
  | true => exact InStep.answer h ()
  | false => exact (lockstep_ahead h 1).bind fun _ _ _ h₁ _ => lockstep_throw h₁ _ _ _

/-- An answer that only a broken contract can keep from being given, on both sides. -/
theorem lockstep_orBroken (h : Level x t r) (answer : Except Violation α) :
    Lockstep x (orBroken answer) t r := by
  cases answer with
  | ok a => exact InStep.answer h a
  | error v => exact ⟨.stopped _, h.opens, fun hne => absurd rfl (hne _), rfl, rfl⟩

/-- Looking at the flag on both sides. -/
theorem lockstep_checkCancelled (h : Level x t r) : Lockstep x checkCancelled t r := by
  unfold Lockstep checkCancelled
  rw [ends_get_bind]
  simp only [ends_get_bind, h.opens.isCancelled]
  cases TokenSource.isCancelled t.input.source with
  | false => exact .answer h ()
  | true => exact ⟨.stopped _, h.opens, fun hne => absurd rfl (hne _), rfl, rfl⟩

/-- Entering a rule on both sides. -/
theorem lockstep_enterRule (h : Level x t r) (n : RuleIndex) : Lockstep x (enterRule n) t r := by
  rw [enterRule_eq]
  refine (lockstep_checkCancelled h).bind fun _ t₁ r₁ h₁ _ => ?_
  unfold Lockstep
  rw [ends_get_bind]
  simp only [ends_get_bind, h₁.limit, h₁.frames]
  by_cases hlimit : t₁.recursionLimit.any (· ≤ t₁.frames.length) = true
  · simp only [hlimit, if_true]
    exact ⟨.stopped _, h₁.opens, fun hne => absurd rfl (hne _), rfl, rfl⟩
  · simp only [hlimit, Bool.false_eq_true, if_false, beginRule]
    rw [ends_get_bind]
    simp only [ends_get_bind, h₁.trying, if_true]
    have hframes : r₁.frames.length + 1 = t₁.frames.length + 1 := congrArg (· + 1) h₁.frames
    rcases h₁.mode with htrial | ⟨hearnest, hfree⟩
    · simp only [htrial, if_true]
      refine ⟨.ok (), h₁.opens, fun _ => ?_, rfl, rfl⟩
      exact ⟨h₁.opens, h₁.standing, hframes, h₁.limit, h₁.trying, .inl htrial⟩
    · simp only [hearnest.isSpeculating, Bool.false_eq_true, if_false]
      -- in earnest the token that the rule begins with is looked at, which has been taken already
      refine (Ends.bind_of_ok h₁.ahead_one.2).mpr ⟨.ok (), .inl rfl, fun _ => ?_, rfl, rfl⟩
      exact ⟨.inl rfl, h₁.standing, hframes, h₁.limit, h₁.trying,
        .inr ⟨⟨hearnest.acting, hearnest.noted, hearnest.denied, h₁.standing.reads.numbered⟩, hfree⟩⟩

/-! ## Matching -/

/-- Consuming a token never fails to recognize the input. -/
theorem ends_consume_not_failed (p : Parser σ) :
    Ends consume p fun o _ => ∀ e, o ≠ .error (.recognition e) := by
  unfold consume
  refine (ends_ahead_idle 1 p).bind (fun token q _ => ?_) fun i _ h e he =>
    h.2.2 e (congrArg Except.error (Except.error.inj he))
  refine (ends_pass_idle q).bind (fun _ q' _ => ?_) fun i _ h e he =>
    h.2.2 e (congrArg Except.error (Except.error.inj he))
  rw [ends_get_bind]
  cases q'.isSpeculating <;> exact fun _ h => nomatch h

/-- **A token that does not fit is mended only with a report**, unless reports are held back. -/
theorem ends_expect_mismatch {p : Parser σ} (hp : p.Earnest) (hfree : p.recovery.inRecovery = false) {ty : TokenType}
    {token : Token} (follow : TokenSet) {q : Parser σ} (hahead : ahead 1 p = .ok token q) (hty : token.ty ≠ ty) :
    Ends (expect ty follow) p fun o q' => ∀ a, o = .ok a → p.syntaxErrors < q'.syntaxErrors ∧ q'.Earnest := by
  have hidle := ((ends_ahead_idle 1 p).of_ok hahead).1
  have hq := hp.idle hidle
  -- whichever way the token is mended, the report comes with it
  have hmended : Tells (do
      let t ← recoverInline ty follow
      if t.isConjured then addErrorLeaf t
      return t) q fun ds o q' => ∀ a, o = .ok a → Deed.reported ∈ ds ∧ q'.Earnest := by
    refine (tells_recoverInline hq ty follow).bind ?_ fun _ _ _ _ _ h => nomatch h
    rintro ds t q₁ ⟨htold, -, hreported⟩
    have hmem := hreported t rfl (hidle.recovery ▸ hfree)
    cases t.isConjured with
    | false => exact .of_idle ⟨rfl, fun _ _ => ⟨List.mem_append_left _ hmem, htold.2⟩⟩
    | true =>
        refine (tells_addErrorLeaf htold.2 t).bind ?_ (by rintro _ _ _ ⟨-, ⟨⟩, -⟩)
        rintro ds' _ q₂ ⟨rfl, -, -, hq₂⟩
        exact .of_idle ⟨rfl, fun _ _ => ⟨List.mem_append_left _ hmem, hq₂⟩⟩
  unfold expect
  refine (Ends.bind_of_ok hahead).mpr ?_
  simp only [beq_eq_false_iff_ne.mpr hty, Bool.false_eq_true, if_false]
  rw [ends_get_bind]
  simp only [hq.isSpeculating, Bool.false_eq_true, if_false]
  refine Ends.mono hmended ?_
  rintro o q' ⟨ds, hcourse, hpost⟩ a ha
  obtain ⟨hmem, hearnest⟩ := hpost a ha
  -- one report among the deeds is one more error than before
  have hcount : 0 < ds.count .reported := List.count_pos_iff.mpr hmem
  have herrors : q'.syntaxErrors = q.syntaxErrors + ds.count .reported := hcourse.tallied.errors
  have hbefore : q.syntaxErrors = p.syntaxErrors := congrArg Ledger.errors hidle.ledger
  exact ⟨by omega, hearnest⟩

/-- **Matching the current token** on both sides. -/
theorem mirrors_expect_match (h : Level x t r) {ty : TokenType} (follow : TokenSet)
    (hty : (x.token t.index).ty = ty) : Mirrors x False (expect ty follow) t r := by
  obtain ⟨hahead, hother⟩ := h.ahead_one
  have hlevel := h.settled
  unfold Mirrors expect
  refine (Ends.bind_of_ok hahead).mpr ?_
  simp only [beq_iff_eq.mpr hty, if_true]
  rw [ends_get_bind]
  simp only [h.trying, if_true]
  -- the second side is on trial as well, or in earnest with reports going out
  rcases hlevel.mode with htrial | ⟨hearnest, hfree⟩
  · refine (Ends.and (lockstep_consume hlevel) (ends_consume_not_failed t)).mono fun o t' ho => ?_
    refine (Ends.bind_of_ok hother).mpr ?_
    simp only [beq_iff_eq.mpr hty, if_true]
    rw [ends_get_bind]
    simp only [htrial, if_true]
    exact Ends.mono ho.1 fun o' r' step => .together (step.since rfl rfl) fun _ => ⟨id, ho.2⟩
  · -- in earnest the match is noted by recovery first
    have hmatched : Level x t { r with input := t.input, recovery := {} } :=
      ⟨hlevel.opens, hlevel.standing, hlevel.frames, hlevel.limit, hlevel.trying,
        .inr ⟨⟨hearnest.acting, hearnest.noted, hearnest.denied, hearnest.numbered⟩, rfl⟩⟩
    refine (Ends.and (lockstep_consume hmatched) (ends_consume_not_failed t)).mono fun o t' ho => ?_
    refine (Ends.bind_of_ok hother).mpr ?_
    simp only [beq_iff_eq.mpr hty, if_true]
    rw [ends_get_bind]
    simp only [hearnest.isSpeculating, Bool.false_eq_true, if_false]
    refine Ends.bind (tells_reportMatch hearnest) ?_ (by rintro _ _ ⟨_, -, -, ⟨⟩, -⟩)
    rintro _ _ ⟨_, -, -, -, rfl⟩
    exact Ends.mono ho.1 fun o' r' step => .together (step.since rfl rfl) fun _ => ⟨id, ho.2⟩

/-- **Matching a token** mirrors, unless the token does not fit. -/
theorem mirrors_expect (h : Level x t r) (ty : TokenType) (follow : TokenSet) :
    Mirrors x ((Operation.expect ty follow).Falters r) (expect ty follow) t r := by
  obtain ⟨hahead, hother⟩ := h.ahead_one
  by_cases hty : (x.token t.index).ty = ty
  · refine (mirrors_expect_match h follow hty).congr ⟨False.elim, ?_⟩
    rintro ⟨token, q, hq, hne⟩
    cases hother.symm.trans hq
    exact hne hty
  · have hfalters : (Operation.expect ty follow).Falters r := ⟨_, _, hother, hty⟩
    -- on trial the parser fails at once
    have hfails : Lockstep x (do raiseMismatch (← orBroken (TokenSet.single? ty)) : ParserM σ Token) t
        { r with input := t.input } :=
      (lockstep_orBroken h.settled _).bind fun set t₁ r₁ h₁ _ => lockstep_raiseMismatch h₁ set
    have hstops : Ends (do raiseMismatch (← orBroken (TokenSet.single? ty)) : ParserM σ Token) t fun o _ =>
        (∃ e, o = .error (.recognition e)) ∨ ∃ v, o = .error (.abort (.broken v)) := by
      cases TokenSet.single? ty with
      | ok set => exact (Ends.bind_of_ok hahead).mpr (.inl ⟨_, rfl⟩)
      | error v => exact .inr ⟨v, rfl⟩
    unfold Mirrors expect
    refine (Ends.bind_of_ok hahead).mpr ?_
    simp only [beq_eq_false_iff_ne.mpr hty, Bool.false_eq_true, if_false]
    rw [ends_get_bind]
    simp only [h.trying, if_true]
    rcases h.mode with htrial | ⟨hearnest, hfree⟩
    · refine Ends.mono hfails fun o t' ho => (Ends.bind_of_ok hother).mpr ?_
      have htrial' : ({ r with input := t.input } : Parser σ).isSpeculating = true := htrial
      simp only [beq_eq_false_iff_ne.mpr hty, Bool.false_eq_true, if_false]
      rw [ends_get_bind]
      simp only [htrial', if_true]
      exact Ends.mono ho fun o' r' step => .together (step.since rfl rfl) fun hreal => nomatch htrial.symm.trans hreal
    · refine Ends.mono hstops fun o t' ho => ?_
      exact (ends_expect_mismatch hearnest hfree follow hother hty).mono fun o' r' hreports =>
        .apart hearnest.isSpeculating hfalters ho hreports

/-! ## Rules, invocations and trials -/

omit [TokenSource σ] in
/-- Taking the innermost rule off the active ones does nothing else but close its node. -/
theorem ends_popRule (p : Parser σ) : Ends popRule p fun o q =>
    (p.frames = [] ∧ o = .error (.abort (.broken .exitWithoutEnter)) ∧ q = p) ∨
      o = .ok () ∧ ∃ frame frames tree, p.frames = frame :: frames ∧ q = { p with frames, tree } := by
  unfold popRule
  rw [ends_get_bind]
  cases hframes : p.frames with
  | nil => exact .inl ⟨rfl, rfl, rfl⟩
  | cons frame frames =>
      simp only
      rw [ends_modify_bind]
      cases frame.node with
      | none => exact .inr ⟨rfl, frame, frames, p.tree, rfl, rfl⟩
      | some node => exact .inr ⟨rfl, frame, frames, _, rfl, rfl⟩

/-- Taking the innermost rule off on both sides. -/
theorem lockstep_popRule (h : Level x t r) : Ends popRule t fun o t' => Ends popRule r fun o' r' =>
    InStep x r o t' o' r' ∧ Level x t' r' := by
  refine (ends_popRule t).mono fun o t' ht => (ends_popRule r).mono fun o' r' hr => ?_
  -- as many rules are active on both sides, so that both have one to take off or neither has
  have hlength := h.frames
  rcases ht with ⟨ht, rfl, rfl⟩ | ⟨rfl, f, fs, tree, ht, rfl⟩ <;>
    rcases hr with ⟨hr, rfl, rfl⟩ | ⟨rfl, f', fs', tree', hr, rfl⟩ <;>
      rw [ht, hr] at hlength
  · exact ⟨⟨.stopped _, h.opens, fun _ => h, rfl, rfl⟩, h⟩
  · cases hlength
  · cases hlength
  · have hlevel : Level x { t with frames := fs, tree } { r with frames := fs', tree := tree' } :=
      ⟨h.opens, h.standing, Nat.succ.inj hlength, h.limit, h.trying, h.mode.imp_right fun ⟨hearnest, hfree⟩ =>
        ⟨⟨hearnest.acting, hearnest.noted, hearnest.denied, hearnest.numbered⟩, hfree⟩⟩
    exact ⟨⟨.ok (), h.opens, fun _ => hlevel, rfl, rfl⟩, hlevel⟩

/-- Leaving a rule on both sides. -/
theorem lockstep_exitRule (h : Level x t r) : Lockstep x exitRule t r := by
  have hpop : Lockstep x popRule t r :=
    Ends.mono (lockstep_popRule h) fun _ _ ho => Ends.mono ho fun _ _ h => h.1
  rw [exitRule_eq]
  exact hpop.bind fun _ _ _ h₁ _ => lockstep_checkCancelled h₁

/-- **Leaving a rule on both sides** with what its body has ended with.  That does not fail to recognize the input unless
the body has. -/
theorem lockstep_leave {o o' : Except Interrupt Unit} (step : InStep x r o t' o' r') :
    Ends (do
      let exited ← observe exitRule
      release o
      release exited) t' fun o₁ t₁ => (∀ e, o₁ = .error (.recognition e) → o = .error (.recognition e)) ∧
    Ends (do
      let exited ← observe exitRule
      release o'
      release exited) r' fun o₁' r₁ => InStep x r o₁ t₁ o₁' r₁ := by
  cases step.agree with
  | ok u =>
      have hlevel := step.level fun _ h => nomatch h
      refine ends_observe_bind ((lockstep_exitRule hlevel).and (ends_exitRule_idle t')) fun exited t₁ hexited => ?_
      refine (ends_release exited).mpr ⟨fun e he => absurd he (hexited.2.2 e), ?_⟩
      refine ends_observe_bind hexited.1 fun exited' r₁ hstep => (ends_release exited').mpr ?_
      exact hstep.since step.speculating step.errors
  | failed e e' =>
      have hlevel := step.level fun _ h => nomatch h
      rw [leave_error_eq, leave_error_eq]
      refine ends_observe_bind (lockstep_popRule hlevel) fun _ t₁ hpop => ⟨fun e₁ he => ?_, ?_⟩
      · exact congrArg Except.error (Except.error.inj he)
      · refine ends_observe_bind hpop fun _ r₁ hpop' => ?_
        exact ⟨.failed e e', hpop'.2.opens, fun _ => hpop'.2, hpop'.1.speculating.trans step.speculating,
          hpop'.1.errors.trans step.errors⟩
  | stopped a =>
      -- the parse is given up, and where the input stands does not change any more
      rw [leave_error_eq]
      refine ends_observe_bind (ends_popRule t') fun _ t₁ ht => ⟨fun _ he => (nomatch he), ?_⟩
      refine ends_observe_bind (ends_popRule r') fun _ r₁ hr => ?_
      rcases ht with ⟨-, -, rfl⟩ | ⟨-, f, fs, tree, -, rfl⟩ <;>
        rcases hr with ⟨-, -, rfl⟩ | ⟨-, f', fs', tree', -, rfl⟩ <;>
          exact ⟨.stopped a, step.opens, fun hne => absurd rfl (hne a), step.speculating, step.errors⟩

omit [TokenSource σ] in
/-- What comes after an action that is observed on both sides. -/
theorem ends_observe_bind_both {act : ParserM σ α} {f g : Except Interrupt α → ParserM σ β}
    {mid : Except Interrupt α → Parser σ → Except Interrupt α → Parser σ → Prop}
    {post : Except Interrupt β → Parser σ → Except Interrupt β → Parser σ → Prop}
    (h : Ends act t fun o t' => Ends act r fun o' r' => mid o t' o' r')
    (hnext : ∀ o t' o' r', mid o t' o' r' → Ends (f o) t' fun o₁ t₁ => Ends (g o') r' fun o₁' r₁ => post o₁ t₁ o₁' r₁) :
    Ends (observe act >>= f) t fun o₁ t₁ => Ends (observe act >>= g) r fun o₁' r₁ => post o₁ t₁ o₁' r₁ := by
  refine ends_observe_bind h fun o t' ho => ?_
  cases hact : act r with
  | ok a r' =>
      have hobserved : observe act r = .ok (.ok a) r' := by simp only [observe, hact]
      exact (hnext o t' _ r' (ho.of_ok hact)).mono fun _ _ h => (Ends.bind_of_ok hobserved).mpr h
  | error i r' =>
      have hobserved : observe act r = .ok (.error i) r' := by simp only [observe, hact]
      exact (hnext o t' _ r' (ho.of_error hact)).mono fun _ _ h => (Ends.bind_of_ok hobserved).mpr h

omit [TokenSource σ] in
/-- Doing nothing reports nothing. -/
theorem Idle.syntaxErrors (h : r.Idle r') : r'.syntaxErrors = r.syntaxErrors :=
  congrArg Ledger.errors h.ledger

/-- **A rule whose body has failed is mended only with a report**, unless it has begun with reports held back. -/
theorem ends_settleRule_reports {o' : Except Interrupt Unit} {ds : List Deed} {n : Nat} (htold : Told false ds o' r')
    (herrors : r'.syntaxErrors = n + ds.count .reported) (hok : ∀ a, o' = .ok a → n < r'.syntaxErrors) :
    Ends (settleRule o') r' fun o q => ∀ a, o = .ok a → n < q.syntaxErrors ∧ q.Earnest := by
  match o', htold with
  | .ok u, htold =>
      refine (ends_leave_idle (.ok u) r').mono fun o q hleave a _ => ⟨?_, htold.2.idle hleave.1⟩
      rw [hleave.1.syntaxErrors]
      exact hok u rfl
  | .error (.abort a), _ =>
      refine (ends_leave_idle (.error (.abort a)) r').mono fun o q hleave b hb => ?_
      cases (hleave.2.1 _ rfl).symm.trans hb
  | .error (.recognition e), ⟨horderly, hearnest⟩ =>
      change Ends (get >>= _) _ _
      rw [ends_get_bind]
      simp only [hearnest.isSpeculating, Bool.false_eq_true, if_false]
      refine ends_observe_bind (tells_handleRecognition hearnest e) ?_
      rintro o q ⟨ds', hcourse, htold', hreported⟩
      have hmore : n < q.syntaxErrors := by
        have hsince : q.syntaxErrors = r'.syntaxErrors + ds'.count .reported := hcourse.tallied.errors
        -- if reports are held back here, then there has been one since the rule began; otherwise the failure is reported
        cases hheld : r'.recovery.inRecovery with
        | true =>
            have hcount := List.count_pos_iff.mpr (horderly.reported_of_held rfl hheld)
            omega
        | false =>
            have hcount := List.count_pos_iff.mpr (hreported hheld)
            omega
      refine (ends_leave_idle o q).mono fun o₁ q₁ hleave a ha => ?_
      cases o with
      | ok u => exact ⟨by rwa [hleave.1.syntaxErrors], htold'.2.idle hleave.1⟩
      | error i => cases (hleave.2.1 i rfl).symm.trans ha

/-- On trial a rule hands its body's failure on, and everywhere it hands on that the parse has been given up. -/
theorem ends_settleRule_leave {o : Except Interrupt Unit} {post : Except Interrupt Unit → Parser σ → Prop}
    (h : t.isSpeculating = true ∨ ∀ e, o ≠ .error (.recognition e)) : Ends (settleRule o) t post ↔
      Ends (do
        let exited ← observe exitRule
        release o
        release exited) t post := by
  match o with
  | .ok _ => rfl
  | .error (.abort _) => rfl
  | .error (.recognition e) =>
      change Ends (get >>= _) _ _ ↔ _
      rw [ends_get_bind, if_pos (h.resolve_right fun hno => hno e rfl)]
      rfl

/-- **What becomes of a rule** on trial becomes of it otherwise, unless its body has faltered. -/
theorem Mirrored.settleRule {o o' : Except Interrupt Unit} {falters : Prop} (h : Mirrored x falters r o t' o' r')
    (htrial : t'.isSpeculating = true)
    (htold : r.isSpeculating = false →
      ∃ ds, r'.syntaxErrors = r.syntaxErrors + ds.count .reported ∧ Told false ds o' r') :
    Ends (settleRule o) t' fun o₁ t₁ => Ends (settleRule o') r' fun o₁' r₁ => Mirrored x falters r o₁ t₁ o₁' r₁ := by
  -- on trial the rule is only left, and otherwise as well unless its body has faltered
  rw [ends_settleRule_leave (.inl htrial)]
  cases h with
  | together step well =>
      have hleaves : r'.isSpeculating = true ∨ ∀ e, o' ≠ .error (.recognition e) := by
        have hsame : r'.isSpeculating = r.isSpeculating := by simp only [isSpeculating, step.speculating]
        cases hreal : r.isSpeculating with
        | true => exact .inl (hsame.trans hreal)
        | false =>
            refine .inr fun e he => ?_
            subst he
            cases step.agree with
            | failed e' _ => exact (well hreal).2 e' rfl
      refine (lockstep_leave step).mono fun o₁ t₁ h₁ => ?_
      rw [ends_settleRule_leave hleaves]
      refine h₁.2.mono fun o₁' r₁ step' => .together step' fun hreal => ⟨(well hreal).1, fun e he => ?_⟩
      exact (well hreal).2 e (h₁.1 e he)
  | apart real hfalters stops reports =>
      obtain ⟨ds, herrors, htold⟩ := htold real
      refine (ends_leave_idle o t').mono fun o₁ t₁ hleave => ?_
      have hstops : (∃ e, o₁ = .error (.recognition e)) ∨ ∃ v, o₁ = .error (.abort (.broken v)) := by
        obtain ⟨e, rfl⟩ | ⟨v, rfl⟩ := stops
        · exact .inl ⟨e, hleave.2.1 _ rfl⟩
        · exact .inr ⟨v, hleave.2.1 _ rfl⟩
      exact (ends_settleRule_reports htold herrors fun a ha => (reports a ha).1).mono fun o₁' r₁ h₁ =>
        .apart real hfalters hstops h₁

/-- **A rule mirrors if its body does.** -/
theorem mirrors_rule (h : Level x t r) (n : RuleIndex) {body : ParserM σ Unit} (falters : Parser σ → Prop)
    (hbody : ∀ t r, Level x t r → Mirrors x (falters r) body t r)
    (htrial : ∀ q : Parser σ, q.isSpeculating = true → Ends body q fun _ q' => q.Idle q')
    (htells : ∀ q : Parser σ, q.Earnest → Tells body q (Told q.recovery.inRecovery)) :
    Mirrors x (∃ u p₁, enterRule n r = .ok u p₁ ∧ falters p₁) (rule n body) t r := by
  -- entering a rule raises no exception, so the body is always come to
  have hnever : ¬ ∃ e q, enterRule n r = .error (.recognition e) q := by
    rintro ⟨e, q, he⟩
    exact ((ends_enterRule_idle n r).of_error he).2 e rfl
  have hrest : ∀ t r, Level x t r → Mirrors x (falters r) (observe body >>= settleRule) t r := by
    intro t r h
    have hends : Ends body t fun o t' => Ends body r fun o' r' => Mirrored x (falters r) r o t' o' r' ∧
        t'.isSpeculating = true ∧ (r.isSpeculating = false →
          ∃ ds, r'.syntaxErrors = r.syntaxErrors + ds.count .reported ∧ Told false ds o' r') := by
      -- in earnest the second side's course is needed too, since its reports tell whether the body faltered
      refine (Ends.and (hbody t r h) (htrial t h.trying)).mono fun o t' ⟨hmirrored, hidle⟩ => ?_
      rcases h.mode with hreal | ⟨hearnest, hfree⟩
      · exact hmirrored.mono fun o' r' hmirrored =>
          ⟨hmirrored, hidle.isSpeculating.trans h.trying, fun h => nomatch hreal.symm.trans h⟩
      · refine (hmirrored.and (htells r hearnest)).mono ?_
        rintro o' r' ⟨hmirrored, ds, hcourse, htold⟩
        rw [hfree] at htold
        exact ⟨hmirrored, hidle.isSpeculating.trans h.trying, fun _ => ⟨ds, hcourse.tallied.errors, htold⟩⟩
    exact ends_observe_bind_both hends fun o t' o' r' ⟨hmirrored, htrying, htold⟩ => hmirrored.settleRule htrying htold
  refine Mirrors.congr ((lockstep_enterRule h n).mirrors.bind (fun _ => falters)
    (fun _ t₁ r₁ h₁ _ => hrest t₁ r₁ h₁) fun hfailed => absurd hfailed hnever) ?_
  exact or_iff_right hnever

/-- **An invocation mirrors if its body does.** -/
theorem mirrors_invoke (h : Level x t r) (follow : TokenSet) {body : ParserM σ α} (falters : Parser σ → Prop)
    (hbody : ∀ t r, Level x t r → Mirrors x (falters r) body t r) :
    Mirrors x (falters { r with follow := follow :: r.follow }) (invoke follow body) t r := by
  have hinvoked : Level x { t with follow := follow :: t.follow } { r with follow := follow :: r.follow } := by
    exact ⟨h.opens, h.standing, h.frames, h.limit, h.trying, h.mode.imp_right fun ⟨hearnest, hfree⟩ =>
      ⟨⟨hearnest.acting, hearnest.noted, hearnest.denied, hearnest.numbered⟩, hfree⟩⟩
  refine ends_observe_bind_both (f := endInvocation) (g := endInvocation) (hbody _ _ hinvoked)
    fun o t' o' r' hmirrored => ?_
  unfold endInvocation
  simp only [ends_modify_bind, ends_release]
  -- an invocation touches the follow stack only, which the relation of the two sides does not mention
  cases hmirrored with
  | apart real hfalters stops reports =>
      refine .apart real hfalters stops fun a ha => ⟨(reports a ha).1, ?_⟩
      obtain ⟨hacting, hnoted, hdenied, hnumbered⟩ := (reports a ha).2
      exact ⟨hacting, hnoted, hdenied, hnumbered⟩
  | together step well =>
      refine .together ⟨step.agree, step.opens, fun hne => ?_, step.speculating, step.errors⟩ well
      obtain ⟨hopens, hstanding, hframes, hlimit, htrying, hmode⟩ := step.level hne
      exact ⟨hopens, hstanding, hframes, hlimit, htrying, hmode.imp_right fun ⟨hearnest, hfree⟩ =>
        ⟨⟨hearnest.acting, hearnest.noted, hearnest.denied, hearnest.numbered⟩, hfree⟩⟩

/-- **Taking the input back on both sides** once a trial inside a trial, or inside a run in earnest, is over. -/
theorem lockstep_endTrial {o o' : Except Interrupt Unit} {r₁ : Parser σ} (h : Level x t r)
    (step : InStep x r₁ o t' o' r') (ht : Idle { t with speculating := t.speculating + 1 } t')
    (hr : Idle { r with input := t.input, speculating := r.speculating + 1 } r') (start n m m' : Nat) :
    Ends (endTrial start n m o) t' fun b t₂ => Ends (endTrial start n m' o') r' fun b' r₂ =>
      InStep x r b t₂ b' r₂ := by
  have hstarted : t'.input.started = true := ht.kept _ Stream.stable_started h.standing.started
  have hseek := step.opens.seek_eq hstarted start
  have hspeculating : r'.speculating - 1 = r.speculating := by simp [hr.speculating]
  have herrors : r'.syntaxErrors = r.syntaxErrors := hr.syntaxErrors
  unfold endTrial
  simp only [ends_modify_bind]
  cases hact : Stream.seek start t'.input with
  | error a s =>
      refine (Ends.bind_of_error (e := .abort a) (by simp only [onInput, hact]; rfl)).mpr ?_
      refine (Ends.bind_of_error (e := .abort a) (by simp only [onInput, hseek, hact]; rfl)).mpr ?_
      exact ⟨.stopped a, .inl rfl, fun hne => absurd rfl (hne a), hspeculating, herrors⟩
  | ok u s =>
      refine (Ends.bind_of_ok (a := u) (by simp only [onInput, hact]; rfl)).mpr ?_
      have hright : onInput (Stream.seek start) { r' with
          speculating := r'.speculating - 1
          frames := lastOf n r'.frames
          follow := lastOf m' r'.follow } = .ok u { r' with
            input := s
            speculating := r'.speculating - 1
            frames := lastOf n r'.frames
            follow := lastOf m' r'.follow } := by simp only [onInput, hseek, hact]
      -- unless the parse is given up, both are at the same point again
      have hlevel : (∀ a, o ≠ .error (.abort a)) → Level x
          { t' with input := s, speculating := t'.speculating - 1, frames := lastOf n t'.frames,
                    follow := lastOf m t'.follow }
          { r' with input := s, speculating := r'.speculating - 1, frames := lastOf n r'.frames,
                    follow := lastOf m' r'.follow } := by
        intro hne
        have hback := step.level hne
        have hs : s.Standing x s.cursor := by
          have := (Stream.answers_seek (.standing hback.standing) start).of_ok hact
          exact this.cursor.symm ▸ this
        refine ⟨.inl rfl, hs, ?_, hback.limit, ?_, ?_⟩
        · simp only [lastOf, List.length_drop, hback.frames]
        · have := h.trying
          simpa [isSpeculating, ht.speculating] using this
        · refine h.mode.imp (fun hreal => by simpa [isSpeculating, hr.speculating] using hreal) ?_
          rintro ⟨hearnest, hfree⟩
          refine ⟨⟨?_, ?_, ?_, hs.reads.numbered⟩, ?_⟩
          · rw [hspeculating, hearnest.acting]
          · rw [hr.strategy, hearnest.noted]
          · rw [hr.strategy, hearnest.denied]
          · rw [hr.recovery, hfree]
      cases step.agree with
      | ok u =>
          exact (Ends.bind_of_ok hright).mpr
            ⟨.ok true, .inl rfl, fun _ => hlevel (by rintro _ ⟨⟩), hspeculating, herrors⟩
      | failed e e' =>
          exact (Ends.bind_of_ok hright).mpr
            ⟨.ok false, .inl rfl, fun _ => hlevel (by rintro _ ⟨⟩), hspeculating, herrors⟩
      | stopped a =>
          exact (Ends.bind_of_ok hright).mpr
            ⟨.stopped a, .inl rfl, fun hne => absurd rfl (hne a), hspeculating, herrors⟩

/-- **A trial inside** is a trial on both sides. -/
theorem lockstep_speculate (h : Level x t r) {body : ParserM σ Unit} (falters : Parser σ → Prop)
    (hbody : ∀ t r, Level x t r → Mirrors x (falters r) body t r)
    (htrial : ∀ q : Parser σ, q.isSpeculating = true → Ends body q fun _ q' => q.Idle q') :
    Lockstep x (speculate body) t r := by
  unfold Lockstep speculate
  refine (Ends.bind_of_ok h.ahead_one.1).mpr ?_
  simp only [Ends.bind_of_ok h.ahead_one.2]
  rw [ends_get_bind, ends_modify_bind]
  simp only [ends_get_bind, ends_modify_bind]
  have htried : ({ r with input := t.input, speculating := r.speculating + 1 } : Parser σ).isSpeculating = true := by
    simp [isSpeculating]
  have hbegun : Level x { t with speculating := t.speculating + 1 }
      { r with input := t.input, speculating := r.speculating + 1 } :=
    ⟨.inl rfl, h.standing, h.frames, h.limit, by simp [isSpeculating], .inl htried⟩
  -- inside, both sides are on trial, and there no run mends anything
  have hends : Ends body { t with speculating := t.speculating + 1 } fun o t' =>
      Ends body { r with input := t.input, speculating := r.speculating + 1 } fun o' r' =>
        InStep x { r with input := t.input, speculating := r.speculating + 1 } o t' o' r' ∧
          Idle { t with speculating := t.speculating + 1 } t' ∧
          Idle { r with input := t.input, speculating := r.speculating + 1 } r' := by
    refine (Ends.and (hbody _ _ hbegun) (htrial _ hbegun.trying)).mono ?_
    rintro o t' ⟨hends, ht⟩
    refine (Ends.and hends (htrial _ htried)).mono ?_
    rintro o' r' ⟨hmirrored, hr⟩
    cases hmirrored with
    | together step _ => exact ⟨step, ht, hr⟩
    | apart real _ _ _ => cases htried.symm.trans real
  refine ends_observe_bind_both (f := endTrial t.index t.frames.length t.follow.length)
    (g := endTrial t.index r.frames.length r.follow.length) hends ?_
  rintro o t' o' r' ⟨step, ht, hr⟩
  rw [h.frames]
  exact lockstep_endTrial h step ht hr _ _ _ _

end Parser

open TreeProjection.Parser

/-! ## Recognizers -/

variable {x : Tape} {i : Nat} {p t r : Parser σ}

/-- An operation that guards no loop mirrors. -/
theorem Operation.mirrors {op : Operation β} (hop : op.isSync = false) (h : Level x t r) :
    Mirrors x (op.Falters r) op.run t r := by
  cases op with
  | ahead k => exact (lockstep_ahead h k).mirrors
  | expect ty follow => exact mirrors_expect h ty follow
  | consume => exact (lockstep_consume h).mirrors
  | sync expecting => cases hop
  | require holds text => exact (lockstep_require h holds text).mirrors
  | noViableAlt depth => exact (lockstep_raiseNoViableAlt h depth).mirrors
  | mismatch expected => exact (lockstep_raiseMismatch h expected).mirrors

/-- What a recognizer does in earnest takes no report back. -/
theorem Recognizer.Ordinary.ends_grows {body : Recognizer α} (h : body.Ordinary) (hp : p.Earnest) :
    Ends body.run p fun o q => p.syntaxErrors ≤ q.syntaxErrors ∧ ∀ b, o = .ok b → q.Earnest := by
  refine Ends.mono (h.tells hp) ?_
  rintro o q ⟨ds, hcourse, htold⟩
  have herrors : q.syntaxErrors = p.syntaxErrors + ds.count .reported := hcourse.tallied.errors
  refine ⟨by omega, fun b hb => ?_⟩
  subst hb
  exact htold.2

/-- **What a recognizer does on trial it does otherwise**, up to where it falters. -/
theorem Recognizer.Foretold.mirrors {body : Recognizer α} (h : body.Foretold) (hlevel : Level x t r) :
    Mirrors x (body.Falters r) body.run t r := by
  -- induction on the recognizer: either the sides part at the first failure, or the rest starts from level states
  induction body generalizing t r with
  | pure a => exact .together (.answer hlevel a) fun _ => ⟨id, fun _ h => nomatch h⟩
  | outOfSteps =>
      exact .together ⟨.stopped _, hlevel.opens, fun _ => hlevel, rfl, rfl⟩ fun _ => ⟨id, fun _ h => nomatch h⟩
  | step op next ih =>
      exact (op.mirrors h.1 hlevel).bind (fun b => (next b).Falters)
        (fun b _ _ hlevel _ => ih b (h.2 b) hlevel) fun _ b _ hr => (h.2 b).ordinary.ends_grows hr
  | direct d next ih => exact h.elim
  | rule n body next ihbody ihnext =>
      exact (mirrors_rule hlevel n (body ()).Falters (fun _ _ hlevel => ihbody () h.1 hlevel)
        (fun _ hq => h.1.ordinary.ends_idle hq) fun _ hq => h.1.ordinary.tells hq).bind
        (fun u => (next u).Falters) (fun u _ _ hlevel _ => ihnext u (h.2 u) hlevel)
        fun _ u _ hr => (h.2 u).ordinary.ends_grows hr
  | invoke follow body next ihbody ihnext =>
      exact (mirrors_invoke hlevel follow (body ()).Falters fun _ _ hlevel =>
        ihbody () h.1 hlevel).bind (fun b => (next b).Falters)
        (fun b _ _ hlevel _ => ihnext b (h.2 b) hlevel) fun _ b _ hr => (h.2 b).ordinary.ends_grows hr
  | speculate body next ihbody ihnext =>
      have hnever : ¬ ∃ e q, Parser.speculate (body ()).run r = .error (.recognition e) q := by
        rintro ⟨e, q, he⟩
        exact ((ends_speculate_idle (fun _ hq => h.1.ordinary.ends_idle hq) r).of_error he).2 e rfl
      refine Mirrors.congr ((lockstep_speculate hlevel (body ()).Falters
        (fun _ _ hlevel => ihbody () h.1 hlevel) fun _ hq => h.1.ordinary.ends_idle hq).mirrors.bind
        (fun b => (next b).Falters) (fun b _ _ hlevel _ => ihnext b (h.2 b) hlevel)
        fun hfailed => absurd hfailed hnever) ?_
      exact or_iff_right hnever
  | attempt body next ihbody ihnext => exact h.elim

/-! ## What a trial foretells -/

/-- **The end of a trial.** The input is taken back to a token that has been taken already, so that the answer tells how
the body has ended. -/
theorem Parser.ends_speculate (hstanding : t.input.Standing x t.index) {token : Token}
    (hahead : Parser.ahead 1 p = .ok token t) {body : ParserM σ Unit} {post : Except Interrupt Unit → Prop}
    (htrial : ∀ q : Parser σ, q.isSpeculating = true → Ends body q fun _ q' => q.Idle q')
    (h : Ends body { t with speculating := t.speculating + 1 } fun o _ => post o) :
    Ends (speculate body) p fun b _ => ∃ o, post o ∧ (b = .ok true ↔ o = .ok ()) ∧
      ∀ a, b = .error (.abort a) ↔ o = .error (.abort a) := by
  unfold speculate
  refine (Ends.bind_of_ok hahead).mpr ?_
  rw [ends_get_bind, ends_modify_bind]
  refine ends_observe_bind (h.and (htrial _ (by simp [isSpeculating]))) ?_
  rintro o t' ⟨ho, hidle⟩
  have hstarted := hidle.kept _ Stream.stable_started hstanding.started
  have hget := hidle.kept _ (Stream.stable_getElem? t.index (x.token t.index))
    (hstanding.reads.get t.index hstanding.lt_size)
  rw [ends_modify_bind]
  refine (Ends.bind_of_ok (a := ()) (by
    simp only [onInput, Stream.seek_of_isStop hstarted hget hstanding.isStop]; rfl)).mpr ?_
  -- the seek goes to a token taken already and so succeeds, which leaves the body's own outcome
  rcases o with (e | a) | ⟨⟩
  · exact ⟨_, ho, by simp, by simp⟩
  · exact ⟨_, ho, by simp, by simp⟩
  · exact ⟨_, ho, by simp, by simp⟩

/-- Comparing how a trial and the run in earnest have ended. -/
theorem Parser.Mirrored.foretells {o o' : Except Interrupt Unit} {t' r' : Parser σ} {falters : Prop}
    (h : Mirrored x falters p o t' o' r') (hp : p.isSpeculating = false) :
    (o = .ok () ↔ o' = .ok () ∧ r'.syntaxErrors = p.syntaxErrors) ∧
      ∀ e, o = .error (.abort (.error e)) ↔ o' = .error (.abort (.error e)) ∧ ¬ falters := by
  cases h with
  | together step well =>
      obtain ⟨hsteady, hno⟩ := well hp
      cases step.agree with
      | ok u => exact ⟨by simp [step.errors], by simp⟩
      | failed e e' => exact absurd rfl (hno e)
      | stopped a => exact ⟨by simp, by simp [hsteady]⟩
  | apart _ hfalters stops reports =>
      have hnot : o ≠ .ok () ∧ ∀ e, o ≠ .error (.abort (.error e)) := by
        obtain ⟨e, rfl⟩ | ⟨v, rfl⟩ := stops <;> simp
      refine ⟨⟨fun ho => absurd ho hnot.1, fun ho => ?_⟩, fun e => ⟨fun ho => absurd ho (hnot.2 e), fun ho => ?_⟩⟩
      · exact absurd ho.2 (Nat.ne_of_gt (reports () ho.1).1)
      · exact absurd hfalters ho.2

/-- **A trial foretells** what the body does in earnest, from every state in which the parser is neither on trial nor in
recovery, and whose first token can be taken without the run being called off.  The trial answers yes if and only if the
body gets through without a report.  It gives the parse up for an error if and only if the body does so for the same
error, without having met a token before that it could not recognize. -/
theorem Recognizer.Foretold.speculate_foretells {body : Recognizer Unit} (h : body.Foretold)
    (hinput : p.input.Facing x i)
    (hbegins : ∃ token q, Parser.ahead 1 p = .ok token q ∧
      TokenSource.isCancelled q.input.source = TokenSource.isCancelled p.input.source)
    (hstrategy : p.strategy = .default ∨ p.strategy = .anchored) (hacting : p.speculating = 0)
    (hfree : p.recovery.inRecovery = false) :
    ((∃ q, Parser.speculate body.run p = .ok true q) ↔
      ∃ q, body.run p = .ok () q ∧ q.syntaxErrors = p.syntaxErrors) ∧
    ∀ e, (∃ q, Parser.speculate body.run p = .error (.abort (.error e)) q) ↔
      (∃ q, body.run p = .error (.abort (.error e)) q) ∧ ¬ body.Falters p := by
  obtain ⟨token, q, hahead, hsame⟩ := hbegins
  have hdoes : p.strategy.noted = false ∧ p.strategy.denied = [] := by
    rcases hstrategy with hs | hs <;> rw [hs] <;> exact ⟨rfl, rfl⟩
  have hearnest : p.Earnest := ⟨hacting, hdoes.1, hdoes.2, hinput.reads.numbered⟩
  obtain ⟨s, hstream, rfl⟩ : ∃ s, Stream.ahead 1 p.input = .ok token s ∧ q = { p with input := s } := by
    have hread := hahead
    simp only [Parser.ahead, onInput] at hread
    cases hstream : Stream.ahead 1 p.input <;> rw [hstream] at hread <;> cases hread
    exact ⟨_, rfl, rfl⟩
  obtain ⟨hopens, hstanding⟩ := hinput.opens hstream hsame.symm
  have hplace : s.Standing x s.cursor := hstanding.cursor.symm ▸ hstanding
  have hlevel : Level x { p with input := s, speculating := p.speculating + 1 } p :=
    ⟨hopens, hplace, rfl, rfl, by simp [isSpeculating], .inr ⟨hearnest, hfree⟩⟩
  -- the trial and the run side by side
  have hends : Ends (Parser.speculate body.run) p fun b _ => Ends body.run p fun o' r' =>
      (b = .ok true ↔ o' = .ok () ∧ r'.syntaxErrors = p.syntaxErrors) ∧
        ∀ e, b = .error (.abort (.error e)) ↔ o' = .error (.abort (.error e)) ∧ ¬ body.Falters p := by
    refine (Parser.ends_speculate (t := { p with input := s }) hplace hahead
      (fun q hq => h.ordinary.ends_idle hq) (h.mirrors hlevel |>.mono fun o t' ho => ho.mono fun o' r' hmirrored =>
        hmirrored.foretells hearnest.isSpeculating)).mono ?_
    rintro b _ ⟨o, ho, hyes, hstops⟩
    refine ho.mono fun o' r' hcompared => ?_
    rw [hyes]
    simp only [hstops]
    exact hcompared
  unfold Ends at hends
  cases hspeculate : Parser.speculate body.run p <;> cases hrun : body.run p <;>
    simp only [hspeculate, hrun] at hends <;> simpa using hends

namespace Foreseen

/-- Matches two tokens within a rule. -/
def recognizer : Recognizer Unit :=
  .asRule ⟨0⟩ fun _ => (Recognizer.expect ⟨1⟩ ∅).bind fun _ => .expect ⟨2⟩ ∅

/-- The two tokens. -/
def source : ListedTokens where
  rest := [{ ty := ⟨1⟩, text := "a" }, { ty := ⟨2⟩, text := "b" }]
  last := .endOfInput 2

/-- The recognizer guards no loop and catches nothing. -/
theorem foretold_recognizer : recognizer.Foretold :=
  ⟨⟨rfl, fun _ => ⟨rfl, fun _ => trivial⟩⟩, fun _ => trivial⟩

/-- A trial says that both tokens are there, and then they are matched without a report. -/
theorem speculate_foretells_foreseen : ∃ q r,
    Parser.speculate recognizer.run { input := .ofSource source, language := default } = .ok true q ∧
    recognizer.run { input := .ofSource source, language := default } = .ok () r ∧ r.syntaxErrors = 0 := by
  have hend : ∃ b q, Parser.speculate recognizer.run { input := .ofSource source, language := default } = .ok b q ∧
      b = true := by decide +kernel
  have hbegins : ∃ token q, Parser.ahead 1 { input := .ofSource source, language := default } = .ok token q ∧
      TokenSource.isCancelled q.input.source = TokenSource.isCancelled source := ⟨_, _, rfl, rfl⟩
  have hsource : TokenSource.RunsOut source := ListedTokens.runsOut (by decide)
  obtain ⟨x, hx⟩ := hsource.exists_feeds
  have hforetold := foretold_recognizer.speculate_foretells (.fresh (Stream.reads_ofSource hx) rfl rfl) hbegins
    (.inl rfl) rfl rfl
  obtain ⟨_, q, hspeculate, rfl⟩ := hend
  obtain ⟨r, hr, herrors⟩ := hforetold.1.mp ⟨q, hspeculate⟩
  exact ⟨q, r, hspeculate, hr, herrors⟩

end Foreseen

end TreeProjection
