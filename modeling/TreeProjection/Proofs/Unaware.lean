import TreeProjection.Proofs.Concurring

/-! # Nothing comes of a trial

After a trial the input stands where it stood, but more tokens may have been taken from the source, and other numbers are
left for exceptions.  Whatever is done from then on, it cannot be seen from its outcome that there has been a trial: the
same tokens are read, the same is reported, and the same tree is built, up to the numbers of exceptions.  This takes that
the source neither fails nor calls the run off, and that nobody asks for tokens that he has not been shown.

* `Recognizer.Renumbered` — the same recognizer with other numbers of exceptions in its hands.
* `Recognizer.Renumbered.concurs` — it does the same.
* `Parser.speculate_leaves_no_trace` — a trial, and what comes after it. -/

namespace TreeProjection

variable {σ α β : Type}

/-! ## Recognizers with other numbers in their hands -/

/-- What an operation has answered has come into view. -/
def Operation.Shown (w : Extent) : Operation β → β → Prop
  | .ahead _, t => w.Shows t
  | .expect _ _, t => w.Shows t
  | .consume, t => w.Shows t
  | _, _ => True

/-- **What may be asked** of the parser's state: where the input stands, once a token has been taken, and the text up to
a token that has come into view. -/
def Probe.Answerable (w : Extent) : Probe → Prop
  | .index => 0 < w.tokens
  | .textBetween _ last => w.Shows last
  | _ => True

/-- **Which hooks may be called**: reports are of exceptions that have come into view, and where the input stands may be
seen once a token has been taken. -/
def HookCall.Answerable (w : Extent) : HookCall → Prop
  | .reportGiven e => w.Knows e
  | .sync _ => 0 < w.tokens
  | .skipTo _ => 0 < w.tokens
  | _ => True

/-- **What may be done** that reaches past the operations of a grammar, short of calling the run off. -/
def Direct.Answerable (w : Extent) : Direct β → Prop
  | .note n => ∀ f, w.Fixes f → n.renumber f = n
  | .probe c => c.Answerable w
  | .hook c => c.Answerable w
  | .cancel => False
  | _ => True

/-- **The same recognizer with other numbers of exceptions in its hands.** It goes on in the same way after each answer,
and in the same way up to numbers after each exception that it has caught.  It only asks for what has come into view. -/
inductive Recognizer.Renumbered (f : Nat → Nat) : {α : Type} → Extent → Recognizer α → Recognizer α → Prop where
  /-- It answers. -/
  | pure {α : Type} (w : Extent) (a : α) : Renumbered f w (.pure a) (.pure a)
  /-- It gives up. -/
  | outOfSteps {α : Type} (w : Extent) : Renumbered f w (.outOfSteps : Recognizer α) .outOfSteps
  /-- It carries out an operation. -/
  | step {α β : Type} {w : Extent} (op : Operation β) {next next' : β → Recognizer α}
    (hnext : ∀ w' b, w ≤ w' → op.Shown w' b → Renumbered f w' (next b) (next' b)) :
    Renumbered f w (.step op next) (.step op next')
  /-- It reaches past the operations of a grammar. -/
  | direct {α β : Type} {w : Extent} {d : Direct β} (hd : d.Answerable w) {next next' : β → Recognizer α}
    (hnext : ∀ w' b, w ≤ w' → Renumbered f w' (next b) (next' b)) :
    Renumbered f w (.direct d next) (.direct (d.renumber f) next')
  /-- It runs a body as a rule. -/
  | rule {α : Type} {w : Extent} (r : RuleIndex) {body body' : Unit → Recognizer Unit} {next next' : Unit → Recognizer α}
    (hbody : ∀ w', w ≤ w' → Renumbered f w' (body ()) (body' ()))
    (hnext : ∀ w', w ≤ w' → Renumbered f w' (next ()) (next' ())) :
    Renumbered f w (.rule r body next) (.rule r body' next')
  /-- It runs a body that something may follow. -/
  | invoke {α β : Type} {w : Extent} (follow : TokenSet) {body body' : Unit → Recognizer β} {next next' : β → Recognizer α}
    (hbody : ∀ w', w ≤ w' → Renumbered f w' (body ()) (body' ()))
    (hnext : ∀ w' b, w ≤ w' → Renumbered f w' (next b) (next' b)) :
    Renumbered f w (.invoke follow body next) (.invoke follow body' next')
  /-- It tries a body. -/
  | speculate {α : Type} {w : Extent} {body body' : Unit → Recognizer Unit} {next next' : Bool → Recognizer α}
    (hbody : ∀ w', w ≤ w' → Renumbered f w' (body ()) (body' ()))
    (hnext : ∀ w' b, w ≤ w' → Renumbered f w' (next b) (next' b)) :
    Renumbered f w (.speculate body next) (.speculate body' next')
  /-- It runs a body for its exception. -/
  | attempt {α β : Type} {w : Extent} {body body' : Unit → Recognizer β}
    {next next' : Except RecognitionException β → Recognizer α}
    (hbody : ∀ w', w ≤ w' → Renumbered f w' (body ()) (body' ()))
    (hnext : ∀ w' o o', w ≤ w' → Parser.Caught f w' o o' → Renumbered f w' (next o) (next' o')) :
    Renumbered f w (.attempt body next) (.attempt body' next')

open TreeProjection.Parser

section

variable [TokenSource σ] {calm : σ → Prop} {x : Tape} {f : Nat → Nat} {w : Extent}
  (hsteady : TokenSource.Steady calm)

include hsteady

/-- An operation on both sides. -/
theorem Operation.concurs (op : Operation β) :
    Concurs calm x f w (fun w a b => a = b ∧ op.Shown w a) (op.run : ParserM σ β) op.run := by
  have hunit : ∀ {a b : ParserM σ Unit}, Concurs calm x f w Same a b →
      Concurs calm x f w (fun _ a b => a = b ∧ True) a b := fun h => h.mono fun _ _ _ hab => ⟨hab, trivial⟩
  cases op with
  | ahead k => exact (concurs_ahead hsteady k).mono fun _ _ _ h => ⟨h.1, h.2.1⟩
  | expect ty follow => exact concurs_expect hsteady ty follow
  | consume => exact (concurs_consume hsteady).mono fun _ _ _ h => ⟨h.1, h.2.1⟩
  | sync expecting => exact hunit (concurs_sync hsteady expecting)
  | require holds text => exact hunit (concurs_require hsteady holds text)
  | noViableAlt depth => exact concurs_raiseNoViableAlt hsteady depth
  | mismatch expected => exact concurs_raiseMismatch hsteady expected

omit hsteady in
/-- Seeing something of the state that is the same. -/
theorem Parser.concurs_see (g : Parser σ → Observation)
    (hg : ∀ w' i p q, w ≤ w' → Akin calm x f w' i p q → g q = g p) :
    Concurs calm x f w Same (do return g (← get)) (do return g (← get)) := by
  apply concurs_get
  intro w' i p q hle hpq
  rw [hg w' i p q hle hpq]
  exact concurs_pure fun _ _ => rfl

omit hsteady in
/-- Seeing something of the state that depends neither on what is taken ahead nor on numbers. -/
theorem Parser.concurs_seeSame (g : Parser σ → Observation)
    (hg : ∀ f (p : Parser σ) s n, g { p.renumber f with input := s, nextException := n } = g p) :
    Concurs calm x f w Same (do return g (← get)) (do return g (← get)) :=
  Parser.concurs_see g fun _ _ _ _ _ hpq => hpq.congr g hg

omit hsteady in
/-- Seeing where the input stands, once a token has been taken, and the state of error recovery. -/
theorem Parser.concurs_seePlace (g : Nat → RecoveryState → Observation) (hbegun : 0 < w.tokens) :
    Concurs calm x f w Same (do return g (← get).index (← get).recovery) (do return g (← get).index (← get).recovery) := by
  apply Parser.concurs_see fun p => g p.index p.recovery
  intro w' i p q hle hpq
  obtain ⟨hi, hi'⟩ := hpq.index (Nat.lt_of_lt_of_le hbegun hle.1)
  rw [hi, hi', hpq.congr Parser.recovery fun _ _ _ _ => rfl]

/-- A look at the state on both sides. -/
theorem Probe.concurs {probe : Probe} (h : probe.Answerable w) :
    Concurs calm x f w Same (probe.run : ParserM σ Observation) probe.run := by
  -- What is looked at is the same on both sides where it does not tell how far the buffer reaches.
  cases probe with
  | typeAhead k =>
      apply (concurs_ahead hsteady k).bind
      rintro w' t _ _ ⟨rfl, -⟩
      exact concurs_pure fun _ _ => rfl
  | tokenAhead k =>
      apply (concurs_ahead hsteady k).bind
      rintro w' t _ _ ⟨rfl, -⟩
      exact concurs_pure fun _ _ => rfl
  | tokenBehind k =>
      apply Parser.concurs_see fun p => .token (p.behind? k)
      intro w' i p q _ hpq
      exact congrArg Observation.token (hpq.left.behind?_eq hpq.right k).symm
  | index => exact Parser.concurs_seePlace (fun index _ => .count index) h
  | rule => exact Parser.concurs_seeSame (fun p => .rule p.currentRule?) fun _ _ _ _ => rfl
  | speculating => exact Parser.concurs_seeSame (fun p => .flag p.isSpeculating) fun _ _ _ _ => rfl
  | errors => exact Parser.concurs_seeSame (fun p => .count p.syntaxErrors) fun _ _ _ _ => rfl
  | recovery => exact Parser.concurs_seeSame (fun p => .recovery p.recovery) fun _ _ _ _ => rfl
  | viableFollow follow =>
      exact Parser.concurs_seeSame (fun p => .set (p.viableFollow follow)) fun _ _ _ _ => rfl
  | recoverySet =>
      exact Parser.concurs_seeSame (fun p => .set p.recoverySet) fun _ _ _ _ => rfl
  | tree =>
      apply Parser.concurs_seeSame fun p => .tree p.tree.size (p.tree.expression p.language)
      intro f p s n
      have hsize : (p.tree.renumber f).size = p.tree.size := Array.size_map ..
      have hexpression : (p.tree.renumber f).expression p.language = p.tree.expression p.language :=
        p.tree.expression_renumber p.language
      change Observation.tree (p.tree.renumber f).size ((p.tree.renumber f).expression p.language) = _
      rw [hsize, hexpression]
  | textAhead first last =>
      apply (concurs_ahead hsteady first).bind
      rintro w₁ a _ _ ⟨rfl, -⟩
      apply (concurs_ahead hsteady last).bind
      rintro w₂ b _ _ ⟨rfl, hshows, -⟩
      apply Parser.concurs_see fun p => .text (p.textBetween a b)
      intro w₃ i p q hle hpq
      exact congrArg Observation.text (hpq.textBetween a (hshows.mono hle))
  | textBetween first last =>
      apply Parser.concurs_see fun p => .text (p.textBetween first last)
      intro w' i p q hle hpq
      exact congrArg Observation.text (hpq.textBetween first (h.mono hle))

/-- A new exception at the current token, on both sides. -/
theorem Parser.concurs_freshMismatch (expected : TokenSet) :
    Concurs calm x f w (Renamed f) (freshMismatch expected : ParserM σ RecognitionException) (freshMismatch expected) := by
  apply (concurs_ahead hsteady 1).bind
  rintro w' t _ _ ⟨rfl, hshows, hbegun⟩
  exact concurs_newException _ hshows hbegun expected

/-- A call of a hook on both sides. -/
theorem HookCall.concurs {c : HookCall} (h : c.Answerable w) :
    Concurs calm x f w Same (c.run : ParserM σ Observation) (c.renumber f).run := by
  have hrecovery : ∀ w, Concurs calm x f w Same (do return .recovery (← get).recovery : ParserM σ Observation)
      (do return .recovery (← get).recovery) := fun w =>
    Parser.concurs_seeSame (fun p => .recovery p.recovery) fun _ _ _ _ => rfl
  -- An answer that depends on the place of the cursor is given only where that has come into view.
  cases c with
  | begin => exact concurs_beginErrorCondition.seq fun w' _ => hrecovery w'
  | finish => exact concurs_endErrorCondition.seq fun w' _ => hrecovery w'
  | matched => exact concurs_endErrorCondition.seq fun w' _ => hrecovery w'
  | inRecovery =>
      exact Parser.concurs_seeSame (fun p => .flag p.recovery.inRecovery) fun _ _ _ _ => rfl
  | recover expected =>
      apply (Parser.concurs_freshMismatch hsteady expected).bind
      rintro w₁ e _ _ ⟨rfl, he⟩
      exact (concurs_recover hsteady e he.begun).seq fun w₂ hle =>
        Parser.concurs_seePlace .placed (he.mono hle).begun
  | reportError expected =>
      apply (Parser.concurs_freshMismatch hsteady expected).bind
      rintro w₁ e _ _ ⟨rfl, he⟩
      exact (concurs_reportError he).seq fun w₂ hle => Parser.concurs_seePlace .placed (he.mono hle).begun
  | reportGiven e => exact (concurs_reportError h).seq fun w' _ => hrecovery w'
  | recoverInline ty follow =>
      apply (concurs_recoverInline hsteady ty follow).bind
      rintro w' t _ _ ⟨rfl, -⟩
      exact concurs_pure fun _ _ => rfl
  | deletion ty =>
      apply (concurs_singleTokenDeletion hsteady ty).bind
      rintro w' t _ _ ⟨rfl, -⟩
      exact concurs_pure fun _ _ => rfl
  | insertion ty follow =>
      apply (concurs_singleTokenInsertion hsteady ty follow).bind
      rintro w' b _ _ ⟨⟩
      exact concurs_pure fun _ _ => rfl
  | missing ty =>
      apply (concurs_missingSymbol hsteady ty).bind
      rintro w' t _ _ ⟨rfl, -⟩
      exact concurs_pure fun _ _ => rfl
  | unwanted expecting => exact (concurs_reportUnwanted hsteady expecting).seq fun w' _ => hrecovery w'
  | reportMissing expecting => exact (concurs_reportMissing hsteady expecting).seq fun w' _ => hrecovery w'
  | sync expecting =>
      exact (concurs_syncHook hsteady expecting).seq fun w' hle =>
        Parser.concurs_seePlace (fun index _ => .count index) (Nat.lt_of_lt_of_le h hle.1)
  | skipTo set =>
      exact (concurs_skipTo hsteady set).seq fun w' hle =>
        Parser.concurs_seePlace (fun index _ => .count index) (Nat.lt_of_lt_of_le h hle.1)

/-- What reaches past the operations of a grammar, on both sides. -/
theorem Direct.concurs {d : Direct β} (h : d.Answerable w) :
    Concurs calm x f w Same (d.run : ParserM σ β) (d.renumber f).run := by
  cases d with
  | errorLeaf t => exact concurs_addErrorLeaf t
  | report t message => exact concurs_report t message rfl nofun
  | dropListeners =>
      exact concurs_modify fun _ _ _ _ _ hpq =>
        hpq.change_both (fun p => { p with listeners := 0 }) (fun _ => rfl) (fun _ => rfl) fun _ _ _ _ => rfl
  | cancel => exact h.elim
  | note n => exact concurs_note rfl h
  | probe probe => exact Probe.concurs hsteady h
  | hook c => exact HookCall.concurs hsteady h

/-- **A recognizer on both sides**, with other numbers of exceptions in its hands. -/
theorem Recognizer.Renumbered.concurs {r r' : Recognizer α} (h : r.Renumbered f w r') :
    Concurs calm x f w Same (r.run : ParserM σ α) r'.run := by
  induction h with
  | pure w a => exact concurs_pure fun _ _ => rfl
  | outOfSteps w => exact concurs_giveUp _
  | step op _ ih =>
      apply (Operation.concurs hsteady op).bind
      rintro w' b _ hle ⟨rfl, hshown⟩
      exact ih w' b hle hshown
  | direct hd _ ih =>
      apply (Direct.concurs hsteady hd).bind
      rintro w' b _ hle ⟨⟩
      exact ih w' b hle
  | rule r _ _ ihbody ihnext => exact (concurs_rule hsteady r ihbody).seq ihnext
  | invoke follow _ _ ihbody ihnext =>
      apply (concurs_invoke follow ihbody).bind
      rintro w' b _ hle ⟨⟩
      exact ihnext w' b hle
  | speculate _ _ ihbody ihnext =>
      apply (concurs_speculate hsteady ihbody).bind
      rintro w' b _ hle ⟨⟩
      exact ihnext w' b hle
  | @attempt _ _ w _ _ _ _ _ _ ihbody ihnext => exact (concurs_attempt (ihbody w w.le_refl)).bind ihnext

end

/-! ## What comes after a trial -/

namespace Parser

/-- How the numbers after a trial go with those that would have been given without it. -/
def renumbering (p q : Parser σ) (id : Nat) : Nat :=
  if id < p.nextException then id else id - p.nextException + q.nextException

/-- What has come into view up to now. -/
def extent (p : Parser σ) : Extent where
  tokens := if p.input.started then p.input.buffer.size else 0
  exceptions := p.nextException

/-- Only tokens that have been taken have come into view. -/
theorem extent_tokens_le (p : Parser σ) : p.extent.tokens ≤ p.input.buffer.size := by
  unfold extent
  split
  · exact Nat.le_refl _
  · exact Nat.zero_le _

variable [TokenSource σ] {calm : σ → Prop} {P : Stream σ → Prop} {x : Tape} {i : Nat} {p q : Parser σ}

/-- A parser whose input is to be read from a place of the tape. -/
theorem poised_extent (hfacing : p.input.Facing x i) (horigin : p.input.started = false → p.input.cursor = 0)
    (hcalm : calm p.input.source) : p.input.Poised calm x p.extent.tokens i where
  facing := hfacing
  origin := horigin
  calm := hcalm
  taken := p.extent_tokens_le
  begun hbegun := by
    cases hstarted : p.input.started with
    | true => rfl
    | false => simp [extent, hstarted] at hbegun

/-- Where the source does not fail, the input stands where it is to be read, after a trial as before. -/
theorem ends_speculate_poised (hsteady : TokenSource.Steady calm) {body : Recognizer Unit} (hbody : body.Tentative)
    (hfacing : p.input.Facing x i) (horigin : p.input.started = false → p.input.cursor = 0)
    (hcalm : calm p.input.source) : Ends (speculate body.run) p fun _ q => q.input.Poised calm x p.extent.tokens i := by
  have hkept := (Stream.kept_facing hsteady x).and (Stream.stable_taken (σ := σ) p.extent.tokens).kept
  apply (ends_speculate_erased hkept hbody ⟨⟨hcalm, i, hfacing⟩, p.extent_tokens_le⟩ hfacing).mono
  rintro _ q ⟨herased, hstarted, hindex⟩
  obtain ⟨⟨hcalm', j, hj⟩, htaken'⟩ := herased.input
  cases hj with
  | fresh _ hfresh _ => exact absurd (hstarted.symm.trans hfresh) nofun
  | standing hstanding =>
      suffices hij : j = i by
        subst hij
        exact hstanding.poised hcalm' htaken'
      have hcursor : q.index = j := hstanding.cursor
      rcases hindex with hindex | ⟨-, hindex⟩
      · cases hfacing with
        | standing hp =>
            have hold : p.index = i := hp.cursor
            omega
        | fresh _ hfresh hi =>
            -- the input stands at the very beginning, which is then the first place to stop at
            have hold : p.index = 0 := horigin hfresh
            obtain rfl : j = 0 := by omega
            rw [hi, hstanding.stop_eq]
      · omega

/-- Nothing has happened but a trial. -/
theorem Erased.akin (h : p.Erased P q) (hp : p.input.Poised calm x p.extent.tokens i)
    (hq : q.input.Poised calm x p.extent.tokens i) (hnumbered : p.Numbered) :
    p.Akin calm x (p.renumbering q) p.extent i q where
  left := hp
  right := hq
  given := Nat.le_refl _
  numbered := hnumbered
  numbers k := by
    simp only [renumbering]
    rw [if_neg (by omega)]
    omega
  same := by
    have hsame : p.renumber (p.renumbering q) = p := hnumbered _ fun k hk => if_pos hk
    rw [hsame]
    exact h.same

/-- **A trial leaves no trace**, from every state in which the input is on a tape, whatever its body does and however it
ends.  The parser is as it was, but that tokens have been taken from the source and numbers of exceptions are used up.
The input stands where it stood, or at the first visible token if it had not been started before.  And if the source
neither fails nor calls the run off, then whatever is done from then on ends as it would have without the trial, in the
same state, up to the numbers of exceptions. -/
theorem speculate_leaves_no_trace {body : Recognizer Unit} (hbody : body.Tentative) (hfacing : p.input.Facing x i)
    (horigin : p.input.started = false → p.input.cursor = 0) (hnumbered : p.Numbered) :
    Ends (speculate body.run) p fun _ q =>
      (q = { p with input := q.input, nextException := q.nextException } ∧ p.nextException ≤ q.nextException ∧
        (q.index = p.index ∨ p.input.started = false ∧ q.index = i)) ∧
      (∀ calm : σ → Prop, TokenSource.Steady calm → calm p.input.source → ∀ {α : Type} {r r' : Recognizer α},
        r.Renumbered (p.renumbering q) p.extent r' → Ends r.run p fun o p' => Ends r'.run q fun o' q' =>
          Joint calm x (p.renumbering q) p.extent Same o p' o' q') := by
  have hplace := ends_speculate_erased Stream.kept_trivial hbody trivial hfacing
  have hafter : Ends (speculate body.run) p fun _ q => ∀ calm : σ → Prop, TokenSource.Steady calm →
      calm p.input.source → q.input.Poised calm x p.extent.tokens i :=
    Ends.all fun calm => Ends.all fun hsteady => Ends.all fun hcalm =>
      ends_speculate_poised hsteady hbody hfacing horigin hcalm
  apply (hplace.and hafter).mono
  rintro _ q ⟨⟨herased, -, hindex⟩, hpoised⟩
  refine ⟨⟨herased.same, herased.numbers, hindex⟩, ?_⟩
  intro calm hsteady hcalm α r r' hr
  have hakin := herased.akin (poised_extent hfacing horigin hcalm) (hpoised calm hsteady hcalm) hnumbered
  exact hr.concurs hsteady _ i p q p.extent.le_refl hakin

namespace Unstarted

/-- Listed tokens none of which is made to fail, and a flag that is not set. -/
def Calm (s : ListedTokens) : Prop := s.failIn = none ∧ s.cancelled = false

/-- Such tokens are given without failing. -/
theorem steady_calm : TokenSource.Steady Calm where
  pull := by
    rintro ⟨rest, last, failIn, cancelled⟩ ⟨rfl, rfl⟩
    cases rest with
    | nil => exact ⟨⟨last, rfl⟩, rfl, rfl⟩
    | cons t rest => exact ⟨⟨t, rfl⟩, rfl, rfl⟩
  cancelled s hs := hs.2

/-- The first visible token is matched, and then one is expected that is not there. -/
def body : Recognizer Unit := (Recognizer.expect ⟨1⟩ ∅).bind fun _ => Recognizer.expect ⟨5⟩ ∅

/-- Both tokens are matched. -/
def pair : Recognizer Unit :=
  .asRule ⟨0⟩ fun _ => (Recognizer.expect ⟨1⟩ ∅).bind fun _ => Recognizer.expect ⟨2⟩ ∅

/-- Matching two tokens is the same whichever the numbers of exceptions are. -/
theorem renumbered_pair (f : Nat → Nat) (w : Extent) : pair.Renumbered f w pair := by
  apply Recognizer.Renumbered.rule
  · intro w' _
    apply Recognizer.Renumbered.step
    intro w'' _ _ _
    apply Recognizer.Renumbered.step
    intro w₃ _ _ _
    exact .pure w₃ ()
  · intro w' _
    exact .pure w' ()

end Unstarted

/-- Before anything has been read a body is tried that fails, and then two tokens are matched. -/
theorem speculate_unstarted : Ends (speculate Unstarted.body.run) Unstarted.start fun _ q =>
    q.tree = {} ∧ q.recovery = {} ∧ q.index ≤ 1 ∧ Ends Unstarted.pair.run Unstarted.start fun o p' =>
      Ends Unstarted.pair.run q fun o' q' =>
        Joint Unstarted.Calm Unstarted.tape (Unstarted.start.renumbering q) Unstarted.start.extent Same o p' o' q' := by
  have hbody : Unstarted.body.Tentative := fun _ _ => trivial
  have hnumbered : Unstarted.start.Numbered := numbered_of_empty rfl rfl
  have hcalm : Unstarted.Calm Unstarted.start.input.source := ⟨rfl, rfl⟩
  have htree : Unstarted.start.tree = {} := rfl
  have hrecovery : Unstarted.start.recovery = {} := rfl
  have hindex : Unstarted.start.index = 0 := rfl
  have horigin : Unstarted.start.input.started = false → Unstarted.start.input.cursor = 0 := fun _ => rfl
  have hfacing := Unstarted.facing_start
  generalize Unstarted.start = p at *
  apply (speculate_leaves_no_trace hbody hfacing horigin hnumbered).mono
  rintro _ q ⟨⟨hsame, -, hplace⟩, hafter⟩
  refine ⟨?_, ?_, ?_, hafter _ Unstarted.steady_calm hcalm (Unstarted.renumbered_pair _ _)⟩
  · rw [hsame]
    exact htree
  · rw [hsame]
    exact hrecovery
  · omega

/-- **The input does not always stay where it was**: if it has not been started before a trial, it has been afterwards. -/
theorem index_moves_on_trial : ¬ ∀ (p : Parser ListedTokens) (body : Recognizer Unit), p.isSpeculating = false →
    body.Ordinary → Ends (speculate body.run) p fun _ q => q.index = p.index := by
  intro hstays
  -- The source is at its start, and a trial leaves it at the first visible token, which is the second one.
  have hcalm : Unstarted.Calm Unstarted.start.input.source := ⟨rfl, rfl⟩
  have hindex : Unstarted.start.index = 0 := rfl
  have hacting : Unstarted.start.isSpeculating = false := rfl
  have horigin : Unstarted.start.input.started = false → Unstarted.start.input.cursor = 0 := fun _ => rfl
  have hfacing := Unstarted.facing_start
  have hstay := hstays Unstarted.start (.pure ()) hacting trivial
  generalize Unstarted.start = p at *
  have hbody : (Recognizer.pure () : Recognizer Unit).Tentative := trivial
  have hfalse : Ends (speculate (Recognizer.pure ()).run) p fun _ _ => False := by
    have hplace := ends_speculate_erased Stream.kept_trivial hbody trivial hfacing
    apply ((hplace.and (ends_speculate_poised Unstarted.steady_calm hbody hfacing horigin hcalm)).and hstay).mono
    rintro _ q ⟨⟨⟨-, hstarted, -⟩, hpoised⟩, hq⟩
    cases hpoised.facing with
    | standing hstanding =>
        have hcursor : q.index = 1 := hstanding.cursor
        omega
    | fresh _ hfresh _ => exact absurd (hstarted.symm.trans hfresh) nofun
  unfold Ends at hfalse
  split at hfalse
  · exact hfalse
  · exact hfalse

end Parser

end TreeProjection
