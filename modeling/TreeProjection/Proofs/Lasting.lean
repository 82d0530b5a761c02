import TreeProjection.Proofs.Balance
import TreeProjection.Proofs.Ordinary

/-! # Recognizers that go on, and recognizers that last

A recognizer that is granted a number of steps must not use them up before the input does.  It does not as long as
what it does again and again takes it further on: then the tokens that are left bound how often it can be done.

* `Parser.Unmoved` — the input has not moved on, and recovery keeps in mind what it did.
* `Recognizer.Advances` — however a recognizer ends, the input has moved on.
* `Recognizer.runs_asRule` — where a rule goes on, whether its body succeeds or fails.
* `Recognizer.Lasts` — a recognizer does not use up its steps.
* `Recognizer.lasts_repeatWhile` — a loop lasts if something goes down with each round. -/

namespace TreeProjection

open TreeProjection.Parser

variable {σ : Type} [TokenSource σ] {α β : Type} {x : Tape} {p q : Parser σ}

/-! ## Going on -/

/-- **The input has not moved on**, and recovery keeps in mind what it did. -/
structure Parser.Unmoved (x : Tape) (p q : Parser σ) : Prop where
  /-- The parser is in a rule. -/
  ready : Ready x q
  /-- The input is where it was. -/
  index : q.index = p.index
  /-- Recovery keeps in mind what it did. -/
  recovery : q.recovery = p.recovery

/-- The input has not moved on, and then it has not moved on again. -/
theorem Parser.Unmoved.trans {r : Parser σ} (h : Unmoved x p q) (h' : Unmoved x q r) : Unmoved x p r :=
  ⟨h'.ready, h'.index.trans h.index, h'.recovery.trans h.recovery⟩

/-- Recovery recalls the same as long as the input does not move on. -/
theorem Parser.Unmoved.recalls_iff (h : Unmoved x p q) {r : RuleIndex} :
    q.Recalls r ↔ p.Recalls r := by
  rw [Recalls, Recalls, h.index, h.recovery]

/-- When a rule has been entered, the input has not moved on. -/
theorem Parser.Entered.unmoved {r : RuleIndex} (h : Entered x p.index r p q) : Unmoved x p q :=
  ⟨h.ready, h.index, h.recovery⟩

namespace Recognizer

/-- **The input has moved on**, however the recognizer ends, unless the parse is given up. -/
def Advances (r : Recognizer α) (p : Parser σ) : Prop :=
  Runs r.run p (fun _ => True) fun _ q => p.index < q.index

/-- An ordinary recognizer leaves the parser in a rule, and does not take the input back. -/
theorem Ordinary.runs_ready {r : Recognizer α} (h : r.Ordinary) (hp : Ready x p) :
    Runs r.run p (fun _ => True) fun _ q => Ready x q ∧ p.index ≤ q.index := by
  refine (h.runs hp fun _ => trivial).mono ?_
  intro _ q ⟨vs, rs, hstep, _⟩
  exact ⟨hstep.ready hp, hstep.index_le⟩

/-- **What comes after an advance** does not undo it. -/
theorem Advances.bind {r : Recognizer α} {f : α → Recognizer β} (h : r.Advances p) (hp : Ready x p)
    (hr : (r.bind f).Ordinary) : (r.bind f).Advances p := by
  obtain ⟨hfirst, hrest⟩ := hr.of_bind (σ := σ)
  have hboth := ((hfirst.runs_ready hp).and h).and_answers (hrest p)
  unfold Advances
  rw [run_bind]
  refine hboth.bind ?_ ?_
  · intro a q ⟨⟨⟨hq, _⟩, hlt⟩, hf⟩
    refine ((hf a rfl).runs_ready hq).mono ?_
    intro _ q' ⟨_, hle⟩
    exact Nat.lt_of_lt_of_le hlt hle
  · intro e q ⟨⟨_, hlt⟩, _⟩
    exact hlt

/-- A recognizer that advances from where the input has not moved on advances. -/
theorem Advances.of_unmoved {r : Recognizer α} (h : r.Advances q) (hq : Unmoved x p q) :
    Runs r.run q (fun _ => True) fun _ q' => p.index < q'.index := by
  unfold Advances at h
  rwa [hq.index] at h

/-- **Looking ahead** does not move the input. -/
theorem runs_look (hp : Ready x p) (k : Nat) {f : TokenType → Recognizer β}
    {good : Except RecognitionException β → Parser σ → Prop}
    (hf : ∀ q : Parser σ, Unmoved x p q →
      Runs (f (x.type (x.skip (k - 1) p.index))).run q (fun _ => True) good) :
    Runs ((typeAhead k).bind f).run p (fun _ => True) good := by
  refine (runs_ahead (.standing hp.standing) trivial k).bind ?_ ?_
  · intro t q ⟨ht, s, hs, hq⟩
    obtain rfl := Except.ok.inj ht
    subst hq
    exact hf _ ⟨(hp.reread hs).ready hp, hs.cursor, rfl⟩
  · intro e q ⟨he, _⟩
    cases he

/-- Looking ahead, and then an advance. -/
theorem advances_look (hp : Ready x p) (k : Nat) {f : TokenType → Recognizer β}
    (hf : ∀ q : Parser σ, Unmoved x p q → (f (x.type (x.skip (k - 1) p.index))).Advances q) :
    ((typeAhead k).bind f).Advances p :=
  runs_look hp k fun q hq => (hf q hq).of_unmoved hq

/-- Whatever is ahead, what comes after looking at it in an ordinary recognizer is ordinary. -/
theorem ordinary_of_look {k : Nat} {f : TokenType → Recognizer β} (h : ((typeAhead k).bind f).Ordinary)
    (ty : TokenType) : (f ty).Ordinary := h (.conjured ty "")

/-- **A trial** does not move the input. -/
theorem runs_try (hp : Ready x p) {body : Unit → Recognizer Unit} (hbody : (body ()).Ordinary)
    {f : Bool → Recognizer β} {good : Except RecognitionException β → Parser σ → Prop}
    (hf : ∀ (b : Bool) (q : Parser σ), Unmoved x p q → Runs (f b).run q (fun _ => True) good) :
    Runs ((trial body).bind f).run p (fun _ => True) good := by
  refine (runs_speculate hp.standing trivial (fun _ => True) fun p₁ hp₁ _ _ =>
    (hbody.runs_trying hp₁ trivial).mono fun _ _ hq => ⟨hq, trivial⟩).bind ?_ ?_
  · intro b q ⟨_, s, n, _, hs, hn, hq, _⟩
    subst hq
    exact hf b _ ⟨(hp.aside hs p.recovery hn (k := p.syntaxErrors)).ready hp, hs.cursor, rfl⟩
  · intro e q ⟨_, _, _, he, _⟩
    cases he

/-- **Matching the current token** moves the input on. -/
theorem advances_expect (hp : Ready x p) {ty : TokenType} (hty : x.type p.index = ty)
    (hne : ty ≠ .eof) (follow : TokenSet) : (expect ty follow).Advances p := by
  have hinner : p.index < x.size := by
    refine Nat.lt_of_not_le fun hle => hne ?_
    rw [← hty, x.type_eq_eof_iff.mpr hle]
  have hnext := x.le_stop (i := p.index + 1) hinner
  refine (runs_expect hp trivial ty follow fun _ _ _ _ => trivial).bind ?_ ?_
  · intro t q hmatched
    cases hmatched with
    | here _ _ index _ =>
        change p.index < q.index
        omega
    | dropped type => exact absurd hty type
    | madeUp type => exact absurd hty type
  · intro e q hmatched
    cases hmatched with
    | failed type => exact absurd hty type

/-- **Invoking a body** leaves the parser as the body does, but for the invocation that was noted. -/
theorem runs_within (hp : Ready x p) {follow : TokenSet} {body : Unit → Recognizer β}
    {good : Except RecognitionException β → Parser σ → Prop}
    (hbody : ∀ q : Parser σ, Unmoved x p q → Runs (body ()).run q (fun _ => True) good)
    (hgood : ∀ o (q : Parser σ), good o q → good o { q with follow := q.follow.tail }) :
    Runs (within follow body).run p (fun _ => True) good := by
  refine (runs_invoke (hbody _ ⟨hp.invoked follow, rfl, rfl⟩)).bind ?_ ?_
  · intro b q ⟨q', hq', hq⟩
    subst hq
    exact hgood _ q' hq'
  · intro e q ⟨q', hq', hq⟩
    subst hq
    exact hgood _ q' hq'

/-- Invoking a body that advances. -/
theorem advances_within (hp : Ready x p) {follow : TokenSet} {body : Unit → Recognizer β}
    (hbody : ∀ q : Parser σ, Unmoved x p q → (body ()).Advances q) :
    (within follow body).Advances p :=
  runs_within hp (fun q hq => (hbody q hq).of_unmoved hq) fun _ _ h => h

/-- **Where a rule goes on**: where its body has ended, if it has succeeded, and otherwise where the rule has
recovered. -/
theorem runs_asRule (hp : Ready x p) {r : RuleIndex} {body : Unit → Recognizer Unit}
    (hord : (body ()).Ordinary) {good : Except RecognitionException Unit → Parser σ → Prop}
    (hbody : ∀ q : Parser σ, Unmoved x p q → Runs (body ()).run q (fun _ => True) good) :
    Runs (asRule r body).run p (fun _ => True) fun _ q => ∃ q₀,
      (good (.ok ()) q₀ ∧ q.index = q₀.index) ∨
        ∃ e, good (.error e) q₀ ∧ Resumed x r q₀ q ∧ q.recovery.inRecovery = true := by
  unfold asRule
  rw [run_rule_pure]
  refine (runs_rule hp trivial (fun o _ _ q => good o q) fun p₁ h₁ => ?_).mono ?_
  · refine ((hord.runs h₁.ready fun _ => trivial).and (hbody p₁ h₁.unmoved)).mono ?_
    intro o q ⟨⟨vs, rs, hstep, hanchor⟩, hgood⟩
    exact ⟨vs, rs, hstep, hgood, hanchor, trivial, fun _ _ _ _ _ => trivial⟩
  · intro o q ⟨_, node, vs, rs, hrule, _, hend⟩
    cases hend with
    | well _ _ q₀ hgood _ _ index => exact ⟨q₀, .inl ⟨hgood, index⟩⟩
    | failed e _ _ _ _ q₀ hgood _ _ inRecovery resumed =>
        rw [hrule] at resumed
        exact ⟨q₀, .inr ⟨e, hgood, resumed, inRecovery⟩⟩

/-- **A rule whose body advances** advances. -/
theorem advances_asRule (hp : Ready x p) {r : RuleIndex} {body : Unit → Recognizer Unit}
    (hord : (body ()).Ordinary) (hbody : ∀ q : Parser σ, Unmoved x p q → (body ()).Advances q) :
    (asRule r body).Advances p := by
  refine (runs_asRule hp hord fun q hq => (hbody q hq).of_unmoved hq).mono ?_
  intro o q ⟨q₀, h⟩
  rcases h with ⟨hlt, hindex⟩ | ⟨e, hlt, hresumed, -⟩
  · rwa [hindex]
  · exact Nat.lt_of_lt_of_le hlt hresumed.index_le

end Recognizer

/-! ## Lasting -/

/-- **Rules begin at a place** of the tape: the parser is in order, and a rule that is entered finds the input there. -/
structure Parser.Opens (x : Tape) (i : Nat) (p : Parser σ) : Prop where
  /-- The parser is in order. -/
  sound : p.Sound x fun _ => True
  /-- A rule that is entered finds the input there. -/
  entered : ∀ r, Answers (enterRule r) p fun _ q => Entered x i r p q

/-- In a rule, another one begins where the input stands. -/
theorem Parser.Ready.opens (hp : Ready x p) : Opens x p.index p where
  sound := ⟨⟨p.index, .standing hp.standing, Nat.le_refl _⟩, fun _ _ _ => trivial⟩
  entered r := by
    have henters : Runs (enterRule r) p (fun _ => True) fun o q =>
        o = .ok () ∧ Entered x p.index r p q :=
      runs_enterRule (.standing hp.standing) hp.acting hp.noted hp.denied trivial r
    exact henters.to_answers.mono fun _ _ hq => hq.2

/-- The outermost rule begins at the first visible token. -/
theorem Parser.opens_fresh (hreads : p.input.Reads x) (hstarted : p.input.started = false)
    (hcursor : p.input.cursor = 0) (hacting : p.speculating = 0) (hnoted : p.strategy.noted = false)
    (hdenied : p.strategy.denied = []) : Opens x (x.stop 0) p where
  sound := by
    refine ⟨⟨x.stop 0, .fresh hreads hstarted rfl, ?_⟩, fun _ _ _ => trivial⟩
    rw [hcursor]
    exact Nat.zero_le _
  entered r := by
    have henters : Runs (enterRule r) p (fun _ => True) fun o q =>
        o = .ok () ∧ Entered x (x.stop 0) r p q :=
      runs_enterRule (.fresh hreads hstarted rfl) hacting hnoted hdenied trivial r
    exact henters.to_answers.mono fun _ _ hq => hq.2

namespace Recognizer

/-- **A recognizer does not use up its steps**: it keeps its contract, and does not give the parse up for want of them. -/
def Lasts (x : Tape) (r : Recognizer α) (p : Parser σ) : Prop :=
  Ends r.run p (p.Kept x (fun _ => True) False)

/-- First one recognizer, then another. -/
theorem Lasts.bind {r : Recognizer α} {f : α → Recognizer β} (h : r.Lasts x p)
    {good : α → Parser σ → Prop} (hgood : Answers r.run p good)
    (hf : ∀ a q, good a q → (f a).Lasts x q) : (r.bind f).Lasts x p := by
  unfold Lasts
  rw [run_bind]
  refine Ends.bind (h.and hgood) ?_ ?_
  · intro a q ⟨hkept, ha⟩
    exact (hf a q (ha a rfl)).mono fun o r hr => hr.trans hkept.2
  · intro i q ⟨hkept, _⟩
    cases i with
    | recognition e => exact hkept
    | abort a => exact hkept

/-- First an ordinary recognizer, and from wherever that has come to another one. -/
theorem Lasts.seq {r : Recognizer α} {f : α → Recognizer β} (h : r.Lasts x p) (hp : Ready x p)
    (hr : r.Ordinary) (hf : ∀ (a : α) (q : Parser σ), Ready x q → p.index ≤ q.index → (f a).Lasts x q) :
    (r.bind f).Lasts x p :=
  h.bind (hr.runs_ready hp).to_answers fun a q hq => hf a q hq.1 hq.2

/-- First a recognizer that advances, and from further on another one. -/
theorem Lasts.after {r : Recognizer α} {f : α → Recognizer β} (h : r.Lasts x p) (hp : Ready x p)
    (hr : r.Ordinary) (hadvances : r.Advances p)
    (hf : ∀ (a : α) (q : Parser σ), Ready x q → p.index < q.index → (f a).Lasts x q) :
    (r.bind f).Lasts x p :=
  h.bind ((hr.runs_ready hp).and hadvances).to_answers fun a q hq => hf a q hq.1.1 hq.2

section

variable (hsource : ∀ (s : σ) e, (TokenSource.pull s).1 = .error e → e = .cancelled)

include hsource

/-- A recognizer that is granted no steps lasts. -/
theorem Within.lasts {r : Recognizer α} (hr : r.Within TokenSet.Fits (fun _ => True) False)
    (hp : Ready x p) : r.Lasts x p :=
  hr.keeps hsource p hp.opens.sound

/-- Matching a token. -/
theorem lasts_expect (hp : Ready x p) {ty : TokenType} (hty : TokenSet.Fits ty) (follow : TokenSet) :
    (expect ty follow).Lasts x p :=
  Within.lasts hsource ⟨hty, fun _ => trivial⟩ hp

/-- Looking ahead, and from where the input has not moved on another recognizer. -/
theorem lasts_look (hp : Ready x p) (k : Nat) {f : TokenType → Recognizer β}
    (hf : ∀ q : Parser σ, Unmoved x p q → (f (x.type (x.skip (k - 1) p.index))).Lasts x q) :
    ((typeAhead k).bind f).Lasts x p := by
  have hlook : Runs ((typeAhead k).bind Recognizer.pure).run p (fun _ => True) fun o q =>
      o = .ok (x.type (x.skip (k - 1) p.index)) ∧ Unmoved x p q :=
    runs_look hp k fun q hq => ⟨rfl, hq⟩
  have hlasts : (typeAhead k).Lasts x p := Within.lasts hsource ⟨trivial, fun _ => trivial⟩ hp
  refine hlasts.bind hlook.to_answers ?_
  intro ty q ⟨hty, hq⟩
  rw [Except.ok.inj hty]
  exact hf q hq

/-- A trial that lasts, and from where the input has not moved on another recognizer. -/
theorem lasts_try (hp : Ready x p) {body : Unit → Recognizer Unit} (hbody : (body ()).Ordinary)
    (hwithin : (body ()).Within TokenSet.Fits (fun _ => True) False) {f : Bool → Recognizer β}
    (hf : ∀ (b : Bool) (q : Parser σ), Unmoved x p q → (f b).Lasts x q) :
    ((trial body).bind f).Lasts x p := by
  have htried : Runs ((trial body).bind Recognizer.pure).run p (fun _ => True) fun _ q =>
      Unmoved x p q :=
    runs_try hp hbody fun b q hq => hq
  have hlasts : (trial body).Lasts x p := Within.lasts hsource ⟨hwithin, fun _ => trivial⟩ hp
  exact hlasts.bind htried.to_answers hf

omit hsource in
/-- Invoking a body. -/
theorem lasts_within (hp : Ready x p) {follow : TokenSet} {body : Unit → Recognizer β}
    (hbody : ∀ q : Parser σ, Unmoved x p q → (body ()).Lasts x q) :
    (within follow body).Lasts x p := by
  have hinvoked : Ends (Parser.invoke follow (body ()).run) p (p.Kept x (fun _ => True) False) := by
    refine kept_invoke hp.opens.sound follow fun p' hp' _ => ?_
    subst hp'
    exact hbody _ ⟨hp.invoked follow, rfl, rfl⟩
  refine Ends.bind hinvoked (fun b q hq => hq) fun i q hq => ?_
  cases i with
  | recognition e => exact hq
  | abort a => exact hq

/-- **A rule lasts if its body does** where the rule begins. -/
theorem lasts_asRule {i : Nat} (hp : Opens x i p) {r : RuleIndex} {body : Unit → Recognizer Unit}
    (hbody : ∀ q : Parser σ, Ready x q → q.index = i → (body ()).Lasts x q) :
    (asRule r body).Lasts x p := by
  unfold Lasts asRule
  rw [run_rule_pure]
  exact kept_rule hsource hp.sound trivial (fun _ => (keeps_uniform hsource).handleRecognition rfl)
    (hp.entered r)
    fun q hq _ => hbody q hq.ready hq.index

omit hsource in
/-- **A loop lasts if something goes down with each round**, and there are more rounds to go than that. -/
theorem lasts_repeatWhile {body : Unit → Recognizer Bool} (hord : (body ()).Ordinary)
    (left : Parser σ → Nat) (hp : Ready x p) {rounds : Nat}
    (hbody : ∀ q : Parser σ, Ready x q → p.index ≤ q.index → (body ()).Lasts x q)
    (hround : ∀ q : Parser σ, Ready x q → Answers (body ()).run q fun again r =>
      again = true → left r < left q)
    (hrounds : left p < rounds) : (repeatWhile body rounds).Lasts x p := by
  -- by induction on the rounds that are granted
  induction rounds generalizing p with
  | zero => exact absurd hrounds (Nat.not_lt_zero _)
  | succ rounds ih =>
      refine Lasts.bind (hbody p hp (Nat.le_refl _))
        ((hord.runs_ready hp).to_answers.and (hround p hp)) ?_
      intro again q ⟨⟨hq, hle⟩, hdown⟩
      cases again with
      | false => exact ⟨hq.opens.sound, .refl q⟩
      | true =>
          refine ih hq (fun r hr hqr => hbody r hr (Nat.le_trans hle hqr)) ?_
          have := hdown rfl
          omega

end

end Recognizer

end TreeProjection
