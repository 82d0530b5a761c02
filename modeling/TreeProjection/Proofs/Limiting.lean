import TreeProjection.Host.Green
import TreeProjection.Projection.Session
import TreeProjection.Proofs.Lockstep
import TreeProjection.Proofs.Ordinary

/-! # Limits of recursion

How many rules may be active at once can be limited.  A run under a limit is the run without one up to the first
entry of a rule with too many rules active, be it during a trial, and there the whole run fails: no rule recovers from
that, and no trial and no body that is run for its exception takes it for a failure of theirs.

* `Recognizer.entryDepths` — how many rules are active whenever a run enters a rule.
* `TokenSource.Steady` — sources that never fail and never call a run off.
* `Parser.Limited` — what an action does under a limit, by the entries of rules on its way.
* `Recognizer.Ordinary.limited` — an ordinary recognizer under a limit.
* `Session.project_recursionLimit` — a projection under a limit. -/

namespace TreeProjection

variable {σ : Type} {α β : Type}

section

variable [TokenSource σ]

/-! ## Entries of rules -/

/-- What is seen after an action, if it answers. -/
def Parser.seenAfter (x : ParserM σ α) (p : Parser σ) (next : α → Parser σ → List Nat) : List Nat :=
  match x p with
  | .ok a q => next a q
  | .error _ _ => []

/-- **How many rules are active whenever a run enters a rule**, in the order of the entries.  Entries during trials
count, also those of trials that fail. -/
def Recognizer.entryDepths {α : Type} : Recognizer α → Parser σ → List Nat
  | .pure _, _ => []
  | .outOfSteps, _ => []
  | .step op next, p => Parser.seenAfter op.run p fun b => (next b).entryDepths
  | .direct d next, p => Parser.seenAfter d.run p fun b => (next b).entryDepths
  | .rule r body next, p =>
    (p.frames.length :: Parser.seenAfter (Parser.enterRule r) p fun _ => (body ()).entryDepths) ++
      Parser.seenAfter (Parser.rule r (body ()).run) p fun u => (next u).entryDepths
  | .invoke follow body next, p =>
    (body ()).entryDepths { p with follow := follow :: p.follow } ++
      Parser.seenAfter (Parser.invoke follow (body ()).run) p fun b => (next b).entryDepths
  | .speculate body next, p =>
    (Parser.seenAfter (Parser.ahead 1) p fun _ q =>
      (body ()).entryDepths { q with speculating := q.speculating + 1 }) ++
      Parser.seenAfter (Parser.speculate (body ()).run) p fun b => (next b).entryDepths
  | .attempt body next, p =>
    (body ()).entryDepths p ++
      Parser.seenAfter (Parser.attempt (body ()).run) p fun b => (next b).entryDepths

/-! ## Sources that never fail -/

/-- **Sources that never fail and never call a run off**, however many tokens are taken from them. -/
structure TokenSource.Steady (calm : σ → Prop) : Prop where
  /-- Each pull gives a token, and the next one will. -/
  pull : ∀ s, calm s → (∃ t, (TokenSource.pull s).1 = .ok t) ∧ calm (TokenSource.pull s).2
  /-- The run is not called off. -/
  cancelled : ∀ s : σ, calm s → TokenSource.isCancelled s = false

namespace TokenSource.Steady

variable {calm : σ → Prop} (h : Steady calm)

include h

/-- Such a source goes side by side with itself. -/
theorem abreast : Abreast .full (fun _ : σ => False) (fun _ => False) fun s t => s = t ∧ calm s where
  stays _ hs := hs
  pull := by
    rintro s _ ⟨rfl, hs⟩
    exact .inr ⟨rfl, rfl, (h.pull s hs).2⟩
  cancelled := by
    rintro s _ ⟨rfl, -⟩
    exact .inl rfl
  bound := by
    rintro s _ ⟨rfl, -⟩
    rfl
  fails := nofun

/-- However an ordinary recognizer ends, the source stays such a source. -/
theorem runs {r : Recognizer α} (hr : r.Ordinary) {p : Parser σ} (hp : calm p.input.source) :
    Ends r.run p fun _ q => calm q.input.source := by
  have : Nonempty σ := ⟨p.input.source⟩
  have habreast : Abreast .full calm (fun _ => False) fun (_ _ : σ) => False :=
    ⟨fun s hs => (h.pull s hs).2, nofun, nofun, nofun, nofun⟩
  exact (hr.parallel habreast).stays p hp

omit h in
/-- What comes of such a source by pulls is such a source. -/
theorem drawn (h : Steady calm) {s t : σ} (hdrawn : Drawn s t) (hs : calm s) : calm t := by
  induction hdrawn with
  | refl => exact hs
  | pull _ ih => exact (h.pull _ ih).2

/-- Nothing keeps a parser from taking its input back. -/
theorem ends_seek (i : Nat) {p : Parser σ} (hp : calm p.input.source) :
    Ends (Parser.onInput (Stream.seek i)) p fun o _ => o = .ok () := by
  refine Parser.ends_onInput ((Stream.stalls_seek i p.input).mono ?_)
  rintro (a | _) t ⟨-, hfails⟩
  · obtain ⟨source, e, hdrawn, hfails, -⟩ := hfails a rfl
    obtain ⟨u, hu⟩ := (h.pull source (h.drawn hdrawn hp)).1
    cases hu.symm.trans hfails
  · rfl

end TokenSource.Steady

/-! ## Actions under a limit -/

namespace Parser

/-- The same parser under a limit. -/
def under (limit : Nat) (p : Parser σ) : Parser σ := { p with recursionLimit := some limit }

/-- Why a run under a limit fails that has come to it. -/
def exceeded : Interrupt := .abort (.error .recursionLimitExceeded)

variable {calm : σ → Prop} {limit : Nat} {p : Parser σ}

/-- A parser without a limit, over a source that never fails. -/
structure Unlimited (calm : σ → Prop) (p : Parser σ) : Prop where
  /-- There is no limit. -/
  recursionLimit : p.recursionLimit = none
  /-- The source never fails. -/
  source : calm p.input.source

/-- A parser without a limit and one under a limit. -/
abbrev Raised (limit : Nat) (m n : Option Nat) : Prop := m = none ∧ n = some limit

omit [TokenSource σ] in
/-- A parser is beside the same parser under a limit, and beside no other one. -/
theorem beside_raised_iff {q : Parser σ} :
    p.Beside .full (Raised limit) (fun s t => s = t ∧ calm s) q ↔ p.Unlimited calm ∧ q = p.under limit := by
  constructor
  · rintro ⟨⟨hsource, hcalm⟩, ⟨hnone, hlimit⟩, hsketch⟩
    have hover := eq_over_of_sketch (q := { q with recursionLimit := none }) hsketch hnone
    have hunder : q = ({ q with recursionLimit := none } : Parser σ).under limit := by
      rw [under, ← hlimit]
    rw [← hsource] at hover
    rw [hunder, hover]
    exact ⟨⟨hnone, hcalm⟩, rfl⟩
  · rintro ⟨⟨hnone, hcalm⟩, rfl⟩
    exact ⟨⟨rfl, hcalm⟩, ⟨hnone, rfl⟩, rfl⟩

/-- **What an action does under a limit**, where `depths` tells how many rules are active whenever it enters a rule
without one: it fails if that is ever too many, and otherwise it does the same. -/
structure Limited (calm : σ → Prop) (limit : Nat) (depths : List Nat) (x : ParserM σ α) (p : Parser σ) :
    Prop where
  /-- There are too many rules active at some entry. -/
  exceeds : (∃ n ∈ depths, limit ≤ n) → Ends x (p.under limit) fun o _ => o = .error exceeded
  /-- There are never too many. -/
  agrees : (∀ n ∈ depths, n < limit) → Ends x p fun o q => q.Unlimited calm ∧
    Ends x (p.under limit) fun o' q' => o' = o ∧ q' = q.under limit

namespace Limited

variable {depths : List Nat} {x : ParserM σ α}

omit [TokenSource σ] in
/-- An action that enters no rule does not depend on the limit. -/
theorem of_parallel (h : Parallel .full (Raised limit) (fun _ => False) (fun _ => False)
      (fun s t => s = t ∧ calm s) id x x) (hp : p.Unlimited calm) : Limited calm limit [] x p where
  exceeds := by
    rintro ⟨n, hn, -⟩
    cases hn
  agrees _ := by
    -- neither side drops out or is lost, since both were ruled out when the two were put side by side
    refine (h.keeps p (p.under limit) (beside_raised_iff.mpr ⟨hp, rfl⟩)).mono fun o q ho => ?_
    rcases ho with (hout | ⟨i, -, hlost⟩) | hsame
    · exact hout.elim
    · match i, hlost with
      | .abort (.error _), hlost => exact hlost.elim
    · have hsketch : Interrupt.sketch .full = id := funext Interrupt.sketch_full
      simp only [hsketch, sketchOutcome_id, beside_raised_iff] at hsame
      refine ⟨?_, hsame.mono fun o' q' h => ⟨h.1.symm, h.2.2⟩⟩
      unfold Ends at hsame
      split at hsame
      · exact hsame.2.1
      · exact hsame.2.1

omit [TokenSource σ] in
/-- **One action after the other.** -/
theorem bind {f : α → ParserM σ β} {next : α → Parser σ → List Nat} (hx : Limited calm limit depths x p)
    (hf : ∀ a q, q.Unlimited calm → Limited calm limit (next a q) (f a) q) :
    Limited calm limit (depths ++ seenAfter x p next) (x >>= f) p where
  exceeds := by
    rintro ⟨n, hn, hle⟩
    by_cases hfirst : ∃ n ∈ depths, limit ≤ n
    · refine Ends.bind (hx.exceeds hfirst) (fun a q h => nomatch h) fun e q h => ?_
      exact congrArg Except.error (Except.error.inj h)
    · -- then the first action does the same without the limit, and the second one comes to it
      have hagrees := hx.agrees fun n hn => Nat.lt_of_not_le fun hle => hfirst ⟨n, hn, hle⟩
      have hlater : n ∈ seenAfter x p next :=
        (List.mem_append.mp hn).resolve_left fun hn => hfirst ⟨n, hn, hle⟩
      unfold seenAfter at hlater
      cases hrun : x p with
      | error e q =>
          rw [hrun] at hlater
          cases hlater
      | ok a q =>
          rw [hrun] at hlater
          obtain ⟨hq, hsame⟩ := Ends.of_ok hagrees hrun
          refine Ends.bind hsame ?_ (fun e q h => nomatch h.1)
          rintro a' _ ⟨ha, rfl⟩
          obtain rfl := Except.ok.inj ha
          exact (hf _ q hq).exceeds ⟨n, hlater, hle⟩
  agrees hall := by
    have hagrees := hx.agrees fun n hn => hall n (List.mem_append_left _ hn)
    refine Ends.bind ((Ends.self x p).and hagrees) ?_ ?_
    · rintro a q ⟨hrun, hq, hsame⟩
      have hseen : seenAfter x p next = next a q := by
        unfold seenAfter
        rw [hrun]
      have hnext := (hf a q hq).agrees fun n hn => hall n (List.mem_append_right _ (by rwa [hseen]))
      refine hnext.mono fun o r h => ⟨h.1, Ends.bind hsame ?_ fun e q h => nomatch h.1⟩
      rintro a' _ ⟨ha, rfl⟩
      obtain rfl := Except.ok.inj ha
      exact h.2
    · rintro e q ⟨-, hq, hsame⟩
      refine ⟨hq, Ends.bind hsame (fun a q h => nomatch h.1) ?_⟩
      rintro e' _ ⟨he, rfl⟩
      exact ⟨congrArg Except.error (Except.error.inj he), rfl⟩

omit [TokenSource σ] in
/-- Looking at what does not depend on the limit. -/
theorem get_bind {f : Parser σ → ParserM σ α} (h : Limited calm limit depths (f p) p)
    (hf : f (p.under limit) = f p) : Limited calm limit depths (get >>= f) p where
  exceeds hexceeds := by
    rw [ends_get_bind, hf]
    exact h.exceeds hexceeds
  agrees hall := by
    rw [ends_get_bind]
    refine (h.agrees hall).mono fun o q ho => ⟨ho.1, ?_⟩
    rw [ends_get_bind, hf]
    exact ho.2

omit [TokenSource σ] in
/-- Changing what does not depend on the limit. -/
theorem modify_bind {f : Parser σ → Parser σ} (h : Limited calm limit depths x (f p))
    (hf : f (p.under limit) = (f p).under limit) :
    Limited calm limit depths (modify f >>= fun _ => x) p where
  exceeds hexceeds := by
    rw [ends_modify_bind, hf]
    exact h.exceeds hexceeds
  agrees hall := by
    rw [ends_modify_bind]
    refine (h.agrees hall).mono fun o q ho => ⟨ho.1, ?_⟩
    rw [ends_modify_bind, hf]
    exact ho.2

omit [TokenSource σ] in
/-- **Going on from how an action has ended**, if what comes next enters no rule and hands on that the limit was
exceeded. -/
theorem observe_bind {f : Except Interrupt α → ParserM σ β} (hx : Limited calm limit depths x p)
    (hcalm : Ends x (p.under limit) fun _ q => calm q.input.source)
    (hf : ∀ o q, q.Unlimited calm → Limited calm limit [] (f o) q)
    (hpass : ∀ q : Parser σ, calm q.input.source → Ends (f (.error exceeded)) q fun o _ => o = .error exceeded) :
    Limited calm limit depths (observe x >>= f) p where
  exceeds hexceeds := by
    refine ends_observe_bind ((hx.exceeds hexceeds).and hcalm) ?_
    rintro _ q ⟨rfl, hq⟩
    exact hpass q hq
  agrees hall := by
    refine ends_observe_bind (hx.agrees hall) ?_
    rintro o q ⟨hq, hsame⟩
    refine ((hf o q hq).agrees (by rintro n hn; cases hn)).mono fun o' r h => ⟨h.1, ?_⟩
    refine ends_observe_bind hsame ?_
    rintro _ _ ⟨rfl, rfl⟩
    exact h.2

omit [TokenSource σ] in
/-- Invoking a body. -/
theorem invoke (follow : TokenSet)
    (hbody : Limited calm limit depths x { p with follow := follow :: p.follow })
    (hcalm : Ends x { p.under limit with follow := follow :: p.follow } fun _ q => calm q.input.source) :
    Limited calm limit depths (Parser.invoke follow x) p := by
  refine modify_bind (observe_bind (f := endInvocation) hbody hcalm (fun o q hq => ?_) fun q _ => ?_) rfl
  · exact of_parallel (parallel_endInvocation rfl) hq
  · rfl

omit [TokenSource σ] in
/-- Running a body for its exception. -/
theorem attempt (hbody : Limited calm limit depths x p)
    (hcalm : Ends x (p.under limit) fun _ q => calm q.input.source) :
    Limited calm limit depths (Parser.attempt x) p := by
  refine observe_bind (f := endAttempt) hbody hcalm (fun o q hq => ?_) fun q _ => ?_
  · refine of_parallel ?_ hq
    rw [← sketchOutcome_full]
    exact parallel_endAttempt rfl
  · rfl

section

variable (hsteady : TokenSource.Steady calm) (hp : p.Unlimited calm)

include hsteady hp

/-- **Entering a rule** is where a run may come to the limit. -/
theorem enterRule (r : RuleIndex) : Limited calm limit [p.frames.length] (Parser.enterRule r) p := by
  have : Nonempty σ := ⟨p.input.source⟩
  have hopen : ∀ q : Parser σ, calm q.input.source → Parser.enterRule r q =
      (if q.recursionLimit.any (· ≤ q.frames.length) then giveUp (.error .recursionLimitExceeded)
        else beginRule r : ParserM σ Unit) q := by
    intro q hq
    have hcheck : (checkCancelled : ParserM σ Unit) q = .ok () q := by
      change (if TokenSource.isCancelled q.input.source then giveUp (.error .cancelled) else pure () :
        ParserM σ Unit) q = _
      rw [hsteady.cancelled _ hq]
      rfl
    rw [enterRule_eq]
    simp only [Bind.bind, EStateM.bind, hcheck]
    rfl
  -- past the two checks, entering a rule does not look at the limit any more
  have hbegin : Limited calm limit [] (beginRule r) p :=
    of_parallel (parallel_beginRule hsteady.abreast r) hp
  have hfree : Parser.enterRule r p = beginRule r p := by
    rw [hopen p hp.source, hp.recursionLimit]
    rfl
  -- the depth at which the rule is entered is the only one seen, and it is compared with the limit
  constructor
  · rintro ⟨n, hn, hle⟩
    obtain rfl := List.mem_singleton.mp hn
    have hmany : (p.under limit).recursionLimit.any (· ≤ (p.under limit).frames.length) = true :=
      decide_eq_true hle
    unfold Ends
    rw [hopen (p.under limit) hp.source, if_pos hmany]
    rfl
  · intro hall
    have hfew : ¬ (p.under limit).recursionLimit.any (· ≤ (p.under limit).frames.length) = true :=
      fun hmany => absurd (of_decide_eq_true hmany) (Nat.not_le_of_lt (hall _ (List.mem_singleton_self _)))
    have hunder : Parser.enterRule r (p.under limit) = beginRule r (p.under limit) := by
      rw [hopen (p.under limit) hp.source, if_neg hfew]
    have hagrees := hbegin.agrees (by rintro n hn; cases hn)
    unfold Ends at hagrees ⊢
    rw [hfree, hunder]
    exact hagrees

/-- A rule. -/
theorem rule {r : RuleIndex} {body : ParserM σ Unit} {next : Parser σ → List Nat}
    (hbody : ∀ q, q.Unlimited calm → Limited calm limit (next q) body q)
    (hcalm : ∀ q : Parser σ, calm q.input.source → Ends body q fun _ q' => calm q'.input.source) :
    Limited calm limit (p.frames.length :: seenAfter (Parser.enterRule r) p fun _ => next)
      (Parser.rule r body) p := by
  have : Nonempty σ := ⟨p.input.source⟩
  refine bind (enterRule hsteady hp r) fun _ q hq => ?_
  refine observe_bind (f := settleRule) (hbody q hq) (hcalm _ hq.source) (fun o q hq => ?_) fun q _ => ?_
  · refine of_parallel (parallel_settleRule hsteady.abreast (fun e e' he => ?_) rfl) hq
    exact hsteady.abreast.uniform.handleRecognition he
  · rw [exceeded, settleRule_abort]
    exact ends_observe_bind (Ends.self popRule q) fun _ _ _ => rfl

/-- Trying a body. -/
theorem speculate {body : ParserM σ Unit} {next : Parser σ → List Nat}
    (hbody : ∀ q, q.Unlimited calm → Limited calm limit (next q) body q)
    (hcalm : ∀ q : Parser σ, calm q.input.source → Ends body q fun _ q' => calm q'.input.source) :
    Limited calm limit (seenAfter (Parser.ahead 1) p fun _ q =>
      next { q with speculating := q.speculating + 1 }) (Parser.speculate body) p := by
  have : Nonempty σ := ⟨p.input.source⟩
  refine bind (of_parallel (parallel_onInput (Stream.parallel_ahead hsteady.abreast 1)) hp) fun _ q hq => ?_
  refine get_bind (modify_bind ?_ rfl) rfl
  have htrial : ({ q with speculating := q.speculating + 1 } : Parser σ).Unlimited calm :=
    ⟨hq.recursionLimit, hq.source⟩
  refine observe_bind (f := endTrial q.index q.frames.length q.follow.length) (hbody _ htrial)
    (hcalm _ hq.source) (fun o r hr => ?_) fun r hr => ?_
  · exact of_parallel (parallel_endTrial hsteady.abreast _ _ _ rfl) hr
  · unfold endTrial
    rw [ends_modify_bind]
    exact Ends.bind (hsteady.ends_seek q.index hr) (fun _ _ _ => rfl) fun i _ h => nomatch h

end

omit [TokenSource σ] in
/-- What an action does that never comes to the limit. -/
theorem eq (h : Limited calm limit depths x p) (hbelow : ∀ n ∈ depths, n < limit) :
    x (p.under limit) = match x p with
      | .ok a q => .ok a (q.under limit)
      | .error i q => .error i (q.under limit) := by
  have hagrees := h.agrees hbelow
  unfold Ends at hagrees
  cases hfree : x p <;> rw [hfree] at hagrees <;> have hsame := hagrees.2
  all_goals
    cases hrun : x (p.under limit) <;> rw [hrun] at hsame <;> obtain ⟨hout, rfl⟩ := hsame <;> cases hout
    rfl

end Limited

end Parser

/-- **An ordinary recognizer under a limit.** -/
theorem Recognizer.Ordinary.limited {calm : σ → Prop} {limit : Nat} {r : Recognizer α} (hr : r.Ordinary)
    (hsteady : TokenSource.Steady calm) {p : Parser σ} (hp : p.Unlimited calm) :
    Parser.Limited calm limit (r.entryDepths p) r.run p := by
  have : Nonempty σ := ⟨p.input.source⟩
  -- the cases are those of the recognizer, and each goes on with the rest of it
  induction r generalizing p with
  | pure a => exact .of_parallel (.pure rfl) hp
  | outOfSteps => exact .of_parallel (.throw rfl) hp
  | step op next ih =>
      have hop : Parser.Limited calm limit [] op.run p := by
        have hwithin : op.Within fun _ => True := by cases op <;> trivial
        refine .of_parallel ?_ hp
        rw [← op.sketch_full]
        exact hsteady.abreast.uniform.operation hwithin
      exact hop.bind fun b q hq => ih b (hr b) hq
  | direct d next ih => exact hr.elim
  | rule r body next ihbody ihnext =>
      refine .bind (.rule hsteady hp (fun q hq => ihbody () hr.1 hq) fun q hq => hsteady.runs hr.1 hq)
        fun u q hq => ihnext u (hr.2 u) hq
  | invoke follow body next ihbody ihnext =>
      have hinvoked : ({ p with follow := follow :: p.follow } : Parser σ).Unlimited calm :=
        ⟨hp.recursionLimit, hp.source⟩
      refine .bind (.invoke follow (ihbody () hr.1 hinvoked) (hsteady.runs hr.1 hp.source)) fun b q hq => ?_
      exact ihnext b (hr.2 b) hq
  | speculate body next ihbody ihnext =>
      refine .bind (.speculate hsteady hp (fun q hq => ihbody () hr.1 hq) fun q hq => hsteady.runs hr.1 hq)
        fun u q hq => ihnext u (hr.2 u) hq
  | attempt body next ihbody ihnext =>
      refine .bind (.attempt (ihbody () hr.1 hp) (hsteady.runs hr.1 hp.source)) fun b q hq => ?_
      exact ihnext b (hr.2 b) hq

end

/-! ## Projections under a limit -/

/-- **A host whose cancellation flag is unset**, and where nothing ever sets it. -/
structure Supervised.Calm (s : Supervised β) : Prop where
  /-- The flag is unset. -/
  cancelled : s.cancelled = false
  /-- No call sets it. -/
  cancelAt : s.cancelAt = none
  /-- Coming to the end does not set it. -/
  cancelAtEnd : s.cancelAtEnd = false

namespace Supervised

variable {τ : Type} [TreeBuilder β τ]

omit [TreeBuilder β τ] in
/-- Where no call sets the flag, none does. -/
theorem Calm.counted {s : Supervised β} (h : s.Calm) (builder : β) : (s.counted builder).Calm where
  cancelled := by
    change (s.cancelled || s.cancelAt == some (s.calls + 1)) = false
    rw [h.cancelled, h.cancelAt]
    rfl
  cancelAt := h.cancelAt
  cancelAtEnd := h.cancelAtEnd

omit [TreeBuilder β τ] in
/-- Where coming to the end does not set the flag, it stays unset. -/
theorem Calm.exhausted {s : Supervised β} (h : s.Calm) : s.exhausted.Calm where
  cancelled := by
    change (s.cancelled || s.cancelAtEnd) = false
    rw [h.cancelled, h.cancelAtEnd]
    rfl
  cancelAt := h.cancelAt
  cancelAtEnd := h.cancelAtEnd

/-- **A host where nothing sets the flag** never fails and never calls a run off. -/
theorem steady_calm : TokenSource.Steady (Calm : Supervised β → Prop) where
  pull := by
    intro s hs
    change (∃ t, (pull s).1 = .ok t) ∧ (pull s).2.Calm
    unfold pull
    rw [if_neg (by rw [hs.cancelled]; exact Bool.false_ne_true)]
    cases TreeBuilder.kind? s.builder with
    | none => exact ⟨⟨_, rfl⟩, hs.exhausted⟩
    | some kind => exact ⟨⟨_, rfl⟩, hs.counted _⟩
  cancelled _ hs := hs.cancelled

end Supervised

namespace Session

variable {τ : Type} [TreeBuilder β τ]

/-- The same session, where so many rules may be active at once. -/
def limitedTo (s : Session) (limit : Option Nat) : Session := { s with recursionLimit := limit }

/-- How many rules are active whenever the recognition of a host enters a rule, if that is not limited. -/
def recognitionDepths (s : Session) (g : Grammar) (entry : RuleIndex) (host : Supervised β) : List Nat :=
  (g.entry (stepsFor (TreeBuilder.remaining host.builder)) entry).entryDepths
    ((s.limitedTo none).parser g.language host)

/-- **How many rules are active whenever a projection enters a rule**, if that is not limited. -/
def entryDepths (s : Session) (g : Grammar) (entry : RuleIndex) (host : Supervised β) : List Nat :=
  match g.language.checkEntry entry with
  | .error _ => []
  | .ok () => s.recognitionDepths g entry host.mark.2

variable {s : Session} {g : Grammar} {entry : RuleIndex} {host : Supervised β} {limit : Nat}

section

variable (hr : (g.entry (stepsFor (TreeBuilder.remaining host.builder)) entry).Ordinary) (hcalm : host.Calm)

include hr hcalm

/-- Recognition under a limit, as an action of a parser. -/
theorem limited_recognition : Parser.Limited Supervised.Calm limit (s.recognitionDepths g entry host)
    (g.entry (stepsFor (TreeBuilder.remaining host.builder)) entry).run
    ((s.limitedTo none).parser g.language host) :=
  hr.limited Supervised.steady_calm ⟨rfl, hcalm⟩

/-- **Recognition that comes to the limit** fails. -/
theorem runRecognizer_exceeds (hexceeds : ∃ n ∈ s.recognitionDepths g entry host, limit ≤ n) :
    ((s.limitedTo (some limit)).runRecognizer g entry host).outcome =
      .error (.error .recursionLimitExceeded) := by
  have hfails := (limited_recognition hr hcalm).exceeds hexceeds
  change Ends _ ((s.limitedTo (some limit)).parser g.language host) _ at hfails
  unfold Ends at hfails
  unfold runRecognizer
  cases hrun : (g.entry (stepsFor (TreeBuilder.remaining host.builder)) entry).run
      ((s.limitedTo (some limit)).parser g.language host) with
  | ok a p =>
      rw [hrun] at hfails
      cases hfails
  | error i p =>
      rw [hrun] at hfails
      obtain rfl := Except.error.inj hfails
      simp only [hrun, Parser.exceeded]

/-- **Recognition that stays below the limit** does the same as without one. -/
theorem runRecognizer_agrees (hbelow : ∀ n ∈ s.recognitionDepths g entry host, n < limit) :
    (s.limitedTo (some limit)).runRecognizer g entry host = (s.limitedTo none).runRecognizer g entry host := by
  have hrun := (limited_recognition hr hcalm).eq hbelow
  have hunder : ((s.limitedTo none).parser g.language host).under limit =
      (s.limitedTo (some limit)).parser g.language host := rfl
  rw [hunder] at hrun
  unfold runRecognizer
  simp only [hrun]
  cases (g.entry (stepsFor (TreeBuilder.remaining host.builder)) entry).run
      ((s.limitedTo none).parser g.language host) with
  | ok a p => rfl
  | error i p => cases i <;> rfl

end

/-- **A projection under a limit.**  It fails if it ever enters a rule with that many rules active, be it during a
trial; and otherwise all that comes of it is what comes of it without a limit. -/
theorem project_recursionLimit {root : Kind}
    (hr : ∀ tokens, (g.entry (stepsFor tokens) entry).Ordinary) (hcalm : host.Calm) :
    ((∃ n ∈ s.entryDepths g entry host, limit ≤ n) →
      ((s.limitedTo (some limit)).project g entry root host).1.outcome =
        .error (.error .recursionLimitExceeded)) ∧
    ((∀ n ∈ s.entryDepths g entry host, n < limit) →
      (s.limitedTo (some limit)).project g entry root host =
        (((s.limitedTo none).project g entry root host).1,
          ((s.limitedTo none).project g entry root host).2.limitedTo (some limit))) := by
  have hmarked : host.mark.2.Calm := hcalm.counted _
  unfold entryDepths project
  cases g.language.checkEntry entry with
  | error e => exact ⟨nofun, fun _ => rfl⟩
  | ok u =>
      constructor
      · intro hexceeds
        simp only [runRecognizer_exceeds (hr _) hmarked hexceeds]
      · intro hbelow
        simp only [runRecognizer_agrees (hr _) hmarked hbelow]
        -- what comes after recognition does not look at the limit
        cases ((s.limitedTo none).runRecognizer g entry host.mark.2).outcome with
        | error a => rfl
        | ok a =>
            simp only
            split <;> rfl

end Session

/-! ## Rules inside of rules -/

namespace Nested

/-- A language of two token types and two rules. -/
def language : Language where
  name := "nested"
  vocabulary := .ofNames [] [none, some "B", some "C"]
  rules := #[("main", ⟨0⟩), ("item", ⟨1⟩)]
  elements := ⟨3, 2⟩

/-- An item, perhaps inside of further items: a `B`. -/
def item : (around : Nat) → Recognizer Unit
  | 0 => .asRule ⟨1⟩ fun _ => .expect ⟨1⟩ ∅
  | around + 1 => .asRule ⟨1⟩ fun _ => item around

/-- The first rule tries an item inside of an item, and then matches a `B` itself. -/
def grammar : Grammar where
  language := language
  entry _ _ := .asRule ⟨0⟩ fun _ => (Recognizer.trial fun _ => item 1).bind fun _ => .expect ⟨1⟩ ∅

/-- A source in that language. -/
def host (tokens : List HostToken) : Supervised GreenBuilder where
  builder := .ofText ⟨tokens, ""⟩ language
  elements := language.elements

/-- Items are made of the operations of a grammar. -/
theorem ordinary_item (around : Nat) : (item around).Ordinary := by
  induction around with
  | zero => exact Recognizer.ordinary_asRule (Recognizer.ordinary_expect _ _)
  | succ around ih => exact Recognizer.ordinary_asRule ih

/-- So is the first rule. -/
theorem ordinary_entry (steps : Nat) (r : RuleIndex) : (grammar.entry steps r).Ordinary := by
  apply Recognizer.ordinary_asRule
  exact (Recognizer.ordinary_trial (ordinary_item 1)).bind fun _ => Recognizer.ordinary_expect _ _

/-- The inner item, which is only tried, is entered with two rules active, and it makes no difference that there is no
`B` here.  So two are too few, and three are enough. -/
theorem project_recursionLimit_trial :
    ((({} : Session).limitedTo (some 2)).project grammar ⟨0⟩ .file (host [⟨4, "c"⟩])).1.outcome =
      .error (.error .recursionLimitExceeded) ∧
    (({} : Session).limitedTo (some 3)).project grammar ⟨0⟩ .file (host [⟨4, "c"⟩]) =
      (((({} : Session).limitedTo none).project grammar ⟨0⟩ .file (host [⟨4, "c"⟩])).1,
        (((({} : Session).limitedTo none).project grammar ⟨0⟩ .file (host [⟨4, "c"⟩])).2.limitedTo
          (some 3))) := by
  have hdepths : ({} : Session).entryDepths grammar ⟨0⟩ (host [⟨4, "c"⟩]) = [0, 1, 2] := by decide +kernel
  have hcalm : (host [⟨4, "c"⟩]).Calm := ⟨rfl, rfl, rfl⟩
  constructor
  · refine (Session.project_recursionLimit (fun _ => ordinary_entry _ _) hcalm).1 ?_
    rw [hdepths]
    decide
  · refine (Session.project_recursionLimit (fun _ => ordinary_entry _ _) hcalm).2 ?_
    rw [hdepths]
    decide

end Nested

end TreeProjection
