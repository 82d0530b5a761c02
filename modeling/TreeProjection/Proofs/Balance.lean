import TreeProjection.Proofs.Lockstep

/-! # Recognizers keep their contracts

No operation that a grammar is made of can break a contract, whatever it finds in the input and wherever the run is
called off.  Between operations a parser is in order: its input stands at a place of the tape, and its tree holds none
but admissible rules.  An operation that answers, or fails because of the input, leaves the parser in order, with the
same rules, invocations and trials active as before; and if it gives the run up, then for a reason that a run may be
given up for.

* `Abort.Foreseen` — the reasons for which a run may be given up.
* `Parser.Sound`, `Parser.Balanced` — a parser in order, and what is the same before and after an action.
* `Parser.Keeps` — an action that keeps its contract.
* `Recognizer.Within.keeps` — an ordinary recognizer that keeps to admissible types and rules does so. -/

namespace TreeProjection

variable {σ : Type} {α β : Type}

/-- **The reasons for which a run may be given up**: it has been called off, too many rules are active, or, if `steps`
allows for that, the recognizer has used up its steps. -/
inductive Abort.Foreseen (steps : Prop) : Abort → Prop where
  /-- The run has been called off. -/
  | cancelled : Foreseen steps (.error .cancelled)
  /-- Too many rules are active. -/
  | recursionLimitExceeded : Foreseen steps (.error .recursionLimitExceeded)
  /-- The recognizer has used up its steps. -/
  | outOfSteps (h : steps) : Foreseen steps .outOfSteps

/-- A stream faces no place beyond the end. -/
theorem Stream.Facing.le_size [TokenSource σ] {x : Tape} {s : Stream σ} {i : Nat} (h : s.Facing x i) :
    i ≤ x.size := by
  cases h with
  | standing h => exact h.le_size
  | fresh _ _ first =>
      rw [first]
      exact x.stop_le

namespace Parser

/-- **The same is active**: rules, invocations and trials. -/
structure Balanced (p q : Parser σ) : Prop where
  /-- The same rules. -/
  frames : q.frames = p.frames
  /-- The same invocations. -/
  follow : q.follow = p.follow
  /-- The same trials. -/
  speculating : q.speculating = p.speculating

theorem Balanced.refl (p : Parser σ) : p.Balanced p := ⟨rfl, rfl, rfl⟩

theorem Balanced.trans {p q r : Parser σ} (h : p.Balanced q) (h' : q.Balanced r) : p.Balanced r :=
  ⟨h'.frames.trans h.frames, h'.follow.trans h.follow, h'.speculating.trans h.speculating⟩

/-- **One more rule is active**, and apart from that the same. -/
structure Inside (p q : Parser σ) : Prop where
  /-- One more rule. -/
  frames : ∃ frame, q.frames = frame :: p.frames
  /-- The same invocations. -/
  follow : q.follow = p.follow
  /-- The same trials. -/
  speculating : q.speculating = p.speculating

theorem Inside.balanced {p q r : Parser σ} (h : p.Inside q) (h' : q.Balanced r) : p.Inside r where
  frames := by
    rw [h'.frames]
    exact h.frames
  follow := h'.follow.trans h.follow
  speculating := h'.speculating.trans h.speculating

variable [TokenSource σ]

/-- **A parser in order.** -/
structure Sound (x : Tape) (rules : RuleIndex → Prop) (p : Parser σ) : Prop where
  /-- The input is found at a place of the tape. -/
  facing : ∃ i, p.input.Facing x i ∧ p.input.cursor ≤ i
  /-- All rules of the tree are admissible. -/
  rules : ∀ (n : Nat) (r : RuleNode), p.tree.nodes[n]? = some (.rule r) → rules r.rule

/-- What an end of an action owes to the parser that it began with. -/
def Kept (x : Tape) (rules : RuleIndex → Prop) (steps : Prop) (p : Parser σ) :
    Except Interrupt α → Parser σ → Prop
  | .ok _, q => q.Sound x rules ∧ p.Balanced q
  | .error (.recognition _), q => q.Sound x rules ∧ p.Balanced q
  | .error (.abort a), _ => a.Foreseen steps

/-- **An action keeps its contract.** -/
def Keeps (x : Tape) (rules : RuleIndex → Prop) (steps : Prop) (act : ParserM σ α) : Prop :=
  ∀ p : Parser σ, p.Sound x rules → Ends act p (p.Kept x rules steps)

variable {x : Tape} {rules : RuleIndex → Prop} {steps : Prop} {p q : Parser σ} {i : Nat}

/-- Another tree with no new rules, and no other change of the input, leaves a parser in order. -/
theorem Sound.aside (h : p.Sound x rules) (h' : p.Aside q) : q.Sound x rules where
  facing := by
    rw [h'.input]
    exact h.facing
  rules := by
    intro n r hr
    obtain ⟨r', hr', hrule⟩ := h'.rules n r hr
    rw [← hrule]
    exact h.rules n r' hr'

/-- A parser in order whose input has moved to a place is in order. -/
theorem Sound.standing (h : p.Sound x rules) {s : Stream σ} (hs : s.Standing x i) :
    ({ p with input := s } : Parser σ).Sound x rules where
  facing := ⟨i, .standing hs, Nat.le_of_eq hs.cursor⟩
  rules := h.rules

/-- What is owed to a parser is owed to every parser where the same is active. -/
theorem Kept.trans {o : Except Interrupt α} {r : Parser σ} (h : p.Balanced q)
    (h' : q.Kept x rules steps o r) : p.Kept x rules steps o r := by
  match o, h' with
  | .ok _, h' => exact ⟨h'.1, h.trans h'.2⟩
  | .error (.recognition _), h' => exact ⟨h'.1, h.trans h'.2⟩
  | .error (.abort _), h' => exact h'

/-! ## Actions that keep their contracts -/

/-- Answering. -/
theorem keeps_pure (a : α) : Keeps x rules steps (pure a : ParserM σ α) :=
  fun p hp => ⟨hp, .refl p⟩

/-- Failing because of the input. -/
theorem keeps_throw (e : RecognitionException) :
    Keeps x rules steps (throw (.recognition e) : ParserM σ α) :=
  fun p hp => ⟨hp, .refl p⟩

/-- One action after the other. -/
theorem Keeps.bind {act : ParserM σ α} {next : α → ParserM σ β} (h : Keeps x rules steps act)
    (hnext : ∀ a, Keeps x rules steps (next a)) : Keeps x rules steps (act >>= next) := by
  intro p hp
  refine Ends.bind (h p hp) (fun a q hq => ?_) fun e q hq => ?_
  · exact (hnext a q hq.1).mono fun o r hr => hr.trans hq.2
  · cases e with
    | recognition e => exact hq
    | abort a => exact hq

/-- Looking at the parser. -/
theorem keeps_get {next : Parser σ → ParserM σ α} (h : ∀ p, Keeps x rules steps (next p)) :
    Keeps x rules steps (get >>= next) :=
  fun p hp => h p p hp

/-- Changing what is not active. -/
theorem keeps_modify {f : Parser σ → Parser σ} (hf : ∀ p : Parser σ, p.Aside (f p)) :
    Keeps x rules steps (modify f : ParserM σ Unit) := by
  intro p hp
  rw [ends_modify]
  exact ⟨hp.aside (hf p), (hf p).frames, (hf p).follow, (hf p).speculating⟩

/-- Trying a body for its exception. -/
theorem keeps_attempt {body : ParserM σ α} (h : Keeps x rules steps body) :
    Keeps x rules steps (attempt body) := by
  intro p hp
  refine ends_observe_bind (h p hp) fun o q hq => ?_
  match o, hq with
  | .ok a, hq => exact hq
  | .error (.recognition e), hq => exact hq
  | .error (.abort a), hq => exact hq

/-- Invoking a body that keeps its contract from here on. -/
theorem kept_invoke (hp : p.Sound x rules) (follow : TokenSet) {body : ParserM σ α}
    (h : ∀ p' : Parser σ, p' = { p with follow := follow :: p.follow } → p'.Sound x rules →
      Ends body p' (p'.Kept x rules steps)) :
    Ends (invoke follow body) p (p.Kept x rules steps) := by
  unfold invoke
  rw [ends_modify_bind]
  refine ends_observe_bind (h _ rfl ⟨hp.facing, hp.rules⟩) fun o q hq => ?_
  rw [ends_modify_bind, ends_release]
  -- the invocation that was noted is the one that is taken off
  have hleft : ∀ {q : Parser σ}, q.Sound x rules →
      Balanced { p with follow := follow :: p.follow } q →
      ({ q with follow := q.follow.tail } : Parser σ).Sound x rules ∧
        p.Balanced { q with follow := q.follow.tail } := fun hq hbalanced =>
    ⟨⟨hq.facing, hq.rules⟩, hbalanced.frames, congrArg List.tail hbalanced.follow,
      hbalanced.speculating⟩
  match o, hq with
  | .ok a, hq => exact hleft hq.1 hq.2
  | .error (.recognition e), hq => exact hleft hq.1 hq.2
  | .error (.abort a), hq => exact hq

/-- Invoking a body. -/
theorem keeps_invoke (follow : TokenSet) {body : ParserM σ α} (h : Keeps x rules steps body) :
    Keeps x rules steps (invoke follow body) :=
  fun _ hp => kept_invoke hp follow fun p' _ hp' => h p' hp'

/-! ### Reading -/

section

variable (hsource : ∀ (s : σ) e, (TokenSource.pull s).1 = .error e → e = .cancelled)

include hsource

/-- **An operation of the input** fails only if the run has been called off. -/
theorem ends_reading {act : StreamM σ α} {post : α → Stream σ → Prop}
    (hanswers : Answers act p.input post) (hstalls : Stream.Stalls act p.input) :
    Ends (onInput act) p fun o q => match o with
      | .ok a => ∃ s, post a s ∧ q = { p with input := s }
      | .error i => i = .abort (.error .cancelled) := by
  refine ends_onInput ((Ends.and hanswers hstalls).mono ?_)
  rintro (a | a) s ⟨hpost, -, hfails⟩
  · obtain ⟨source, e, -, hpull, rfl⟩ := hfails a rfl
    obtain rfl := hsource source e hpull
    rfl
  · exact ⟨s, hpost a rfl, rfl⟩

/-- An operation of the input that leaves it at a place. -/
theorem keeps_onInput {act : StreamM σ α}
    (hanswers : ∀ s i, s.Facing x i → Answers act s fun _ t => ∃ j, t.Standing x j)
    (hstalls : ∀ s i, s.Facing x i → Stream.Stalls act s) :
    Keeps x rules steps (onInput act) := by
  intro p hp
  obtain ⟨i, hi, -⟩ := hp.facing
  refine (ends_reading hsource (hanswers _ i hi) (hstalls _ i hi)).mono ?_
  rintro (j | a) q hq
  · obtain rfl : j = _ := hq
    exact .cancelled
  · obtain ⟨s, ⟨j, hs⟩, rfl⟩ := hq
    exact ⟨hp.standing hs, rfl, rfl, rfl⟩

/-- Looking ahead. -/
theorem keeps_ahead (k : Nat) : Keeps x rules steps (ahead k : ParserM σ Token) :=
  keeps_onInput hsource
    (fun _ i hi => (Stream.answers_ahead hi k).mono fun _ _ h => ⟨i, h.2⟩)
    fun _ _ hi => Stream.stalls_ahead hi k

/-- Moving past the current token. -/
theorem keeps_pass : Keeps x rules steps (onInput Stream.consume : ParserM σ Unit) :=
  keeps_onInput hsource
    (fun _ _ hi => (Stream.answers_consume hi).mono fun _ _ h => ⟨_, h⟩)
    fun _ _ hi => Stream.stalls_consume hi

/-- **Consuming moves past one token.** -/
theorem ends_consume (hp : p.Sound x rules) (hi : p.input.Standing x i) :
    Ends consume p fun o q => match o with
      | .ok _ => q.Sound x rules ∧ p.Balanced q ∧ q.input.Standing x (x.stop (i + 1))
      | .error j => j = .abort (.error .cancelled) := by
  unfold consume
  refine Ends.bind (ends_reading hsource (Stream.answers_ahead (.standing hi) 1)
    (Stream.stalls_ahead (.standing hi) 1)) ?_ fun _ _ h => h
  rintro t _ ⟨s, ⟨-, hs⟩, rfl⟩
  refine Ends.bind (ends_reading hsource (Stream.answers_consume (.standing hs))
    (Stream.stalls_consume (.standing hs))) ?_ fun _ _ h => h
  rintro _ _ ⟨s', hs', rfl⟩
  have hpassed : ({ p with input := s' } : Parser σ).Sound x rules := hp.standing hs'
  rw [ends_get_bind]
  by_cases hspeculating : ({ p with input := s' } : Parser σ).isSpeculating = true
  · rw [if_pos hspeculating]
    exact ⟨hpassed, ⟨rfl, rfl, rfl⟩, hs'⟩
  · rw [if_neg hspeculating]
    -- the leaf that is added is no rule
    refine ⟨⟨hpassed.facing, fun n r hr => ?_⟩, ⟨rfl, rfl, rfl⟩, hs'⟩
    obtain ⟨r', hr', hrule⟩ := p.tree.rulesFrom_push _ (by split <;> rfl) n r hr
    rw [← hrule]
    exact hp.rules n r' hr'

/-- **There are no more tokens to consume than are left.** -/
theorem ends_consumeUntil (set : TokenSet) {n : Nat} (hp : p.Sound x rules)
    (hi : p.input.Facing x i) (hfuel : x.size < n + i) :
    Ends (consumeUntil set n) p (p.Kept x rules steps) := by
  -- by induction on the fuel, which is more than the tokens that are left
  induction n generalizing p i with
  | zero =>
      have := hi.le_size
      omega
  | succ n ih =>
      unfold consumeUntil
      refine Ends.bind (ends_reading hsource (Stream.answers_ahead hi 1) (Stream.stalls_ahead hi 1))
        ?_ fun j _ h => ?_
      · rintro t _ ⟨s, ⟨rfl, hs⟩, rfl⟩
        have hread : ({ p with input := s } : Parser σ).Sound x rules := hp.standing hs
        by_cases hstop : ((x.token i).isEof || set.contains (x.token i).ty) = true
        · have hstop' : ((x.token (x.skip (1 - 1) i)).isEof ||
              set.contains (x.token (x.skip (1 - 1) i)).ty) = true := hstop
          simp only [hstop', if_true]
          exact ⟨hread, rfl, rfl, rfl⟩
        · have hstop' : ¬ ((x.token (x.skip (1 - 1) i)).isEof ||
              set.contains (x.token (x.skip (1 - 1) i)).ty) = true := hstop
          simp only [hstop']
          -- the current token is not the end, so that one token fewer is left
          have hinner : i < x.size := by
            rw [Bool.or_eq_true, not_or, x.token_isEof, decide_eq_true_eq] at hstop
            exact Nat.lt_of_not_le hstop.1
          have hnext : i + 1 ≤ x.stop (i + 1) := x.le_stop hinner
          refine Ends.bind (ends_consume hsource hread hs) (fun _ q hq => ?_) fun j _ h => ?_
          · obtain ⟨hq, ⟨hframes, hfollow, hspeculating⟩, hstanding⟩ := hq
            refine (ih hq (.standing hstanding) (by omega)).mono fun o r hr => ?_
            exact Kept.trans ⟨hframes, hfollow, hspeculating⟩ hr
          · obtain rfl : j = _ := h
            exact .cancelled
      · obtain rfl : j = _ := h
        exact .cancelled

/-- Passing over tokens. -/
theorem keeps_passOver (set : TokenSet) : Keeps x rules steps
    (get >>= fun p => consumeUntil set (p.remaining + 1) : ParserM σ Unit) := by
  intro p hp
  obtain ⟨i, hi, hcursor⟩ := hp.facing
  rw [ends_get_bind]
  refine ends_consumeUntil hsource set hp hi ?_
  have hreads : p.input.Reads x := by
    cases hi with
    | standing h => exact h.reads
    | fresh h _ _ => exact h
  have hbound := hreads.size_le_bound
  unfold remaining
  omega

/-! ### Rules -/

/-- **Entering a rule** makes it active, or the run is given up. -/
theorem ends_enterRule (steps : Prop) (hp : p.Sound x rules) {r : RuleIndex} (hr : rules r) :
    Ends (enterRule r) p fun o q => match o with
      | .ok _ => q.Sound x rules ∧ p.Inside q
      | .error j => ∃ a, j = .abort a ∧ a.Foreseen steps := by
  refine (enterRule_activates r p).mono fun o q hends => ?_
  obtain ⟨i, hi, -⟩ := hp.facing
  have hahead := ends_reading hsource (Stream.answers_ahead hi 1) (Stream.stalls_ahead hi 1)
  cases hends with
  | calledOff => exact ⟨_, rfl, .cancelled⟩
  | tooDeep => exact ⟨_, rfl, .recursionLimitExceeded⟩
  | unmarked => exact ⟨⟨hp.facing, hp.rules⟩, ⟨_, rfl⟩, rfl, rfl⟩
  | unread _ _ ahead => exact ⟨_, Ends.of_error hahead ahead, .cancelled⟩
  | marked _ _ ahead =>
      obtain ⟨s, ⟨-, hs⟩, rfl⟩ := Ends.of_ok hahead ahead
      refine ⟨⟨⟨i, .standing hs, Nat.le_of_eq hs.cursor⟩, fun n r' hr' => ?_⟩, ⟨_, rfl⟩, rfl, rfl⟩
      -- the only new rule is the one that has been entered
      rcases p.tree.rule_of_push _ _ hr' with ⟨r'', hr'', hrule⟩ | ⟨r'', hnode, hrule⟩
      · rw [← hrule]
        exact hp.rules n r'' hr''
      · rw [← hrule, ← ParseNode.rule.inj hnode]
        exact hr

end

/-- **Leaving a rule** takes off the rule that has been entered, whether or not the run has been called off. -/
theorem ends_exitRule (hq : q.Sound x rules) (hinside : p.Inside q) :
    Ends exitRule q fun o r => (r.Sound x rules ∧ p.Balanced r) ∧
      ∀ j : Interrupt, o = .error j → j = .abort (.error .cancelled) := by
  obtain ⟨⟨frame, hframes⟩, hfollow, hspeculating⟩ := hinside
  refine (exitRule_retires q).mono fun o r hends => ?_
  obtain ⟨hgoes, rfl⟩ := hends.of_active hframes
  refine ⟨?_, ?_⟩
  · cases frame.node with
    | none => exact ⟨⟨hq.facing, hq.rules⟩, rfl, hfollow, hspeculating⟩
    | some node =>
        refine ⟨⟨hq.facing, fun n r hr => ?_⟩, rfl, hfollow, hspeculating⟩
        -- closing the node changes where the rule ends, not which rule it is
        obtain ⟨r', hr', hrule⟩ := q.tree.rulesFrom_modifyRule node (by exact fun _ => rfl) n r hr
        rw [← hrule]
        exact hq.rules n r' hr'
  · rintro j rfl
    rcases hgoes with h | h
    · cases h
    · exact Except.error.inj h

/-- **Leaving a rule, with what its body ended with.** If the body has failed, then a flag that is found set is passed
over. -/
theorem ends_leave {o : Except Interrupt Unit} {r : Parser σ} (hinside : p.Inside q)
    (hr : q.Kept x rules steps o r) :
    Ends (do let exited ← observe exitRule; release o; release exited) r
      (p.Kept x rules steps) := by
  match o, hr with
  | .ok u, hr =>
      refine ends_observe_bind (ends_exitRule hr.1 (hinside.balanced hr.2)) ?_
      rintro (j | u') r' ⟨hleft, hj⟩
      · obtain rfl := hj j rfl
        exact .cancelled
      · exact hleft
  | .error (.recognition e), hr =>
      exact ends_observe_bind (ends_exitRule hr.1 (hinside.balanced hr.2)) fun _ _ h => h.1
  | .error (.abort a), hr => exact ends_observe_bind (Ends.self exitRule r) fun _ _ _ => hr

section

variable (hsource : ∀ (s : σ) e, (TokenSource.pull s).1 = .error e → e = .cancelled)

include hsource

/-- A rule whose body keeps its contract wherever the rule may have been entered. -/
theorem kept_rule (hp : p.Sound x rules) {r : RuleIndex} (hr : rules r) {body : ParserM σ Unit}
    (hfailure : ∀ e, Keeps x rules steps (handleRecognition e : ParserM σ Unit))
    {entered : Parser σ → Prop} (hentered : Answers (enterRule r) p fun _ q => entered q)
    (hbody : ∀ q : Parser σ, entered q → q.Sound x rules → Ends body q (q.Kept x rules steps)) :
    Ends (rule r body) p (p.Kept x rules steps) := by
  -- Whichever way the body ends, the rule is left at the depth at which it was entered.
  refine Ends.bind ((ends_enterRule hsource steps hp hr).and hentered) ?_ ?_
  · rintro _ q ⟨⟨hq, hinside⟩, hat⟩
    refine ends_observe_bind (hbody q (hat _ rfl) hq) fun o r hr => ?_
    match o, hr with
    | .ok u, hr => exact ends_leave hinside hr
    | .error (.abort a), hr => exact ends_leave hinside hr
    | .error (.recognition e), hr =>
        simp only
        rw [ends_get_bind]
        by_cases hspeculating : r.isSpeculating = true
        · rw [if_pos hspeculating]
          exact ends_leave hinside hr
        · rw [if_neg hspeculating]
          refine ends_observe_bind (hfailure e r hr.1) fun o s hs => ?_
          exact ends_leave hinside (hs.trans hr.2)
  · rintro _ _ ⟨⟨a, rfl, ha⟩, -⟩
    exact ha

/-- A rule. -/
theorem keeps_rule {r : RuleIndex} (hr : rules r) {body : ParserM σ Unit}
    (hfailure : ∀ e, Keeps x rules steps (handleRecognition e : ParserM σ Unit))
    (hbody : Keeps x rules steps body) : Keeps x rules steps (rule r body) :=
  fun p hp => kept_rule hsource hp hr hfailure
    ((Ends.self (enterRule r) p).mono fun _ _ _ _ _ => trivial) fun q _ hq => hbody q hq

/-- **Trying a body.** What it has left active, if anything, is taken off, and the input is taken back. -/
theorem keeps_speculate {body : ParserM σ Unit} (hbody : Keeps x rules steps body) :
    Keeps x rules steps (speculate body) := by
  refine (keeps_ahead hsource 1).bind fun _ p hp => ?_
  rw [ends_get_bind, ends_modify_bind]
  have htrial : ({ p with speculating := p.speculating + 1 } : Parser σ).Sound x rules :=
    ⟨hp.facing, hp.rules⟩
  refine ends_observe_bind (hbody _ htrial) fun o q hq => ?_
  rw [ends_modify_bind]
  -- after the trial the same is active as before, and the input is taken back
  have hback : ∀ {next : Unit → ParserM σ Bool}, q.Sound x rules →
      Balanced { p with speculating := p.speculating + 1 } q →
      (∀ r : Parser σ, r.Sound x rules → p.Balanced r → Ends (next ()) r (p.Kept x rules steps)) →
      Ends (onInput (Stream.seek p.index) >>= next)
        { q with speculating := q.speculating - 1
                 frames := lastOf p.frames.length q.frames
                 follow := lastOf p.follow.length q.follow } (p.Kept x rules steps) := by
    intro next hq hbalanced hnext
    obtain ⟨i, hi, -⟩ := hq.facing
    refine Ends.bind (ends_reading hsource (Stream.answers_seek hi p.index)
      (Stream.stalls_seek p.index q.input)) ?_ ?_
    · rintro _ _ ⟨s, hs, rfl⟩
      refine hnext _ ⟨⟨_, .standing hs, Nat.le_of_eq hs.cursor⟩, hq.rules⟩ ⟨?_, ?_, ?_⟩
      · rw [hbalanced.frames]
        exact lastOf_length p.frames
      · rw [hbalanced.follow]
        exact lastOf_length p.follow
      · rw [hbalanced.speculating]
        rfl
    · rintro _ _ rfl
      exact .cancelled
  match o, hq with
  | .ok u, hq => exact hback hq.1 hq.2 fun _ hr hbalanced => ⟨hr, hbalanced⟩
  | .error (.recognition e), hq => exact hback hq.1 hq.2 fun _ hr hbalanced => ⟨hr, hbalanced⟩
  | .error (.abort a), hq =>
      -- taking the input back can only fail because the run has been called off
      have hsought : ∀ r : Parser σ, Ends (onInput (Stream.seek p.index)) r fun o _ =>
          ∀ j : Interrupt, o = .error j → j = .abort (.error .cancelled) := by
        refine fun r => ends_onInput ((Stream.stalls_seek p.index r.input).mono ?_)
        rintro (b | _) t ⟨-, hfails⟩ j ⟨⟩
        obtain ⟨source, e, -, hpull, rfl⟩ := hfails b rfl
        obtain rfl := hsource source e hpull
        rfl
      refine Ends.bind (hsought _) (fun _ _ _ => hq) ?_
      rintro j _ hj
      obtain rfl := hj j rfl
      exact .cancelled

/-- **What every recognizer is made of keeps its contract.** -/
theorem keeps_uniform : Uniform .full TokenSet.Fits rules steps
    (fun {α} _ (act : ParserM σ α) (_ : ParserM σ α) => Keeps x rules steps act) where
  of_pure _ := keeps_pure _
  of_throw _ := keeps_throw _
  outOfSteps h := fun _ _ => .outOfSteps h
  of_bind h hnext := h.bind fun a => hnext a a rfl
  of_get h := keeps_get fun p => h p p rfl
  of_modify hf _ _ := keeps_modify hf
  ahead k := keeps_ahead hsource k
  pass := keeps_pass hsource
  single h := by
    -- the set of one type is built, since that type fits
    unfold TokenSet.single? TokenSet.insert?
    rw [if_pos h]
    exact keeps_pure _
  passOver set _ := keeps_passOver hsource set
  rule h hfailure hbody := keeps_rule hsource h (fun e => hfailure e e rfl) hbody
  invoke follow hbody := keeps_invoke follow hbody
  speculate hbody := keeps_speculate hsource hbody
  attempt hbody := keeps_attempt hbody

end

end Parser

/-- **An ordinary recognizer that keeps to types that fit and to admissible rules** keeps its contract, over a source
that fails only if the run has been called off. -/
theorem Recognizer.Within.keeps [TokenSource σ] {x : Tape} {rules : RuleIndex → Prop} {steps : Prop}
    {r : Recognizer α} (hr : r.Within TokenSet.Fits rules steps)
    (hsource : ∀ (s : σ) e, (TokenSource.pull s).1 = .error e → e = .cancelled) :
    Parser.Keeps x rules steps (r.run : ParserM σ α) :=
  (Parser.keeps_uniform hsource).recognizer hr r.heeds_full

end TreeProjection
