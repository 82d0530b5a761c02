import TreeProjection.Proofs.Ordinary
import TreeProjection.Proofs.Sample.Following

/-! # Recursive descent through a sentence

As long as nothing has been reported, a recognizer of the sample language adds derivations to the tree, and what may
come next is told by the phrases that are still to be recognized.  The first report comes where the tape goes
wrong, and if it tells of a repair, the repair is sound; whatever happens after it, the first report stays the first.

* `Sample.Quiet` — a parser that has reported nothing.
* `Sample.Parses` — a recognizer that goes on quietly, fails where the tape goes wrong, or leaves a first report there.
* `Sample.Takes` — a phrase has been recognized.
* `Sample.parses_expect`, `Sample.parses_asRule`, `Sample.parses_repeatWhile` — matching, rules, loops. -/

namespace TreeProjection

open ParseNode (View)
open TreeProjection.Parser

variable {σ α β : Type} [TokenSource σ] {x : Tape} {p q : Parser σ}

namespace Sample

open Phrase

variable {a b : Phrase} {K M N : List TokenType → Prop} {t ty : TokenType} {vs ws : List View}
  {e i j k : Nat} {callers : List TokenSet}

/-! ## Quiet parses -/

/-- **A parser that has reported nothing**, and to which someone listens.  The rules under way have been invoked with
given sets. -/
structure Quiet (x : Tape) (callers : List TokenSet) (p : Parser σ) : Prop where
  /-- The parser is in a rule. -/
  ready : Ready x p
  /-- The recognizer sees every token. -/
  plain : x.Plain
  /-- Nothing has been reported. -/
  reports : p.reports = []
  /-- Reports are not held back. -/
  free : p.recovery.inRecovery = false
  /-- Someone listens. -/
  listeners : 0 < p.listeners
  /-- Messages name types as the language does. -/
  names : p.language.vocabulary = vocabulary
  /-- The sets that the rules under way have been invoked with. -/
  follow : p.follow = callers

/-- **The first report is where the tape goes wrong**, and the repair that it tells of, if any, is sound. -/
def Broken (x : Tape) (rs : List Report) : Prop :=
  ∃ r rest m, rs = r :: rest ∧ Refuted x m ∧ r.offending = x.token m ∧ Mends x m r

/-- Nothing has been reported, or the first report is where the tape goes wrong. -/
def Fair (x : Tape) (rs : List Report) : Prop := rs = [] ∨ Broken x rs

/-- The first report stays the first. -/
theorem Broken.append {rs : List Report} (h : Broken x rs) (rs' : List Report) :
    Broken x (rs ++ rs') := by
  obtain ⟨r, rest, m, rfl, hm, hr, hmends⟩ := h
  exact ⟨r, rest ++ rs', m, rfl, hm, hr, hmends⟩

/-- **How a recognizer ends** that has begun quietly. -/
inductive Outcome (x : Tape) (p : Parser σ) (good : α → List View → Nat → Prop) :
    Except RecognitionException α → Parser σ → Prop where
  /-- It has gone on quietly. -/
  | well {q : Parser σ} (a : α) (vs : List View) (step : Step x p vs [] q)
    (free : q.recovery.inRecovery = false) (h : good a vs q.index) : Outcome x p good (.ok a) q
  /-- It has failed where the tape goes wrong, and this is still to be reported. -/
  | failed {q : Parser σ} (e : RecognitionException) (vs : List View) (step : Step x p vs [] q)
    (free : q.recovery.inRecovery = false) (anchor : e.anchor = x.token q.index) (m : Nat)
    (refuted : Refuted x m) (offending : e.offending = x.token m) :
    Outcome x p good (.error e) q
  /-- The first report is where the tape goes wrong. -/
  | broken {q : Parser σ} {o : Except RecognitionException α} (acts : Acts x p o q)
    (h : Broken x q.reports) : Outcome x p good o q

/-- **An ordinary recognizer goes on quietly**, fails where the tape goes wrong, or leaves a first report there.
If it goes on, what it answers, the trees that it adds and the place where it leaves the input are `good`. -/
def Parses (x : Tape) (r : Recognizer α) (p : Parser σ) (good : α → List View → Nat → Prop) : Prop :=
  r.Ordinary → Runs r.run p (Fair x) (Outcome x p good)

/-- A step without a report keeps a parser quiet. -/
theorem Quiet.step (h : Quiet x callers p) (hstep : Step x p vs [] q)
    (hfree : q.recovery.inRecovery = false) : Quiet x callers q where
  ready := hstep.ready h.ready
  plain := h.plain
  reports := by rw [hstep.reports, h.reports, List.append_nil]
  free := hfree
  listeners := by
    have hlisteners : q.listeners = p.listeners := congrArg Situation.listeners hstep.situation
    rw [hlisteners]
    exact h.listeners
  names := by
    have hlanguage : q.language = p.language := congrArg Situation.language hstep.situation
    rw [hlanguage, h.names]
  follow := by
    have hfollow : q.follow = p.follow := congrArg Situation.follow hstep.situation
    rw [hfollow, h.follow]

/-- Nothing having been reported is fair. -/
theorem Quiet.fair (h : Quiet x callers p) : Fair x p.reports := .inl h.reports

/-- What is good stays good when more is. -/
theorem Parses.mono {r : Recognizer α} {good good' : α → List View → Nat → Prop}
    (h : Parses x r p good) (himp : ∀ a vs j, good a vs j → good' a vs j) :
    Parses x r p good' := by
  refine fun hordinary => Runs.mono (h hordinary) fun o q ho => ?_
  cases ho with
  | well a vs step free h => exact .well a vs step free (himp a vs _ h)
  | failed e vs step free anchor m refuted offending =>
      exact .failed e vs step free anchor m refuted offending
  | broken acts h => exact .broken acts h

/-- Answering changes nothing. -/
theorem Parses.pure {good : α → List View → Nat → Prop} (hp : Quiet x callers p) {a : α}
    (h : good a [] p.index) : Parses x (.pure a) p good :=
  fun _ => .well a [] hp.ready.refl hp.free h

/-- Once the first report is made, whatever an ordinary recognizer does, it stays the first. -/
theorem runs_of_broken {r : Recognizer α} (h : r.Ordinary) (hp : Ready x p)
    (hbroken : Broken x p.reports) : Runs r.run p (Fair x) fun o q =>
      Acts x p o q ∧ Broken x q.reports := by
  refine (h.runs hp fun rs => .inr (hbroken.append rs)).mono fun o q hq => ⟨hq, ?_⟩
  obtain ⟨vs, rs, hstep, -⟩ := hq
  rw [hstep.reports]
  exact hbroken.append rs

/-- **One recognizer after the other.** -/
theorem Parses.bind {r : Recognizer α} {f : α → Recognizer β}
    {mid : α → List View → Nat → Prop} {good : β → List View → Nat → Prop}
    (h : Parses x r p mid) (hp : Quiet x callers p)
    (hnext : ∀ a vs q, Quiet x callers q → mid a vs q.index →
      Parses x (f a) (q : Parser σ) fun b ws j => good b (vs ++ ws) j) :
    Parses x (r.bind f) p good := by
  intro hordinary
  obtain ⟨hr, hf⟩ := hordinary.of_bind (σ := σ)
  rw [run_bind]
  have hand : Runs r.run p (Fair x) fun o q =>
      Outcome x p mid o q ∧ ∀ a, o = .ok a → (f a).Ordinary := by
    refine Ends.mono (Ends.and (h hr) (hf p)) fun o q ho => ?_
    match o, ho with
    | .ok a, ho =>
        refine ⟨ho.1, ?_⟩
        rintro _ ⟨⟩
        exact ho.2 a rfl
    | .error (.recognition e), ho => exact ⟨ho.1, nofun⟩
    | .error (.abort _), ho => exact ho.1
  refine Runs.bind hand (fun a q ho => ?_) fun e q ho => ?_
  · have hfa := ho.2 a rfl
    cases ho.1 with
    | well a vs step free h =>
        refine Runs.mono (hnext a vs q (hp.step step free) h hfa) fun o r hr => ?_
        cases hr with
        | well b ws step' free' h' =>
            have htrans := step.trans step'
            exact .well b (vs ++ ws) htrans free' h'
        | failed e ws step' free' anchor m refuted offending =>
            exact .failed e (vs ++ ws) (step.trans step') free' anchor m refuted offending
        | broken acts h' => exact .broken (acts.after step) h'
    -- an error has been reported, and no later one takes that back
    | broken acts h =>
        obtain ⟨vs, rs, step, -⟩ := acts
        exact (runs_of_broken hfa (step.ready hp.ready) h).mono fun o r hr =>
          .broken (hr.1.after step) hr.2
  · cases ho.1 with
    | failed e vs step free anchor m refuted offending =>
        exact .failed e vs step free anchor m refuted offending
    | broken acts h =>
        obtain ⟨vs, rs, step, hanchor⟩ := acts
        exact .broken ⟨vs, rs, step, fun _ he => hanchor _ (congrArg _ (Except.error.inj he))⟩ h

/-! ## Operations of a quiet parse -/

/-- A report that has been made where the tape goes wrong is the first one. -/
theorem Quiet.heard {fits : Report → Prop} {rs : List Report} (hp : Quiet x callers p)
    (hheard : Heard p fits rs) (hm : Refuted x i)
    (hfits : ∀ r, fits r → r.offending = x.token i ∧ Mends x i r) : Broken x rs := by
  cases hheard with
  | held h =>
      rcases h with h | h
      · rw [hp.free] at h
        cases h
      · exact absurd hp.listeners (by omega)
  | made r h => exact ⟨r, [], i, rfl, hm, hfits r h⟩

/-- After a step that has reported where the tape goes wrong, that report is the first one. -/
theorem Quiet.broken {fits : Report → Prop} {rs : List Report} (hp : Quiet x callers p)
    (hheard : Heard p fits rs) (hm : Refuted x i)
    (hfits : ∀ r, fits r → r.offending = x.token i ∧ Mends x i r)
    (hreports : q.reports = p.reports ++ rs) : Broken x q.reports := by
  rw [hreports, hp.reports, List.nil_append]
  exact hp.heard hheard hm hfits

/-- A report of a token where the tape goes wrong may be made. -/
theorem Quiet.made (hp : Quiet x callers p) (hm : Refuted x i) (r : Report)
    (hr : r.offending = x.token i ∧ Mends x i r) : Fair x (p.reports ++ [r]) := by
  rw [hp.reports]
  exact .inr ⟨r, [], i, rfl, hm, hr⟩

/-- **Looking ahead.** -/
theorem Parses.look {f : TokenType → Recognizer β} {good : β → List View → Nat → Prop}
    (hp : Quiet x callers p) (k : Nat)
    (hnext : ∀ q : Parser σ, Quiet x callers q → q.index = p.index →
      Parses x (f (x.type (x.skip (k - 1) p.index))) q good) :
    Parses x ((Recognizer.typeAhead k).bind f) p good := by
  have hlook : Parses x (Recognizer.typeAhead k) p fun ty vs j =>
      vs = [] ∧ ty = x.type (x.skip (k - 1) p.index) ∧ j = p.index := by
    intro _
    refine (runs_ahead (.standing hp.ready.standing) hp.fair k).bind ?_ (by rintro e q ⟨⟨⟩, -⟩)
    rintro _ _ ⟨⟨⟩, s, hs, rfl⟩
    exact .well _ [] (hp.ready.reread hs) hp.free ⟨rfl, rfl, hs.cursor⟩
  refine hlook.bind hp ?_
  rintro _ _ q hq ⟨rfl, rfl, hindex⟩
  exact hnext q hq hindex

/-- **Failing where the tape goes wrong.** -/
theorem parses_noViableAlt {good : α → List View → Nat → Prop} (hp : Quiet x callers p) (depth : Nat)
    (h : Refuted x (x.skip (max depth 1 - 1) p.index)) :
    Parses x (Recognizer.noViableAlt depth) p good := by
  intro _
  refine (runs_raiseNoViableAlt hp.ready hp.fair depth).bind (fun a => nomatch a) ?_
  rintro e q ⟨_, ⟨⟩, hfailed, -, hoffending, -⟩
  refine .failed e [] hfailed.step ?_ ?_ _ h hoffending
  · rw [hfailed.recovery, hp.free]
  · rw [hfailed.anchor, hfailed.index]

/-- **Guarding a loop** whose set lets pass what may come. -/
theorem parses_sync (hp : Quiet x callers p) {expecting : TokenSet} (hseveral : Several expecting)
    (h : expecting.contains (x.type p.index) = false → Refuted x p.index) :
    Parses x (Recognizer.sync expecting) p fun _ vs j => vs = [] ∧ j = p.index := by
  intro _
  have hfits : ∀ r, Unwanted x p expecting r → r.offending = x.token p.index ∧ Mends x p.index r := by
    rintro _ rfl
    rw [hp.names]
    exact ⟨rfl, .of_several hseveral⟩
  have hmade : expecting.contains (x.type p.index) = false → p.recovery.inRecovery = false → ∀ r,
      Unwanted x p expecting r → Fair x (p.reports ++ [r]) :=
    fun htype _ r hr => hp.made (h htype) r (hfits r hr)
  refine (runs_sync hp.ready hp.fair expecting hmade).bind ?_ (by rintro e q ⟨⟨⟩, -⟩)
  rintro _ q ⟨-, hguarded⟩
  cases hguarded with
  | «open» step index recovery _ => exact .well _ [] step (by rw [recovery, hp.free]) ⟨rfl, index⟩
  | passed free type vs rs step inRecovery heard =>
      exact .broken (step.acts _) (hp.broken heard (h type) hfits step.reports)
  | stayed free type rs step index inRecovery heard =>
      exact .broken (step.acts _) (hp.broken heard (h type) hfits step.reports)

/-- **Invoking a body.** -/
theorem parses_within {follow : TokenSet} {body : Unit → Recognizer β}
    {good : β → List View → Nat → Prop} (hp : Quiet x callers p)
    (h : ∀ p₁ : Parser σ, Quiet x (follow :: callers) p₁ → p₁.index = p.index →
      Parses x (body ()) p₁ good) :
    Parses x (Recognizer.within follow body) p good := by
  intro hordinary
  have hinvoked : Quiet x (follow :: callers) { p with follow := follow :: p.follow } :=
    ⟨hp.ready.invoked follow, hp.plain, hp.reports, hp.free, hp.listeners, hp.names,
      congrArg (follow :: ·) hp.follow⟩
  refine (runs_invoke (h _ hinvoked rfl hordinary.1)).bind ?_ ?_
  · rintro a _ ⟨q, ho, rfl⟩
    cases ho with
    | well a vs step free h => exact .well a vs step.of_invoke free h
    | broken acts h =>
        obtain ⟨vs, rs, step, -⟩ := acts
        exact .broken (step.of_invoke.acts a) h
  · rintro e _ ⟨q, ho, rfl⟩
    cases ho with
    | failed e vs step free anchor m refuted offending =>
        exact .failed e vs step.of_invoke free anchor m refuted offending
    | broken acts h =>
        obtain ⟨vs, rs, step, hanchor⟩ := acts
        exact .broken ⟨vs, rs, step.of_invoke,
          fun _ he => hanchor _ (congrArg _ (Except.error.inj he))⟩ h

/-! ## Phrases -/

/-- **A phrase has been recognized** from one place up to another: the trees are a derivation of it, and what comes
next is told by what may come after it. -/
structure Takes (x : Tape) (e i : Nat) (a : Phrase) (K : List TokenType → Prop) (vs : List View)
    (j : Nat) : Prop where
  /-- The input does not go back. -/
  le : i ≤ j
  /-- The trees are a derivation of the phrase. -/
  spells : Spells a vs
  /-- Their leaves are what was passed. -/
  types : typesOf vs = x.word i j
  /-- What may come next is told. -/
  awaits : Awaits x e j K

namespace Takes

/-- Nothing has been recognized, which is one of the things a phrase stands for. -/
theorem nil (h : Awaits x e i K) (hspells : Spells a []) : Takes x e i a K [] i where
  le := Nat.le_refl i
  spells := hspells
  types := (x.word_of_le (Nat.le_refl i)).symm
  awaits := h

/-- The trees may be a derivation of another phrase. -/
theorem of_spells (h : Takes x e i a K vs j) (hspells : Spells b vs) : Takes x e i b K vs j :=
  ⟨h.le, hspells, h.types, h.awaits⟩

/-- One phrase after the other. -/
theorem append {c : Phrase} (h : Takes x e i a M vs j) (h' : Takes x e j b K ws k)
    (hspells : Spells a vs → Spells b ws → Spells c (vs ++ ws)) :
    Takes x e i c K (vs ++ ws) k where
  le := Nat.le_trans h.le h'.le
  spells := hspells h.spells h'.spells
  types := by rw [typesOf_append, h.types, h'.types, x.word_append h.le h'.le]
  awaits := h'.awaits

end Takes

/-- **A recognizer takes a phrase**, where the phrase and something of `K` after it may come. -/
def TakesAt (x : Tape) (e : Nat) (r : Recognizer Unit) (a : Phrase) (K : List TokenType → Prop)
    (p : Parser σ) : Prop :=
  Parses x r p fun _ vs j => Takes x e p.index a K vs j

/-- **One phrase after the other.** -/
theorem TakesAt.seq {r : Recognizer Unit} {f : Unit → Recognizer Unit}
    (h : TakesAt x e r a (After b K) p) (hp : Quiet x callers p)
    (hnext : ∀ q : Parser σ, Quiet x callers q → Awaits x e q.index (After b K) →
      TakesAt x e (f ()) b K q) :
    TakesAt x e (r.bind f) (.seq a b) K p := by
  refine Parses.bind h hp fun _ vs q hq hvs => ?_
  exact (hnext q hq hvs.awaits).mono fun _ ws j hws => hvs.append hws .seq

/-- The trees may be a derivation of another phrase. -/
theorem TakesAt.of_spells {r : Recognizer Unit} (h : TakesAt x e r a K p)
    (hspells : ∀ vs, Spells a vs → Spells b vs) : TakesAt x e r b K p :=
  h.mono fun _ vs _ hvs => hvs.of_spells (hspells vs hvs.spells)

/-- Nothing is one of the things that the phrase stands for. -/
theorem TakesAt.nil (hp : Quiet x callers p) (h : Awaits x e p.index K) (hspells : Spells a []) :
    TakesAt x e (.pure ()) a K p :=
  .pure hp (.nil h hspells)

/-- **Matching a token**, where the tape goes wrong unless the token is ahead, and what is reported then is sound. -/
theorem parses_expect (hp : Quiet x callers p) (ty : TokenType) (follow : TokenSet)
    (h : x.type p.index ≠ ty → Refuted x p.index)
    (hmends : x.type p.index ≠ ty → ∀ r, Mending x p ty follow r → Mends x p.index r) :
    Parses x (Recognizer.expect ty follow) p fun _ vs j => x.type p.index = ty ∧
      Spells (token ty) vs ∧ typesOf vs = x.word p.index (p.index + 1) ∧
      j = min (p.index + 1) x.size := by
  intro _
  have hfits : x.type p.index ≠ ty → ∀ r, Mending x p ty follow r →
      r.offending = x.token p.index ∧ Mends x p.index r :=
    fun hne r hr => ⟨hr.ofToken.1, hmends hne r hr⟩
  refine (runs_expect hp.ready hp.fair ty follow fun hne _ r hr =>
    hp.made (h hne) r (hfits hne r hr)).bind ?_ ?_
  · rintro t q hmatched
    cases hmatched with
    | here type step index recovery =>
        refine .well _ _ step (by rw [recovery]) ⟨type, ?_, ?_, by rw [index, hp.plain.stop]⟩
        · rw [← type]
          exact Spells.token _
        · rw [x.word_succ hp.ready.standing.le_size]
          rfl
    -- a repair is reported, and it is made only where the tape has gone wrong
    | dropped type next rs heard step =>
        exact .broken (step.acts _) (hp.broken heard (h type) (hfits type) step.reports)
    | madeUp type t _ _ _ rs heard step =>
        exact .broken (step.acts _) (hp.broken heard (h type) (hfits type) step.reports)
  · rintro e q hmatched
    cases hmatched with
    | failed type e failed kind offending =>
        refine .failed e [] failed.step ?_ ?_ _ (h type) offending
        · rw [failed.recovery, hp.free]
        · rw [failed.anchor, failed.index]

/-- **Matching a token that may come.** -/
theorem takes_expect (hp : Quiet x callers p) (hty : ty ∈ symbols) (follow : TokenSet)
    (hK : Permits callers follow K) (h : Awaits x e p.index (After (token ty) K)) :
    TakesAt x e (Recognizer.expect ty follow) (token ty) K p := by
  have hcome : (p.viableFollow follow).contains (x.type p.index) = true →
      ∃ z, K (x.type p.index :: z) := by
    rw [following_eq, hp.follow]
    exact hK _
  refine (parses_expect hp ty follow
    (fun hne => h.refuted fun z hz => hne (after_token_cons.mp hz).1)
    fun hne r hr => h.mends hp.plain (List.mem_cons_of_mem _ hty) hp.names hcome hne hr).mono ?_
  rintro _ vs _ ⟨htype, hspells, htypes, rfl⟩
  have hlt : p.index < x.size := by
    refine Nat.lt_of_not_le fun hle => ?_
    rw [← htype, x.type_eq_eof_iff.mpr hle] at hty
    exact absurd hty (by decide)
  rw [Nat.min_eq_left hlt]
  exact ⟨Nat.le_succ _, hspells, htypes, h.advance htype hlt⟩

/-- How the body of a rule ends that has begun quietly, by the trees that it adds and what it reports. -/
inductive BodyOutcome (x : Tape) (good : List View → Nat → Prop) :
    Except RecognitionException Unit → List View → List Report → Parser σ → Prop where
  /-- It has gone on quietly. -/
  | well {vs : List View} {q : Parser σ} (free : q.recovery.inRecovery = false)
    (h : good vs q.index) : BodyOutcome x good (.ok ()) vs [] q
  /-- It has failed where the tape goes wrong. -/
  | failed {callers : List TokenSet} {e : RecognitionException} {vs : List View} {q : Parser σ}
    (quiet : Quiet x callers q) (m : Nat) (refuted : Refuted x m)
    (offending : e.offending = x.token m) : BodyOutcome x good (.error e) vs [] q
  /-- The first report is where the tape goes wrong. -/
  | broken {o : Except RecognitionException Unit} {vs : List View} {rs : List Report} {q : Parser σ}
    (h : Broken x rs) : BodyOutcome x good o vs rs q

/-- What is asked of the body of a rule holds of one that has begun quietly. -/
theorem Outcome.bodyEnd {good : List View → Nat → Prop} {o : Except RecognitionException Unit}
    (h : Outcome x p (fun _ => good) o q) (hp : Quiet x callers p) :
    ∃ vs rs, BodyEnd x p (Fair x) (BodyOutcome x good) o q vs rs := by
  cases h with
  | well a vs step free h =>
      exact ⟨vs, [], step, .well free h, nofun, (hp.step step free).fair, nofun⟩
  | failed e vs step free anchor m refuted offending =>
      have hq := hp.step step free
      refine ⟨vs, [], step, .failed hq m refuted offending, ?_, hq.fair, ?_⟩
      · rintro _ ⟨⟩
        exact anchor
      · rintro _ ⟨⟩ - r hr
        exact hq.made refuted r ⟨hr.1.trans offending, .of_exception hr.2⟩
  | broken acts h =>
      obtain ⟨vs, rs, step, anchor⟩ := acts
      have hrs : q.reports = rs := by rw [step.reports, hp.reports, List.nil_append]
      exact ⟨vs, rs, step, .broken (hrs ▸ h), anchor, .inr h, fun _ _ _ r _ => .inr (h.append [r])⟩

/-- How a rule ends whose body has begun quietly. -/
theorem RuleEnd.quiet {good : List View → Nat → Prop} {node : RuleNode} {rs : List Report}
    (h : RuleEnd x (BodyOutcome x good) q node vs rs) :
    (rs = [] ∧ node.exception = none ∧ q.recovery.inRecovery = false ∧ good vs q.index) ∨
      Broken x rs := by
  cases h with
  | well vs rs q₀ h exception recovery index =>
      cases h with
      | well free h => exact .inl ⟨rfl, exception, by rw [recovery, free], by rwa [index]⟩
      | broken h => exact .inr h
  | failed e vs ws rs rs' q₀ h exception heard inRecovery =>
      cases h with
      | failed quiet m refuted offending =>
          exact .inr (quiet.heard heard refuted fun r hr =>
            ⟨hr.1.trans offending, .of_exception hr.2⟩)
      | broken h => exact .inr (h.append rs')

/-- A rule that has been entered before anything was reported. -/
theorem quiet_of_entered {r : RuleIndex} {p₁ : Parser σ} (h : Entered x i r p p₁) (hplain : x.Plain)
    (hreports : p.reports = []) (hfree : p.recovery.inRecovery = false) (hlisteners : 0 < p.listeners)
    (hnames : p.language.vocabulary = vocabulary) : Quiet x p.follow p₁ where
  ready := h.ready
  plain := hplain
  reports := h.reports.trans hreports
  free := by rw [h.recovery, hfree]
  listeners := by
    have hsame : p₁.listeners = p.listeners := congrArg Situation.listeners h.situation
    rw [hsame]
    exact hlisteners
  names := by
    have hsame : p₁.language = p.language := congrArg Situation.language h.situation
    rw [hsame, hnames]
  follow := congrArg Situation.follow h.situation

/-- **A rule**, whose body takes the right-hand side. -/
theorem takes_asRule (hp : Quiet x callers p) {r : RuleIndex} {body : Unit → Recognizer Unit}
    (h : ∀ p₁ : Parser σ, Quiet x callers p₁ → p₁.index = p.index → TakesAt x e (body ()) (rhs r) K p₁) :
    TakesAt x e (Recognizer.asRule r body) (rule r) K p := by
  intro hordinary
  have hentered : ∀ p₁ : Parser σ, Entered x p.index r p p₁ → Quiet x callers p₁ := by
    intro p₁ h₁
    rw [← hp.follow]
    exact quiet_of_entered h₁ hp.plain hp.reports hp.free hp.listeners hp.names
  refine (runs_rule hp.ready hp.fair (BodyOutcome x fun vs j => Takes x e p.index (rhs r) K vs j)
    fun p₁ h₁ => ?_).bind ?_ (by rintro e q ⟨⟨⟩, -⟩)
  · have hq := hentered p₁ h₁
    have hbody := h p₁ hq h₁.index hordinary.1
    rw [h₁.index] at hbody
    exact hbody.mono fun o q ho => ho.bodyEnd hq
  · rintro _ q ⟨-, node, vs, rs, rfl, step, hend⟩
    rcases RuleEnd.quiet hend with ⟨rfl, hnone, hfree, htakes⟩ | hbroken
    · refine .well _ _ step hfree ⟨htakes.le, .rule hnone htakes.spells, ?_, htakes.awaits⟩
      rw [typesOf_rule, htakes.types]
    · refine .broken (step.acts _) ?_
      rw [step.reports, hp.reports]
      exact hbroken

/-- **A loop.** Each round takes the phrase once more, or finds that nothing more of it comes. -/
theorem takes_repeatWhile (hp : Quiet x callers p) {body : Unit → Recognizer Bool}
    (h : Awaits x e p.index (After (many a) K))
    (hbody : ∀ q : Parser σ, Quiet x callers q → Awaits x e q.index (After (many a) K) →
      Parses x (body ()) q fun again vs j =>
        if again then Takes x e q.index a (After (many a) K) vs j
        else Takes x e q.index .empty K vs j) (rounds : Nat) :
    TakesAt x e (Recognizer.repeatWhile body rounds) (many a) K p := by
  induction rounds generalizing p with
  | zero => exact fun _ => hp.fair
  | succ rounds ih =>
      refine (hbody p hp h).bind hp fun again vs q hq hvs => ?_
      cases again with
      | true =>
          rw [if_pos rfl] at hvs
          exact (ih hq hvs.awaits).mono fun _ ws j hws => hvs.append hws .more
      | false =>
          rw [if_neg nofun] at hvs
          refine .pure hq ?_
          rw [List.append_nil]
          have hnil := hvs.spells
          cases hnil
          exact hvs.of_spells .none

/-- A recognizer that takes a phrase, and what is made of its answer. -/
theorem TakesAt.answer {r : Recognizer Unit} (h : TakesAt x e r a K p) (hp : Quiet x callers p) (b : β)
    {good : β → List View → Nat → Prop} (hgood : ∀ vs j, Takes x e p.index a K vs j → good b vs j) :
    Parses x (r.bind fun _ => .pure b) p good := by
  refine Parses.bind h hp fun _ vs q hq hvs => .pure hq ?_
  rw [List.append_nil]
  exact hgood vs _ hvs

/-- **A decision on a type.** What may come is split into what begins with given types and the rest. -/
theorem Parses.ite {c : Prop} [Decidable c] {heads : List TokenType} {L : List TokenType → Prop}
    {r r' : Recognizer α} {good : α → List View → Nat → Prop} (h : Awaits x e p.index L)
    (hL : ∀ z, L z ↔ M z ∨ N z) (hc : c ↔ x.type p.index ∈ heads) (hM : Begins heads M)
    (hN : ∀ t ∈ heads, ∀ z, ¬ N (t :: z)) (hneM : ∃ z, M z) (hneN : ∃ z, N z)
    (hyes : c → Awaits x e p.index M → Parses x r p good)
    (hno : ¬ c → Awaits x e p.index N → Parses x r' p good) :
    Parses x (if c then r else r') p good := by
  by_cases hif : c
  · rw [if_pos hif]
    exact hyes hif (h.left hL (hN _ (hc.mp hif)) hneM)
  · rw [if_neg hif]
    exact hno hif (h.right hL (hM.not_cons fun ht => hif (hc.mpr ht)) hneN)

/-- **A loop's guard**, when what may come begins with its types. -/
theorem Parses.guard {heads : List TokenType} {L : List TokenType → Prop} {set : TokenSet}
    {f : Unit → Recognizer β} {good : β → List View → Nat → Prop} (hp : Quiet x callers p)
    (hseveral : Several set) (h : Awaits x e p.index L) (hL : Begins heads L)
    (hset : ∀ t, set.contains t = true ↔ t ∈ heads)
    (hnext : ∀ q : Parser σ, Quiet x callers q → q.index = p.index → Parses x (f ()) q good) :
    Parses x ((Recognizer.sync set).bind f) p good := by
  refine (parses_sync hp hseveral fun hout => h.refuted (hL.not_cons fun ht => ?_)).bind hp ?_
  · rw [← hset, hout] at ht
    cases ht
  · rintro _ _ q hq ⟨rfl, hindex⟩
    exact hnext q hq hindex

/-- Whether two tokens are matched on trial shows at their types. -/
theorem runs_two_trying {fair : List Report → Prop} (hp : Trying x p)
    (hfair : fair p.reports) (ty ty' : TokenType) (follow follow' : TokenSet) :
    Runs ((Recognizer.expect ty follow).bind fun _ => Recognizer.expect ty' follow').run p fair
      fun o q => Traceless x p q ∧
        (o = .ok () ↔ x.type p.index = ty ∧ x.type (x.stop (p.index + 1)) = ty') := by
  rw [run_bind]
  have hfirst : Runs (Recognizer.expect ty follow).run p fair fun o q => Traceless x p q ∧
      ((o = .ok () ∧ x.type p.index = ty ∧ q.index = x.stop (p.index + 1)) ∨
        ∃ e, o = .error e ∧ x.type p.index ≠ ty) := by
    refine (runs_expect_trying hp hfair ty follow).bind ?_ ?_
    · rintro t q ⟨htraceless, ⟨-, htype, hnext⟩ | ⟨_, ⟨⟩, -⟩⟩
      exact ⟨htraceless, .inl ⟨rfl, htype, hnext⟩⟩
    · rintro e q ⟨htraceless, ⟨⟨⟩, -⟩ | ⟨_, -, htype⟩⟩
      exact ⟨htraceless, .inr ⟨e, rfl, htype⟩⟩
  refine hfirst.bind ?_ ?_
  · rintro _ q ⟨htraceless, ⟨-, htype, hnext⟩ | ⟨_, ⟨⟩, -⟩⟩
    refine (runs_expect_trying (htraceless.trying hp) (htraceless.reports ▸ hfair) ty'
      follow').bind ?_ ?_
    · rintro t r ⟨htraceless', ⟨-, htype', -⟩ | ⟨_, ⟨⟩, -⟩⟩
      rw [hnext] at htype'
      exact ⟨htraceless.trans htraceless', by simp [htype, htype']⟩
    · rintro e r ⟨htraceless', ⟨⟨⟩, -⟩ | ⟨_, -, htype'⟩⟩
      rw [hnext] at htype'
      exact ⟨htraceless.trans htraceless', by simp [htype']⟩
  · rintro e q ⟨htraceless, ⟨⟨⟩, -⟩ | ⟨_, -, htype⟩⟩
    exact ⟨htraceless, by simp [htype]⟩

/-- **Trying two tokens.** -/
theorem Parses.tryTwo {ty ty' : TokenType} {follow follow' : TokenSet} {f : Bool → Recognizer β}
    {good : β → List View → Nat → Prop} (hp : Quiet x callers p)
    (hnext : ∀ b (q : Parser σ), Quiet x callers q → q.index = p.index →
      (b = true ↔ x.type p.index = ty ∧ x.type (x.stop (p.index + 1)) = ty') →
      Parses x (f b) q good) :
    Parses x ((Recognizer.trial fun _ => (Recognizer.expect ty follow).bind fun _ =>
      Recognizer.expect ty' follow').bind f) p good := by
  have htrial : Parses x (Recognizer.trial fun _ => (Recognizer.expect ty follow).bind fun _ =>
      Recognizer.expect ty' follow') p fun b vs j => vs = [] ∧ j = p.index ∧
        (b = true ↔ x.type p.index = ty ∧ x.type (x.stop (p.index + 1)) = ty') := by
    intro _
    refine (runs_speculate hp.ready.standing hp.fair (fun o => o = .ok () ↔ x.type p.index = ty ∧
      x.type (x.stop (p.index + 1)) = ty') fun p₁ hp₁ hindex hfair => ?_).bind ?_ ?_
    · rw [← hindex]
      exact runs_two_trying hp₁ hfair ty ty' follow follow'
    · rintro b _ ⟨_, s, n, ⟨⟩, hs, hn, rfl, o, hgood, hb⟩
      exact .well b [] (hp.ready.aside hs p.recovery hn) hp.free ⟨rfl, hs.cursor, hb.trans hgood⟩
    · rintro e q ⟨_, _, _, ⟨⟩, -⟩
  refine htrial.bind hp ?_
  rintro b _ q hq ⟨rfl, hindex, hb⟩
  exact hnext b q hq hindex hb

end Sample

end TreeProjection
