import TreeProjection.Proofs.Stalling

/-! # Where a parse goes on after an error

Recovery passes over tokens up to one that someone can go on with.  It stops at the first such token, or at the end of
the input; a rule that stalls gives one token up before that, whatever it is.  Each token that is passed over becomes an
error leaf of the rule that is being recognized.

* `Parser.Resynced` — tokens have been passed over up to one of a set.
* `Recognizer.OrdinaryRule.resyncs` — what rules do that recover, and loops that are guarded. -/

namespace TreeProjection

open ParseNode (View)
open TreeProjection.Parser

variable {σ : Type} [TokenSource σ]

/-- The guard that is at work at a moment, and the state that the parser is in. -/
def Moment.guarding? : Moment σ → Option (TokenSet × Parser σ)
  | .guarding expecting p => some (expecting, p)
  | _ => none

omit [TokenSource σ] in
/-- A moment at which a guard is at work. -/
theorem Moment.of_guarding? {m : Moment σ} {g : TokenSet × Parser σ} (h : m.guarding? = some g) :
    m = .guarding g.1 g.2 := by
  cases m with
  | guarding expecting p =>
      cases h
      rfl
  | matching p => cases h
  | recovering e p => cases h

/-- The tokens of error leaves, none of which was made up. -/
theorem ParseNode.View.read_errors {ts : List Token} (h : ∀ t ∈ ts, t.isConjured = false) :
    View.read (ts.map View.error) = ts.filter fun t => !t.isEof := by
  have hleaves : ∀ us : List Token, View.leavesOf (us.map View.error) = us.map (Prod.mk false) := by
    intro us
    induction us with
    | nil => rfl
    | cons u us ih => rw [List.map_cons, View.leavesOf, ih, View.leaves, List.map_cons, List.singleton_append]
  have hsnd : (Prod.snd ∘ Prod.mk false : Token → Token) = id := rfl
  rw [View.read, hleaves, List.map_map, hsnd, List.map_id]
  exact List.filter_congr fun t ht => by rw [h t ht, Bool.not_false, Bool.true_and]

namespace Parser

variable {x : Tape} {p p₀ q : Parser σ} {set : TokenSet} {given ts : List Token} {rs : List Report}

omit [TokenSource σ] in
/-- **Callers can go on with what may follow one of them**, and with the end of the input. -/
theorem contains_recoverySet {ty : TokenType} :
    p.recoverySet.contains ty = true ↔ ty = .eof ∨ ∃ s ∈ p.follow, s.contains ty = true := by
  unfold recoverySet
  induction p.follow with
  | nil => simp [TokenSet.contains_single (.inl rfl)]
  | cons s follow ih =>
      simp only [List.foldr_cons, TokenSet.contains_union, Bool.or_eq_true, ih, TokenSet.contains_withoutEndOfRule,
        List.mem_cons, exists_eq_or_imp, or_assoc]
      exact or_congr_right or_comm

/-- **Tokens have been passed over up to one of a set**, apart from some that have been given up before, whatever they
are. -/
structure Resynced (set : TokenSet) (p : Parser σ) (given : List Token) (q : Parser σ) : Prop where
  /-- The current token is one of the set, or the end. -/
  stops : ∃ t, q.input.current? = some t ∧ (t.isEof = true ∨ set.contains t.ty = true)
  /-- The tokens given up and those passed over have been added as error leaves to the rule that is being recognized, and
  the latter are not of the set.  They are the tokens of the input that were passed, but the end may have become a leaf
  without being passed. -/
  leaves : ∃ c skipped, p.currentNode? = some c ∧ p.tree.Grows c ((given ++ skipped).map View.error) q.tree ∧
    p.passed q = (given ++ skipped).filter (fun t => !t.isEof) ∧
    ∀ t ∈ skipped, t.isEof = true ∨ set.contains t.ty = false

/-- What has been added as error leaves has been passed. -/
theorem Step.resynced (h : Step x p ((given ++ ts).map View.error) rs q)
    (htaken : ∀ t ∈ given ++ ts, t.isConjured = false) (houtside : ∀ t ∈ ts, t.isEof = true ∨ set.contains t.ty = false)
    (hstops : x.size ≤ q.index ∨ set.contains (x.type q.index) = true) : Resynced set p given q where
  stops := by
    refine ⟨_, h.standing.current?_eq, hstops.imp_left fun hend => ?_⟩
    rwa [x.token_isEof, decide_eq_true_iff]
  leaves := by
    obtain ⟨c, hc, hgrows⟩ := h.grows
    refine ⟨c, ts, hc, hgrows, ?_, houtside⟩
    rw [passed_eq_between h.standing, ← h.read, View.read_errors htaken]

/-- **A rule that has recovered** has given up the current token, if it stalled, and then passed over tokens up to one that
a caller can go on with. -/
theorem Recovered.resynced {r : RuleIndex} (h : Recovered x r p given ts q) : Resynced p.recoverySet p given q :=
  h.skipped.step.resynced h.taken h.outside h.stops

/-- Tokens have been passed over after a report. -/
theorem SkippedTo.resynced (h : SkippedTo x set p₀ ts q) (hreported : Step x p [] rs p₀) : Resynced set p [] q := by
  have hstep := hreported.trans h.skipped.step
  rw [List.nil_append, List.append_nil] at hstep
  exact hstep.resynced h.taken h.outside h.stops

/-- **A guard that has reported the current token** has passed over tokens up to one that may begin a round, or that may
follow the loop, or that a caller can go on with. -/
theorem runs_sync_resynced (hp : Ready x p) (expecting : TokenSet) :
    Runs (sync expecting) p (fun _ => True) fun _ q => p.syntaxErrors < q.syntaxErrors →
      q.recoverySet = p.recoverySet ∧ Resynced (expecting.union p.recoverySet) p [] q := by
  refine runs_sync_of_syncHook hp ((runs_syncHook hp trivial expecting fun _ _ _ _ => trivial).mono ?_)
  rintro _ q ⟨rfl, ⟨-, -, -, hsame, -⟩ | ⟨-, -, -, q₀, rs, ts, hreported, -, hskipped, -⟩⟩ hmore
  · exact absurd hsame (Nat.ne_of_gt hmore)
  · exact ⟨recoverySet_of_situation (hskipped.skipped.step.situation.trans hreported.step.situation),
      hskipped.resynced hreported.step⟩

end Parser

/-- **A parse goes on at the first token that someone can go on with.** After a rule has recovered, the current token is
the end, or one that a caller can go on with, and before that no such token was passed over, but for the one that a rule
gives up where it has recovered before.  After a guard has reported a token, the current one is the end, one that the guard
lets through, or one that a caller can go on with, and before that no such token was passed over.  In both cases all tokens
that were passed over are error leaves of the rule that is being recognized, in their order. -/
theorem Recognizer.OrdinaryRule.resyncs {e : Recognizer Unit} (h : e.OrdinaryRule) {source : σ}
    (hsource : TokenSource.RunsOut source) {strategy : Strategy} (hstrategy : strategy = .default ∨ strategy = .anchored)
    (language : Language) (recursionLimit : Option Nat) (listeners : Nat) {p : Parser σ}
    (hp : p = { input := .ofSource source, language, strategy, recursionLimit, listeners }) {m : Moment σ}
    (hm : m ∈ e.moments p) :
    (∀ exception s q, m = .recovering exception s → Parser.recover exception s = .ok () q →
      q.recoverySet = s.recoverySet ∧ ∃ given, Resynced s.recoverySet s given q ∧
        (given = [] ∨ ∃ t r, given = [t] ∧ s.input.current? = some t ∧ s.currentRule? = some r ∧ s.Recalls r)) ∧
    ∀ expecting s q, m = .guarding expecting s → Parser.sync expecting s = .ok () q → s.syntaxErrors < q.syntaxErrors →
      q.recoverySet = s.recoverySet ∧ Resynced (expecting.union s.recoverySet) s [] q := by
  obtain ⟨x, hrecounted⟩ := h.exists_recounted hsource hstrategy language recursionLimit listeners hp
  obtain ⟨before, after, hsplit⟩ := List.append_of_mem hm
  obtain ⟨-, hfits⟩ := hrecounted.reached before m after hsplit
  refine ⟨?_, ?_⟩
  · rintro exception s q rfl hran
    obtain ⟨-, hhappens⟩ := Ends.of_ok hfits.runs_recover hran
    cases hhappens with
    | recovering ran r rule given ts recovered =>
        refine ⟨recoverySet_of_situation recovered.skipped.step.situation, given, recovered.resynced, ?_⟩
        obtain ⟨hrecalls, rfl⟩ | ⟨-, hnone⟩ := recovered.stalled
        · exact .inr ⟨_, r, rfl, hfits.1.standing.current?_eq, rule, hrecalls⟩
        · exact .inl hnone
  · rintro expecting s q rfl hran
    exact Ends.of_ok (runs_sync_resynced hfits expecting) hran

namespace Detour

/-- Guards a loop that a `y` may follow, and then fails in a rule that a `z` may follow. -/
def recognizer : Recognizer Unit :=
  .asRule ⟨0⟩ fun _ => (Recognizer.sync (.single ⟨2⟩)).bind fun _ => (Recurring.failing ⟨3⟩ ⟨1⟩).bind fun _ =>
    .expect ⟨3⟩ ∅

/-- An `x`, which the guard passes over, a `y`, which the failed rule passes over, and a `z`. -/
def start : Parser ListedTokens where
  input := .ofSource
    { rest := [{ ty := ⟨1⟩, text := "x" }, { ty := ⟨2⟩, text := "y" }, { ty := ⟨3⟩, text := "z" }]
      last := .endOfInput 3 }
  language := default

/-- The recognizer is a rule made of ordinary operations. -/
theorem ordinaryRule_recognizer : recognizer.OrdinaryRule :=
  Recognizer.ordinaryRule_asRule ((Recognizer.ordinary_perform _).bind fun _ =>
    (Recurring.ordinary_failing _ _).bind fun _ => Recognizer.ordinary_expect _ _)

/-- The guard reports the `x` and stops at the `y`, and the failed rule goes on from there. -/
theorem resyncs_detour : ∃ expecting s q exception s' q',
    .guarding expecting s ∈ recognizer.moments start ∧ Parser.sync expecting s = .ok () q ∧
    Resynced (expecting.union s.recoverySet) s [] q ∧ s.index = 0 ∧ q.index = 1 ∧
    .recovering exception s' ∈ recognizer.moments start ∧ Parser.recover exception s' = .ok () q' ∧
    ∃ given, Resynced s'.recoverySet s' given q' := by
  have hguard : ((recognizer.moments start)[0]?.bind Moment.guarding?).map (fun g =>
      onward (Parser.sync g.1) g.2 fun _ q => [(g.2.index, q.index, g.2.syntaxErrors, q.syntaxErrors)]) =
        some [(0, 1, 0, 1)] := by decide +kernel
  have hfailure : (recognizer.moments start)[1]?.bind Moment.noted? = some ⟨⟨1⟩, 1⟩ := by decide +kernel
  obtain ⟨m, hm, hnoted⟩ := Option.bind_eq_some_iff.mp hfailure
  obtain ⟨exception, s', q', rfl, hran', -⟩ := Moment.of_noted? hnoted
  have hall : ∀ {m : Moment ListedTokens}, m ∈ recognizer.moments start → _ := fun hm =>
    ordinaryRule_recognizer.resyncs (ListedTokens.runsOut (by decide)) (.inl rfl) default none 0 rfl hm
  have hrecovering := List.mem_of_getElem? hm
  obtain ⟨-, given, hrecovered, -⟩ := (hall hrecovering).1 exception s' q' rfl hran'
  obtain ⟨g, hg, hgone⟩ := Option.map_eq_some_iff.mp hguard
  obtain ⟨m, hm', hatwork⟩ := Option.bind_eq_some_iff.mp hg
  have hguarding : .guarding g.1 g.2 ∈ recognizer.moments start :=
    Moment.of_guarding? hatwork ▸ List.mem_of_getElem? hm'
  unfold onward at hgone
  cases hran : Parser.sync g.1 g.2 with
  | error i q =>
      rw [hran] at hgone
      cases hgone
  | ok u q =>
      rw [hran] at hgone
      simp only [List.cons.injEq, Prod.mk.injEq, and_true] at hgone
      obtain ⟨hs, hq, hnone, hone⟩ := hgone
      obtain ⟨-, hresynced⟩ := (hall hguarding).2 g.1 g.2 q rfl hran (by omega)
      exact ⟨g.1, g.2, q, exception, s', q', hguarding, hran, hresynced, hs, hq, hrecovering, hran', given, hrecovered⟩

end Detour

end TreeProjection
