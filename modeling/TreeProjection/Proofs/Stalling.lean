import TreeProjection.Proofs.Moments

/-! # Rules that stall

A rule that recovers where it has recovered before would go round in a circle, so it gives up a token first.  What it
goes by are the rules that have recovered since a token was matched last, whichever place they did so at, and the place
where one of them did so last.

* `Noted`, `notedSince` — the recoveries since a token was matched last.
* `Parser.History.minds` — they are what recovery keeps in mind.
* `Recognizer.OrdinaryRule.gives_up_where_noted` — a token is given up only where a rule has recovered last, by a rule
  that has recovered somewhere.
* `Recognizer.OrdinaryRule.recovers_further` — a rule that recovers again at its place goes on further on. -/

namespace TreeProjection

open TreeProjection.Parser

variable {σ α β : Type}

/-- **A recovery that has been noted.** -/
structure Noted where
  /-- The rule that has recovered. -/
  rule : RuleIndex
  /-- Where the input stood once a token had been given up, if one was. -/
  index : Nat
  deriving DecidableEq, Repr

variable [TokenSource σ]

/-- What a rule that recovers notes, unless the parse is given up on the way. -/
def Moment.noted? : Moment σ → Option Noted
  | .recovering e p =>
    match p.currentRule?, recover e p with
    | some r, .ok _ q => q.recovery.lastErrorIndex.map fun i => ⟨r, i⟩
    | _, _ => none
  | _ => none

/-- Only a rule that recovers notes something. -/
theorem Moment.of_noted? {m : Moment σ} {n : Noted} (h : m.noted? = some n) : ∃ e p q,
    m = .recovering e p ∧ recover e p = .ok () q ∧ p.currentRule? = some n.rule := by
  cases m with
  | matching p => cases h
  | guarding expecting p => cases h
  | recovering e p =>
      simp only [Moment.noted?] at h
      split at h
      · next r u q hr hran =>
          obtain ⟨i, -, rfl⟩ := Option.map_eq_some_iff.mp h
          exact ⟨e, p, q, rfl, hran, hr⟩
      · cases h

/-- What has been noted since a token was matched last, once a moment is over. -/
def Noted.after (notes : List Noted) (m : Moment σ) : List Noted :=
  if m.isMatching then [] else notes ++ m.noted?.toList

/-- **What has been noted since a token was matched last.** -/
def notedSince (ms : List (Moment σ)) : List Noted := ms.foldl Noted.after []

namespace Parser

variable {x : Tape} {p q : Parser σ} {notes : List Noted} {ms : List (Moment σ)}

/-! ## What recovery keeps in mind -/

/-- **Recovery keeps recoveries in mind**: the rules of all of them, and the place of the last one. -/
structure Minds (p : Parser σ) (notes : List Noted) : Prop where
  /-- The rules that have recovered. -/
  rules : p.recovery.lastErrorRules = notes.map Noted.rule
  /-- Where one of them has recovered last. -/
  index : p.recovery.lastErrorIndex = notes.getLast?.map Noted.index

omit [TokenSource σ] in
/-- Nothing is forgotten on a quiet stretch. -/
theorem Minds.quiet (h : p.Minds notes) (hquiet : Quiet p q) : q.Minds notes :=
  ⟨hquiet.lastErrorRules.trans h.rules, hquiet.lastErrorIndex.trans h.index⟩

/-- What a rule has noted that has recovered. -/
theorem Recovered.noted? {e : RecognitionException} {r : RuleIndex} {given ts : List Token}
    (h : Recovered x r p given ts q) (hran : recover e p = .ok () q) (hr : p.currentRule? = some r) :
    (Moment.recovering e p).noted? = some ⟨r, if given = [] then p.index else x.stop (p.index + 1)⟩ := by
  simp only [Moment.noted?, hr, hran, h.noted, Option.map_some]

/-- **A token is given up only where the rule has recovered**, as far as recovery keeps that in mind. -/
theorem Fits.recalls {m : Moment σ} (h : Fits x m) {n : Noted} (hn : m.noted? = some n) (hmoved : n.index ≠ m.state.index) :
    m.state.Recalls n.rule := by
  obtain ⟨e, p, q, rfl, hran, -⟩ := Moment.of_noted? hn
  obtain ⟨-, hhappens⟩ := Ends.of_ok h.runs_recover hran
  cases hhappens with
  | recovering ran r rule given ts recovered =>
      rw [recovered.noted? ran rule] at hn
      cases hn
      obtain ⟨hrecalls, -⟩ | ⟨-, hnone⟩ := recovered.stalled
      · exact hrecalls
      · exact absurd (if_pos hnone) hmoved

/-- **What recovery keeps in mind once a moment is over.** -/
theorem Minds.happens {m : Moment σ} (h : m.state.Minds notes) (hm : Happens x m q) :
    q.Minds (Noted.after notes m) := by
  cases hm with
  | matching index_le recovery => exact ⟨by rw [recovery]; rfl, by rw [recovery]; rfl⟩
  | @guarding expecting p q quiet =>
      have hnotes : Noted.after notes (.guarding expecting p) = notes := List.append_nil _
      rw [hnotes]
      exact h.quiet quiet
  | @recovering e p q ran r rule given ts recovered =>
      have hnotes : Noted.after notes (.recovering e p) =
          notes ++ [⟨r, if given = [] then p.index else x.stop (p.index + 1)⟩] := by
        simp only [Noted.after, Moment.isMatching, Bool.false_eq_true, if_false, recovered.noted? ran rule,
          Option.toList_some]
      have hminds : p.Minds notes := h
      rw [hnotes]
      refine ⟨?_, ?_⟩
      · rw [recovered.rules, hminds.rules, List.map_append]
        rfl
      · rw [recovered.noted, List.getLast?_concat]
        rfl

/-- **Recovery keeps in mind what has been noted since a token was matched last.** -/
theorem History.minds (hhistory : History x p ms q) (h : p.Minds notes) : q.Minds (ms.foldl Noted.after notes) := by
  induction hhistory generalizing notes with
  | nil quiet => exact h.quiet quiet
  | cons before happens _ ih => exact ih ((h.quiet before).happens happens)

end Parser

/-- **A token is given up only where a rule has recovered last**, and only by a rule that has recovered since a token was
matched last, at whichever place.  If all recoveries since then were at this place, then it is the rule's place too. -/
theorem Recognizer.OrdinaryRule.gives_up_where_noted {e : Recognizer Unit} (h : e.OrdinaryRule) {source : σ}
    (hsource : TokenSource.RunsOut source) {strategy : Strategy} (hstrategy : strategy = .default ∨ strategy = .anchored)
    (language : Language) (recursionLimit : Option Nat) (listeners : Nat) {p : Parser σ}
    (hp : p = { input := .ofSource source, language, strategy, recursionLimit, listeners })
    {before after : List (Moment σ)} {m : Moment σ} (hm : e.moments p = before ++ m :: after) :
    (m.state.recovery.lastErrorRules = (notedSince before).map Noted.rule ∧
      m.state.recovery.lastErrorIndex = (notedSince before).getLast?.map Noted.index) ∧
    ∀ n, m.noted? = some n → n.index ≠ m.state.index →
      n.rule ∈ (notedSince before).map Noted.rule ∧
      (notedSince before).getLast?.map Noted.index = some m.state.index ∧
      ((∀ n' ∈ notedSince before, n'.index = m.state.index) → ⟨n.rule, m.state.index⟩ ∈ notedSince before) := by
  obtain ⟨x, hrecounted⟩ := h.exists_recounted hsource hstrategy language recursionLimit listeners hp
  obtain ⟨hhistory, hfits⟩ := hrecounted.reached before m after hm
  have hminds : m.state.Minds (notedSince before) := hhistory.minds (by subst hp; exact ⟨rfl, rfl⟩)
  refine ⟨⟨hminds.rules, hminds.index⟩, fun n hn hmoved => ?_⟩
  obtain ⟨hindex, hrule⟩ := hfits.recalls hn hmoved
  rw [hminds.rules] at hrule
  refine ⟨hrule, hminds.index.symm.trans hindex, fun hplace => ?_⟩
  obtain ⟨n', hn', hsame⟩ := List.mem_map.mp hrule
  rw [← hsame, ← hplace n' hn']
  exact hn'

namespace Recurring

/-- A rule that fails, after which a token of one type may come. -/
def failing (ty : TokenType) (r : RuleIndex) : Recognizer Unit :=
  .within (.single ty) fun _ => .asRule r fun _ => .noViableAlt 1

/-- Two rules fail, then the first of them again, and then a token of the type is to come. -/
def recognizer (ty : TokenType) : Recognizer Unit :=
  .asRule ⟨0⟩ fun _ => (failing ty ⟨1⟩).bind fun _ => (failing ty ⟨2⟩).bind fun _ => (failing ty ⟨1⟩).bind fun _ =>
    .expect ty ∅

/-- An `x` and a `y`. -/
def start : Parser ListedTokens where
  input := .ofSource { rest := [{ ty := ⟨1⟩, text := "x" }, { ty := ⟨2⟩, text := "y" }], last := .endOfInput 2 }
  language := default

/-- A rule that fails is ordinary. -/
theorem ordinary_failing (ty : TokenType) (r : RuleIndex) : (failing ty r).Ordinary :=
  Recognizer.ordinary_within (Recognizer.ordinary_asRule (Recognizer.ordinary_noViableAlt 1))

/-- The recognizer is a rule made of ordinary operations. -/
theorem ordinaryRule_recognizer (ty : TokenType) : (recognizer ty).OrdinaryRule :=
  Recognizer.ordinaryRule_asRule ((ordinary_failing ty _).bind fun _ => (ordinary_failing ty _).bind fun _ =>
    (ordinary_failing ty _).bind fun _ => Recognizer.ordinary_expect _ _)

/-- Where a `y` may come, the `x` is passed over after the first failure, and the first rule comes round again at the
`y`. -/
theorem exists_recurring : ∃ (before : List (Moment ListedTokens)) (m : Moment ListedTokens)
    (after : List (Moment ListedTokens)), (recognizer ⟨2⟩).moments start = before ++ m :: after ∧
      notedSince before = [⟨⟨1⟩, 0⟩, ⟨⟨2⟩, 1⟩] ∧ m.state.index = 1 ∧ m.noted? = some ⟨⟨1⟩, 2⟩ := by
  have hbefore : notedSince (((recognizer ⟨2⟩).moments start).take 2) = [⟨⟨1⟩, 0⟩, ⟨⟨2⟩, 1⟩] := by decide +kernel
  have hthird : ((recognizer ⟨2⟩).moments start)[2]?.map (fun m => (m.state.index, m.noted?)) =
      some (1, some ⟨⟨1⟩, 2⟩) := by decide +kernel
  obtain ⟨m, hm, heq⟩ := Option.map_eq_some_iff.mp hthird
  obtain ⟨hindex, hnoted⟩ := Prod.mk.inj heq
  obtain ⟨hlt, rfl⟩ := List.getElem?_eq_some_iff.mp hm
  refine ⟨_, _, ((recognizer ⟨2⟩).moments start).drop 3, ?_, hbefore, hindex, hnoted⟩
  rw [← List.drop_eq_getElem_cons hlt, List.take_append_drop]

/-- The first rule gives the `y` up: a rule has recovered there, and the first rule has recovered before. -/
theorem gives_up_where_noted_recurring : ∃ before m after n, (recognizer ⟨2⟩).moments start = before ++ m :: after ∧
    m.noted? = some n ∧ n.index ≠ m.state.index ∧ n.rule ∈ (notedSince before).map Noted.rule ∧
    (notedSince before).getLast?.map Noted.index = some m.state.index := by
  obtain ⟨before, m, after, hm, -, hindex, hnoted⟩ := exists_recurring
  have hmoved : (⟨⟨1⟩, 2⟩ : Noted).index ≠ m.state.index := by
    rw [hindex]
    decide
  obtain ⟨hrule, hlast, -⟩ := ((ordinaryRule_recognizer ⟨2⟩).gives_up_where_noted (ListedTokens.runsOut (by decide))
    (.inl rfl) default none 0 rfl hm).2 _ hnoted hmoved
  exact ⟨before, m, after, _, hm, hnoted, hmoved, hrule, hlast⟩

/-- **But it is not there that the first rule has recovered.** -/
theorem gives_up_elsewhere : ∃ before m after n, (recognizer ⟨2⟩).moments start = before ++ m :: after ∧
    m.noted? = some n ∧ n.index ≠ m.state.index ∧ (⟨n.rule, m.state.index⟩ : Noted) ∉ notedSince before := by
  obtain ⟨before, m, after, hm, hbefore, hindex, hnoted⟩ := exists_recurring
  refine ⟨before, m, after, _, hm, hnoted, ?_, ?_⟩
  · rw [hindex]
    decide
  · rw [hindex, hbefore]
    decide

end Recurring

/-! ## A rule that comes round again -/

namespace Parser

variable {x : Tape} {p q : Parser σ} {ms : List (Moment σ)} {r : RuleIndex}

omit [TokenSource σ] in
/-- A rule is not forgotten on a quiet stretch without progress. -/
theorem Quiet.recalls (h : Quiet p q) (hindex : q.index = p.index) (hrecalls : p.Recalls r) : q.Recalls r := by
  obtain ⟨hplace, hrule⟩ := hrecalls
  refine ⟨?_, ?_⟩
  · rw [h.lastErrorIndex, hplace, hindex]
  · rw [h.lastErrorRules]
    exact hrule

/-- A rule is not forgotten where another rule, or the same one again, recovers without progress. -/
theorem Recovered.recalls {r' : RuleIndex} {given ts : List Token} (h : Recovered x r' p given ts q)
    (hindex : q.index = p.index) (hrecalls : p.Recalls r) : q.Recalls r := by
  have hend : p.index ≤ x.size := hindex ▸ h.skipped.step.standing.le_size
  have hplace : (if given = [] then p.index else x.stop (p.index + 1)) = p.index := by
    refine Nat.le_antisymm (hindex ▸ h.noted_le) ?_
    split
    · exact Nat.le_refl _
    · exact x.le_stop_succ hend
  refine ⟨?_, ?_⟩
  · rw [h.noted, hplace, hindex]
  · rw [h.rules]
    exact List.mem_append_left _ hrecalls.2

/-- **A rule is not forgotten without progress** at any moment but one at which a token is matched. -/
theorem Happens.recalls {m : Moment σ} (h : Happens x m q) (hmatch : m.isMatching = false)
    (hindex : q.index = m.state.index) (hrecalls : m.state.Recalls r) : q.Recalls r := by
  cases h with
  | matching => cases hmatch
  | guarding quiet => exact quiet.recalls hindex hrecalls
  | recovering _ _ _ _ _ recovered => exact recovered.recalls hindex hrecalls

/-- **A rule is not forgotten without progress** as long as no token is matched. -/
theorem History.recalls (h : History x p ms q) (hms : ∀ m ∈ ms, m.isMatching = false) (hindex : q.index = p.index)
    (hrecalls : p.Recalls r) : q.Recalls r := by
  induction h with
  | nil quiet => exact quiet.recalls hindex hrecalls
  | @cons p q s m ms before happens rest ih =>
      -- the input is where it was at each step on the way
      have hfirst := before.index_le
      have hmoment := happens.index_le
      have hrest := rest.index_le
      have hreached : m.state.Recalls r := before.recalls (by omega) hrecalls
      exact ih (fun m hm => hms m (List.mem_cons_of_mem _ hm)) (by omega)
        (happens.recalls (hms m List.mem_cons_self) (by omega) hreached)

/-- What has happened at a moment on the way. -/
theorem History.split {m : Moment σ} {ms' : List (Moment σ)} (h : History x p (ms ++ m :: ms') q) :
    ∃ s, Happens x m s ∧ History x s ms' q := by
  induction ms generalizing p with
  | nil =>
      cases h with
      | cons before happens rest => exact ⟨_, happens, rest⟩
  | cons m' ms ih =>
      cases h with
      | cons before happens rest => exact ih rest

/-- **A rule that comes round again** has been kept in mind, if the input is where it was. -/
theorem History.recalls_of_recovering {e : RecognitionException} {s : Parser σ} {ms' : List (Moment σ)}
    (h : History x p (ms ++ .recovering e s :: ms') q) (hms : ∀ m ∈ ms', m.isMatching = false)
    (hr : s.currentRule? = some r) (hindex : q.index = s.index) (hinner : q.index < x.size) : q.Recalls r := by
  obtain ⟨s', hhappens, hrest⟩ := h.split
  have hle : s.index ≤ s'.index := hhappens.index_le
  have hle' := hrest.index_le
  refine hrest.recalls hms (by omega) ?_
  cases hhappens with
  | recovering ran r' rule given ts recovered =>
      obtain rfl : r' = r := Option.some.inj (rule.symm.trans hr)
      cases recovered.resumed with
      | atEnd h => omega
      | moved h => omega
      | stayed _ _ recalls => exact recalls

/-! ## What keeps a rule from recovering -/

/-- **An action fails only where a source fails** that comes of the one that it began with. -/
def Stalls (act : ParserM σ α) (p : Parser σ) : Prop :=
  Ends act p fun o q => TokenSource.Drawn p.input.source q.input.source ∧ ∀ i, o = .error i →
    ∃ (source : σ) (e : Error), TokenSource.Drawn p.input.source source ∧
      (TokenSource.pull source).1 = .error e ∧ i = .abort (.error e)

namespace Stalls

variable {act : ParserM σ α} {next : α → ParserM σ β}

/-- What answers and leaves the source alone does not fail. -/
theorem of_ok {a : α} (h : act p = .ok a q) (hsource : q.input.source = p.input.source) : Stalls act p := by
  unfold Stalls Ends
  rw [h]
  refine ⟨?_, nofun⟩
  rw [hsource]
  exact .refl

/-- First one action, then another. -/
theorem bind {mid : α → Parser σ → Prop} (h : Stalls act p) (hmid : Answers act p mid)
    (hnext : ∀ a q, mid a q → Stalls (next a) q) : Stalls (act >>= next) p := by
  refine Ends.bind (Ends.and h hmid) ?_ ?_
  · rintro a q ⟨⟨hdrawn, -⟩, hq⟩
    refine (hnext a q (hq a rfl)).mono fun o s hs => ⟨hdrawn.trans hs.1, fun i hi => ?_⟩
    obtain ⟨source, e, hfurther, hfails⟩ := hs.2 i hi
    exact ⟨source, e, hdrawn.trans hfurther, hfails⟩
  · rintro i q ⟨⟨hdrawn, hfails⟩, -⟩
    refine ⟨hdrawn, ?_⟩
    rintro _ ⟨⟩
    exact hfails i rfl

/-- The state that is looked at. -/
theorem of_get {f : Parser σ → ParserM σ β} (h : Stalls (f p) p) : Stalls (get >>= f) p :=
  (ends_get_bind f).mpr h

/-- What leaves the source alone, and then another action. -/
theorem of_modify {g : Parser σ → Parser σ} {f : PUnit → ParserM σ β}
    (hg : (g p).input.source = p.input.source) (h : Stalls (f ⟨⟩) (g p)) : Stalls (modify g >>= f) p := by
  unfold Stalls at h
  rw [hg] at h
  exact (ends_modify_bind g f).mpr h

/-- An operation of the input. -/
theorem of_onInput {act : StreamM σ α} (h : Stream.Stalls act p.input) : Stalls (onInput act) p := by
  refine ends_onInput (Ends.mono h ?_)
  rintro (e | a) s ⟨hdrawn, hfails⟩
  · refine ⟨hdrawn, ?_⟩
    rintro _ ⟨⟩
    obtain ⟨source, err, hfurther, hpull, rfl⟩ := hfails e rfl
    exact ⟨source, err, hfurther, hpull, rfl⟩
  · exact ⟨hdrawn, nofun⟩

/-- A hook that is neither noted nor denied. -/
theorem of_hooked (hp : Ready x p) {h : Hook} {denied : ParserM σ α} (hact : Stalls act p) :
    Stalls (hooked h denied act) p := by
  have hallows : p.strategy.allows h = true := by simp [Strategy.allows, hp.denied]
  unfold hooked
  refine .of_get ?_
  simp only [hp.noted, Bool.false_eq_true, if_false]
  rw [if_pos hallows]
  exact hact

end Stalls

/-- Looking at the current token, which is the one of the tape. -/
theorem stalls_ahead_bind (hp : Ready x p) {next : Token → ParserM σ β}
    (hnext : ∀ s, s.Standing x p.index → Stalls (next (x.token p.index)) { p with input := s }) :
    Stalls (ahead 1 >>= next) p := by
  have hahead : Runs (ahead 1) p (fun _ => True) fun o q =>
      o = .ok (x.token p.index) ∧ ∃ s, s.Standing x p.index ∧ q = { p with input := s } :=
    runs_ahead_one (.standing hp.standing) trivial
  refine Stalls.bind (.of_onInput (Stream.stalls_ahead (.standing hp.standing) 1)) hahead.to_answers ?_
  rintro _ _ ⟨⟨⟩, s, hs, rfl⟩
  exact hnext s hs

/-- Consuming a token. -/
theorem stalls_consume (hp : Ready x p) : Stalls consume p := by
  unfold consume
  refine stalls_ahead_bind hp fun s hs => ?_
  refine Stalls.bind (.of_onInput (Stream.stalls_consume (.standing hs)))
    ((Ends.self (onInput Stream.consume) { p with input := s }).mono fun _ _ _ _ _ => trivial) fun _ q _ => ?_
  refine .of_get ?_
  by_cases hspeculating : q.isSpeculating = true
  · rw [if_pos hspeculating]
    exact .of_ok rfl rfl
  · rw [if_neg hspeculating]
    exact .of_ok rfl rfl

omit [TokenSource σ] in
/-- Adding an error leaf. -/
theorem stalls_addErrorLeaf [TokenSource σ] (t : Token) (p : Parser σ) : Stalls (addErrorLeaf t) p := by
  unfold addErrorLeaf
  refine .of_get ?_
  by_cases hspeculating : p.isSpeculating = true
  · rw [if_pos hspeculating]
    exact .of_ok rfl rfl
  · rw [if_neg hspeculating]
    exact .of_ok rfl rfl

/-- **There are no more tokens to consume than are left.** -/
theorem stalls_consumeUntil (hp : Ready x p) (hrec : p.recovery.inRecovery = true) (set : TokenSet) {n : Nat}
    (hfuel : x.size < n + p.index) : Stalls (consumeUntil set n) p := by
  -- by induction on the fuel, which is more than the tokens that are left
  induction n generalizing p with
  | zero =>
      have := hp.standing.le_size
      omega
  | succ n ih =>
      unfold consumeUntil
      refine stalls_ahead_bind hp fun s hs => ?_
      have hindex : ({ p with input := s } : Parser σ).index = p.index := hs.cursor
      have hready : Ready x { p with input := s } := (hp.reread hs).ready hp
      by_cases hstop : ((x.token p.index).isEof || set.contains (x.token p.index).ty) = true
      · rw [if_pos hstop]
        exact .of_ok rfl rfl
      · rw [if_neg hstop]
        rw [Bool.or_eq_true, not_or, x.token_isEof, decide_eq_true_iff] at hstop
        have hconsume : Runs consume { p with input := s } (fun _ => True) _ := runs_consume_skip hready trivial hrec
        refine (stalls_consume hready).bind hconsume.to_answers ?_
        rintro _ q ⟨-, hskip, hnext, -⟩
        -- the token that was consumed is not the end, so that one token fewer is left
        have hgone := x.le_stop (i := p.index + 1) (Nat.lt_of_not_le hstop.1)
        rw [hindex] at hnext
        exact ih (hskip.step.ready hready) hskip.inRecovery (by omega)

/-- **Passing over tokens.** -/
theorem stalls_skipTo (hp : Ready x p) (hrec : p.recovery.inRecovery = true) (set : TokenSet) :
    Stalls (skipTo set) p := by
  -- what is left of the tape is not more than the steps that are granted
  have hrest : ∀ {q : Parser σ}, Ready x q → q.recovery.inRecovery = true →
      Stalls (do consumeUntil set ((← get).remaining + 1)) q := by
    intro q hq hin
    refine .of_get (stalls_consumeUntil hq hin set ?_)
    have hbound := hq.standing.reads.size_le_bound
    have hlt := hq.standing.lt_size
    unfold remaining
    simp only [index] at hlt ⊢
    omega
  refine .of_hooked hp (.of_get ?_)
  by_cases hanchor : p.strategy.anchoring = true
  · simp only [hanchor, if_true]
    refine stalls_ahead_bind hp fun s hs => ?_
    have hready : Ready x { p with input := s } := (hp.reread hs).ready hp
    by_cases heof : (x.token p.index).isEof = true
    · rw [if_pos heof]
      have hindex : ({ p with input := s } : Parser σ).index = p.index := hs.cursor
      have hleaf : Runs (addErrorLeaf (x.token p.index)) { p with input := s } (fun _ => True) _ :=
        runs_addErrorLeaf hready (.inr ⟨heof, by rw [hindex]⟩)
      refine (stalls_addErrorLeaf _ _).bind hleaf.to_answers ?_
      rintro _ q ⟨-, hstep, -, hrecovery⟩
      refine hrest (hstep.ready hready) ?_
      rw [hrecovery]
      exact hrec
    · rw [if_neg heof]
      exact hrest hready hrec
  · simp only [hanchor, if_false, Bool.false_eq_true]
    exact hrest hp hrec

/-- **A rule fails to recover only where a source fails.** -/
theorem Fits.stalls {e : RecognitionException} (h : Fits x (.recovering e p)) : Stalls (recover e) p := by
  obtain ⟨hp, hrec, -⟩ := h
  have hrest : ∀ {q : Parser σ} (rule : Option RuleIndex), Ready x q → q.recovery.inRecovery = true → Stalls (do
      modify fun q => { q with
        recovery.lastErrorIndex := some q.index
        recovery.lastErrorRules := q.recovery.lastErrorRules ++ rule.toList }
      skipTo (← get).recoverySet) q := by
    intro q rule hq hin
    have hminded := (hq.remind { q.recovery with
      lastErrorIndex := some q.index
      lastErrorRules := q.recovery.lastErrorRules ++ rule.toList }).ready hq
    exact .of_modify rfl (.of_get (stalls_skipTo hminded hin _))
  refine .of_hooked hp (.of_get ?_)
  by_cases hstalled : (p.recovery.lastErrorIndex == some p.index &&
    p.currentRule?.any p.recovery.lastErrorRules.contains) = true
  · simp only [hstalled, if_true]
    have hconsume : Runs consume p (fun _ => True) _ := runs_consume_skip hp trivial hrec
    refine (stalls_consume hp).bind hconsume.to_answers ?_
    rintro _ q ⟨-, hskip, -, -⟩
    exact hrest _ (hskip.step.ready hp) hskip.inRecovery
  · simp only [hstalled, if_false, Bool.false_eq_true]
    exact hrest _ hp hrec

end Parser

/-- **A rule that recovers again at its place goes on further on.** If the input is where it was when the rule recovered
before, no token has been matched in between, and the current token is not the end, then recovering moves the input on; it
fails only where the source fails. -/
theorem Recognizer.OrdinaryRule.recovers_further {e : Recognizer Unit} (h : e.OrdinaryRule) {source : σ}
    (hsource : TokenSource.RunsOut source) {strategy : Strategy} (hstrategy : strategy = .default ∨ strategy = .anchored)
    (language : Language) (recursionLimit : Option Nat) (listeners : Nat) {p : Parser σ}
    (hp : p = { input := .ofSource source, language, strategy, recursionLimit, listeners })
    {before between after : List (Moment σ)} {e₁ e₂ : RecognitionException} {s₁ s₂ : Parser σ}
    (hmoments : e.moments p = before ++ .recovering e₁ s₁ :: (between ++ .recovering e₂ s₂ :: after))
    (hbetween : ∀ m ∈ between, m.isMatching = false) (hrule : s₂.currentRule? = s₁.currentRule?)
    (hindex : s₂.index = s₁.index) {t : Token} (ht : s₂.input.current? = some t) (hinner : t.isEof = false) :
    Ends (Parser.recover e₂) s₂ fun o q => match o with
      | .ok _ => s₂.index < q.index
      | .error i => ∃ (s : σ) (err : Error), TokenSource.Drawn s₂.input.source s ∧
          (TokenSource.pull s).1 = .error err ∧ i = .abort (.error err) := by
  obtain ⟨x, hrecounted⟩ := h.exists_recounted hsource hstrategy language recursionLimit listeners hp
  have hsplit : e.moments p = (before ++ .recovering e₁ s₁ :: between) ++ .recovering e₂ s₂ :: after := by
    rw [hmoments, List.append_assoc, List.cons_append]
  obtain ⟨hhistory, hfits⟩ := hrecounted.reached _ _ _ hsplit
  have ⟨hready, _, r, hr⟩ := hfits
  -- the current token is not the end
  have hlt : s₂.index < x.size := by
    obtain rfl : t = x.token s₂.index := Option.some.inj (ht.symm.trans hready.standing.current?_eq)
    rw [x.token_isEof, decide_eq_false_iff_not] at hinner
    exact Nat.lt_of_not_le hinner
  have hrecalls : s₂.Recalls r := hhistory.recalls_of_recovering hbetween (hrule ▸ hr) hindex hlt
  refine (Ends.and hfits.stalls hfits.runs_recover).mono ?_
  rintro (i | u) q ⟨⟨-, hfails⟩, hends⟩
  · exact hfails i rfl
  · obtain ⟨-, hhappens⟩ := hends
    cases hhappens with
    | recovering ran r' rule given ts recovered =>
        obtain rfl : r' = r := Option.some.inj (rule.symm.trans hr)
        cases recovered.resumed with
        | atEnd h => exact absurd hlt (Nat.not_lt_of_le h)
        | moved h => exact h
        | stayed _ first _ => exact absurd hrecalls first

namespace Recurring

/-- Where an `x` may come, all rules fail at the `x`, and when the first of them comes round again, it goes on after
it. -/
theorem recovers_further_recurring : ∃ before e₁ s₁ between e₂ s₂ after q,
    (recognizer ⟨1⟩).moments start = before ++ .recovering e₁ s₁ :: (between ++ .recovering e₂ s₂ :: after) ∧
    s₂.currentRule? = s₁.currentRule? ∧ s₂.index = s₁.index ∧ Parser.recover e₂ s₂ = .ok () q ∧ s₂.index < q.index := by
  have hall : ((recognizer ⟨1⟩).moments start).map (fun m => (m.noted?, m.state.index, m.isMatching,
      m.state.input.current?.map Token.isEof)) = [(some ⟨⟨1⟩, 0⟩, 0, false, some false),
        (some ⟨⟨2⟩, 0⟩, 0, false, some false), (some ⟨⟨1⟩, 1⟩, 0, false, some false),
        (some ⟨⟨0⟩, 2⟩, 2, false, some true)] := by decide +kernel
  obtain ⟨m₁, ms, hms, h₁, hrest⟩ := List.map_eq_cons_iff.mp hall
  obtain ⟨m₂, ms, rfl, h₂, hrest⟩ := List.map_eq_cons_iff.mp hrest
  obtain ⟨m₃, ms, rfl, h₃, -⟩ := List.map_eq_cons_iff.mp hrest
  simp only [Prod.mk.injEq] at h₁ h₂ h₃
  obtain ⟨e₁, s₁, -, rfl, -, hr₁⟩ := Moment.of_noted? h₁.1
  obtain ⟨e₂, s₂, q, rfl, hran, hr₂⟩ := Moment.of_noted? h₃.1
  obtain ⟨t, ht, hinner⟩ := Option.map_eq_some_iff.mp h₃.2.2.2
  have hrule : s₂.currentRule? = s₁.currentRule? := hr₂.trans hr₁.symm
  have hindex : s₂.index = s₁.index := h₃.2.1.trans h₁.2.1.symm
  have hmoments : (recognizer ⟨1⟩).moments start =
      [] ++ .recovering e₁ s₁ :: ([m₂] ++ .recovering e₂ s₂ :: ms) := hms
  have hends := (ordinaryRule_recognizer ⟨1⟩).recovers_further (ListedTokens.runsOut (by decide)) (.inl rfl) default none
    0 rfl hmoments (by simpa using h₂.2.2.1) hrule hindex ht hinner
  exact ⟨_, _, _, _, _, _, _, q, hmoments, hrule, hindex, hran, Ends.of_ok hends hran⟩

end Recurring

end TreeProjection
