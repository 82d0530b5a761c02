import TreeProjection.Proofs.Step

/-! # What the hooks of recovery do

The hooks of a plain strategy, each by what it reports, what it adds to the tree and where it leaves the
input.  Every report is placed at the current token, and it is made only if reports are not held back.

* `Report.extraneous`, `Report.missing` — the reports of tokens that are one too many or missing.
* `Parser.Reported` — a hook that reports, and holds further reports back.
* `Parser.Skipped`, `Parser.SkippedTo` — a hook that passes over tokens, and one that does so up to a token of a set.
* `Parser.Recalls`, `Parser.Recovered`, `Parser.Resumed` — where a failed rule has recovered before, what its recovery
  does, and where it goes on.
* `Parser.runs_recover`, `Parser.runs_recoverInline`, `Parser.runs_syncHook` — the hooks that operations of
  recognizers call. -/

namespace TreeProjection

/-- The report of a token that is one too many, where one of a set was expected. -/
def Report.extraneous (v : Vocabulary) (expected : TokenSet) (t : Token) : Report :=
  ⟨t, t.line, t.column, s!"extraneous input {t.shown} expecting {v.displaySet expected}", none⟩

/-- The report of a token of a set that is missing in front of another one. -/
def Report.missing (v : Vocabulary) (expected : TokenSet) (t : Token) : Report :=
  ⟨t, t.line, t.column, s!"missing {v.displaySet expected} at {t.shown}", none⟩

end TreeProjection

namespace TreeProjection.Parser

open ParseNode (View)

variable {σ α : Type} [TokenSource σ] {x : Tape} {p q : Parser σ} {fair : List Report → Prop}
  {rs : List Report} {vs : List View}

/-- A hook that is neither noted nor denied acts. -/
theorem runs_hooked (hp : Ready x p) {h : Hook} {denied act : ParserM σ α}
    {good : Except RecognitionException α → Parser σ → Prop} (hact : Runs act p fair good) :
    Runs (hooked h denied act) p fair good := by
  have hallows : p.strategy.allows h = true := by simp [Strategy.allows, hp.denied]
  unfold hooked
  refine Runs.of_get ?_
  simp only [hp.noted, Bool.false_eq_true, if_false]
  rw [if_pos hallows]
  exact hact

/-! ## Reporting -/

/-- **A report at the current token**, unless reports are held back or no one listens. -/
inductive Heard (p : Parser σ) (fits : Report → Prop) : List Report → Prop where
  /-- Nothing was reported. -/
  | held (h : p.recovery.inRecovery = true ∨ p.listeners = 0) : Heard p fits []
  /-- A report was made. -/
  | made (r : Report) (h : fits r) (free : p.recovery.inRecovery = false)
    (listened : 0 < p.listeners) : Heard p fits [r]

/-- **A hook has reported**, and reports are held back from now on. -/
structure Reported (x : Tape) (p : Parser σ) (fits : Report → Prop) (rs : List Report)
    (q : Parser σ) : Prop where
  /-- Nothing was added to the tree. -/
  step : Step x p [] rs q
  /-- The input is where it was. -/
  index : q.index = p.index
  /-- Reports are held back, and what recovery did is kept in mind. -/
  recovery : q.recovery = { p.recovery with inRecovery := true }
  /-- What was reported. -/
  heard : Heard p fits rs

/-- Reports are held back. -/
theorem Reported.inRecovery {fits : Report → Prop} (h : Reported x p fits rs q) :
    q.recovery.inRecovery = true := by
  rw [h.recovery]

/-- Nothing is reported if reports are held back already. -/
theorem Ready.reported_of_inRecovery (hp : Ready x p) (h : p.recovery.inRecovery = true)
    (fits : Report → Prop) : Reported x p fits [] p := by
  refine ⟨hp.refl, rfl, ?_, .held (.inl h)⟩
  rw [← h]

/-- Whether a report is one of a token that is missing or one too many, made at a token. -/
def OfToken (t : Token) (r : Report) : Prop := r.offending = t ∧ r.exception = none

/-- Whether a report is one of an exception. -/
def OfException (e : RecognitionException) (r : Report) : Prop :=
  r.offending = e.offending ∧ r.exception = some e

/-- The report of a token that is one too many is made at that token. -/
theorem ofToken_extraneous (v : Vocabulary) (expected : TokenSet) (t : Token) :
    OfToken t (.extraneous v expected t) := ⟨rfl, rfl⟩

/-- The report of a missing token is made at the one in front of which it is missing. -/
theorem ofToken_missing (v : Vocabulary) (expected : TokenSet) (t : Token) :
    OfToken t (.missing v expected t) := ⟨rfl, rfl⟩

/-- A report of a token is placed at that token. -/
theorem OfToken.anchor {t : Token} {r : Report} (h : OfToken t r) : r.anchor = t := by
  obtain ⟨rfl, he⟩ := h
  simp only [Report.anchor, SyntaxError.ofReport, he, Option.map_none]

/-- A report of an exception is placed where the exception is. -/
theorem OfException.anchor {e : RecognitionException} {r : Report} (h : OfException e r) :
    r.anchor = e.anchor := by
  obtain ⟨ho, he⟩ := h
  simp only [Report.anchor, SyntaxError.ofReport, he, Option.map_some, RecognitionException.anchor]
  cases e.kind <;> simp [ho]

omit [TokenSource σ] in
/-- What is fair before a report and after it is fair in any case. -/
theorem Heard.fair_after {fits : Report → Prop} (h : Heard p fits rs) (hfair : fair p.reports)
    (hmade : p.recovery.inRecovery = false → ∀ r, fits r → fair (p.reports ++ [r])) :
    fair (p.reports ++ rs) := by
  cases h with
  | held h => rwa [List.append_nil]
  | made r h free listened => exact hmade free r h

omit [TokenSource σ] in
/-- Less may be said of what was heard. -/
theorem Heard.mono {fits fits' : Report → Prop} (h : Heard p fits rs) (himp : ∀ r, fits r → fits' r) :
    Heard p fits' rs := by
  cases h with
  | held h => exact .held h
  | made r h free listened => exact .made r (himp r h) free listened

omit [TokenSource σ] in
/-- What was heard does not depend on the input. -/
theorem Heard.of_same {fits : Report → Prop} (h : Heard q fits rs)
    (hrecovery : q.recovery.inRecovery = p.recovery.inRecovery)
    (hlisteners : q.listeners = p.listeners) : Heard p fits rs := by
  cases h with
  | held h => exact .held (by rwa [← hrecovery, ← hlisteners])
  | made r h free listened => exact .made r h (by rwa [← hrecovery]) (by rwa [← hlisteners])

/-- Holding reports back. -/
theorem runs_beginErrorCondition (hp : Ready x p) : Runs beginErrorCondition p fair fun o q =>
    o = .ok () ∧ q = { p with recovery.inRecovery := true } :=
  runs_hooked hp ⟨rfl, rfl⟩

/-- A token has been matched. -/
theorem runs_reportMatch (hp : Ready x p) : Runs reportMatch p fair fun o q =>
    o = .ok () ∧ q = { p with recovery := {} } :=
  runs_hooked hp ⟨rfl, rfl⟩

/-- Telling the listeners, once reports are held back. -/
theorem runs_report (hp : Ready x p) (hfree : p.recovery.inRecovery = false) {s : Stream σ}
    (hs : s.Standing x p.index) {fits : Report → Prop} {t : Token} {message : String} {e : Option RecognitionException}
    (hfits : fits ⟨t, t.line, t.column, message, e⟩)
    (hanchor : ∀ r, fits r → r.anchor = x.token p.index) :
    Runs (report t message e) { p with input := s, recovery.inRecovery := true } fair fun o q =>
      o = .ok () ∧ ∃ rs, Reported x p fits rs q := by
  unfold report
  refine Runs.of_get ?_
  -- with no listener nobody is told, and nothing but the state of recovery changes
  by_cases hl : 0 < p.listeners
  · simp only [hl, if_true]
    refine ⟨rfl, [⟨t, t.line, t.column, message, e⟩], ?_, hs.cursor, rfl, .made _ hfits hfree hl⟩
    have hstep := hp.aside hs { p.recovery with inRecovery := true } (Nat.le_refl _)
      (k := p.syntaxErrors + 1)
    refine ⟨⟨hstep.standing, rfl, ?_, Nat.le_refl _, hstep.walk, ?_⟩, rfl, hstep.grows⟩
    · simp [reports, Note.report?]
    · intro r hr
      rw [List.mem_singleton] at hr
      subst hr
      exact ⟨p.index, Nat.le_refl _, hstep.index_le, hanchor _ hfits⟩
  · simp only [hl, if_false]
    exact ⟨rfl, [], hp.aside hs _ (Nat.le_refl _), hs.cursor, rfl, .held (.inr (by omega))⟩

/-- The report that is due for an exception. -/
def failureReport (p : Parser σ) (e : RecognitionException) : Report :=
  ⟨e.offending, e.offending.line, e.offending.column, p.exceptionMessage e, some e⟩

omit [TokenSource σ] in
/-- It is one of the exception. -/
theorem ofException_failureReport (p : Parser σ) (e : RecognitionException) :
    OfException e (p.failureReport e) := ⟨rfl, rfl⟩

/-- **Reporting the exception of a failed rule**, with the text that is due for it. -/
theorem runs_reportError_due (hp : Ready x p) {e : RecognitionException}
    (he : e.anchor = x.token p.index) : Runs (reportError e) p fair fun o q =>
      o = .ok () ∧ ∃ rs, Reported x p (· = p.failureReport e) rs q := by
  refine runs_hooked hp (Runs.of_get ?_)
  by_cases hrec : p.recovery.inRecovery = true
  · simp only [hrec, if_true]
    exact ⟨rfl, [], hp.reported_of_inRecovery hrec _⟩
  · simp only [hrec, if_false, Bool.false_eq_true]
    refine (runs_beginErrorCondition hp).bind ?_ (by rintro e q ⟨⟨⟩, -⟩)
    rintro _ _ ⟨⟨⟩, rfl⟩
    refine Runs.of_get ?_
    refine runs_report hp (by simpa using hrec) hp.standing rfl ?_
    rintro _ rfl
    exact (p.ofException_failureReport e).anchor.trans he

/-- Reporting the exception of a failed rule. -/
theorem runs_reportError (hp : Ready x p) {e : RecognitionException}
    (he : e.anchor = x.token p.index) : Runs (reportError e) p fair fun o q =>
      o = .ok () ∧ ∃ rs, Reported x p (OfException e) rs q := by
  refine (runs_reportError_due hp he).mono ?_
  rintro _ q ⟨rfl, rs, hstep, hindex, hrecovery, hheard⟩
  refine ⟨rfl, rs, hstep, hindex, hrecovery, hheard.mono ?_⟩
  rintro _ rfl
  exact p.ofException_failureReport e

omit [TokenSource σ] in
/-- Without the mark, what may follow is what is written. -/
theorem viableFollow_of_closed (p : Parser σ) {follow : TokenSet} (h : follow.endOfRule = false) :
    p.viableFollow follow = follow := by
  rw [viableFollow, h]
  rfl

omit [TokenSource σ] in
/-- A set of one type is what may follow. -/
theorem viableFollow_single {ty : TokenType} {set : TokenSet} (h : TokenSet.single? ty = .ok set) :
    p.viableFollow set = .single ty := by
  have hclosed : (TokenSet.single ty).endOfRule = false := by
    unfold TokenSet.single TokenSet.insert
    split <;> rfl
  unfold TokenSet.single? TokenSet.insert? at h
  split at h
  · cases h
    exact p.viableFollow_of_closed hclosed
  · cases h

/-- A hook that reports the current token with the message that `message` makes up, whatever the input is and
whether or not reports are held back. -/
theorem runs_reportToken (hp : Ready x p) (hfair : fair p.reports)
    (message : Parser σ → Token → String)
    (hmessage : ∀ s, message { p with input := s, recovery.inRecovery := true } = message p) :
    Runs (do
      unless (← get).recovery.inRecovery do
        beginErrorCondition
        let t ← ahead 1
        let p ← get
        report t (message p t) none) p fair fun o q => o = .ok () ∧ ∃ rs, Reported x p
      (· = ⟨x.token p.index, (x.token p.index).line, (x.token p.index).column,
        message p (x.token p.index), none⟩) rs q := by
  refine Runs.of_get ?_
  -- a second error before a token is matched is held back
  by_cases hrec : p.recovery.inRecovery = true
  · simp only [hrec, if_true]
    exact ⟨rfl, [], hp.reported_of_inRecovery hrec _⟩
  · simp only [hrec, if_false, Bool.false_eq_true]
    refine (runs_beginErrorCondition hp).bind ?_ (by rintro e q ⟨⟨⟩, -⟩)
    rintro _ _ ⟨⟨⟩, rfl⟩
    refine (runs_ahead_one (p := { p with recovery.inRecovery := true })
      (.standing hp.standing) hfair).bind ?_ (by rintro e q ⟨⟨⟩, -⟩)
    rintro _ _ ⟨⟨⟩, s, hs, rfl⟩
    refine Runs.of_get ?_
    rw [hmessage]
    refine runs_report hp (by simpa using hrec) hs rfl ?_
    rintro _ rfl
    exact OfToken.anchor ⟨rfl, rfl⟩

/-- **Reporting the current token as one too many.** -/
theorem runs_reportUnwanted (hp : Ready x p) (hfair : fair p.reports) (expecting : TokenSet) :
    Runs (reportUnwanted expecting) p fair fun o q => o = .ok () ∧ ∃ rs, Reported x p
      (· = .extraneous p.language.vocabulary (p.viableFollow expecting) (x.token p.index)) rs q :=
  runs_hooked hp (runs_reportToken hp hfair (fun p t =>
    let expected := p.language.vocabulary.displaySet (p.viableFollow expecting)
    s!"extraneous input {t.shown} expecting {expected}") fun _ => rfl)

/-- **Reporting a token as missing.** -/
theorem runs_reportMissing (hp : Ready x p) (hfair : fair p.reports) (expecting : TokenSet) :
    Runs (reportMissing expecting) p fair fun o q => o = .ok () ∧ ∃ rs, Reported x p
      (· = .missing p.language.vocabulary (p.viableFollow expecting) (x.token p.index)) rs q :=
  runs_hooked hp (runs_reportToken hp hfair (fun p t =>
    let expected := p.language.vocabulary.displaySet (p.viableFollow expecting)
    s!"missing {expected} at {t.shown}") fun _ => rfl)

/-! ## Passing over tokens -/

/-- **A hook has passed over tokens**, which became error leaves. -/
structure Skipped (x : Tape) (p : Parser σ) (vs : List View) (q : Parser σ) : Prop where
  /-- Nothing was reported. -/
  step : Step x p vs [] q
  /-- Reports are held back. -/
  inRecovery : q.recovery.inRecovery = true
  /-- All leaves are error leaves. -/
  errors : ∀ v ∈ vs, ∃ t, v = .error t

/-- The first leaf is the token that was current. -/
def Leads (x : Tape) (p : Parser σ) (vs : List View) : Prop :=
  ∃ ws, vs = .error (x.token p.index) :: ws

/-- Nothing was passed over. -/
theorem Ready.skipped (hp : Ready x p) (hrec : p.recovery.inRecovery = true) {s : Stream σ}
    (hs : s.Standing x p.index) : Skipped x p [] { p with input := s } :=
  ⟨hp.reread hs, hrec, fun _ h => nomatch h⟩

/-- Something was passed over, and then something else. -/
theorem Skipped.trans {r : Parser σ} {ws : List View} (h : Skipped x p vs q)
    (h' : Skipped x q ws r) : Skipped x p (vs ++ ws) r where
  step := h.step.trans h'.step
  inRecovery := h'.inRecovery
  errors := by
    intro v hv
    rcases List.mem_append.mp hv with hv | hv
    · exact h.errors v hv
    · exact h'.errors v hv

/-- A token consumed while reports are held back is passed over. -/
theorem runs_consume_skip (hp : Ready x p) (hfair : fair p.reports)
    (hrec : p.recovery.inRecovery = true) : Runs consume p fair fun o q =>
      o = .ok (x.token p.index) ∧ Skipped x p [.error (x.token p.index)] q ∧
        q.index = x.stop (p.index + 1) ∧ q.recovery = p.recovery := by
  refine (runs_consume hp hfair).mono ?_
  rintro _ q ⟨rfl, hstep, hrecovery, hindex⟩
  rw [hrec] at hstep
  refine ⟨rfl, ⟨hstep, by rw [hrecovery, hrec], fun v hv => ?_⟩, hindex, hrecovery⟩
  exact ⟨x.token p.index, by simpa using hv⟩

/-- **Tokens have been passed over up to one of a set**: those in front of it are not of the set.  Where the end of the
input is passed over, that leaves a leaf and nothing else. -/
structure SkippedTo (x : Tape) (set : TokenSet) (p : Parser σ) (ts : List Token) (q : Parser σ) : Prop where
  /-- The tokens were passed over. -/
  skipped : Skipped x p (ts.map View.error) q
  /-- They are tokens of the input. -/
  taken : ∀ t ∈ ts, t.isConjured = false
  /-- They are not of the set. -/
  outside : ∀ t ∈ ts, t.isEof = true ∨ set.contains t.ty = false
  /-- The current token is one of the set, or the end. -/
  stops : x.size ≤ q.index ∨ set.contains (x.type q.index) = true

/-- One more token was passed over in front of the others. -/
theorem SkippedTo.cons {set : TokenSet} {i : Nat} {ts : List Token} {r : Parser σ} (h : SkippedTo x set q ts r)
    (hfirst : Skipped x p [.error (x.token i)] q)
    (hi : (x.token i).isEof = true ∨ set.contains (x.token i).ty = false) : SkippedTo x set p (x.token i :: ts) r :=
  ⟨hfirst.trans h.skipped, List.forall_mem_cons.mpr ⟨x.isConjured_token i, h.taken⟩,
    List.forall_mem_cons.mpr ⟨hi, h.outside⟩, h.stops⟩

/-- The input was read ahead before. -/
theorem SkippedTo.reread {set : TokenSet} {ts : List Token} {r : Parser σ} (h : SkippedTo x set q ts r)
    (hfirst : Skipped x p [] q) : SkippedTo x set p ts r :=
  ⟨hfirst.trans h.skipped, h.taken, h.outside, h.stops⟩

/-- **Consuming until a token of a set comes.** -/
theorem runs_consumeUntil (hp : Ready x p) (hfair : fair p.reports)
    (hrec : p.recovery.inRecovery = true) (set : TokenSet) (n : Nat) :
    Runs (consumeUntil set n) p fair fun o q => o = .ok () ∧ q.recovery = p.recovery ∧
      ∃ ts, SkippedTo x set p ts q ∧ ((ts = [] ∧ q.index = p.index) ∨ ∃ us, ts = x.token p.index :: us) := by
  -- induction on the fuel; a parse whose fuel runs out is given up, with the reports it had
  induction n generalizing p with
  | zero => exact hfair
  | succ n ih =>
      unfold consumeUntil
      refine (runs_ahead_one (.standing hp.standing) hfair).bind ?_ (by rintro e q ⟨⟨⟩, -⟩)
      rintro _ _ ⟨⟨⟩, s, hs, rfl⟩
      have hstep := hp.skipped hrec hs
      have hindex : ({ p with input := s } : Parser σ).index = p.index := hs.cursor
      by_cases hstop : ((x.token p.index).isEof || set.contains (x.token p.index).ty) = true
      · rw [if_pos hstop]
        rw [x.token_isEof, Bool.or_eq_true, decide_eq_true_iff] at hstop
        refine ⟨rfl, rfl, [], ⟨hstep, nofun, nofun, ?_⟩, .inl ⟨rfl, hindex⟩⟩
        rw [hindex]
        exact hstop
      · rw [if_neg hstop]
        rw [Bool.not_eq_true, Bool.or_eq_false_iff] at hstop
        refine (runs_consume_skip (hstep.step.ready hp) hfair hrec).bind ?_
          (by rintro e q ⟨⟨⟩, -⟩)
        -- the token consumed comes before those that the rest of the run passes over
        rintro _ q ⟨⟨⟩, hskip, -, hrecovery⟩
        have hskip := hstep.trans hskip
        rw [hindex] at hskip
        refine (ih (hskip.step.ready hp) (by rw [hskip.step.reports, List.append_nil]; exact hfair)
          hskip.inRecovery).mono ?_
        rintro _ r ⟨rfl, hrecovery', ts, hrest, -⟩
        exact ⟨rfl, hrecovery'.trans hrecovery, _, hrest.cons hskip (.inr hstop.2), .inr ⟨ts, rfl⟩⟩

/-- **Passing over tokens.** An anchoring strategy leaves an error leaf unless a token of the set is current
already. -/
theorem runs_skipTo (hp : Ready x p) (hfair : fair p.reports)
    (hrec : p.recovery.inRecovery = true) (set : TokenSet) :
    Runs (skipTo set) p fair fun o q => o = .ok () ∧ q.recovery = p.recovery ∧
      ∃ ts, SkippedTo x set p ts q ∧ ((ts = [] ∧ q.index = p.index ∧
        (p.strategy.anchoring = true → p.index < x.size ∧ set.contains (x.type p.index) = true)) ∨
          ∃ us, ts = x.token p.index :: us) := by
  refine runs_hooked hp (Runs.of_get ?_)
  by_cases hanchor : p.strategy.anchoring = true
  · simp only [hanchor, if_true]
    refine (runs_ahead_one (.standing hp.standing) hfair).bind ?_ (by rintro e q ⟨⟨⟩, -⟩)
    rintro _ _ ⟨⟨⟩, s, hs, rfl⟩
    have hskip := hp.skipped hrec hs
    have hindex : ({ p with input := s } : Parser σ).index = p.index := hs.cursor
    by_cases heof : (x.token p.index).isEof = true
    · -- at the end of the input the leaf is added by hand
      rw [if_pos heof]
      refine (runs_addErrorLeaf (hskip.step.ready hp)
        (.inr ⟨heof, by rw [hindex]⟩)).bind ?_ (by rintro e q ⟨⟨⟩, -⟩)
      rintro _ q ⟨-, hleaf, -, hrecovery⟩
      have hleaf : Skipped x p [.error (x.token p.index)] q :=
        ⟨hskip.step.silent_trans hleaf, by rw [hrecovery, hskip.inRecovery],
          fun v hv => ⟨x.token p.index, List.mem_singleton.mp hv⟩⟩
      refine Runs.of_get ?_
      refine (runs_consumeUntil (hleaf.step.ready hp)
        (by rw [hleaf.step.reports, List.append_nil]; exact hfair) hleaf.inRecovery set _).mono ?_
      rintro _ r ⟨rfl, hrecovery', ts, hrest, -⟩
      exact ⟨rfl, hrecovery'.trans hrecovery, _, hrest.cons hleaf (.inl heof), .inr ⟨ts, rfl⟩⟩
    · rw [if_neg heof]
      refine Runs.of_get ?_
      refine (runs_consumeUntil (hskip.step.ready hp) hfair hrec set _).mono ?_
      rintro _ r ⟨rfl, hrecovery, ts, hrest, hts⟩
      refine ⟨rfl, hrecovery, ts, hrest.reread hskip, ?_⟩
      -- nothing was passed over only if a token of the set is current, since the end would have left a leaf
      rcases hts with ⟨hnil, hsame⟩ | hleads
      · refine .inl ⟨hnil, hsame.trans hindex, fun _ => ?_⟩
        have hend := hrest.stops
        rw [hsame, hindex] at hend
        rw [x.token_isEof, decide_eq_true_iff] at heof
        exact ⟨Nat.lt_of_not_le heof, hend.resolve_left heof⟩
      · rw [hindex] at hleads
        exact .inr hleads
  · simp only [hanchor, if_false, Bool.false_eq_true]
    refine Runs.of_get ?_
    refine (runs_consumeUntil hp hfair hrec set _).mono ?_
    rintro _ r ⟨rfl, hrecovery, ts, hrest, ⟨hnil, hsame⟩ | hleads⟩
    · exact ⟨rfl, hrecovery, ts, hrest, .inl ⟨hnil, hsame, fun h => h.elim⟩⟩
    · exact ⟨rfl, hrecovery, ts, hrest, .inr hleads⟩

/-- **A rule has recovered here**, and recovery keeps that in mind: failing here again, the rule would go round in a
circle. -/
def Recalls (p : Parser σ) (r : RuleIndex) : Prop :=
  p.recovery.lastErrorIndex = some p.index ∧ r ∈ p.recovery.lastErrorRules

/-- **Where a failed rule goes on.** -/
inductive Resumed (x : Tape) (r : RuleIndex) (p q : Parser σ) : Prop where
  /-- There is nowhere to go on to. -/
  | atEnd (h : x.size ≤ p.index) (index_le : p.index ≤ q.index)
  /-- It goes on further on. -/
  | moved (h : p.index < q.index)
  /-- It goes on right here, where it has not recovered before, and recovery keeps that in mind. -/
  | stayed (index : q.index = p.index) (first : ¬ p.Recalls r) (recalls : q.Recalls r)

omit [TokenSource σ] in
/-- Whether reports were held back before makes no difference to where a failed rule goes on. -/
theorem Resumed.of_noted {r : RuleIndex} {p' : Parser σ} (h : Resumed x r p q)
    (hindex : p.index = p'.index)
    (hrecovery : p.recovery = { p'.recovery with inRecovery := true }) : Resumed x r p' q := by
  cases h with
  | atEnd h index_le => exact .atEnd (by rwa [← hindex]) (by rwa [← hindex])
  | moved h => exact .moved (by rwa [← hindex])
  | stayed index first recalls =>
      refine .stayed (index.trans hindex) ?_ recalls
      simpa only [Recalls, hindex, hrecovery] using first

omit [TokenSource σ] in
/-- A failed rule does not go back. -/
theorem Resumed.index_le {r : RuleIndex} (h : Resumed x r p q) : p.index ≤ q.index := by
  cases h with
  | atEnd h index_le => exact index_le
  | moved h => exact Nat.le_of_lt h
  | stayed index _ _ => exact Nat.le_of_eq index.symm

omit [TokenSource σ] in
/-- It goes on from there when it has been left. -/
theorem Resumed.left {r : RuleIndex} {q' : Parser σ} (h : Resumed x r p q)
    (hindex : q'.index = q.index) (hrecovery : q'.recovery = q.recovery) : Resumed x r p q' := by
  cases h with
  | atEnd h index_le => exact .atEnd h (by rwa [hindex])
  | moved h => exact .moved (by rwa [hindex])
  | stayed index first recalls =>
      refine .stayed (hindex.trans index) first ?_
      simpa only [Recalls, hindex, hrecovery] using recalls

omit [TokenSource σ] in
/-- What callers can go on with does not change within a situation. -/
theorem recoverySet_of_situation (h : q.situation = p.situation) : q.recoverySet = p.recoverySet := by
  have hfollow := congrArg Situation.follow h
  simp only [situation] at hfollow
  simp only [recoverySet, hfollow]

/-- **What the recovery of a failed rule has done.** Where the rule has recovered before, it gives up a token first.  Then
it notes where the input stands, and passes over tokens up to one that a caller can go on with. -/
structure Recovered (x : Tape) (r : RuleIndex) (p : Parser σ) (given ts : List Token) (q : Parser σ) : Prop where
  /-- The tokens given up and the others were passed over. -/
  skipped : Skipped x p ((given ++ ts).map View.error) q
  /-- A token is given up where the rule has recovered before, and only there. -/
  stalled : (p.Recalls r ∧ given = [x.token p.index]) ∨ (¬ p.Recalls r ∧ given = [])
  /-- They are tokens of the input. -/
  taken : ∀ t ∈ given ++ ts, t.isConjured = false
  /-- No caller can go on with the others. -/
  outside : ∀ t ∈ ts, t.isEof = true ∨ p.recoverySet.contains t.ty = false
  /-- Some caller can go on with the current token, or it is the end. -/
  stops : x.size ≤ q.index ∨ p.recoverySet.contains (x.type q.index) = true
  /-- The rule has been noted after those before. -/
  rules : q.recovery.lastErrorRules = p.recovery.lastErrorRules ++ [r]
  /-- What has been noted is where the input stood after a token was given up. -/
  noted : q.recovery.lastErrorIndex = some (if given = [] then p.index else x.stop (p.index + 1))
  /-- The input has not gone back since. -/
  noted_le : (if given = [] then p.index else x.stop (p.index + 1)) ≤ q.index

namespace Recovered

variable {r : RuleIndex} {given ts : List Token}

/-- **Where a failed rule goes on** after it has recovered. -/
theorem resumed (h : Recovered x r p given ts q) : Resumed x r p q := by
  have hle := h.noted_le
  -- the same rule failing at the same place again gives up a token, which moves the input on
  obtain ⟨-, rfl⟩ | ⟨hfirst, rfl⟩ := h.stalled
  · rw [if_neg (List.cons_ne_nil _ _)] at hle
    rcases Nat.lt_or_ge p.index x.size with hlt | hend
    · -- the token that was given up is not the end
      have hgone := x.le_stop (i := p.index + 1) hlt
      exact .moved (by omega)
    · exact .atEnd hend h.skipped.step.index_le
  · rw [if_pos rfl] at hle
    rcases Nat.eq_or_lt_of_le hle with hsame | hlt
    · refine .stayed hsame.symm hfirst ⟨?_, ?_⟩
      · rw [h.noted, if_pos rfl, hsame]
      · rw [h.rules]
        exact List.mem_append_right _ (List.mem_singleton_self r)
    · exact .moved hlt

end Recovered

/-- **Keeping a recovery in mind**, once a token may have been given up, and then passing over tokens to where a caller can
go on. -/
theorem Skipped.runs_resume {r : RuleIndex} {given : List Token} (hskip : Skipped x p (given.map View.error) q)
    (hp : Ready x p) (hfair : fair p.reports)
    (hstalled : (p.Recalls r ∧ given = [x.token p.index]) ∨ (¬ p.Recalls r ∧ given = []))
    (hindex : q.index = if given = [] then p.index else x.stop (p.index + 1))
    (hrecovery : q.recovery = p.recovery) :
    Runs (do
      modify fun q => { q with
        recovery.lastErrorIndex := some q.index
        recovery.lastErrorRules := q.recovery.lastErrorRules ++ [r] }
      skipTo (← get).recoverySet) q fair fun o q' => o = .ok () ∧ ∃ ts, Recovered x r p given ts q' := by
  let m : RecoveryState := { q.recovery with
    lastErrorIndex := some q.index
    -- what is kept in mind matters to the next recovery only, and adds no leaf
    lastErrorRules := q.recovery.lastErrorRules ++ [r] }
  have hminded : Skipped x p (given.map View.error) { q with recovery := m } :=
    ⟨hskip.step.trans_silent ((hskip.step.ready hp).remind _), hskip.inRecovery, hskip.errors⟩
  have hset : q.recoverySet = p.recoverySet := recoverySet_of_situation hskip.step.situation
  refine Runs.of_modify (Runs.of_get ?_)
  refine (runs_skipTo (hminded.step.ready hp)
    (by rw [hminded.step.reports, List.append_nil]; exact hfair) hminded.inRecovery q.recoverySet).mono ?_
  rintro _ q' ⟨rfl, hkept, ts, hrest, -⟩
  rw [hset] at hrest
  refine ⟨rfl, ts, ?_, hstalled, ?_, hrest.outside, hrest.stops, ?_, ?_, ?_⟩
  · rw [List.map_append]
    exact hminded.trans hrest.skipped
  · refine List.forall_mem_append.mpr ⟨fun t ht => ?_, hrest.taken⟩
    obtain ⟨-, rfl⟩ | ⟨-, rfl⟩ := hstalled
    · obtain rfl := List.mem_singleton.mp ht
      exact x.isConjured_token _
    · cases ht
  · rw [hkept, ← hrecovery]
  · rw [hkept, ← hindex]
  · rw [← hindex]
    exact hrest.skipped.step.index_le

/-- **Bringing the input to where a caller of a failed rule can go on.** -/
theorem runs_recover (hp : Ready x p) (hfair : fair p.reports)
    (hrec : p.recovery.inRecovery = true) {r : RuleIndex} (hr : p.currentRule? = some r)
    (e : RecognitionException) :
    Runs (recover e) p fair fun o q => o = .ok () ∧ ∃ given ts, Recovered x r p given ts q := by
  have hstalls : (p.recovery.lastErrorIndex == some p.index &&
      p.currentRule?.any p.recovery.lastErrorRules.contains) = true ↔ p.Recalls r := by
    simp [Recalls, hr]
  refine runs_hooked hp (Runs.of_get ?_)
  by_cases hstalled : (p.recovery.lastErrorIndex == some p.index &&
    p.currentRule?.any p.recovery.lastErrorRules.contains) = true
  · -- the token that could not be got past is given up before tokens are passed over
    simp only [hstalled, if_true]
    simp only [hr, Option.toList_some]
    refine (runs_consume_skip hp hfair hrec).bind ?_ (by rintro e q ⟨⟨⟩, -⟩)
    rintro _ q ⟨⟨⟩, hskip, hnext, hkept⟩
    have hgiven : Skipped x p ([x.token p.index].map View.error) q := hskip
    refine (hgiven.runs_resume hp hfair
      (.inl ⟨hstalls.mp hstalled, rfl⟩) hnext hkept).mono ?_
    rintro _ q' ⟨rfl, ts, h⟩
    exact ⟨rfl, _, ts, h⟩
  · simp only [hstalled, if_false, Bool.false_eq_true]
    simp only [hr, Option.toList_some]
    have hnone : Skipped x p (([] : List Token).map View.error) p := hp.skipped hrec hp.standing
    refine (hnone.runs_resume hp hfair
      (.inr ⟨mt hstalls.mpr hstalled, rfl⟩) rfl rfl).mono ?_
    rintro _ q' ⟨rfl, ts, h⟩
    exact ⟨rfl, _, ts, h⟩

/-- **What the guard of a loop reports**: the current token as one too many, where one of a set was expected. -/
def Unwanted (x : Tape) (p : Parser σ) (expecting : TokenSet) (r : Report) : Prop :=
  r = .extraneous p.language.vocabulary expecting (x.token p.index)

omit [TokenSource σ] in
/-- Such a report is one of the current token. -/
theorem Unwanted.ofToken {expecting : TokenSet} {r : Report} (h : Unwanted x p expecting r) :
    OfToken (x.token p.index) r := by
  subst h
  exact ofToken_extraneous _ _ _

omit [TokenSource σ] in
/-- Such a report is placed at the current token. -/
theorem Unwanted.anchor {expecting : TokenSet} {r : Report} (h : Unwanted x p expecting r) :
    r.anchor = x.token p.index := h.ofToken.anchor

/-- **Guarding a loop.** Either the current token may begin a round or follow the loop, or no guard is needed,
or else it is reported, unless reports are held back, and tokens are passed over. -/
theorem runs_syncHook (hp : Ready x p) (hfair : fair p.reports) (expecting : TokenSet)
    (hmade : expecting.contains (x.type p.index) = false → p.recovery.inRecovery = false →
      ∀ r, Unwanted x p expecting r → fair (p.reports ++ [r])) :
    Runs (syncHook expecting) p fair fun o q => o = .ok () ∧
      ((Step x p [] [] q ∧ q.index = p.index ∧ q.recovery = p.recovery ∧ q.syntaxErrors = p.syntaxErrors ∧
          (p.recovery.inRecovery = true ∨ expecting.contains (x.type p.index) = true ∨
            expecting.endOfRule = true)) ∨
        (p.recovery.inRecovery = false ∧ expecting.contains (x.type p.index) = false ∧
          expecting.endOfRule = false ∧ ∃ q₀ rs ts, Reported x p (Unwanted x p expecting) rs q₀ ∧
          q.recovery = q₀.recovery ∧ SkippedTo x (expecting.union p.recoverySet) q₀ ts q ∧
          ((ts = [] ∧ q.index = p.index ∧ (p.strategy.anchoring = true → p.index < x.size ∧
            (expecting.union p.recoverySet).contains (x.type p.index) = true)) ∨
              ∃ us, ts = x.token p.index :: us))) := by
  refine runs_hooked hp (Runs.of_get ?_)
  by_cases hrec : p.recovery.inRecovery = true
  · simp only [hrec, if_true]
    exact ⟨rfl, .inl ⟨hp.refl, rfl, rfl, rfl, .inl trivial⟩⟩
  · simp only [hrec, if_false, Bool.false_eq_true]
    refine (runs_ahead_one (.standing hp.standing) hfair).bind ?_ (by rintro e q ⟨⟨⟩, -⟩)
    rintro _ _ ⟨⟨⟩, s, hs, rfl⟩
    have hfree : p.recovery.inRecovery = false := by simpa using hrec
    have hstep := hp.reread hs
    have hindex : ({ p with input := s } : Parser σ).index = p.index := hs.cursor
    by_cases hstop : (expecting.contains (x.token p.index).ty || expecting.endOfRule) = true
    · rw [if_pos hstop]
      rw [Bool.or_eq_true] at hstop
      exact ⟨rfl, .inl ⟨hstep, hindex, rfl, rfl, .inr hstop⟩⟩
    · rw [if_neg hstop]
      rw [Bool.not_eq_true, Bool.or_eq_false_iff] at hstop
      refine (runs_reportUnwanted (hstep.ready hp) hfair expecting).bind ?_
        (by rintro e q ⟨⟨⟩, -⟩)
      rintro _ q ⟨-, rs, hreported⟩
      -- without the end of the rule the callers' follow sets do not matter, so the set reported is this one
      have hexpected : ({ p with input := s } : Parser σ).viableFollow expecting = expecting :=
        p.viableFollow_of_closed hstop.2
      rw [hindex, hexpected] at hreported
      have hreported : Reported x p (Unwanted x p expecting) rs q :=
        ⟨hstep.silent_trans hreported.step, hreported.index.trans hindex, hreported.recovery,
          hreported.heard.of_same rfl rfl⟩
      refine Runs.of_get ?_
      refine (runs_skipTo (hreported.step.ready hp) ?_ hreported.inRecovery _).mono ?_
      · rw [hreported.step.reports]
        exact hreported.heard.fair_after hfair (hmade hstop.1)
      · rintro _ r ⟨rfl, hkept, ts, hskip, hts⟩
        have hset : q.recoverySet = p.recoverySet := recoverySet_of_situation hreported.step.situation
        have hstrategy : q.strategy = p.strategy :=
          congrArg Situation.strategy hreported.step.situation
        rw [hset] at hskip
        rw [hreported.index, hset, hstrategy] at hts
        exact ⟨rfl, .inr ⟨trivial, hstop.1, hstop.2, q, rs, ts, hreported, hkept, hskip, hts⟩⟩

/-! ## Mending within a rule -/

/-- **What is reported where another token than the current one is expected**: the current one as one too many, if the
expected one comes right after it, or the expected one as missing, if the current one may come after it. -/
inductive Mending (x : Tape) (p : Parser σ) (expected : TokenType) (follow : TokenSet) :
    Report → Prop where
  /-- The current token is one too many. -/
  | extraneous (next : x.type (x.stop (p.index + 1)) = expected) : Mending x p expected follow
    (.extraneous p.language.vocabulary (.single expected) (x.token p.index))
  /-- The expected token is missing. -/
  | missing (viable : (p.viableFollow follow).contains (x.type p.index) = true) :
    Mending x p expected follow
      (.missing p.language.vocabulary (.single expected) (x.token p.index))

omit [TokenSource σ] in
/-- Such a report is one of the current token. -/
theorem Mending.ofToken {expected : TokenType} {follow : TokenSet} {r : Report}
    (h : Mending x p expected follow r) : OfToken (x.token p.index) r := by
  cases h with
  | extraneous next => exact ofToken_extraneous _ _ _
  | missing viable => exact ofToken_missing _ _ _

omit [TokenSource σ] in
/-- Such a report is placed at the current token. -/
theorem Mending.anchor {expected : TokenType} {follow : TokenSet} {r : Report}
    (h : Mending x p expected follow r) : r.anchor = x.token p.index := h.ofToken.anchor

/-- **Dropping the current token**, if the expected one comes right after it. -/
structure Dropped (x : Tape) (p : Parser σ) (expected : TokenType) (rs : List Report)
    (q : Parser σ) : Prop where
  /-- The current token became an error leaf. -/
  step : Step x p [.error (x.token p.index)] rs q
  /-- The expected token is current. -/
  index : q.index = x.stop (p.index + 1)
  /-- The expected token is there. -/
  type : x.type (x.stop (p.index + 1)) = expected
  /-- Reports are no longer held back. -/
  recovery : q.recovery = {}
  /-- The current token was reported. -/
  heard : Heard p
    (· = .extraneous p.language.vocabulary (.single expected) (x.token p.index)) rs

/-- Whether the current token is one too many. -/
theorem runs_singleTokenDeletion (hp : Ready x p) (hfair : fair p.reports) (expected : TokenType)
    (hmade : x.type (x.stop (p.index + 1)) = expected → p.recovery.inRecovery = false →
      fair (p.reports ++ [.extraneous p.language.vocabulary (.single expected) (x.token p.index)])) :
    Runs (singleTokenDeletion expected) p fair fun o q =>
      (o = .ok none ∧ x.type (x.stop (p.index + 1)) ≠ expected ∧
        ∃ s, s.Standing x p.index ∧ q = { p with input := s }) ∨
      (o = .ok (some (x.token (x.stop (p.index + 1)))) ∧ ∃ rs, Dropped x p expected rs q) := by
  refine runs_hooked hp ?_
  refine (runs_ahead (.standing hp.standing) hfair 2).bind ?_ (by rintro e q ⟨⟨⟩, -⟩)
  rintro _ _ ⟨⟨⟩, s, hs, rfl⟩
  have htype : (x.token (x.skip (2 - 1) p.index)).ty = x.type (x.stop (p.index + 1)) := rfl
  have hstep := hp.reread hs
  have hindex : ({ p with input := s } : Parser σ).index = p.index := hs.cursor
  -- the current token is one too many exactly if the token after it is the expected one
  by_cases hty : x.type (x.stop (p.index + 1)) = expected
  · have hne : ((x.token (x.skip (2 - 1) p.index)).ty != expected) = false := by simp [htype, hty]
    simp only [hne, Bool.false_eq_true, if_false]
    refine Runs.of_orBroken hfair fun set hset => ?_
    refine (runs_reportUnwanted (hstep.ready hp) hfair _).bind ?_ (by rintro e q ⟨⟨⟩, -⟩)
    rintro _ q ⟨-, rs, hreported⟩
    have hheard := hreported.heard.of_same (p := p) rfl rfl
    rw [hindex, viableFollow_single hset] at hheard
    have hnoted := hstep.silent_trans hreported.step
    have hsame : q.index = p.index := hreported.index.trans hindex
    have hfair' : fair (p.reports ++ rs) := by
      refine hheard.fair_after hfair ?_
      rintro hfree _ rfl
      exact hmade hty hfree
    rw [← hnoted.reports] at hfair'
    refine (runs_consume_skip (hnoted.ready hp) hfair' hreported.inRecovery).bind ?_
      (by rintro e q ⟨⟨⟩, -⟩)
    rintro _ r ⟨-, hskip, hnext, -⟩
    rw [hsame] at hskip hnext
    have hgone := hnoted.trans hskip.step
    rw [List.nil_append, List.append_nil] at hgone
    have hfair'' : fair r.reports := by
      rw [hskip.step.reports, List.append_nil]
      exact hfair'
    refine (runs_ahead_one (.standing hgone.standing) hfair'').bind ?_ (by rintro e q ⟨⟨⟩, -⟩)
    rintro _ _ ⟨⟨⟩, u, hu, rfl⟩
    have hmatched := hgone.trans_silent ((hgone.ready hp).reread hu)
    refine (runs_reportMatch (hmatched.ready hp)).bind ?_ (by rintro e q ⟨⟨⟩, -⟩)
    rintro _ _ ⟨-, rfl⟩
    have hcursor : u.cursor = x.stop (p.index + 1) := hu.cursor.trans hnext
    refine .inr ⟨by rw [hnext], rs, ?_, hcursor, hty, rfl, hheard⟩
    exact hmatched.trans_silent ((hmatched.ready hp).remind {})
  · have hne : ((x.token (x.skip (2 - 1) p.index)).ty != expected) = true := by simp [htype, hty]
    simp only [hne, if_true]
    exact .inl ⟨rfl, hty, s, hs, rfl⟩

/-- Whether a token is missing before the current one. -/
theorem runs_singleTokenInsertion (hp : Ready x p) (hfair : fair p.reports)
    (expected : TokenType) (follow : TokenSet) :
    Runs (singleTokenInsertion expected follow) p fair fun o q =>
      (o = .ok false ∧ (p.viableFollow follow).contains (x.type p.index) = false ∧
        ∃ s, s.Standing x p.index ∧ q = { p with input := s }) ∨
      (o = .ok true ∧ (p.viableFollow follow).contains (x.type p.index) = true ∧
        ∃ rs, Reported x p
          (· = .missing p.language.vocabulary (.single expected) (x.token p.index)) rs q) := by
  refine runs_hooked hp ?_
  refine (runs_ahead_one (.standing hp.standing) hfair).bind ?_ (by rintro e q ⟨⟨⟩, -⟩)
  rintro _ _ ⟨⟨⟩, s, hs, rfl⟩
  refine Runs.of_get ?_
  have hfollow : ({ p with input := s } : Parser σ).viableFollow follow = p.viableFollow follow :=
    rfl
  have htype : (x.token p.index).ty = x.type p.index := rfl
  rw [hfollow, htype]
  have hstep := hp.reread hs
  have hindex : ({ p with input := s } : Parser σ).index = p.index := hs.cursor
  -- a token that may come after the missing one is read as if that one were there
  cases hviable : (p.viableFollow follow).contains (x.type p.index) with
  | false => exact .inl ⟨rfl, rfl, s, hs, rfl⟩
  | true =>
      refine Runs.of_orBroken hfair fun set hset => ?_
      refine (runs_reportMissing (hstep.ready hp) hfair _).bind ?_ (by rintro e q ⟨⟨⟩, -⟩)
      rintro _ q ⟨-, rs, hreported⟩
      have hheard := hreported.heard.of_same (p := p) rfl rfl
      rw [hindex, viableFollow_single hset] at hheard
      exact .inr ⟨rfl, rfl, rs, hstep.silent_trans hreported.step, hreported.index.trans hindex,
        hreported.recovery, hheard⟩

/-- **Making up a token.** -/
theorem runs_missingSymbol (hp : Ready x p) (hfair : fair p.reports) (expected : TokenType) :
    Runs (missingSymbol expected) p fair fun o q => ∃ t s, o = .ok t ∧ t.isConjured = true ∧
      t.ty = expected ∧ s.Standing x p.index ∧ q = { p with input := s } := by
  refine runs_hooked hp ?_
  refine (runs_ahead_one (.standing hp.standing) hfair).bind ?_ (by rintro e q ⟨⟨⟩, -⟩)
  rintro _ _ ⟨⟨⟩, s, hs, rfl⟩
  refine Runs.of_get ?_
  by_cases hanchor : p.strategy.anchoring = true
  · simp only [hanchor, Bool.not_true, Bool.false_eq_true, if_false]
    refine (runs_ahead_one (p := { p with input := s }) (.standing hs) hfair).bind ?_
      (by rintro e q ⟨⟨⟩, -⟩)
    rintro _ _ ⟨⟨⟩, u, hu, rfl⟩
    exact ⟨_, u, rfl, rfl, rfl, hu, rfl⟩
  · simp only [hanchor, Bool.not_false, if_true]
    exact ⟨_, s, rfl, rfl, rfl, hs, rfl⟩

/-- **Mending the lack of a token**: the current token is dropped, or the expected one is made up, or the rule
fails. -/
theorem runs_recoverInline (hp : Ready x p) (hfair : fair p.reports) (expected : TokenType)
    (follow : TokenSet)
    (hmade : p.recovery.inRecovery = false →
      ∀ r, Mending x p expected follow r → fair (p.reports ++ [r])) :
    Runs (recoverInline expected follow) p fair fun o q =>
      (o = .ok (x.token (x.stop (p.index + 1))) ∧ x.type (x.stop (p.index + 1)) = expected ∧
        ∃ rs, Heard p (Mending x p expected follow) rs ∧ q.recovery = {} ∧
          Step x p [.error (x.token p.index), .terminal (x.token (x.stop (p.index + 1)))] rs q) ∨
      (∃ t, o = .ok t ∧ t.isConjured = true ∧ t.ty = expected ∧
        (p.viableFollow follow).contains (x.type p.index) = true ∧
          ∃ rs, Reported x p (Mending x p expected follow) rs q) ∨
      ∃ e, o = .error e ∧ Failed x p e q ∧ e.kind = .inputMismatch ∧
        e.offending = x.token p.index := by
  refine runs_hooked hp ?_
  refine (runs_singleTokenDeletion hp hfair expected fun hnext hfree =>
    hmade hfree _ (.extraneous hnext)).bind ?_ (by rintro e q (⟨⟨⟩, -⟩ | ⟨⟨⟩, -⟩))
  rintro _ q (⟨⟨⟩, -, s, hs, rfl⟩ | ⟨⟨⟩, rs, hdropped⟩)
  · have hstep := hp.reread hs
    have hindex : ({ p with input := s } : Parser σ).index = p.index := hs.cursor
    refine (runs_singleTokenInsertion (hstep.ready hp) hfair expected follow).bind ?_
      (by rintro e q (⟨⟨⟩, -⟩ | ⟨⟨⟩, -⟩))
    -- the current token is not one too many, so the expected one is missing, or the rule fails
    rintro _ q (⟨⟨⟩, -, u, hu, rfl⟩ | ⟨⟨⟩, hviable, rs, hreported⟩)
    · rw [hindex] at hu
      refine Runs.of_orBroken hfair fun _ _ => ?_
      refine (runs_raiseMismatch ((hp.reread hu).ready hp) hfair _).mono ?_
      rintro _ r ⟨e, rfl, hfailed, hkind, hoffending, -⟩
      have hcursor : ({ p with input := u } : Parser σ).index = p.index := hu.cursor
      refine .inr (.inr ⟨e, rfl, ⟨(hp.reread hu).silent_trans hfailed.step,
        hfailed.index.trans hcursor, hfailed.recovery, ?_, hfailed.id⟩, hkind, ?_⟩)
      · rw [hfailed.anchor, hcursor]
      · rw [hoffending, hcursor]
    · rw [hindex] at hviable
      have hheard : Heard p (Mending x p expected follow) rs := by
        refine (hreported.heard.of_same (p := p) rfl rfl).mono ?_
        rintro _ rfl
        rw [hindex]
        exact .missing hviable
      have hnoted := hstep.silent_trans hreported.step
      have hfair' : fair q.reports := by
        rw [hnoted.reports]
        exact hheard.fair_after hfair hmade
      refine (runs_missingSymbol (hnoted.ready hp) hfair' expected).mono ?_
      rintro _ r ⟨t, u, rfl, hconjured, hty, hu, rfl⟩
      have hsame : q.index = p.index := hreported.index.trans hindex
      refine .inr (.inl ⟨t, rfl, hconjured, hty, hviable, rs,
        hnoted.trans_silent ((hnoted.ready hp).reread hu), hu.cursor.trans hsame,
        hreported.recovery, hheard⟩)
  · -- the current token was one too many and is gone; the expected one is consumed in its place
    have hheard : Heard p (Mending x p expected follow) rs := by
      refine hdropped.heard.mono ?_
      rintro _ rfl
      exact .extraneous hdropped.type
    have hfair' : fair q.reports := by
      rw [hdropped.step.reports]
      exact hheard.fair_after hfair hmade
    refine (runs_consume (hdropped.step.ready hp) hfair').bind ?_ (by rintro e q ⟨⟨⟩, -⟩)
    rintro _ r ⟨⟨⟩, hstep, hrecovery, -⟩
    rw [hdropped.recovery, hdropped.index] at hstep
    have hfinal := hdropped.step.trans hstep
    rw [List.append_nil] at hfinal
    exact .inl ⟨rfl, hdropped.type, rs, hheard, hrecovery.trans hdropped.recovery, hfinal⟩

end TreeProjection.Parser
