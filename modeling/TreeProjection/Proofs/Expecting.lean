import TreeProjection.Proofs.Fetching
import TreeProjection.Proofs.Step

/-! # What comes of expecting a token

Where the source does not fail, it is decided in advance what comes of expecting a token, in every state in which the
parser is not on trial, within a rule or outside of all. The current token is of the type that is expected; or else the
next one is, and the current one is dropped; or else the current one may follow, and a token is made up; or else there
is a failure, which leaves nothing behind.

* `TokenSource.Unfailing` — a source that does not fail.
* `Parser.Acted` — what hooks and operations within one rule do.
* `Parser.ends_recoverInline` — how the lack of a token is mended.
* `Parser.ends_expect` — what comes of expecting a token. -/

namespace TreeProjection

variable {σ α : Type} [TokenSource σ] {x : Tape} {i j k : Nat}

/-! ## Sources that do not fail -/

/-- **A source that does not fail**, however many tokens are taken from it. -/
def TokenSource.Unfailing (source : σ) : Prop := ∀ s, Drawn source s → ∃ t, (pull s).1 = .ok t

/-- What comes of a source that does not fail does not fail. -/
theorem TokenSource.Unfailing.drawn {source s : σ} (h : Unfailing source) (hs : Drawn source s) : Unfailing s :=
  fun t ht => h t (hs.trans ht)

/-- A source that gives the tokens of a tape does not fail. -/
theorem TokenSource.Gives.unfailing {source : σ} (h : Gives x source) : Unfailing source := by
  intro s hs
  cases hpull : (pull s).1 with
  | ok t => exact ⟨t, rfl⟩
  | error e => exact absurd hpull (h.pull_ne_error hs e)

namespace Stream

/-- **Where the source does not fail, operations answer.** -/
theorem Stalls.answers {s : Stream σ} {act : StreamM σ α} {post : α → Stream σ → Prop} (hstalls : Stalls act s)
    (hs : TokenSource.Unfailing s.source) (h : Answers act s post) :
    Ends act s fun o t => ∃ a, o = .ok a ∧ post a t ∧ TokenSource.Unfailing t.source := by
  apply (hstalls.and h).mono
  rintro o t ⟨⟨hdrawn, hfails⟩, hpost⟩
  cases o with
  | ok a => exact ⟨a, rfl, hpost a rfl, hs.drawn hdrawn⟩
  | error e =>
      obtain ⟨source, failure, hsource, hfailure, -⟩ := hfails e rfl
      obtain ⟨token, htoken⟩ := hs source hsource
      cases htoken.symm.trans hfailure

end Stream

namespace Parser

variable {p q r : Parser σ} {tree tree' : ParseTree} {recovery recovery' : RecoveryState} {n n' : Nat}

/-! ## What is done within one rule -/

/-- **What has been done within one rule.** The input has come to a place of the tape, the tree and what recovery keeps
in mind have become others, and a number of errors has been reported. -/
structure Acted (x : Tape) (p : Parser σ) (j : Nat) (tree : ParseTree) (recovery : RecoveryState) (n : Nat)
    (q : Parser σ) : Prop where
  /-- The input stands there. -/
  input : q.input.Standing x j
  /-- The source does not fail. -/
  unfailing : TokenSource.Unfailing q.input.source
  /-- The same rules are active. -/
  frames : q.frames = p.frames
  /-- The situation is as before. -/
  situation : q.situation = p.situation
  /-- The tree. -/
  tree : q.tree = tree
  /-- What recovery keeps in mind. -/
  recovery : q.recovery = recovery
  /-- The errors have been counted. -/
  errors : q.syntaxErrors = p.syntaxErrors + n
  /-- Those who listen have been told of them. -/
  reports : ∃ rs, q.reports = p.reports ++ rs ∧ rs.length = if 0 < p.listeners then n else 0

namespace Acted

/-- First one thing has been done, then another. -/
theorem trans (h : Acted x p i tree recovery n q) (h' : Acted x q j tree' recovery' n' r) :
    Acted x p j tree' recovery' (n + n') r where
  input := h'.input
  unfailing := h'.unfailing
  frames := h'.frames.trans h.frames
  situation := h'.situation.trans h.situation
  tree := h'.tree
  recovery := h'.recovery
  errors := by rw [h'.errors, h.errors, Nat.add_assoc]
  reports := by
    obtain ⟨rs, hrs, hlength⟩ := h.reports
    obtain ⟨rs', hrs', hlength'⟩ := h'.reports
    have hlisteners : q.listeners = p.listeners := congrArg Situation.listeners h.situation
    rw [hlisteners] at hlength'
    refine ⟨rs ++ rs', by rw [hrs', hrs, List.append_assoc], ?_⟩
    -- the listeners are the same all the while, so either all of the errors are told or none is
    rw [List.length_append, hlength, hlength']
    split <;> rfl

/-- First the input is read, then something is done. -/
theorem then_acted (h : Acted x p i tree recovery 0 q) (h' : Acted x q j tree' recovery' n' r) :
    Acted x p j tree' recovery' n' r := by
  have hdone := h.trans h'
  rwa [Nat.zero_add] at hdone

/-- The node of the rule that is being recognized is the same. -/
theorem currentNode (h : Acted x p i tree recovery n q) : q.currentNode? = p.currentNode? := by
  simp only [currentNode?, h.frames]

/-- The parser is on trial or not, as before. -/
theorem isSpeculating (h : Acted x p i tree recovery n q) : q.isSpeculating = p.isSpeculating := by
  have hspeculating := congrArg Situation.speculating h.situation
  simp only [Parser.situation] at hspeculating
  simp only [Parser.isSpeculating, hspeculating]

/-- Then something else is kept in mind. -/
theorem remind (h : Acted x p i tree recovery n q) (recovery' : RecoveryState) :
    Acted x p i tree recovery' n { q with recovery := recovery' } :=
  ⟨h.input, h.unfailing, h.frames, h.situation, h.tree, rfl, h.errors, h.reports⟩

/-- The same may follow. -/
theorem viableFollow (h : Acted x p i tree recovery n q) (follow : TokenSet) :
    q.viableFollow follow = p.viableFollow follow := by
  have hfollow := congrArg Situation.follow h.situation
  simp only [Parser.situation] at hfollow
  simp only [Parser.viableFollow, hfollow]

end Acted

/-- **A parser that can act at a place**: its input stands there, the source does not fail, the parser is not on trial,
and its strategy does all that it is there for. -/
structure Able (x : Tape) (i : Nat) (p : Parser σ) : Prop where
  /-- The input stands there. -/
  input : p.input.Standing x i
  /-- The source does not fail. -/
  unfailing : TokenSource.Unfailing p.input.source
  /-- The parser is not on trial. -/
  acting : p.isSpeculating = false
  /-- No hook is denied. -/
  denied : p.strategy.denied = []

namespace Able

/-- After something has been done, the parser can act again. -/
theorem after (hp : Able x i p) (h : Acted x p j tree recovery n q) : Able x j q where
  input := h.input
  unfailing := h.unfailing
  acting := h.isSpeculating.trans hp.acting
  denied := (congrArg (fun s => s.strategy.denied) h.situation).trans hp.denied

/-- Nothing is done. -/
theorem refl (hp : Able x i p) : Acted x p i p.tree p.recovery 0 p :=
  ⟨hp.input, hp.unfailing, rfl, rfl, rfl, rfl, rfl, [], (List.append_nil _).symm, by simp⟩

end Able

/-! ## Reading -/

/-- **An operation of the input**, where the source does not fail. -/
theorem ends_onInput_acted {act : StreamM σ α} {mid : α → Stream σ → Prop} (hp : TokenSource.Unfailing p.input.source)
    (hstalls : Stream.Stalls act p.input) (h : Answers act p.input mid)
    (hstanding : ∀ a s, mid a s → s.Standing x j) :
    Ends (onInput act) p fun o q => ∃ a, o = .ok a ∧ mid a q.input ∧ Acted x p j p.tree p.recovery 0 q := by
  apply ends_onInput
  apply (hstalls.answers hp h).mono
  rintro _ s ⟨a, rfl, hmid, hs⟩
  refine ⟨a, rfl, hmid, hstanding a s hmid, hs, rfl, rfl, rfl, rfl, rfl, [], (List.append_nil _).symm, by simp⟩

/-- Looking ahead. -/
theorem ends_ahead_acted (h : p.input.Facing x i) (hp : TokenSource.Unfailing p.input.source) (k : Nat) :
    Ends (ahead k) p fun o q => o = .ok (x.token (x.skip (k - 1) i)) ∧ Acted x p i p.tree p.recovery 0 q := by
  apply (ends_onInput_acted hp (Stream.stalls_ahead h k) (Stream.answers_ahead h k) fun _ _ hs => hs.2).mono
  rintro _ q ⟨_, rfl, ⟨rfl, -⟩, hq⟩
  exact ⟨rfl, hq⟩

/-- What comes after looking at the current token. -/
theorem Able.ahead_bind (hp : Able x i p) {next : Token → ParserM σ α} {post : Except Interrupt α → Parser σ → Prop}
    (h : ∀ q, Acted x p i p.tree p.recovery 0 q → Ends (next (x.token i)) q post) : Ends (ahead 1 >>= next) p post := by
  apply (ends_ahead_acted (.standing hp.input) hp.unfailing 1).bind
  · rintro _ q ⟨⟨⟩, hq⟩
    exact h q hq
  · rintro e q ⟨⟨⟩, -⟩

/-- **Consuming a token.** It becomes a leaf, while reports are held back an error leaf. -/
theorem ends_consume_acted (hp : Able x i p) : Ends consume p fun o q => o = .ok (x.token i) ∧
    Acted x p (x.stop (i + 1)) (p.tree.push p.currentNode?
      (if p.recovery.inRecovery then .error (x.token i) else .terminal (x.token i))).2 p.recovery 0 q := by
  unfold consume
  apply hp.ahead_bind
  intro q hq
  have hable := hp.after hq
  apply (ends_onInput_acted hable.unfailing (Stream.stalls_consume (.standing hable.input))
    (Stream.answers_consume (.standing hable.input)) fun _ _ hs => hs).bind
  · rintro _ r ⟨_, ⟨⟩, -, hr⟩
    rw [ends_get_bind]
    have hacting : r.isSpeculating = false := hr.isSpeculating.trans hable.acting
    have hpassed := hq.trans hr
    simp only [hacting, Bool.false_eq_true, if_false]
    refine ⟨rfl, hpassed.input, hpassed.unfailing, hpassed.frames, hpassed.situation, ?_, ?_, hpassed.errors,
      hpassed.reports⟩
    · simp only [hpassed.tree, hpassed.recovery, hpassed.currentNode, hq.tree, hq.recovery]
    · exact hpassed.recovery.trans hq.recovery
  · rintro e r ⟨_, ⟨⟩, -⟩

/-- Adding an error leaf. -/
theorem ends_addErrorLeaf_acted (hp : Able x i p) (t : Token) : Ends (addErrorLeaf t) p fun o q =>
    o = .ok () ∧ Acted x p i (p.tree.push p.currentNode? (.error t)).2 p.recovery 0 q := by
  unfold addErrorLeaf
  rw [ends_get_bind]
  simp only [hp.acting, Bool.false_eq_true, if_false]
  exact ⟨rfl, hp.input, hp.unfailing, rfl, rfl, rfl, rfl, rfl, [], (List.append_nil _).symm, by simp⟩

/-! ## Hooks -/

/-- **A hook that is not denied acts**, whether its call is noted or not. -/
theorem ends_hooked_acted (hp : Able x i p) {h : Hook} {denied act : ParserM σ α}
    {post : Except Interrupt α → Parser σ → Prop}
    (hact : ∀ q, Acted x p i p.tree p.recovery 0 q → Ends act q post) : Ends (hooked h denied act) p post := by
  have hallows : p.strategy.allows h = true := by simp [Strategy.allows, hp.denied]
  unfold hooked
  rw [ends_get_bind]
  simp only [hallows, if_true]
  by_cases hnoted : p.strategy.noted = true
  · simp only [hnoted, if_true]
    apply hact
    refine ⟨hp.input, hp.unfailing, rfl, rfl, rfl, rfl, rfl, [], ?_, by simp⟩
    simp [reports, Note.report?]
  · simp only [hnoted, if_false, Bool.false_eq_true]
    exact hact p hp.refl

/-- Holding reports back. -/
theorem ends_beginErrorCondition_acted (hp : Able x i p) : Ends beginErrorCondition p fun o q =>
    o = .ok () ∧ Acted x p i p.tree { p.recovery with inRecovery := true } 0 q := by
  apply ends_hooked_acted hp
  intro q hq
  have hheld := hq.remind { q.recovery with inRecovery := true }
  refine ⟨rfl, ?_⟩
  rw [← hq.recovery]
  exact hheld

/-- A token has been matched. -/
theorem ends_reportMatch_acted (hp : Able x i p) :
    Ends reportMatch p fun o q => o = .ok () ∧ Acted x p i p.tree {} 0 q := by
  apply ends_hooked_acted hp
  intro q hq
  exact ⟨rfl, hq.remind {}⟩

/-- Telling the listeners of an error. -/
theorem ends_report_acted (hp : Able x i p) (t : Token) (message : String) (e : Option RecognitionException) :
    Ends (report t message e) p fun o q => o = .ok () ∧ Acted x p i p.tree p.recovery 1 q := by
  unfold report
  rw [ends_get_bind]
  by_cases hlisteners : 0 < p.listeners
  · simp only [hlisteners, if_true]
    refine ⟨rfl, hp.input, hp.unfailing, rfl, rfl, rfl, rfl, rfl, [⟨t, t.line, t.column, message, e⟩], ?_, ?_⟩
    · simp [reports, Note.report?]
    · rw [if_pos hlisteners, List.length_singleton]
  · simp only [hlisteners, if_false]
    refine ⟨rfl, hp.input, hp.unfailing, rfl, rfl, rfl, rfl, rfl, [], (List.append_nil _).symm, ?_⟩
    rw [if_neg hlisteners, List.length_nil]

/-- How many errors a hook reports that finds one: none while reports are held back. -/
def due (p : Parser σ) : Nat := if p.recovery.inRecovery then 0 else 1

omit [TokenSource σ] in
/-- No more than one error is reported at a time. -/
theorem due_le_one (p : Parser σ) : p.due ≤ 1 := by
  unfold due
  split <;> omega

omit [TokenSource σ] in
/-- How many errors are reported depends on what recovery keeps in mind. -/
theorem due_of_recovery (h : q.recovery = p.recovery) : q.due = p.due := by
  rw [due, h, due]

/-- **A hook that reports the current token**, and holds further reports back. -/
theorem ends_reportToken_acted (hp : Able x i p) (message : Parser σ → Token → String) :
    Ends (do
      unless (← get).recovery.inRecovery do
        beginErrorCondition
        let t ← ahead 1
        let p ← get
        report t (message p t) none) p fun o q =>
      o = .ok () ∧ Acted x p i p.tree { p.recovery with inRecovery := true } p.due q := by
  rw [ends_get_bind]
  unfold due
  -- while reports are held back the hook does nothing, and the number of errors due is none
  cases hheld : p.recovery.inRecovery with
  | true =>
      have hsame : { p.recovery with inRecovery := true } = p.recovery := by rw [← hheld]
      rw [hsame]
      exact ⟨rfl, hp.refl⟩
  | false =>
      simp only [Bool.false_eq_true, if_false]
      apply (ends_beginErrorCondition_acted hp).bind
      · rintro _ q ⟨⟨⟩, hq⟩
        apply (hp.after hq).ahead_bind
        intro r hr
        rw [ends_get_bind]
        have hheard := hq.trans hr
        rw [hq.tree, hq.recovery] at hheard
        apply (ends_report_acted (hp.after hheard) _ _ none).mono
        rintro _ u ⟨rfl, hu⟩
        have hdone := hheard.trans hu
        rw [hheard.tree, hheard.recovery] at hdone
        exact ⟨rfl, hdone⟩
      · rintro e q ⟨⟨⟩, -⟩

/-- What a hook does that reports the current token. -/
theorem ends_hooked_reportToken (hp : Able x i p) {h : Hook} {denied : ParserM σ Unit}
    (message : Parser σ → Token → String) :
    Ends (hooked h denied do
      unless (← get).recovery.inRecovery do
        beginErrorCondition
        let t ← ahead 1
        let p ← get
        report t (message p t) none) p fun o q =>
      o = .ok () ∧ Acted x p i p.tree { p.recovery with inRecovery := true } p.due q := by
  apply ends_hooked_acted hp
  intro q hq
  have hdue : q.due = p.due := due_of_recovery hq.recovery
  apply (ends_reportToken_acted (hp.after hq) message).mono
  rintro _ r ⟨rfl, hr⟩
  have hdone := hq.trans hr
  rw [hq.tree, hq.recovery, hdue, Nat.zero_add] at hdone
  exact ⟨rfl, hdone⟩

/-- **Reporting the current token as one too many.** -/
theorem ends_reportUnwanted_acted (hp : Able x i p) (expecting : TokenSet) : Ends (reportUnwanted expecting) p
    fun o q => o = .ok () ∧ Acted x p i p.tree { p.recovery with inRecovery := true } p.due q :=
  ends_hooked_reportToken hp fun p t =>
    let expected := p.language.vocabulary.displaySet (p.viableFollow expecting)
    s!"extraneous input {t.shown} expecting {expected}"

/-- **Reporting a token as missing.** -/
theorem ends_reportMissing_acted (hp : Able x i p) (expecting : TokenSet) : Ends (reportMissing expecting) p
    fun o q => o = .ok () ∧ Acted x p i p.tree { p.recovery with inRecovery := true } p.due q :=
  ends_hooked_reportToken hp fun p t =>
    let expected := p.language.vocabulary.displaySet (p.viableFollow expecting)
    s!"missing {expected} at {t.shown}"

/-! ## Mending the lack of a token -/

variable {ty : TokenType} {set : TokenSet}

/-- The tree after the current token has been dropped. -/
def dropped (p : Parser σ) (t : Token) : ParseTree := (p.tree.push p.currentNode? (.error t)).2

/-- **Dropping the current token**, where the expected one comes right after it. -/
theorem ends_singleTokenDeletion_acted (hp : Able x i p) (hset : TokenSet.single? ty = .ok set) :
    Ends (singleTokenDeletion ty) p fun o q =>
      if x.type (x.stop (i + 1)) = ty then
        o = .ok (some (x.token (x.stop (i + 1)))) ∧
          Acted x p (x.stop (i + 1)) (p.dropped (x.token i)) {} p.due q
      else o = .ok none ∧ Acted x p i p.tree p.recovery 0 q := by
  apply ends_hooked_acted hp
  intro p₁ h₁
  have hable := hp.after h₁
  apply (ends_ahead_acted (.standing hable.input) hable.unfailing 2).bind
  · rintro _ p₂ ⟨⟨⟩, h₂⟩
    have hlooked := h₁.trans h₂
    rw [h₁.tree, h₁.recovery] at hlooked
    by_cases hnext : x.type (x.stop (i + 1)) = ty
    · have hequal : ((x.token (x.skip (2 - 1) i)).ty != ty) = false := by
        rw [bne_eq_false_iff_eq]
        exact hnext
      simp only [hequal, Bool.false_eq_true, if_false, hset, hnext, if_true]
      change Ends (reportUnwanted set >>= _) p₂ _
      apply (ends_reportUnwanted_acted (hp.after hlooked) set).bind
      · rintro _ p₃ ⟨-, h₃⟩
        have hreported := hlooked.trans h₃
        rw [hlooked.tree, hlooked.recovery] at hreported
        apply (ends_consume_acted (hp.after hreported)).bind
        · rintro _ p₄ ⟨-, h₄⟩
          -- reports are held back here, so the token becomes an error leaf
          rw [hreported.recovery, if_pos rfl, hreported.tree, hreported.currentNode] at h₄
          have hgone := hreported.trans h₄
          apply (hp.after hgone).ahead_bind
          intro p₅ h₅
          have hmatched := hgone.trans h₅
          apply (ends_reportMatch_acted (hp.after hmatched)).bind
          · rintro _ p₆ ⟨-, h₆⟩
            have hdone := hmatched.trans h₆
            have hdue : p₂.due = p.due := due_of_recovery hlooked.recovery
            rw [hmatched.tree, hgone.tree, hdue] at hdone
            simp only [Nat.zero_add, Nat.add_zero] at hdone
            exact ⟨rfl, hdone⟩
          · rintro e q ⟨⟨⟩, -⟩
        · rintro e q ⟨⟨⟩, -⟩
      · rintro e q ⟨⟨⟩, -⟩
    · have hequal : ((x.token (x.skip (2 - 1) i)).ty != ty) = true := by
        rw [bne_iff_ne]
        exact hnext
      simp only [hequal, if_true, hnext, if_false]
      exact ⟨rfl, hlooked⟩
  · rintro e q ⟨⟨⟩, -⟩

/-- **Acting as if the expected token were there**, where the current token may come after it. -/
theorem ends_singleTokenInsertion_acted (hp : Able x i p) (hset : TokenSet.single? ty = .ok set) (follow : TokenSet) :
    Ends (singleTokenInsertion ty follow) p fun o q =>
      if (p.viableFollow follow).contains (x.type i) = true then
        o = .ok true ∧ Acted x p i p.tree { p.recovery with inRecovery := true } p.due q
      else o = .ok false ∧ Acted x p i p.tree p.recovery 0 q := by
  apply ends_hooked_acted hp
  intro p₁ h₁
  apply (hp.after h₁).ahead_bind
  intro p₂ h₂
  have hlooked := h₁.trans h₂
  rw [h₁.tree, h₁.recovery] at hlooked
  rw [ends_get_bind, hlooked.viableFollow]
  have htype : (x.token i).ty = x.type i := rfl
  rw [htype]
  -- the current token may come after the expected one, which is then held to be missing
  by_cases hviable : (p.viableFollow follow).contains (x.type i) = true
  · simp only [hviable, Bool.not_true, Bool.false_eq_true, if_false, if_true, hset]
    change Ends (reportMissing set >>= _) p₂ _
    apply (ends_reportMissing_acted (hp.after hlooked) set).bind
    · rintro _ p₃ ⟨-, h₃⟩
      have hdone := hlooked.trans h₃
      have hdue : p₂.due = p.due := due_of_recovery hlooked.recovery
      rw [hlooked.tree, hlooked.recovery, hdue, Nat.zero_add] at hdone
      exact ⟨rfl, hdone⟩
    · rintro e q ⟨⟨⟩, -⟩
  · simp only [hviable, Bool.not_false, if_true, Bool.false_eq_true, if_false]
    exact ⟨rfl, hlooked⟩

/-- **Making up a token.** -/
theorem ends_missingSymbol_acted (hp : Able x i p) (ty : TokenType) : Ends (missingSymbol ty) p fun o q =>
    ∃ t, o = .ok t ∧ t.isConjured = true ∧ t.ty = ty ∧ Acted x p i p.tree p.recovery 0 q := by
  apply ends_hooked_acted hp
  intro p₁ h₁
  apply (hp.after h₁).ahead_bind
  intro p₂ h₂
  have hlooked := h₁.trans h₂
  rw [h₁.tree, h₁.recovery] at hlooked
  rw [ends_get_bind]
  by_cases hanchor : p₂.strategy.anchoring = true
  · simp only [hanchor, Bool.not_true, Bool.false_eq_true, if_false]
    apply (hp.after hlooked).ahead_bind
    intro p₃ h₃
    have hdone := hlooked.trans h₃
    rw [hlooked.tree, hlooked.recovery] at hdone
    exact ⟨_, rfl, rfl, rfl, hdone⟩
  · simp only [hanchor, Bool.not_false, if_true]
    exact ⟨_, rfl, rfl, rfl, hlooked⟩

/-- **Failing because the current token is none of the expected ones.** -/
theorem ends_raiseMismatch_acted (hp : Able x i p) (expected : TokenSet) :
    Ends (raiseMismatch expected : ParserM σ α) p fun o q =>
      ∃ e, o = .error (.recognition e) ∧ e.kind = .inputMismatch ∧ e.offending = x.token i ∧ e.expected = expected ∧
        Acted x p i p.tree p.recovery 0 q := by
  unfold raiseMismatch
  apply hp.ahead_bind
  intro q hq
  exact ⟨_, rfl, rfl, rfl, rfl, hq.input, hq.unfailing, hq.frames, hq.situation, hq.tree, hq.recovery, hq.errors,
    hq.reports⟩

/-- **What comes of a token that is not the one expected**: the current token is dropped and the next one matched, or a
token is made up, or there is a failure. -/
theorem ends_recoverInline_acted (hp : Able x i p) (hset : TokenSet.single? ty = .ok set) (follow : TokenSet) :
    Ends (recoverInline ty follow) p fun o q =>
      if x.type (x.stop (i + 1)) = ty then
        o = .ok (x.token (x.stop (i + 1))) ∧
          Acted x p (x.stop (x.stop (i + 1) + 1)) ((p.dropped (x.token i)).push p.currentNode?
            (.terminal (x.token (x.stop (i + 1))))).2 {} p.due q
      else if (p.viableFollow follow).contains (x.type i) = true then
        ∃ t, o = .ok t ∧ t.isConjured = true ∧ t.ty = ty ∧
          Acted x p i p.tree { p.recovery with inRecovery := true } p.due q
      else ∃ e, o = .error (.recognition e) ∧ e.kind = .inputMismatch ∧ e.offending = x.token i ∧ e.expected = set ∧
        Acted x p i p.tree p.recovery 0 q := by
  apply ends_hooked_acted hp
  intro p₁ h₁
  have hdue : p₁.due = p.due := due_of_recovery h₁.recovery
  apply (ends_singleTokenDeletion_acted (hp.after h₁) hset).bind
  · intro o p₂ h₂
    -- the three outcomes in the order they are tried: dropping, making up, failing
    by_cases hnext : x.type (x.stop (i + 1)) = ty
    · simp only [hnext, if_true] at h₂ ⊢
      obtain ⟨⟨⟩, h₂⟩ := h₂
      have hgone := h₁.trans h₂
      apply (ends_consume_acted (hp.after hgone)).bind
      · rintro _ p₃ ⟨⟨⟩, h₃⟩
        have hdone := hgone.trans h₃
        rw [hgone.recovery, hgone.tree, hgone.currentNode, dropped, h₁.tree, h₁.currentNode, hdue, Nat.zero_add] at hdone
        exact ⟨rfl, hdone⟩
      · rintro e q ⟨⟨⟩, -⟩
    · simp only [hnext, if_false] at h₂ ⊢
      obtain ⟨⟨⟩, h₂⟩ := h₂
      have hlooked := h₁.trans h₂
      rw [h₁.tree, h₁.recovery] at hlooked
      have hdue₂ : p₂.due = p.due := due_of_recovery hlooked.recovery
      apply (ends_singleTokenInsertion_acted (hp.after hlooked) hset follow).bind
      · intro o p₃ h₃
        rw [hlooked.viableFollow] at h₃
        by_cases hviable : (p.viableFollow follow).contains (x.type i) = true
        · simp only [hviable, if_true] at h₃ ⊢
          obtain ⟨⟨⟩, h₃⟩ := h₃
          have hreported := hlooked.trans h₃
          simp only [if_true]
          apply (ends_missingSymbol_acted (hp.after hreported) ty).mono
          rintro _ q ⟨t, rfl, hconjured, hty, hq⟩
          have hdone := hreported.trans hq
          rw [hreported.tree, hreported.recovery, hlooked.tree, hlooked.recovery, hdue₂, Nat.zero_add,
            Nat.add_zero] at hdone
          exact ⟨t, rfl, hconjured, hty, hdone⟩
        · simp only [hviable, if_false, Bool.false_eq_true] at h₃ ⊢
          obtain ⟨⟨⟩, h₃⟩ := h₃
          have hkept := hlooked.trans h₃
          simp only [Bool.false_eq_true, if_false, hset]
          change Ends (raiseMismatch set) p₃ _
          apply (ends_raiseMismatch_acted (hp.after hkept) set).mono
          rintro _ q ⟨e, rfl, hkind, hoffending, hexpected, hq⟩
          have hdone := hkept.trans hq
          rw [hkept.tree, hkept.recovery, hlooked.tree, hlooked.recovery] at hdone
          exact ⟨e, rfl, hkind, hoffending, hexpected, hdone⟩
      · intro e q h₃
        split at h₃ <;> cases h₃.1
  · intro e q h₂
    split at h₂ <;> cases h₂.1

/-- **How expecting a token goes on** where the current one is of another type. -/
theorem ends_mended (hp : Able x i p) (hset : TokenSet.single? ty = .ok set) (follow : TokenSet) :
    Ends (do
      let t ← recoverInline ty follow
      if t.isConjured then addErrorLeaf t
      return t) p fun o q =>
      if x.type (x.stop (i + 1)) = ty then
        o = .ok (x.token (x.stop (i + 1))) ∧
          Acted x p (x.stop (x.stop (i + 1) + 1)) ((p.dropped (x.token i)).push p.currentNode?
            (.terminal (x.token (x.stop (i + 1))))).2 {} p.due q
      else if (p.viableFollow follow).contains (x.type i) = true then
        ∃ t, o = .ok t ∧ t.isConjured = true ∧ t.ty = ty ∧ Acted x p i (p.tree.push p.currentNode? (.error t)).2
          { p.recovery with inRecovery := true } p.due q
      else ∃ e, o = .error (.recognition e) ∧ e.kind = .inputMismatch ∧ e.offending = x.token i ∧ e.expected = set ∧
        Acted x p i p.tree p.recovery 0 q := by
  apply (ends_recoverInline_acted hp hset follow).bind
  · intro t q hq
    -- an answer is a token of the input, which is a leaf by now, or a made-up one, which becomes one here
    by_cases hnext : x.type (x.stop (i + 1)) = ty
    · simp only [hnext, if_true] at hq ⊢
      obtain ⟨⟨⟩, hq⟩ := hq
      exact ⟨rfl, hq⟩
    · simp only [hnext, if_false] at hq ⊢
      by_cases hviable : (p.viableFollow follow).contains (x.type i) = true
      · simp only [hviable, if_true] at hq ⊢
        obtain ⟨_, ⟨⟩, hconjured, hty, hq⟩ := hq
        simp only [hconjured, if_true]
        apply (ends_addErrorLeaf_acted (hp.after hq) t).bind
        · rintro _ r ⟨-, hr⟩
          have hdone := hq.trans hr
          rw [hq.tree, hq.recovery, hq.currentNode] at hdone
          exact ⟨t, rfl, hconjured, hty, hdone⟩
        · rintro e r ⟨⟨⟩, -⟩
      · simp only [hviable, if_false, Bool.false_eq_true] at hq
        obtain ⟨e, ⟨⟩, -⟩ := hq
  · -- only where neither mending was possible is there a failure
    intro e q hq
    by_cases hnext : x.type (x.stop (i + 1)) = ty
    · simp only [hnext, if_true] at hq
      obtain ⟨⟨⟩, -⟩ := hq
    · simp only [hnext, if_false] at hq ⊢
      by_cases hviable : (p.viableFollow follow).contains (x.type i) = true
      · simp only [hviable, if_true] at hq
        obtain ⟨t, ⟨⟩, -⟩ := hq
      · simp only [hviable, if_false, Bool.false_eq_true] at hq ⊢
        obtain ⟨e', ⟨⟩, hfailed⟩ := hq
        exact ⟨e', rfl, hfailed⟩

/-- **What comes of expecting a token**, in every state in which the parser is not on trial, where the source does not
fail. The token that is answered is of the type that was expected. The current token is of that type, and it is matched;
or else the next one is, and the current one is dropped before that is matched; or else the current one may follow, and
a token is made up; or else there is a failure at the current token, and neither the tree nor what recovery keeps in mind
has changed, and nothing has been reported. In no case more than one error is reported. The current token is the one
where the input stands, or the first visible one if the stream has not been started. -/
theorem ends_expect {p : Parser σ} (hinput : p.input.Facing x i) (hsource : TokenSource.Unfailing p.input.source)
    (hacting : p.isSpeculating = false) (hdenied : p.strategy.denied = []) (hty : TokenSet.Fits ty)
    (follow : TokenSet) : Ends (expect ty follow) p fun o q =>
      (∀ t, o = .ok t → t.ty = ty) ∧ p.due ≤ 1 ∧
      if x.type i = ty then
        o = .ok (x.token i) ∧
          Acted x p (x.stop (i + 1)) (p.tree.push p.currentNode? (.terminal (x.token i))).2 {} 0 q
      else if x.type (x.stop (i + 1)) = ty then
        o = .ok (x.token (x.stop (i + 1))) ∧
          Acted x p (x.stop (x.stop (i + 1) + 1)) ((p.dropped (x.token i)).push p.currentNode?
            (.terminal (x.token (x.stop (i + 1))))).2 {} p.due q
      else if (p.viableFollow follow).contains (x.type i) = true then
        ∃ t, o = .ok t ∧ t.isConjured = true ∧ Acted x p i (p.tree.push p.currentNode? (.error t)).2
          { p.recovery with inRecovery := true } p.due q
      else ∃ e, o = .error (.recognition e) ∧ e.kind = .inputMismatch ∧ e.offending = x.token i ∧
        e.expected = .single ty ∧ Acted x p i p.tree p.recovery 0 q := by
  have hset : TokenSet.single? ty = .ok (.single ty) := if_pos hty
  unfold expect
  apply (ends_ahead_acted hinput hsource 1).bind
  · rintro _ p₁ ⟨⟨⟩, h₁⟩
    have hable : Able x i p₁ := ⟨h₁.input, h₁.unfailing, h₁.isSpeculating.trans hacting,
      (congrArg (fun s => s.strategy.denied) h₁.situation).trans hdenied⟩
    have htype : (x.token (x.skip (1 - 1) i)).ty = x.type i := rfl
    rw [htype]
    by_cases hcurrent : x.type i = ty
    · simp only [hcurrent, beq_self_eq_true, if_true]
      rw [ends_get_bind]
      simp only [hable.acting, Bool.false_eq_true, if_false]
      apply (ends_reportMatch_acted hable).bind
      · rintro _ p₂ ⟨-, h₂⟩
        apply (ends_consume_acted (hable.after h₂)).mono
        rintro _ q ⟨rfl, h₃⟩
        have hdone := (h₁.trans h₂).trans h₃
        rw [h₂.recovery, h₂.tree, h₂.currentNode, h₁.tree, h₁.currentNode] at hdone
        exact ⟨by rintro _ ⟨⟩; exact hcurrent, p.due_le_one, rfl, hdone⟩
      · rintro e q ⟨⟨⟩, -⟩
    · simp only [beq_eq_false_iff_ne.mpr hcurrent, Bool.false_eq_true, if_false, hcurrent]
      rw [ends_get_bind]
      simp only [hable.acting, Bool.false_eq_true, if_false]
      apply (ends_mended hable hset follow).mono
      intro o q hq
      -- reading the current token has changed nothing that is looked at afterwards
      rw [h₁.viableFollow] at hq
      simp only [dropped, h₁.tree, h₁.recovery, h₁.currentNode, due_of_recovery h₁.recovery] at hq ⊢
      by_cases hnext : x.type (x.stop (i + 1)) = ty
      · simp only [hnext, if_true] at hq ⊢
        obtain ⟨rfl, hq⟩ := hq
        exact ⟨by rintro _ ⟨⟩; exact hnext, p.due_le_one, rfl, h₁.then_acted hq⟩
      · simp only [hnext, if_false] at hq ⊢
        by_cases hviable : (p.viableFollow follow).contains (x.type i) = true
        · simp only [hviable, if_true] at hq ⊢
          obtain ⟨t, rfl, hconjured, rfl, hq⟩ := hq
          exact ⟨by rintro _ ⟨⟩; rfl, p.due_le_one, t, rfl, hconjured, h₁.then_acted hq⟩
        · simp only [hviable, if_false, Bool.false_eq_true] at hq ⊢
          obtain ⟨e, rfl, hkind, hoffending, hexpected, hq⟩ := hq
          exact ⟨nofun, p.due_le_one, e, rfl, hkind, hoffending, hexpected, h₁.then_acted hq⟩
  · rintro e q ⟨⟨⟩, -⟩

namespace Unstarted

/-- Two tokens, with a hidden one in front of the first and one between them. -/
def tape : Tape where
  body := [{ ty := ⟨3⟩, text := " ", channel := 1 }, { ty := ⟨1⟩, text := "x" },
    { ty := ⟨3⟩, text := " ", channel := 1 }, { ty := ⟨2⟩, text := "y" }]
  last := .endOfInput 4
  body_inner := by decide
  last_isEof := rfl

/-- They are given one after the other. -/
def source : ListedTokens := { rest := tape.body, last := tape.last }

/-- The source gives the tokens of the tape. -/
theorem gives_source : TokenSource.Gives tape source := ListedTokens.gives rfl rfl rfl

/-- Nothing has been taken yet. -/
def start : Parser ListedTokens := { input := .ofSource source, language := default }

/-- The first visible token is the second one. -/
theorem facing_start : start.input.Facing tape 1 :=
  .fresh (Stream.reads_ofSource gives_source.feeds) rfl (by decide)

/-- The first visible token is of another type than the second one. -/
theorem type_one : tape.type 1 = ⟨1⟩ := by decide

/-- After the first visible token comes the second one. -/
theorem type_stop : tape.type (tape.stop 2) = ⟨2⟩ := by decide

end Unstarted

/-- Before anything has been read the second visible token is expected. The first one is dropped. -/
theorem ends_expect_unstarted : ∃ q, expect ⟨2⟩ ∅ Unstarted.start = .ok (Unstarted.tape.token 3) q ∧
    q.index = 4 ∧ q.recovery = {} ∧ q.syntaxErrors = 1 ∧
    q.tree.nodes = #[.error (Unstarted.tape.token 1), .terminal (Unstarted.tape.token 3)] := by
  have hinput := Unstarted.facing_start
  have hsource : TokenSource.Unfailing Unstarted.start.input.source := Unstarted.gives_source.unfailing
  have hacting : Unstarted.start.isSpeculating = false := rfl
  have hdenied : Unstarted.start.strategy.denied = [] := rfl
  have herrors : Unstarted.start.syntaxErrors + Unstarted.start.due = 1 := rfl
  have htree : ((Unstarted.start.dropped (Unstarted.tape.token 1)).push Unstarted.start.currentNode?
    (.terminal (Unstarted.tape.token 3))).2.nodes =
      #[.error (Unstarted.tape.token 1), .terminal (Unstarted.tape.token 3)] := rfl
  -- what is known of the state is enough, so that the run is not evaluated
  generalize Unstarted.start = p at *
  have hends := ends_expect hinput hsource hacting hdenied (by decide : TokenSet.Fits ⟨2⟩) ∅
  rw [Unstarted.type_one, Unstarted.type_stop] at hends
  simp only [Ends] at hends
  split at hends
  · rename_i t q hrun
    obtain ⟨-, -, hanswer, hacted⟩ := hends
    cases hanswer
    refine ⟨q, hrun, hacted.input.cursor, hacted.recovery, hacted.errors.trans herrors, ?_⟩
    rw [hacted.tree]
    exact htree
  · obtain ⟨-, -, hanswer, -⟩ := hends
    cases hanswer

/-- **The input does not always stay where it was** when expecting a token fails: as long as nothing has been read it
stands at the first token of all, and then at the first one that is visible. -/
theorem index_moves_on_failure : ¬ ∀ (p : Parser ListedTokens) (ty : TokenType) (follow : TokenSet)
    (e : RecognitionException) (q : Parser ListedTokens), TokenSource.Unfailing p.input.source →
    p.isSpeculating = false → p.strategy = .default → TokenSet.Fits ty →
    expect ty follow p = .error (.recognition e) q → q.index = p.index := by
  intro hstays
  have hinput := Unstarted.facing_start
  have hsource : TokenSource.Unfailing Unstarted.start.input.source := Unstarted.gives_source.unfailing
  have hacting : Unstarted.start.isSpeculating = false := rfl
  have hstrategy : Unstarted.start.strategy = .default := rfl
  have hindex : Unstarted.start.index = 0 := rfl
  have hviable : Unstarted.start.viableFollow ∅ = ∅ := rfl
  generalize Unstarted.start = p at *
  have hfits : TokenSet.Fits ⟨5⟩ := by decide
  have hdenied : p.strategy.denied = [] := by rw [hstrategy]; rfl
  have hends := ends_expect hinput hsource hacting hdenied hfits ∅
  rw [Unstarted.type_one, Unstarted.type_stop, hviable] at hends
  simp only [Ends] at hends
  split at hends
  · obtain ⟨-, -, e, hanswer, -⟩ := hends
    cases hanswer
  · rename_i failure q hrun
    obtain ⟨-, -, e, hanswer, -, -, -, hacted⟩ := hends
    cases hanswer
    have hstay := hstays p ⟨5⟩ ∅ e q hsource hacting hstrategy hfits hrun
    have hmoved : q.index = 1 := hacted.input.cursor
    omega

end Parser

end TreeProjection
