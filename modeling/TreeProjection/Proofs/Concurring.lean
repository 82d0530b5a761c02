import TreeProjection.Proofs.Akin

/-! # Operations that do the same

Every operation does the same for two parsers that are in the same state but for what is taken ahead and for the numbers
of exceptions: those that read the input, those that recover from errors, rules, invocations and trials.

* `Parser.concurs_ahead`, `Parser.concurs_consume` — reading.
* `Parser.concurs_skipTo` — passing over tokens, for which there is enough to go by on both sides.
* `Parser.concurs_expect`, `Parser.concurs_sync` — matching and guarding.
* `Parser.concurs_rule`, `Parser.concurs_invoke`, `Parser.concurs_speculate` — running a body. -/

namespace TreeProjection

variable {σ α β : Type}

namespace Parser

variable [TokenSource σ] {calm : σ → Prop} {x : Tape} {f : Nat → Nat} {w w' : Extent} {i j : Nat}
  {p q p' q' : Parser σ}

/-! ## What touches the input -/

section

variable (hsteady : TokenSource.Steady calm)

include hsteady

/-- **Looking ahead** on both sides. -/
theorem ends_ahead_akin (h : Akin calm x f w i p q) (k : Nat) : Ends (ahead k) p fun o p' => Ends (ahead k) q fun o' q' =>
    ∃ t u, o = .ok t ∧ o' = .ok u ∧ ∃ w', w ≤ w' ∧ Akin calm x f w' i p' q' ∧ t = x.token (x.skip (k - 1) i) ∧ u = t ∧
      w'.Shows t ∧ 0 < w'.tokens := by
  apply ends_onInput
  apply (h.left.ahead hsteady k).mono
  rintro _ s ⟨rfl, hs⟩
  apply ends_onInput
  apply Ends.mono (h.right.ahead hsteady k)
  rintro _ t ⟨rfl, ht⟩
  refine ⟨_, _, rfl, rfl, { w with tokens := max w.tokens (min (x.skip (k - 1) i) x.size + 1) },
    ⟨Nat.le_max_left _ _, Nat.le_refl _⟩, h.read hs ht, rfl, rfl, ?_,
    Nat.lt_of_lt_of_le (Nat.succ_pos _) (Nat.le_max_right _ _)⟩
  intro j hj
  rw [Tape.token_index, Option.some.injEq] at hj
  change j < max w.tokens (min (x.skip (k - 1) i) x.size + 1)
  omega

/-- Looking ahead. -/
theorem concurs_ahead (k : Nat) : Concurs calm x f w SameTaken (ahead k : ParserM σ Token) (ahead k) := by
  intro w' i p q _ hpq
  apply (ends_ahead_akin hsteady hpq k).mono
  intro o p' ho
  apply Ends.mono ho
  rintro o' q' ⟨_, _, rfl, rfl, w'', hle, hakin, -, rfl, hshows, hbegun⟩
  exact ⟨w'', i, hle, hakin, .ok ⟨rfl, hshows, hbegun⟩⟩

omit [TokenSource σ] hsteady in
/-- One action after the other on both sides, where the first ones answer. -/
theorem ends_both_bind {α' β' : Type} {a : ParserM σ α} {b : ParserM σ α'} {next : α → ParserM σ β}
    {next' : α' → ParserM σ β'} {mid : α → Parser σ → α' → Parser σ → Prop}
    {post : Except Interrupt β → Parser σ → Except Interrupt β' → Parser σ → Prop}
    (h : Ends a p fun o p' => Ends b q fun o' q' => ∃ u v, o = .ok u ∧ o' = .ok v ∧ mid u p' v q')
    (hnext : ∀ u p' v q', mid u p' v q' →
      Ends (next u) p' fun o p'' => Ends (next' v) q' fun o' q'' => post o p'' o' q'') :
    Ends (a >>= next) p fun o p' => Ends (b >>= next') q fun o' q' => post o p' o' q' := by
  refine Ends.bind h (fun u p' ho => ?_) fun e p' ho => ?_
  · cases hb : b q with
    | ok v q' =>
        obtain ⟨_, _, ⟨⟩, ⟨⟩, hmid⟩ := ho.of_ok hb
        apply (hnext u p' v q' hmid).mono
        intro o p'' ho'
        exact (Ends.bind_of_ok hb).mpr ho'
    | error e q' =>
        obtain ⟨_, _, -, ⟨⟩, -⟩ := ho.of_error hb
  · cases hb : b q with
    | ok v q' =>
        obtain ⟨_, _, ⟨⟩, -⟩ := ho.of_ok hb
    | error e q' =>
        obtain ⟨_, _, ⟨⟩, -⟩ := ho.of_error hb

/-- Moving past the current token on both sides. -/
theorem ends_pass_akin (h : Akin calm x f w i p q) : Ends (onInput Stream.consume) p fun o p' =>
    Ends (onInput Stream.consume) q fun o' q' => ∃ u v, o = .ok u ∧ o' = .ok v ∧
      Akin calm x f w (x.stop (i + 1)) p' q' := by
  apply ends_onInput
  apply (h.left.consume hsteady).mono
  rintro _ s ⟨rfl, hs⟩
  apply ends_onInput
  apply Ends.mono (h.right.consume hsteady)
  rintro _ t ⟨rfl, ht⟩
  exact ⟨(), (), rfl, rfl, h.read hs ht⟩

/-- **Consuming** on both sides. -/
theorem ends_consume_akin (h : Akin calm x f w i p q) : Ends consume p fun o p' => Ends consume q fun o' q' =>
    ∃ t u, o = .ok t ∧ o' = .ok u ∧ ∃ w', w ≤ w' ∧ Akin calm x f w' (x.stop (i + 1)) p' q' ∧ u = t ∧ w'.Shows t ∧
      0 < w'.tokens := by
  unfold consume
  apply ends_both_bind (ends_ahead_akin hsteady h 1)
  rintro _ p₁ t q₁ ⟨w', hle, h₁, -, rfl, hshows, hbegun⟩
  apply ends_both_bind (ends_pass_akin hsteady h₁)
  intro _ p₂ _ q₂ h₂
  have htrial := h₂.congr isSpeculating fun _ _ _ _ => rfl
  have hrecovery := h₂.congr recovery fun _ _ _ _ => rfl
  rw [ends_get_bind]
  simp only [ends_get_bind, htrial, hrecovery]
  cases hspeculating : p₂.isSpeculating with
  | true => exact ⟨_, _, rfl, rfl, w', hle, h₂, rfl, hshows, hbegun⟩
  | false =>
      cases hinRecovery : p₂.recovery.inRecovery with
      | true => exact ⟨_, _, rfl, rfl, w', hle, h₂.addLeaf (.error t) fun _ => rfl, rfl, hshows, hbegun⟩
      | false => exact ⟨_, _, rfl, rfl, w', hle, h₂.addLeaf (.terminal t) fun _ => rfl, rfl, hshows, hbegun⟩

/-- Consuming. -/
theorem concurs_consume : Concurs calm x f w SameTaken (consume : ParserM σ Token) consume := by
  intro w' i p q _ hpq
  apply (ends_consume_akin hsteady hpq).mono
  intro o p' ho
  apply Ends.mono ho
  rintro o' q' ⟨_, _, rfl, rfl, w'', hle, hakin, rfl, hshows, hbegun⟩
  exact ⟨w'', _, hle, hakin, .ok ⟨rfl, hshows, hbegun⟩⟩

/-- Failing because of the current token. -/
theorem concurs_raiseMismatch {R : Extent → α → β → Prop} (expected : TokenSet) :
    Concurs calm x f w R (raiseMismatch expected : ParserM σ α) (raiseMismatch expected) := by
  apply (concurs_ahead hsteady 1).bind
  rintro w' t _ _ ⟨rfl, hshows, hbegun⟩
  exact concurs_fail _ hshows hbegun _

/-- Failing because no alternative fits. -/
theorem concurs_raiseNoViableAlt {R : Extent → α → β → Prop} (depth : Nat) :
    Concurs calm x f w R (raiseNoViableAlt depth : ParserM σ α) (raiseNoViableAlt depth) := by
  apply (concurs_ahead hsteady 1).bind
  rintro w' start _ _ ⟨rfl, -, -⟩
  apply (concurs_ahead hsteady _).bind
  rintro w'' t _ _ ⟨rfl, hshows, hbegun⟩
  exact concurs_fail _ hshows hbegun _

/-- Failing unless a condition holds. -/
theorem concurs_require (holds : Bool) (text : String) :
    Concurs calm x f w Same (require holds text : ParserM σ Unit) (require holds text) := by
  apply Concurs.ite rfl (concurs_pure fun _ _ => rfl)
  apply (concurs_ahead hsteady 1).bind
  rintro w' t _ _ ⟨rfl, hshows, hbegun⟩
  exact concurs_fail _ hshows hbegun _

/-- **Passing over tokens** on both sides.  There is enough to go by on each of them, and on none of them must it be the
same as on the other. -/
theorem ends_consumeUntil_akin (set : TokenSet) {n m : Nat} (h : Akin calm x f w i p q) (hn : x.size - i < n)
    (hm : x.size - i < m) : Ends (consumeUntil set n) p fun o p' => Ends (consumeUntil set m) q fun o' q' =>
      Joint calm x f w Same o p' o' q' := by
  induction n generalizing m i p q w with
  | zero => omega
  | succ n ih =>
      -- on the other side there is fuel left as well
      obtain ⟨m, rfl⟩ : ∃ k, m = k + 1 := ⟨m - 1, by omega⟩
      unfold consumeUntil
      apply ends_both_bind (ends_ahead_akin hsteady h 1)
      rintro _ p₁ t q₁ ⟨w', hle, h₁, ht, rfl, -⟩
      replace ht : t = x.token i := ht
      by_cases hstop : (t.isEof || set.contains t.ty) = true
      · simp only [hstop, if_true]
        exact ⟨w', i, hle, h₁, .ok rfl⟩
      · have hinner : i < x.size := by
          rw [Bool.or_eq_true, not_or, ht, x.token_isEof, decide_eq_true_iff] at hstop
          omega
        have hnext := x.le_stop (i := i + 1) hinner
        simp only [hstop, if_false, Bool.false_eq_true]
        apply ends_both_bind (ends_consume_akin hsteady h₁)
        rintro _ p₂ _ q₂ ⟨w'', hle', h₂, -⟩
        apply (ih (m := m) h₂ (by omega) (by omega)).mono
        intro o p' ho
        apply Ends.mono ho
        intro o' q' hjoint
        exact hjoint.after (Extent.le_trans hle hle')

/-- Passing over tokens. -/
theorem concurs_skipTo (set : TokenSet) : Concurs calm x f w Same (skipTo set : ParserM σ Unit) (skipTo set) := by
  have hskip : ∀ w', Concurs calm x f w' Same (get >>= fun p : Parser σ => consumeUntil set (p.remaining + 1))
      (get >>= fun p : Parser σ => consumeUntil set (p.remaining + 1)) := by
    intro w' w'' i p q _ hpq
    exact ends_consumeUntil_akin hsteady set hpq hpq.left.size_lt hpq.right.size_lt
  apply concurs_hooked _ (concurs_pure fun _ _ => rfl)
  apply concurs_get
  intro w' i p q hle hpq
  obtain ⟨s, n, rfl⟩ := hpq.exists_eq
  refine .ite rfl ?_ (hskip w')
  apply (concurs_ahead hsteady 1).bind
  rintro w'' t _ _ ⟨rfl, -, -⟩
  exact .ite rfl ((concurs_addErrorLeaf t).seq fun w₁ _ => hskip w₁) (hskip w'')

omit hsteady in
/-- Once a token has been taken, both inputs stand at the same place. -/
theorem Akin.index (h : Akin calm x f w i p q) (hbegun : 0 < w.tokens) : p.index = i ∧ q.index = i :=
  ⟨(h.left.standing hbegun).cursor, (h.right.standing hbegun).cursor⟩

/-- Recovering, once a token has been taken. -/
theorem concurs_recover (e : RecognitionException) (hbegun : 0 < w.tokens) :
    Concurs calm x f w Same (recover e : ParserM σ Unit) (recover (e.renumber f)) := by
  have hrest : ∀ w' (rule : Option RuleIndex), w ≤ w' → Concurs calm x f w' Same
      (modify (fun p => { p with
        recovery.lastErrorIndex := some p.index
        recovery.lastErrorRules := p.recovery.lastErrorRules ++ rule.toList }) >>= fun _ =>
          get >>= fun p : Parser σ => skipTo p.recoverySet : ParserM σ Unit)
      (modify (fun p => { p with
        recovery.lastErrorIndex := some p.index
        recovery.lastErrorRules := p.recovery.lastErrorRules ++ rule.toList }) >>= fun _ =>
          get >>= fun p : Parser σ => skipTo p.recoverySet) := by
    intro w' rule hle
    apply Concurs.seq (T := Same)
    · apply concurs_modify
      intro w₁ i p q hle' hpq
      obtain ⟨hi, hi'⟩ := hpq.index (Nat.lt_of_lt_of_le hbegun (Extent.le_trans hle hle').1)
      rw [hi, hi']
      exact hpq.change_both (fun p => { p with
        recovery.lastErrorIndex := some i
        recovery.lastErrorRules := p.recovery.lastErrorRules ++ rule.toList }) (fun _ => rfl) (fun _ => rfl)
          fun _ _ _ _ => rfl
    · intro w₁ _
      apply concurs_get
      intro w₂ i p q _ hpq
      obtain ⟨s, n, rfl⟩ := hpq.exists_eq
      exact concurs_skipTo hsteady _
  apply concurs_hooked _ (concurs_pure fun _ _ => rfl)
  apply concurs_get
  intro w' i p q hle hpq
  obtain ⟨hi, hi'⟩ := hpq.index (Nat.lt_of_lt_of_le hbegun hle.1)
  have hrule : q.currentRule? = p.currentRule? := hpq.congr currentRule? fun _ _ _ _ => rfl
  have hrecovery : q.recovery = p.recovery := hpq.congr recovery fun _ _ _ _ => rfl
  simp only [hi, hi', hrule, hrecovery]
  -- both have recovered here before, or neither has
  refine .ite rfl ?_ (hrest w' _ hle)
  apply (concurs_consume hsteady).bind
  intro w'' _ _ hle' _
  exact hrest w'' _ (Extent.le_trans hle hle')

/-- **Reporting the current token**, unless reports are held back, with a text that depends neither on what is taken ahead
nor on numbers. -/
theorem concurs_hooked_reportToken (h : Hook) (message : Parser σ → Token → String)
    (hmessage : ∀ f (p : Parser σ) s n, message { p.renumber f with input := s, nextException := n } = message p) :
    Concurs calm x f w Same
      (hooked h (pure ()) (do
        unless (← get).recovery.inRecovery do
          beginErrorCondition
          let t ← ahead 1
          let p ← get
          report t (message p t) none) : ParserM σ Unit)
      (hooked h (pure ()) (do
        unless (← get).recovery.inRecovery do
          beginErrorCondition
          let t ← ahead 1
          let p ← get
          report t (message p t) none)) := by
  apply concurs_hooked _ (concurs_pure fun _ _ => rfl)
  apply concurs_unlessInRecovery
  apply concurs_beginErrorCondition.seq
  intro w₁ _
  -- The token that is reported has come into view on both sides.
  apply (concurs_ahead hsteady 1).bind
  rintro w₂ t _ _ ⟨rfl, -⟩
  apply concurs_get
  intro w₃ i p q _ hpq
  rw [hpq.congr message hmessage]
  exact concurs_report t _ rfl nofun

/-- Reporting the current token as one too many. -/
theorem concurs_reportUnwanted (expecting : TokenSet) :
    Concurs calm x f w Same (reportUnwanted expecting : ParserM σ Unit) (reportUnwanted expecting) :=
  concurs_hooked_reportToken hsteady _ (fun p t =>
    s!"extraneous input {t.shown} expecting {p.language.vocabulary.displaySet (p.viableFollow expecting)}")
    fun _ _ _ _ => rfl

/-- Reporting a token as missing. -/
theorem concurs_reportMissing (expecting : TokenSet) :
    Concurs calm x f w Same (reportMissing expecting : ParserM σ Unit) (reportMissing expecting) :=
  concurs_hooked_reportToken hsteady _ (fun p t =>
    s!"missing {p.language.vocabulary.displaySet (p.viableFollow expecting)} at {t.shown}") fun _ _ _ _ => rfl

/-- Dropping the current token. -/
theorem concurs_singleTokenDeletion (expected : TokenType) :
    Concurs calm x f w SameMatch (singleTokenDeletion expected : ParserM σ (Option Token))
      (singleTokenDeletion expected) := by
  have hnone : ∀ w, Concurs calm x f w SameMatch (pure none : ParserM σ (Option Token)) (pure none) :=
    fun w => concurs_pure fun _ _ => ⟨rfl, nofun⟩
  apply concurs_hooked _ (hnone w)
  apply (concurs_ahead hsteady 2).bind
  rintro w₁ next _ _ ⟨rfl, -⟩
  apply Concurs.ite rfl (hnone w₁)
  apply (concurs_orBroken _).bind
  rintro w₂ set _ _ ⟨⟩
  apply (concurs_reportUnwanted hsteady set).seq
  intro w₃ _
  apply (concurs_consume hsteady).bind
  intro w₄ _ _ _ _
  apply (concurs_ahead hsteady 1).bind
  rintro w₅ t _ _ ⟨rfl, hshows, -⟩
  apply concurs_endErrorCondition.seq
  intro w₆ hle
  apply concurs_pure
  intro w₇ hle'
  refine ⟨rfl, ?_⟩
  rintro _ ⟨⟩
  exact hshows.mono (Extent.le_trans hle hle')

/-- Acting as if the expected token were there. -/
theorem concurs_singleTokenInsertion (expected : TokenType) (follow : TokenSet) :
    Concurs calm x f w Same (singleTokenInsertion expected follow : ParserM σ Bool)
      (singleTokenInsertion expected follow) := by
  apply concurs_hooked _ (concurs_pure fun _ _ => rfl)
  apply (concurs_ahead hsteady 1).bind
  rintro w₁ t _ _ ⟨rfl, -⟩
  apply concurs_get
  intro w₂ i p q _ hpq
  obtain ⟨s, n, rfl⟩ := hpq.exists_eq
  apply Concurs.ite rfl (concurs_pure fun _ _ => rfl)
  apply (concurs_orBroken _).bind
  rintro w₃ set _ _ ⟨⟩
  exact (concurs_reportMissing hsteady set).seq fun w₄ _ => concurs_pure fun _ _ => rfl

/-- Making up a token. -/
theorem concurs_missingSymbol (expected : TokenType) :
    Concurs calm x f w SameToken (missingSymbol expected : ParserM σ Token) (missingSymbol expected) := by
  have hact : Concurs calm x f w SameToken
      (do
        let current ← ahead 1
        let p ← get
        let near := if current.isEof then (p.behind? 1).getD current else current
        let made := { Token.conjured expected (missingText p.language.vocabulary expected) with
          line := near.line, column := near.column }
        if !p.strategy.anchoring then return made
        let current ← ahead 1
        return { made with span := some (current.span.getD (.emptyAt 0)) } : ParserM σ Token)
      (do
        let current ← ahead 1
        let p ← get
        let near := if current.isEof then (p.behind? 1).getD current else current
        let made := { Token.conjured expected (missingText p.language.vocabulary expected) with
          line := near.line, column := near.column }
        if !p.strategy.anchoring then return made
        let current ← ahead 1
        return { made with span := some (current.span.getD (.emptyAt 0)) }) := by
    apply (concurs_ahead hsteady 1).bind
    rintro w₁ t _ _ ⟨rfl, -⟩
    apply concurs_get
    intro w₂ i p q _ hpq
    have hbehind : q.behind? 1 = p.behind? 1 := (hpq.left.behind?_eq hpq.right 1).symm
    have hlanguage := hpq.congr language fun _ _ _ _ => rfl
    have hstrategy := hpq.congr strategy fun _ _ _ _ => rfl
    simp only [hbehind, hlanguage, hstrategy]
    -- a token that is made up has no place in the stream
    apply Concurs.ite rfl (concurs_pure fun _ _ => ⟨rfl, nofun⟩)
    apply (concurs_ahead hsteady 1).bind
    rintro w₃ u _ _ ⟨rfl, -⟩
    exact concurs_pure fun _ _ => ⟨rfl, nofun⟩
  exact concurs_hooked _ hact hact

/-- Mending the lack of a token. -/
theorem concurs_recoverInline (expected : TokenType) (follow : TokenSet) :
    Concurs calm x f w SameToken (recoverInline expected follow : ParserM σ Token) (recoverInline expected follow) := by
  have hmismatch : ∀ w, Concurs calm x f w SameToken
      (do raiseMismatch (← orBroken (TokenSet.single? expected)) : ParserM σ Token)
      (do raiseMismatch (← orBroken (TokenSet.single? expected))) := by
    intro w
    apply (concurs_orBroken _).bind
    rintro w' set _ _ ⟨⟩
    exact concurs_raiseMismatch hsteady set
  apply concurs_hooked _ (hmismatch w)
  apply (concurs_singleTokenDeletion hsteady expected).bind
  rintro w₁ matched _ _ ⟨rfl, hshows⟩
  cases matched with
  | some t =>
      apply (concurs_consume hsteady).bind
      intro w₂ _ _ hle _
      exact concurs_pure fun w₃ hle' => ⟨rfl, (hshows t rfl).mono (Extent.le_trans hle hle')⟩
  | none =>
      apply (concurs_singleTokenInsertion hsteady expected follow).bind
      rintro w₂ inserted _ _ ⟨⟩
      exact .ite rfl (concurs_missingSymbol hsteady expected) (hmismatch w₂)

/-- The guard of a loop. -/
theorem concurs_syncHook (expecting : TokenSet) :
    Concurs calm x f w Same (syncHook expecting : ParserM σ Unit) (syncHook expecting) := by
  apply concurs_hooked _ (concurs_pure fun _ _ => rfl)
  apply concurs_get
  intro w₁ i p q _ hpq
  obtain ⟨s, n, rfl⟩ := hpq.exists_eq
  apply Concurs.ite rfl (concurs_pure fun _ _ => rfl)
  apply (concurs_ahead hsteady 1).bind
  rintro w₂ t _ _ ⟨rfl, -⟩
  apply Concurs.ite rfl (concurs_pure fun _ _ => rfl)
  apply (concurs_reportUnwanted hsteady expecting).seq
  intro w₃ _
  apply concurs_get
  intro w₄ j p q _ hpq
  obtain ⟨s, n, rfl⟩ := hpq.exists_eq
  exact concurs_skipTo hsteady _

/-- Guarding a loop. -/
theorem concurs_sync (expecting : TokenSet) :
    Concurs calm x f w Same (sync expecting : ParserM σ Unit) (sync expecting) := by
  apply concurs_get
  intro w₁ i p q _ hpq
  obtain ⟨s, n, rfl⟩ := hpq.exists_eq
  exact .ite rfl (concurs_pure fun _ _ => rfl) (concurs_syncHook hsteady expecting)

/-- **Matching a token.** -/
theorem concurs_expect (ty : TokenType) (follow : TokenSet) :
    Concurs calm x f w SameToken (expect ty follow : ParserM σ Token) (expect ty follow) := by
  have hconsume : ∀ w, Concurs calm x f w SameToken (consume : ParserM σ Token) consume :=
    fun w => (concurs_consume hsteady).mono fun _ _ _ h => ⟨h.1, h.2.1⟩
  apply (concurs_ahead hsteady 1).bind
  rintro w₁ t _ _ ⟨rfl, -⟩
  apply Concurs.ite rfl
  · apply concurs_get
    intro w₂ i p q _ hpq
    obtain ⟨s, n, rfl⟩ := hpq.exists_eq
    exact .ite rfl (hconsume w₂) (concurs_endErrorCondition.seq fun w₃ _ => hconsume w₃)
  · apply concurs_get
    intro w₂ i p q _ hpq
    obtain ⟨s, n, rfl⟩ := hpq.exists_eq
    apply Concurs.ite rfl
    · apply (concurs_orBroken _).bind
      rintro w₃ set _ _ ⟨⟩
      exact concurs_raiseMismatch hsteady set
    · apply (concurs_recoverInline hsteady ty follow).bind
      rintro w₃ u _ _ ⟨rfl, hshows⟩
      have hanswer : ∀ w, w₃ ≤ w → Concurs calm x f w SameToken (pure u : ParserM σ Token) (pure u) :=
        fun w hle => concurs_pure fun _ hle' => ⟨rfl, hshows.mono (Extent.le_trans hle hle')⟩
      exact .ite rfl ((concurs_addErrorLeaf u).seq hanswer) (hanswer w₃ w₃.le_refl)

/-! ## Rules, invocations and trials -/

/-- Handling a failure that has come into view. -/
theorem concurs_handleRecognition {e : RecognitionException} (he : w.Knows e) :
    Concurs calm x f w Same (handleRecognition e : ParserM σ Unit) (handleRecognition (e.renumber f)) := by
  unfold handleRecognition
  apply Concurs.seq (T := Same)
  · apply concurs_modify
    intro w' i p q hle hpq
    -- The node that is marked is the same on both sides, though its exception may have another number.
    have hnode : q.currentNode? = p.currentNode? := hpq.congr currentNode? fun _ _ _ _ => rfl
    rw [hnode]
    cases p.currentNode? with
    | none => exact hpq
    | some node =>
        apply hpq.change (fun p => { p with tree := p.tree.modifyRule node fun r => { r with exception := some e } })
          (fun h p => { p with tree := p.tree.modifyRule node fun r => { r with exception := some (e.renumber h) } })
          (fun _ => rfl) fun _ => rfl
        · intro h p s n
          have hmodify : (p.tree.modifyRule node fun r => { r with exception := some e }).renumber h =
              (p.tree.renumber h).modifyRule node fun r => { r with exception := some (e.renumber h) } :=
            p.tree.renumber_modifyRule node fun _ => rfl
          simp only [renumber, hmodify]
        · intro h hfixes p
          rw [(he.mono hle).renumber hfixes]
  intro w₁ hle
  apply (concurs_reportError (he.mono hle)).seq
  intro w₂ hle'
  exact concurs_recover hsteady e (he.mono (Extent.le_trans hle hle')).begun

/-- Looking whether the run has been called off, which it has not. -/
theorem concurs_checkCancelled :
    Concurs calm x f w Same (checkCancelled : ParserM σ Unit) checkCancelled := by
  apply concurs_get
  intro w' i p q _ hpq
  rw [hsteady.cancelled _ hpq.left.calm, hsteady.cancelled _ hpq.right.calm]
  exact concurs_pure fun _ _ => rfl

/-- Entering a rule that may be entered. -/
theorem concurs_beginRule (r : RuleIndex) :
    Concurs calm x f w Same (beginRule r : ParserM σ Unit) (beginRule r) := by
  apply concurs_get
  intro w₁ i p q _ hpq
  obtain ⟨s, n, rfl⟩ := hpq.exists_eq
  apply Concurs.ite rfl
  · exact concurs_modify fun _ _ _ _ _ hpq =>
      hpq.change_both (fun p => { p with frames := ⟨r, none⟩ :: p.frames }) (fun _ => rfl) (fun _ => rfl)
        fun _ _ _ _ => rfl
  · apply (concurs_ahead hsteady 1).bind
    rintro w₂ t _ _ ⟨rfl, -⟩
    apply concurs_modify
    intro w₃ j p q _ hpq
    apply hpq.change_both (fun p => p.openRule r t.index) (fun _ => rfl) fun _ => rfl
    intro e p s n
    have hpush : (p.tree.renumber e).push p.currentNode? (.rule { rule := r, start := t.index }) = (_, _) :=
      p.tree.renumber_push p.currentNode? (.rule { rule := r, start := t.index })
    have hopened : ({ p.renumber e with input := s, nextException := n } : Parser σ).openRule r t.index =
        { p.renumber e with
          input := s
          nextException := n
          tree := ((p.tree.renumber e).push p.currentNode? (.rule { rule := r, start := t.index })).2
          frames := ⟨r, some ((p.tree.renumber e).push p.currentNode? (.rule { rule := r, start := t.index })).1⟩ ::
            p.frames } := rfl
    rw [hopened, hpush]
    rfl

/-- Entering a rule. -/
theorem concurs_enterRule (r : RuleIndex) :
    Concurs calm x f w Same (enterRule r : ParserM σ Unit) (enterRule r) := by
  rw [enterRule_eq]
  apply (concurs_checkCancelled hsteady).seq
  intro w₁ _
  apply concurs_get
  intro w₂ i p q _ hpq
  obtain ⟨s, n, rfl⟩ := hpq.exists_eq
  exact .ite rfl (concurs_giveUp _) (concurs_beginRule hsteady r)

omit hsteady in
/-- Taking the innermost rule off. -/
theorem concurs_popRule : Concurs calm x f w Same (popRule : ParserM σ Unit) popRule := by
  apply concurs_get
  intro w₁ i p q _ hpq
  have hframes : q.frames = p.frames := hpq.congr frames fun _ _ _ _ => rfl
  rw [hframes]
  cases p.frames with
  | nil => exact concurs_giveUp _
  | cons frame frames =>
      apply Concurs.seq (T := Same)
      · exact concurs_modify fun _ _ _ _ _ hpq =>
          hpq.change_both (fun p => { p with frames }) (fun _ => rfl) (fun _ => rfl) fun _ _ _ _ => rfl
      intro w₂ _
      cases frame.node with
      | none => exact concurs_pure fun _ _ => rfl
      | some node =>
          apply concurs_modify
          intro w₃ j p q _ hpq
          -- both have passed the same token last
          have hbehind : q.behind? 1 = p.behind? 1 := (hpq.left.behind?_eq hpq.right 1).symm
          rw [hbehind]
          generalize p.behind? 1 >>= Token.index = stop
          apply hpq.change_both (fun p => { p with tree := p.tree.modifyRule node fun r =>
            { r with stop := stop.filter fun s => r.start.any (· ≤ s) } }) (fun _ => rfl) fun _ => rfl
          intro h p s n
          have hmodify : (p.tree.modifyRule node fun r =>
              { r with stop := stop.filter fun s => r.start.any (· ≤ s) }).renumber h =
                (p.tree.renumber h).modifyRule node fun r =>
                  { r with stop := stop.filter fun s => r.start.any (· ≤ s) } :=
            p.tree.renumber_modifyRule node fun _ => rfl
          simp only [renumber, hmodify]

/-- Leaving a rule. -/
theorem concurs_exitRule : Concurs calm x f w Same (exitRule : ParserM σ Unit) exitRule := by
  rw [exitRule_eq]
  exact concurs_popRule.seq fun _ _ => concurs_checkCancelled hsteady

/-- Leaving a rule with what its body has ended with. -/
theorem concurs_leave {o o' : Except Interrupt Unit} (h : Matching f w Same o o') : Concurs calm x f w Same
    (do
      let exited ← observe exitRule
      release o
      release exited : ParserM σ Unit)
    (do
      let exited ← observe exitRule
      release o'
      release exited) := by
  apply (concurs_exitRule hsteady).observe_bind
  intro w₁ exited exited' hle hexited
  exact (concurs_release (h.mono hle)).seq fun w₂ hle' => concurs_release (hexited.mono hle')

/-- What becomes of a rule. -/
theorem concurs_settleRule {o o' : Except Interrupt Unit} (h : Matching f w Same o o') :
    Concurs calm x f w Same (settleRule o : ParserM σ Unit) (settleRule o') := by
  cases h with
  | ok hu => exact concurs_leave hsteady (.ok hu)
  | stopped a => exact concurs_leave hsteady (.stopped a)
  | failed he =>
      apply concurs_get
      intro w₁ i p q hle hpq
      obtain ⟨s, n, rfl⟩ := hpq.exists_eq
      apply Concurs.ite rfl (concurs_leave hsteady (.failed (he.mono hle)))
      apply (concurs_handleRecognition hsteady (he.mono hle)).observe_bind
      intro w₂ o o' _ ho
      exact concurs_leave hsteady ho

/-- **A rule.** -/
theorem concurs_rule (r : RuleIndex) {body body' : ParserM σ Unit}
    (h : ∀ w', w ≤ w' → Concurs calm x f w' Same body body') :
    Concurs calm x f w Same (rule r body) (rule r body') := by
  apply (concurs_enterRule hsteady r).seq
  intro w₁ hle
  change Concurs calm x f w₁ Same (observe body >>= settleRule) (observe body' >>= settleRule)
  apply (h w₁ hle).observe_bind
  intro w₂ o o' _ ho
  exact concurs_settleRule hsteady ho

omit hsteady in
/-- **Invoking a body.** -/
theorem concurs_invoke (follow : TokenSet) {body body' : ParserM σ α}
    (h : ∀ w', w ≤ w' → Concurs calm x f w' Same body body') :
    Concurs calm x f w Same (invoke follow body) (invoke follow body') := by
  apply Concurs.seq (T := Same)
  · exact concurs_modify fun _ _ _ _ _ hpq =>
      hpq.change_both (fun p => { p with follow := follow :: p.follow }) (fun _ => rfl) (fun _ => rfl) fun _ _ _ _ => rfl
  · intro w₁ hle
    apply (h w₁ hle).observe_bind
    intro w₂ o o' _ ho
    apply Concurs.seq (T := Same)
    · exact concurs_modify fun _ _ _ _ _ hpq =>
        hpq.change_both (fun p => { p with follow := p.follow.tail }) (fun _ => rfl) (fun _ => rfl) fun _ _ _ _ => rfl
    · intro w₃ hle'
      exact concurs_release (ho.mono hle')

/-- The same answer, or the same exception with another number. -/
inductive Caught (f : Nat → Nat) (w : Extent) : Except RecognitionException α → Except RecognitionException α → Prop where
  /-- The same answer. -/
  | ok (a : α) : Caught f w (.ok a) (.ok a)
  /-- The same exception, which has come into view. -/
  | error {e : RecognitionException} (h : w.Knows e) : Caught f w (.error e) (.error (e.renumber f))

omit hsteady in
/-- **Running a body for its exception.** -/
theorem concurs_attempt {body body' : ParserM σ α} (h : Concurs calm x f w Same body body') :
    Concurs calm x f w (Caught f) (attempt body) (attempt body') := by
  apply h.observe_bind
  intro w₁ o o' _ ho
  cases ho with
  | ok hab =>
      cases hab
      exact concurs_pure fun _ _ => .ok _
  | failed he => exact concurs_pure fun _ hle => .error (he.mono hle)
  | stopped a => exact concurs_giveUp a

/-- **Trying a body.** -/
theorem concurs_speculate {body body' : ParserM σ Unit} (h : ∀ w', w ≤ w' → Concurs calm x f w' Same body body') :
    Concurs calm x f w Same (speculate body) (speculate body') := by
  apply (concurs_ahead hsteady 1).bind
  rintro w₁ t _ hle ⟨rfl, -, hbegun⟩
  apply concurs_get
  intro w₂ i p q hle' hpq
  -- Both cursors stand at the same token, to which they are taken back.
  obtain ⟨hi, hi'⟩ := hpq.index (Nat.lt_of_lt_of_le hbegun hle'.1)
  have hframes : q.frames = p.frames := hpq.congr frames fun _ _ _ _ => rfl
  have hfollow : q.follow = p.follow := hpq.congr follow fun _ _ _ _ => rfl
  simp only [hi, hi', hframes, hfollow]
  apply Concurs.seq (T := Same)
  · exact concurs_modify fun _ _ _ _ _ hpq =>
      hpq.change_both (fun p => { p with speculating := p.speculating + 1 }) (fun _ => rfl) (fun _ => rfl)
        fun _ _ _ _ => rfl
  intro w₃ hle₃
  apply (h w₃ (Extent.le_trans hle (Extent.le_trans hle' hle₃))).observe_bind
  intro w₄ o o' _ ho
  apply Concurs.seq (T := Same)
  -- However the trial has ended, the frames and sets that it has left open go.
  · exact concurs_modify fun _ _ _ _ _ hpq =>
      hpq.change_both (fun r => { r with
        speculating := r.speculating - 1
        frames := lastOf p.frames.length r.frames
        follow := lastOf p.follow.length r.follow }) (fun _ => rfl) (fun _ => rfl) fun _ _ _ _ => rfl
  intro w₅ _
  apply Concurs.seq (T := Same)
  · intro w₆ j p q _ hpq
    apply ends_onInput
    apply (hpq.left.seek hsteady i).mono
    rintro _ s ⟨rfl, hs⟩
    apply ends_onInput
    apply Ends.mono (hpq.right.seek hsteady i)
    rintro _ t ⟨rfl, ht⟩
    exact ⟨w₆, _, w₆.le_refl, hpq.read hs ht, .ok rfl⟩
  intro w₆ _
  cases ho with
  | ok _ => exact concurs_pure fun _ _ => rfl
  | failed _ => exact concurs_pure fun _ _ => rfl
  | stopped a => exact concurs_giveUp a

end

end Parser

end TreeProjection
