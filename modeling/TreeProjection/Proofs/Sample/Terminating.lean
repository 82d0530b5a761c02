import TreeProjection.Proofs.Consumed
import TreeProjection.Proofs.Sample.Progress

/-! # The sample grammar comes to an end

Whatever the input is, no recognizer of the sample grammar uses up the steps that it is granted for it.  From one rule
to the one below it a step is used up, but there are at most four rules on top of each other before a token is matched;
and since the loops go on, they go round less often than there are steps.

* `Sample.lasts_expr`, `Sample.lasts_block` and the like — how many steps the rules need for the tokens that are left.
* `Sample.lasts_entry` — the steps that are granted for an input are enough.
* `Sample.entry_ends` — every parse comes to an end, and every loop goes on. -/

namespace TreeProjection.Sample

open TreeProjection.Parser
open Recognizer

variable {σ : Type} [TokenSource σ] {x : Tape} {p : Parser σ} {i : Nat}

section

variable (hsource : ∀ (s : σ) e, (TokenSource.pull s).1 = .error e → e = .cancelled)

include hsource

/-! ## Expressions -/

/-- **A list lasts** if its parts do, and there are more rounds to go than tokens. -/
theorem lasts_signed {signs follow : TokenSet} (hsigns : signs.contains .eof = false)
    {part : Unit → Recognizer Unit} (hord : (part ()).Ordinary) (hp : Ready x p) {rounds : Nat}
    (hpart : ∀ q : Parser σ, Ready x q → p.index ≤ q.index → (part ()).Lasts x q)
    (hrounds : x.size - p.index < rounds) : (signed signs follow part rounds).Lasts x p := by
  have hwithin : ∀ q : Parser σ, Ready x q → p.index ≤ q.index → (within follow part).Lasts x q :=
    fun q hq hle => lasts_within hq fun r hr => hpart r hr.ready (by rw [hr.index]; exact hle)
  have hround : (signedRound signs follow part).Ordinary := ordinary_signedRound hord
  rw [signed_eq]
  refine (hwithin p hp (Nat.le_refl _)).seq hp (ordinary_within hord) fun _ q hq hle => ?_
  -- What is left of the input gets less with each round, as a round begins with a sign.
  refine lasts_repeatWhile hround (fun r => x.size - r.index) hq ?_ ?_ (by omega)
  · intro r hr hqr
    refine lasts_look hsource hr 1 fun s hs => ?_
    split
    · rename_i hsign
      refine (lasts_expect hsource hs.ready (TokenSet.fits_of_contains hsign) _).seq hs.ready
        (ordinary_expect _ _) fun _ t ht hst => ?_
      rw [hs.index] at hst
      exact (hwithin t ht (by omega)).seq ht (ordinary_within hord) fun _ u hu _ =>
        ⟨hu.opens.sound, .refl u⟩
    · exact ⟨hs.ready.opens.sound, .refl s⟩
  · intro r hr
    refine (((hround.runs_ready hr).to_answers).and (answers_signedRound hr hsigns hord)).mono ?_
    intro again s ⟨⟨hs, _⟩, hgoes⟩ hagain
    have hlt := hgoes hagain
    have hend := hs.standing.le_size
    omega

mutual

/-- Sums. -/
theorem lasts_expr {p : Parser σ} {i : Nat} : ∀ n, Opens x i p → 4 * (x.size - i) + 4 ≤ n →
    (expr n).Lasts x p
  | 0, _, hn => by omega
  | n + 1, hp, hn => by
      refine lasts_asRule hsource hp fun q hq hi => ?_
      refine lasts_signed hsource (by decide) (composed_term composed_ordinary n) hq
        (fun r hr hle => lasts_term n hr.opens (by omega)) (by omega)

/-- Products. -/
theorem lasts_term {p : Parser σ} {i : Nat} : ∀ n, Opens x i p → 4 * (x.size - i) + 3 ≤ n →
    (term n).Lasts x p
  | 0, _, hn => by omega
  | n + 1, hp, hn => by
      refine lasts_asRule hsource hp fun q hq hi => ?_
      refine lasts_signed hsource (by decide) (composed_primary composed_ordinary n) hq
        (fun r hr hle => lasts_primary n hr.opens (by omega)) (by omega)

/-- Factors. -/
theorem lasts_primary {p : Parser σ} {i : Nat} : ∀ n, Opens x i p → 4 * (x.size - i) + 2 ≤ n →
    (primary n).Lasts x p
  | 0, _, hn => by omega
  | n + 1, hp, hn => by
      refine lasts_asRule hsource hp fun q hq hi => lasts_look hsource hq 1 fun r hr => ?_
      have hri : r.index = i := hr.index.trans hi
      -- before a rule below is entered a token has been matched: fewer are left, for fewer steps
      split
      · exact lasts_expect hsource hr.ready (by decide) _
      · split
        · exact lasts_expect hsource hr.ready (by decide) _
        · split
          · rename_i hname
            have hat : x.type r.index = ident := by
              rw [hr.index]
              exact hname
            refine (lasts_expect hsource hr.ready (by decide) _).after hr.ready (ordinary_expect _ _)
              (advances_expect hr.ready hat (by decide) _) fun _ s hs hrs => ?_
            refine lasts_look hsource hs 1 fun t ht => ?_
            split
            · refine (lasts_expect hsource ht.ready (by decide) _).seq ht.ready (ordinary_expect _ _)
                fun _ u hu htu => lasts_look hsource hu 1 fun v hv => ?_
              split
              · refine Lasts.seq (lasts_within hv.ready fun w hw => ?_) hv.ready
                  (ordinary_within (composed_args composed_ordinary n))
                  fun _ w hw _ => lasts_expect hsource hw (by decide) _
                refine lasts_args n hw.ready.opens ?_
                have hend := hw.ready.standing.le_size
                have hw' := hw.index
                have hv' := hv.index
                have ht' := ht.index
                omega
              · exact lasts_expect hsource hv.ready (by decide) _
            · exact ⟨ht.ready.opens.sound, .refl t⟩
          · split
            · rename_i hopen
              have hat : x.type r.index = lparen := by
                rw [hr.index]
                exact hopen
              refine (lasts_expect hsource hr.ready (by decide) _).after hr.ready
                (ordinary_expect _ _) (advances_expect hr.ready hat (by decide) _)
                fun _ s hs hrs => ?_
              refine Lasts.seq (lasts_within hs fun w hw => ?_) hs
                (ordinary_within (composed_expr composed_ordinary n))
                fun _ w hw _ => lasts_expect hsource hw (by decide) _
              refine lasts_expr n hw.ready.opens ?_
              have hend := hw.ready.standing.le_size
              have hw' := hw.index
              omega
            · exact Within.lasts hsource ⟨trivial, fun b => nomatch b⟩ hr.ready

/-- Arguments. -/
theorem lasts_args {p : Parser σ} {i : Nat} : ∀ n, Opens x i p → 4 * (x.size - i) + 5 ≤ n →
    (args n).Lasts x p
  | 0, _, hn => by omega
  | n + 1, hp, hn => by
      refine lasts_asRule hsource hp fun q hq hi => ?_
      refine lasts_signed hsource (by decide) (composed_expr composed_ordinary n) hq
        (fun r hr hle => lasts_expr n hr.opens (by omega)) (by omega)

end

/-! ## Statements -/

/-- A body that is invoked, and a semicolon after it. -/
theorem lasts_semi (hp : Ready x p) {body : Unit → Recognizer Unit} (hord : (body ()).Ordinary)
    (hbody : ∀ q : Parser σ, Unmoved x p q → (body ()).Lasts x q) :
    ((within (.single semi) body).bind fun _ => expect semi ruleEnd).Lasts x p :=
  Lasts.seq (lasts_within hp hbody) hp (ordinary_within hord)
    fun _ _ hq _ => lasts_expect hsource hq (by decide) _

/-- What comes in an assignment, from the name on. -/
theorem lasts_assignment : ∀ n, Ready x p → 4 * (x.size - p.index) + 5 ≤ n →
    (assignment n).Lasts x p
  | 0, _, hn => by omega
  | n + 1, hp, hn => by
      refine (lasts_expect hsource hp (by decide) _).seq hp (ordinary_expect _ _) fun _ q hq hpq => ?_
      refine (lasts_expect hsource hq (by decide) _).seq hq (ordinary_expect _ _) fun _ r hr hqr => ?_
      refine lasts_semi hsource hr (composed_expr composed_ordinary n) fun s hs => ?_
      exact lasts_expr hsource n hs.ready.opens (by rw [hs.index]; omega)

/-- How far a loop of statements is from its end: twice the tokens that are left, and one more unless a statement has
recovered at the first of them. -/
def roundsLeft (x : Tape) (p : Parser σ) : Nat :=
  2 * (x.size - p.index) + if Stalled p then 0 else 1

omit hsource in
/-- It goes down with each round that proceeds. -/
theorem roundsLeft_lt {q : Parser σ} (hq : Ready x q) (h : Proceeds p q) :
    roundsLeft x q < roundsLeft x p := by
  have hend := hq.standing.le_size
  unfold roundsLeft
  rcases h with hlt | ⟨hindex, hfirst, hstalled⟩
  · split <;> split <;> omega
  · rw [if_pos hstalled, if_neg hfirst, hindex]
    omega

omit hsource in
/-- **A loop of statements lasts** if its rounds do, and there are more of them to go than twice the tokens. -/
theorem lasts_loop {round : Recognizer Bool} (hord : round.Ordinary) (hp : Ready x p) {rounds : Nat}
    (hlasts : ∀ q : Parser σ, Ready x q → p.index ≤ q.index → round.Lasts x q)
    (hproceeds : ∀ q : Parser σ, Ready x q →
      Answers round.run q fun again r => again = true → Proceeds q r)
    (hrounds : 2 * (x.size - p.index) + 1 < rounds) :
    (repeatWhile (fun _ => round) rounds).Lasts x p := by
  refine lasts_repeatWhile hord (roundsLeft x) hp hlasts ?_ ?_
  · intro q hq
    refine ((hord.runs_ready hq).to_answers.and (hproceeds q hq)).mono ?_
    intro again r ⟨⟨hr, _⟩, hgoes⟩ hagain
    exact roundsLeft_lt hr (hgoes hagain)
  · unfold roundsLeft
    split <;> omega

/-- A guard, and a look at the current token after it. -/
theorem lasts_guard (hp : Ready x p) (set : TokenSet) {body : TokenType → Recognizer Bool}
    (hbody : ∀ q : Parser σ, Ready x q → p.index ≤ q.index → (body (x.type q.index)).Lasts x q) :
    ((sync set).bind fun _ => (typeAhead 1).bind body).Lasts x p := by
  refine Lasts.seq (Within.lasts hsource ⟨trivial, fun _ => trivial⟩ hp) hp (ordinary_perform _)
    fun _ q hq hpq => lasts_look hsource hq 1 fun r hr => ?_
  have hat : x.type (x.skip (1 - 1) q.index) = x.type r.index := by
    rw [hr.index]
    rfl
  rw [hat]
  exact hbody r hr.ready (by rw [hr.index]; exact hpq)

omit hsource in
/-- A body that is invoked by a round that goes on. -/
theorem lasts_again (hp : Ready x p) {follow : TokenSet} {body : Unit → Recognizer Unit}
    (hord : (body ()).Ordinary) (hbody : ∀ q : Parser σ, Unmoved x p q → (body ()).Lasts x q) :
    ((within follow body).bind fun _ => Recognizer.pure true).Lasts x p :=
  Lasts.seq (lasts_within hp hbody) hp (ordinary_within hord)
    fun _ q hq _ => ⟨hq.opens.sound, .refl q⟩

mutual

/-- Blocks. Where a block begins with its brace, fewer steps are enough. -/
theorem lasts_block {p : Parser σ} {i : Nat} : ∀ n, Opens x i p →
    4 * (x.size - i) + 7 ≤ n ∨ x.type i = lbrace ∧ 4 * (x.size - i) + 5 ≤ n → (block n).Lasts x p
  | 0, _, hn => by omega
  | n + 1, hp, hn => by
      rw [block_eq]
      refine lasts_asRule hsource hp fun q hq hi => ?_
      have hfirst : (expect lbrace blockLoop).Lasts x q := lasts_expect hsource hq (by decide) _
      -- after the brace, what is left of the input is less than what there are steps for
      have hrest : ∀ r : Parser σ, Ready x r → 4 * (x.size - r.index) + 6 ≤ n →
          ((repeatWhile (fun _ => blockRound n) n).bind fun _ => expect rbrace ruleEnd).Lasts x r := by
        intro r hr hn
        refine Lasts.seq (lasts_loop (ordinary_blockRound n) hr ?_
          (fun s hs => answers_blockRound hs n) (by omega)) hr
          (ordinary_repeatWhile (ordinary_blockRound n) n)
          fun _ s hs _ => lasts_expect hsource hs (by decide) _
        intro s hs hrs
        refine lasts_guard hsource hs blockLoop fun t ht hst => ?_
        split
        · refine lasts_again ht (composed_statement composed_ordinary n) fun u hu => ?_
          exact lasts_statement n hu.ready.opens (by rw [hu.index]; omega)
        · exact ⟨ht.opens.sound, .refl t⟩
      rcases hn with hn | ⟨hbrace, hn⟩
      · exact hfirst.seq hq (ordinary_expect _ _) fun _ r hr hqr => hrest r hr (by omega)
      · refine hfirst.after hq (ordinary_expect _ _)
          (advances_expect hq (by rw [hi, hbrace]) (by decide) _) fun _ r hr hqr => hrest r hr ?_
        have hend := hr.standing.le_size
        omega

/-- Statements. -/
theorem lasts_statement {p : Parser σ} {i : Nat} : ∀ n, Opens x i p → 4 * (x.size - i) + 6 ≤ n →
    (statement n).Lasts x p
  | 0, _, hn => by omega
  | n + 1, hp, hn => by
      refine lasts_asRule hsource hp fun q hq hi => lasts_look hsource hq 1 fun r hr => ?_
      have hri : r.index = i := hr.index.trans hi
      -- a call is all that is left of a statement in two of its forms
      have hcall : ∀ (s : Parser σ), Ready x s → r.index ≤ s.index →
          ((within (.single semi) fun _ => expr n).bind fun _ => expect semi ruleEnd).Lasts x s :=
        fun s hs hrs => lasts_semi hsource hs (composed_expr composed_ordinary n)
          fun t ht => lasts_expr hsource n ht.ready.opens (by rw [ht.index]; omega)
      split
      · exact (lasts_expect hsource hr.ready (by decide) _).seq hr.ready (ordinary_expect _ _)
          fun _ s hs hrs => lasts_assignment hsource n hs (by omega)
      · split
        · refine (lasts_expect hsource hr.ready (by decide) _).seq hr.ready (ordinary_expect _ _)
            fun _ s hs hrs => lasts_look hsource hs 1 fun t ht => ?_
          split
          · exact hcall t ht.ready (by rw [ht.index]; exact hrs)
          · exact lasts_expect hsource ht.ready (by decide) _
        · split
          · rename_i hbrace
            refine lasts_within hr.ready fun s hs => lasts_block n hs.ready.opens (.inr ⟨?_, ?_⟩)
            · rw [hs.index, hr.index]
              exact hbrace
            · rw [hs.index]
              omega
          · split
            · refine lasts_try hsource hr.ready ?_ ?_ fun assigns s hs => ?_
              · exact (ordinary_expect _ _).bind fun _ => ordinary_expect _ _
              · exact ⟨(by decide : TokenSet.Fits ident), fun _ =>
                  ⟨(by decide : TokenSet.Fits assign), fun _ => trivial⟩⟩
              · split
                · exact lasts_assignment hsource n hs.ready (by rw [hs.index]; omega)
                · refine lasts_look hsource hs.ready 2 fun t ht => ?_
                  split
                  · exact hcall t ht.ready (Nat.le_of_eq (ht.index.trans hs.index).symm)
                  · exact Within.lasts hsource ⟨trivial, fun b => nomatch b⟩ ht.ready
            · exact Within.lasts hsource ⟨trivial, fun b => nomatch b⟩ hr.ready

end

/-! ## Functions and whole sources -/

/-- Parameters. -/
theorem lasts_params (n : Nat) (hp : Opens x i p) (hn : x.size - i < n) : (params n).Lasts x p := by
  rw [params_eq]
  refine lasts_asRule hsource hp fun q hq hi => ?_
  refine (lasts_expect hsource hq (by decide) _).seq hq (ordinary_expect _ _) fun _ r hr hqr => ?_
  refine lasts_repeatWhile ordinary_paramsRound (fun s => x.size - s.index) hr ?_ ?_ (by omega)
  · intro s hs _
    refine lasts_look hsource hs 1 fun t ht => ?_
    split
    · refine (lasts_expect hsource ht.ready (by decide) _).seq ht.ready (ordinary_expect _ _)
        fun _ u hu _ => ?_
      exact (lasts_expect hsource hu (by decide) _).seq hu (ordinary_expect _ _)
        fun _ v hv _ => ⟨hv.opens.sound, .refl v⟩
    · exact ⟨ht.ready.opens.sound, .refl t⟩
  · intro s hs
    refine ((ordinary_paramsRound.runs_ready hs).to_answers.and (answers_paramsRound hs)).mono ?_
    intro again t ⟨⟨ht, _⟩, hgoes⟩ hagain
    have hlt := hgoes hagain
    have hend := ht.standing.le_size
    omega

/-- Functions. -/
theorem lasts_function (n : Nat) (hp : Opens x i p) (hn : 4 * (x.size - i) + 7 ≤ n) :
    (function n).Lasts x p := by
  refine lasts_asRule hsource hp fun q hq hi => ?_
  refine (lasts_expect hsource hq (by decide) _).seq hq (ordinary_expect _ _) fun _ r hr hqr => ?_
  refine (lasts_expect hsource hr (by decide) _).seq hr (ordinary_expect _ _) fun _ s hs hrs => ?_
  refine (lasts_expect hsource hs (by decide) _).seq hs (ordinary_expect _ _) fun _ t ht hst => ?_
  -- After the parameters, or where there are none, the same is still to come.
  have hblock : ∀ u : Parser σ, Ready x u → t.index ≤ u.index →
      ((expect rparen (.single lbrace)).bind fun _ => within ruleEnd fun _ => block n).Lasts x u := by
    intro u hu htu
    refine (lasts_expect hsource hu (by decide) _).seq hu (ordinary_expect _ _) fun _ v hv huv => ?_
    refine lasts_within hv fun w hw => lasts_block hsource n hw.ready.opens (.inl ?_)
    rw [hw.index]
    omega
  refine lasts_look hsource ht 1 fun u hu => ?_
  split
  · refine Lasts.seq (lasts_within hu.ready fun v hv => ?_) hu.ready
      (ordinary_within (composed_params composed_ordinary n))
      fun _ v hv huv => hblock v hv (by rw [hu.index] at huv; exact huv)
    refine lasts_params hsource n hv.ready.opens ?_
    rw [hv.index, hu.index]
    omega
  · exact hblock u hu.ready (Nat.le_of_eq hu.index.symm)

/-- Whole sources. -/
theorem lasts_script (n : Nat) (hp : Opens x i p) (hn : 4 * (x.size - i) + 7 ≤ n) :
    (script n).Lasts x p := by
  rw [script_eq]
  refine lasts_asRule hsource hp fun q hq hi => ?_
  refine Lasts.seq (lasts_loop (ordinary_scriptRound n) hq ?_
    (fun s hs => answers_scriptRound hs n) (by omega)) hq
    (ordinary_repeatWhile (ordinary_scriptRound n) n)
    fun _ s hs _ => lasts_expect hsource hs (by decide) _
  intro s hs hrs
  refine lasts_guard hsource hs scriptLoop fun t ht hst => ?_
  split
  · refine lasts_again ht (composed_function composed_ordinary n) fun u hu => ?_
    exact lasts_function hsource n hu.ready.opens (by rw [hu.index]; omega)
  · split
    · refine lasts_again ht (composed_statement composed_ordinary n) fun u hu => ?_
      exact lasts_statement hsource n hu.ready.opens (by rw [hu.index]; omega)
    · exact ⟨ht.opens.sound, .refl t⟩

/-- **The steps that are granted for an input are enough**, whichever rule the parse begins with. -/
theorem lasts_entry (r : RuleIndex) (hp : Opens x i p) {tokens : Nat} (htokens : x.size ≤ tokens) :
    (grammar.entry (stepsFor tokens) r).Lasts x p := by
  have hsteps : 4 * (x.size - i) + 7 ≤ stepsFor tokens := by
    unfold stepsFor
    omega
  unfold grammar
  simp only
  repeat' split
  · exact lasts_script hsource _ hp hsteps
  · exact lasts_function hsource _ hp hsteps
  · exact lasts_params hsource _ hp (by omega)
  · exact lasts_block hsource _ hp (.inl hsteps)
  · exact lasts_statement hsource _ hp (by omega)
  · exact lasts_expr hsource _ hp (by omega)
  · exact lasts_term hsource _ hp (by omega)
  · exact lasts_primary hsource _ hp (by omega)
  · exact lasts_args hsource _ hp (by omega)

/-- **Every parse comes to an end**, whatever the input is and whichever rule the parse begins with: it answers, unless it
is called off or too many rules are active.  **And every loop goes on**: the loops of statements in any two rounds, the
other ones in each. -/
theorem entry_ends {source : σ} (hfinite : TokenSource.RunsOut source) (language : Language)
    (recursionLimit : Option Nat) (listeners : Nat) {p₀ : Parser σ}
    (hp₀ : p₀ =
      { input := .ofSource source, language, strategy := .anchored, recursionLimit, listeners }) :
    (∀ r, ∃ q, (grammar.entry (stepsFor (TokenSource.bound source)) r).run p₀ = .ok () q ∨
      ∃ e, (grammar.entry (stepsFor (TokenSource.bound source)) r).run p₀ =
        .error (.abort (.error e)) q ∧ (e = .cancelled ∨ e = .recursionLimitExceeded)) ∧
    ∀ (x : Tape) (p q r : Parser σ), Ready x p → ∀ n,
      ((scriptRound n).run p = .ok true q → (scriptRound n).run q = .ok true r → p.index < r.index) ∧
      ((blockRound n).run p = .ok true q → (blockRound n).run q = .ok true r → p.index < r.index) ∧
      (paramsRound.run p = .ok true q → p.index < q.index) ∧
      ((signedRound addOps addOps.withEndOfRule fun _ => term n).run p = .ok true q →
        p.index < q.index) ∧
      ((signedRound mulOps mulOps.withEndOfRule fun _ => primary n).run p = .ok true q →
        p.index < q.index) ∧
      ((signedRound (.single comma) (TokenSet.single comma).withEndOfRule fun _ => expr n).run p =
        .ok true q → p.index < q.index) := by
  subst hp₀
  constructor
  · intro r
    obtain ⟨x, hx⟩ := hfinite.exists_feeds
    have hreads := Stream.reads_ofSource hx
    have hopens : Opens x (x.stop 0)
        { input := .ofSource source, language, strategy := .anchored, recursionLimit, listeners } :=
      opens_fresh hreads rfl rfl rfl rfl rfl
    -- A recognizer of a rule answers or is given up, and it is given up for foreseen reasons only.
    have hlasts := lasts_entry hsource r hopens hx.size_le_bound
    have hwhole := (ordinaryRule_stepsFor (TokenSource.bound source) r).runs_whole
      (p := { input := .ofSource source, language, strategy := .anchored, recursionLimit, listeners })
      hreads rfl rfl rfl rfl rfl rfl
    cases hrun : (grammar.entry (stepsFor (TokenSource.bound source)) r).run
        { input := .ofSource source, language, strategy := .anchored, recursionLimit, listeners } with
    | ok u q => exact ⟨q, .inl rfl⟩
    | error i q =>
        cases i with
        | recognition e => cases (Ends.of_error hwhole hrun).1
        | abort a =>
            have hforeseen : a.Foreseen False := Ends.of_error hlasts hrun
            cases hforeseen with
            | cancelled => exact ⟨q, .inr ⟨_, rfl, .inl rfl⟩⟩
            | recursionLimitExceeded => exact ⟨q, .inr ⟨_, rfl, .inr rfl⟩⟩
            | outOfSteps h => exact h.elim
  · intro x p q r hp n
    -- Two rounds make one step of the input where one alone may only mend.
    have htwice : ∀ {round : Recognizer Bool}, round.Ordinary →
        (∀ s : Parser σ, Ready x s →
          Answers round.run s fun again t => again = true → Proceeds s t) →
        round.run p = .ok true q → round.run q = .ok true r → p.index < r.index := by
      intro round hord hround hfirst hsecond
      have hq := (hord.runs_ready hp).to_answers.of_ok hfirst
      exact ((hround p hp).of_ok hfirst rfl).twice ((hround q hq.1).of_ok hsecond rfl)
    refine ⟨htwice (ordinary_scriptRound n) fun s hs => answers_scriptRound hs n,
      htwice (ordinary_blockRound n) fun s hs => answers_blockRound hs n, fun h => ?_, fun h => ?_,
      fun h => ?_, fun h => ?_⟩
    · exact (answers_paramsRound hp).of_ok h rfl
    · exact (answers_signedRound hp (by decide) (composed_term composed_ordinary n)).of_ok h rfl
    · exact (answers_signedRound hp (by decide) (composed_primary composed_ordinary n)).of_ok h rfl
    · exact (answers_signedRound hp (by decide) (composed_expr composed_ordinary n)).of_ok h rfl

end

namespace Stalling

/-- Two names in a row, and a semicolon: no statement begins like that. -/
def source : ListedTokens where
  rest := [{ ty := ident, text := "x" }, { ty := ident, text := "y" }, { ty := semi, text := ";" }]
  last := .endOfInput 3

/-- The parser of a run over them. -/
def parser : Parser ListedTokens :=
  { input := .ofSource source, language := language, strategy := .anchored, recursionLimit := none,
    listeners := 1 }

/-- The places that the first two rounds of the outermost loop begin at, and the one after them. -/
def places : Option (Nat × Nat × Nat) :=
  match enterRule scriptRule parser with
  | .ok _ p => match (scriptRound 8).run p with
    | .ok true q => match (scriptRound 8).run q with
      | .ok true r => some (p.index, q.index, r.index)
      | _ => none
    | _ => none
  | _ => none

/-- The first round fails at the first name and leaves the input there; the second one gives that name up.  The parse
goes on to its end. -/
theorem entry_ends_stalling :
    (∃ q, (grammar.entry (stepsFor (TokenSource.bound source)) scriptRule).run parser = .ok () q) ∧
    ∃ x p q r, Ready x p ∧ (scriptRound 8).run p = .ok true q ∧ (scriptRound 8).run q = .ok true r ∧
      q.index = p.index ∧ p.index < r.index ∧ (p : Parser ListedTokens).index = 0 := by
  have hsource : ∀ (s : ListedTokens) e, (TokenSource.pull s).1 = .error e → e = .cancelled :=
    fun _ _ => ListedTokens.pull_error
  have hfinite : TokenSource.RunsOut source := ListedTokens.runsOut (by decide)
  have hparser : parser =
      { input := .ofSource source, language, strategy := .anchored, recursionLimit := none,
        listeners := 1 } := rfl
  obtain ⟨hends, hgoes⟩ := entry_ends hsource hfinite language none 1 hparser
  constructor
  · have hanswers : (match (grammar.entry (stepsFor (TokenSource.bound source)) scriptRule).run
        parser with
      | .ok _ _ => true
      | .error _ _ => false) = true := by decide +kernel
    obtain ⟨q, hok | ⟨e, herror, -⟩⟩ := hends scriptRule
    · exact ⟨q, hok⟩
    · rw [herror] at hanswers
      cases hanswers
  · have hplaces : places = some (0, 0, 1) := by decide +kernel
    obtain ⟨x, hx⟩ := hfinite.exists_feeds
    have hopens : Opens x (x.stop 0) parser :=
      opens_fresh (Stream.reads_ofSource hx) rfl rfl rfl rfl rfl
    unfold places at hplaces
    split at hplaces
    · rename_i p hentered
      split at hplaces
      · rename_i q hfirst
        split at hplaces
        · rename_i r hsecond
          have hready : Ready x p := ((hopens.entered scriptRule).of_ok hentered).ready
          obtain ⟨hp, hq, -⟩ : p.index = 0 ∧ q.index = 0 ∧ r.index = 1 := by simpa using hplaces
          exact ⟨x, p, q, r, hready, hfirst, hsecond, hq.trans hp.symm,
            (hgoes x p q r hready 8).1 hfirst hsecond, hp⟩
        · cases hplaces
      · cases hplaces
    · cases hplaces

end Stalling

end TreeProjection.Sample
