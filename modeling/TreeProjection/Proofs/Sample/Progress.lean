import TreeProjection.Proofs.Lasting
import TreeProjection.Proofs.Sample.Shape

/-! # The sample grammar goes on

Each round of a loop of the sample grammar takes the input further on.  There is one exception: a statement that fails
at a name may leave the input where it is, because a loop around it can go on with a name.  Then recovery recalls that a
statement has recovered there, and as long as it does, the next statement that fails there gives up a token.

* `Sample.signedRound`, `Sample.paramsRound`, `Sample.blockRound`, `Sample.scriptRound` — the rounds of the loops.
* `Sample.Stalled` — a statement has recovered where the input stands.
* `Sample.Proceeds` — the input has moved on, or a statement has recovered there for the first time.
* `Sample.runs_statement` — a statement proceeds.
* `Sample.answers_blockRound`, `Sample.answers_scriptRound` — so do the rounds of the loops of statements. -/

namespace TreeProjection.Sample

open TreeProjection.Parser
open Recognizer

/-! ## The rounds of the loops -/

/-- A round of the loop of a list: a sign, and a part after it. -/
def signedRound (signs follow : TokenSet) (part : Unit → Recognizer Unit) : Recognizer Bool := do
  let sign ← typeAhead 1
  if signs.contains sign then
    expect sign firstExpr
    within follow part
    return true
  else return false

/-- A round of the loop of the parameters: a comma, and a name after it. -/
def paramsRound : Recognizer Bool := do
  if (← typeAhead 1) = comma then
    expect comma (.single ident)
    expect ident (TokenSet.single comma).withEndOfRule
    return true
  else return false

/-- A round of a block's loop: a statement. -/
def blockRound (steps : Nat) : Recognizer Bool := do
  sync blockLoop
  if firstStatement.contains (← typeAhead 1) then
    within blockLoop fun _ => statement steps
    return true
  else return false

/-- A round of the outermost loop: a function or a statement. -/
def scriptRound (steps : Nat) : Recognizer Bool := do
  sync scriptLoop
  let ty ← typeAhead 1
  if ty = func then
    within scriptLoop fun _ => function steps
    return true
  else if firstStatement.contains ty then
    within scriptLoop fun _ => statement steps
    return true
  else return false

theorem signed_eq (signs follow : TokenSet) (part : Unit → Recognizer Unit) (rounds : Nat) :
    signed signs follow part rounds = (within follow part).bind fun _ =>
      repeatWhile (fun _ => signedRound signs follow part) rounds := rfl

theorem params_eq (steps : Nat) : params steps = asRule paramsRule fun _ =>
    (expect ident (TokenSet.single comma).withEndOfRule).bind fun _ =>
      repeatWhile (fun _ => paramsRound) steps := rfl

theorem block_eq (n : Nat) : block (n + 1) = asRule blockRule fun _ =>
    (expect lbrace blockLoop).bind fun _ => (repeatWhile (fun _ => blockRound n) n).bind fun _ =>
      expect rbrace ruleEnd := rfl

theorem script_eq (steps : Nat) : script steps = asRule scriptRule fun _ =>
    (repeatWhile (fun _ => scriptRound steps) steps).bind fun _ => expect .eof ruleEnd := rfl

/-- The rounds of a list's loop are ordinary if its parts are. -/
theorem ordinary_signedRound {signs follow : TokenSet} {part : Unit → Recognizer Unit}
    (hpart : (part ()).Ordinary) : (signedRound signs follow part).Ordinary := by
  refine (ordinary_typeAhead 1).bind fun sign => ?_
  split
  · exact (ordinary_expect _ _).bind fun _ => (ordinary_within hpart).bind fun _ => trivial
  · trivial

/-- The rounds of the parameters' loop are ordinary. -/
theorem ordinary_paramsRound : paramsRound.Ordinary := by
  refine (ordinary_typeAhead 1).bind fun ty => ?_
  split
  · exact (ordinary_expect _ _).bind fun _ => (ordinary_expect _ _).bind fun _ => trivial
  · trivial

/-- The rounds of a block's loop are ordinary. -/
theorem ordinary_blockRound (n : Nat) : (blockRound n).Ordinary := by
  refine (ordinary_perform _).bind fun _ => (ordinary_typeAhead 1).bind fun ty => ?_
  split
  · exact (ordinary_within (composed_statement composed_ordinary n)).bind fun _ => trivial
  · trivial

/-- The rounds of the outermost loop are ordinary. -/
theorem ordinary_scriptRound (n : Nat) : (scriptRound n).Ordinary := by
  refine (ordinary_perform _).bind fun _ => (ordinary_typeAhead 1).bind fun ty => ?_
  split
  · exact (ordinary_within (composed_function composed_ordinary n)).bind fun _ => trivial
  · split
    · exact (ordinary_within (composed_statement composed_ordinary n)).bind fun _ => trivial
    · trivial

variable {σ : Type} [TokenSource σ] {x : Tape} {p q r : Parser σ}

/-! ## Recognizers that begin with the current token -/

/-- A list whose first part begins with the current token advances. -/
theorem advances_signed (hp : Ready x p) {signs follow : TokenSet} {part : Unit → Recognizer Unit}
    (hpart : (part ()).Ordinary) (h : ∀ q : Parser σ, Unmoved x p q → (part ()).Advances q)
    (rounds : Nat) : (signed signs follow part rounds).Advances p := by
  have hord : (signed signs follow part rounds).Ordinary :=
    composed_signed composed_ordinary hpart rounds
  exact Advances.bind (advances_within hp h) hp hord

/-- A factor that begins with a name. -/
theorem advances_primary (hp : Ready x p) (hty : x.type p.index = ident) :
    ∀ n, (primary n).Advances p := by
  intro n
  cases n with
  | zero => trivial
  | succ n =>
      have hord := (composed_primary composed_ordinary (n + 1)).1
      refine advances_asRule hp hord fun q hq => advances_look hq.ready 1 fun r hr => ?_
      have hat : x.type (x.skip (1 - 1) q.index) = ident := by
        rw [hq.index]
        exact hty
      have hrest := ordinary_of_look hord ident
      rw [hat]
      rw [if_neg (by decide), if_neg (by decide), if_pos rfl] at hrest ⊢
      exact Advances.bind (advances_expect hr.ready (by rw [hr.index]; exact hat) (by decide) _) hr.ready
        hrest

/-- A product that begins with a name. -/
theorem advances_term (hp : Ready x p) (hty : x.type p.index = ident) : ∀ n, (term n).Advances p := by
  intro n
  cases n with
  | zero => trivial
  | succ n =>
      have hpart := composed_primary composed_ordinary n
      refine advances_asRule hp (composed_signed composed_ordinary hpart n) fun q hq =>
        advances_signed hq.ready hpart (fun r hr => advances_primary hr.ready ?_ n) n
      rw [hr.index, hq.index, hty]

/-- A sum that begins with a name. -/
theorem advances_expr (hp : Ready x p) (hty : x.type p.index = ident) : ∀ n, (expr n).Advances p := by
  intro n
  cases n with
  | zero => trivial
  | succ n =>
      have hpart := composed_term composed_ordinary n
      refine advances_asRule hp (composed_signed composed_ordinary hpart n) fun q hq =>
        advances_signed hq.ready hpart (fun r hr => advances_term hr.ready ?_ n) n
      rw [hr.index, hq.index, hty]

/-- What comes in an assignment, from the name on. -/
theorem advances_assignment (hp : Ready x p) (hty : x.type p.index = ident) :
    ∀ n, (assignment n).Advances p := by
  intro n
  cases n with
  | zero => trivial
  | succ n =>
      exact Advances.bind (advances_expect hp hty (by decide) _) hp (composed_assignment composed_ordinary (n + 1))

/-- A block that begins with a brace. -/
theorem advances_block (hp : Ready x p) (hty : x.type p.index = lbrace) : ∀ n, (block n).Advances p := by
  intro n
  cases n with
  | zero => trivial
  | succ n =>
      have hord := (composed_block composed_ordinary (n + 1)).1
      refine advances_asRule hp hord fun q hq => Advances.bind ?_ hq.ready hord
      exact advances_expect hq.ready (by rw [hq.index, hty]) (by decide) _

/-- A function that begins with its keyword. -/
theorem advances_function (hp : Ready x p) (hty : x.type p.index = func) (n : Nat) :
    (function n).Advances p := by
  have hord := (composed_function composed_ordinary n).1
  refine advances_asRule hp hord fun q hq => Advances.bind ?_ hq.ready hord
  exact advances_expect hq.ready (by rw [hq.index, hty]) (by decide) _

/-! ## Statements -/

/-- **A statement has recovered where the input stands**, and no token has been matched since. -/
def Stalled (p : Parser σ) : Prop :=
  p.recovery.inRecovery = true ∧ p.recovery.lastErrorIndex = some p.index ∧
    statementRule ∈ p.recovery.lastErrorRules

instance (p : Parser σ) : Decidable (Stalled p) := inferInstanceAs (Decidable (_ ∧ _ ∧ _))

/-- **The input has moved on**, or a statement has recovered where it stands and had not before. -/
def Proceeds (p q : Parser σ) : Prop :=
  p.index < q.index ∨ q.index = p.index ∧ ¬ Stalled p ∧ Stalled q

omit [TokenSource σ] in
/-- Twice in a row the input cannot stay where it is. -/
theorem Proceeds.twice (h : Proceeds p q) (h' : Proceeds q r) : p.index < r.index := by
  rcases h with h | ⟨hindex, -, hq⟩
  · rcases h' with h' | ⟨hindex', -⟩
    · exact Nat.lt_trans h h'
    · rwa [hindex']
  · rcases h' with h' | ⟨-, hq', -⟩
    · rwa [hindex] at h'
    · exact absurd hq hq'

/-- **The end of a statement's body** that begins where a statement may: it has advanced, or has failed right there. -/
def Failing (x : Tape) (p : Parser σ) (o : Except RecognitionException Unit) (q : Parser σ) : Prop :=
  p.index < q.index ∨ (∃ e, o = .error e) ∧ Unmoved x p q

/-- A recognizer that advances ends so. -/
theorem failing_of_advances {r : Recognizer Unit} (hq : Unmoved x p q) (h : r.Advances q) :
    Runs r.run q (fun _ => True) (Failing x p) :=
  (h.of_unmoved hq).mono fun _ _ hlt => .inl hlt

/-- Failing for want of an alternative leaves the input where it is. -/
theorem failing_noViableAlt (hp : Unmoved x p q) (depth : Nat) :
    Runs (noViableAlt depth : Recognizer Unit).run q (fun _ => True) (Failing x p) := by
  refine (runs_raiseNoViableAlt hp.ready trivial depth).bind (fun a => nomatch a) ?_
  intro e r ⟨_, _, hfailed, _⟩
  exact .inr ⟨⟨e, rfl⟩, hfailed.step.ready hp.ready, hfailed.index.trans hp.index,
    hfailed.recovery.trans hp.recovery⟩

/-- The rest of a statement that begins with a name, once it has been tried whether it is an assignment. -/
theorem failing_named (hp : Unmoved x p q) (hty : x.type p.index = ident) (n : Nat) (assigns : Bool)
    (hord : (if assigns = true then assignment n else (typeAhead 2).bind fun ty =>
      if ty = lparen then (within (.single semi) fun _ => expr n).bind fun _ => expect semi ruleEnd
      else noViableAlt 2).Ordinary) :
    Runs (if assigns = true then assignment n else (typeAhead 2).bind fun ty =>
      if ty = lparen then (within (.single semi) fun _ => expr n).bind fun _ => expect semi ruleEnd
      else noViableAlt 2).run q (fun _ => True) (Failing x p) := by
  cases assigns with
  | true => exact failing_of_advances hp (advances_assignment hp.ready (by rw [hp.index, hty]) n)
  | false =>
      refine runs_look hp.ready 2 fun r hr => ?_
      have hr' := hp.trans hr
      have hrest := ordinary_of_look hord (x.type (x.skip (2 - 1) q.index))
      by_cases hcall : x.type (x.skip (2 - 1) q.index) = lparen
      · rw [if_pos hcall] at hrest ⊢
        refine failing_of_advances hr' (Advances.bind ?_ hr'.ready hrest)
        refine advances_within hr'.ready fun s hs => advances_expr hs.ready ?_ n
        rw [hs.index, hr'.index, hty]
      · rw [if_neg hcall]
        exact failing_noViableAlt hr' 2

/-- **A statement's body** where a statement may begin. -/
theorem failing_statement (hty : x.type p.index ∈ statementHeads) (n : Nat) :
    ∃ body, statement (n + 1) = asRule statementRule body ∧
      ∀ q : Parser σ, Unmoved x p q → Runs (body ()).run q (fun _ => True) (Failing x p) := by
  refine ⟨_, rfl, fun q hq => runs_look hq.ready 1 fun r hr => ?_⟩
  have hord := (composed_statement composed_ordinary (n + 1)).1
  have hrest := ordinary_of_look hord (x.type p.index)
  have hr' := hq.trans hr
  have hat : x.type (x.skip (1 - 1) q.index) = x.type p.index := by
    rw [hq.index]
    rfl
  have hat' : x.type r.index = x.type p.index := by rw [hr'.index]
  rw [hat]
  simp only [statementHeads, List.mem_cons, List.not_mem_nil, or_false] at hty
  -- a case for each type that a statement begins with, in the order in which the grammar asks for them
  rcases hty with hty | hty | hty | hty
  · rw [hty] at hrest hat' ⊢
    rw [if_pos rfl] at hrest ⊢
    exact failing_of_advances hr' (Advances.bind (advances_expect hr'.ready hat' (by decide) _)
      hr'.ready hrest)
  · rw [hty] at hrest hat' ⊢
    rw [if_neg (by decide), if_pos rfl] at hrest ⊢
    exact failing_of_advances hr' (Advances.bind (advances_expect hr'.ready hat' (by decide) _)
      hr'.ready hrest)
  · rw [hty] at hat' ⊢
    rw [if_neg (by decide), if_neg (by decide), if_pos rfl]
    refine failing_of_advances hr' (advances_within hr'.ready fun s hs => ?_)
    exact advances_block hs.ready (by rw [hs.index, hat']) n
  · rw [hty] at hrest ⊢
    rw [if_neg (by decide), if_neg (by decide), if_neg (by decide), if_pos rfl] at hrest ⊢
    refine runs_try hr'.ready hrest.1 fun assigns s hs => ?_
    exact failing_named (hr'.trans hs) hty n assigns (hrest.2 assigns)

/-- **A statement proceeds** where a statement may begin. -/
theorem runs_statement (hp : Ready x p) (hty : x.type p.index ∈ statementHeads) :
    ∀ n, Runs (statement n).run p (fun _ => True) fun _ q =>
      p.index < q.index ∨ q.index = p.index ∧ ¬ p.Recalls statementRule ∧ Stalled q := by
  intro n
  cases n with
  | zero => trivial
  | succ n =>
      have hinner : p.index < x.size := by
        refine Nat.lt_of_not_le fun hle => ?_
        rw [x.type_eq_eof_iff.mpr hle] at hty
        exact absurd hty (by decide)
      obtain ⟨body, hbody, hruns⟩ := failing_statement hty n
      have hord := composed_statement composed_ordinary (n + 1)
      rw [hbody] at hord ⊢
      refine (runs_asRule hp hord.1 hruns).mono ?_
      rintro o q ⟨q₀, h⟩
      rcases h with ⟨hlt | ⟨⟨_, he⟩, -⟩, hindex⟩ | ⟨e, hlt | ⟨-, hfailed⟩, hresumed, hrec⟩
      · exact .inl (by rwa [hindex])
      · cases he
      · exact .inl (Nat.lt_of_lt_of_le hlt hresumed.index_le)
      · -- the body has failed where the statement began, and recovery decides
        cases hresumed with
        | atEnd hend =>
            rw [hfailed.index] at hend
            exact absurd hinner (Nat.not_lt_of_le hend)
        | moved hlt =>
            rw [hfailed.index] at hlt
            exact .inl hlt
        | stayed hindex first recalls =>
            exact .inr ⟨hindex.trans hfailed.index, fun h => first (hfailed.recalls_iff.mpr h), hrec,
              recalls⟩

/-! ## Rounds -/

/-- **A guard** does not take the input back, and it does nothing while reports are held back. -/
theorem runs_guard (hp : Ready x p) (set : TokenSet) :
    Runs (sync set).run p (fun _ => True) fun _ q =>
      Ready x q ∧ p.index ≤ q.index ∧ (p.recovery.inRecovery = true → q.recovery = p.recovery ∧
        q.index = p.index) := by
  refine (runs_sync hp trivial set fun _ _ _ _ => trivial).bind ?_ ?_
  · intro _ q ⟨_, hguarded⟩
    cases hguarded with
    | «open» step index recovery _ => exact ⟨step.ready hp, step.index_le, fun _ => ⟨recovery, index⟩⟩
    | passed free _ _ _ step =>
        refine ⟨step.ready hp, step.index_le, fun h => ?_⟩
        rw [free] at h
        cases h
    | stayed free _ _ step =>
        refine ⟨step.ready hp, step.index_le, fun h => ?_⟩
        rw [free] at h
        cases h
  · intro e q ⟨he, _⟩
    cases he

/-- **A guarded round proceeds** if what comes after the guard does, or does not go on. -/
theorem answers_round (hp : Ready x p) {set : TokenSet} {body : TokenType → Recognizer Bool}
    (hbody : ∀ q : Parser σ, Ready x q → Runs (body (x.type q.index)).run q (fun _ => True) fun o r =>
      o = .ok true → q.index < r.index ∨ r.index = q.index ∧ ¬ q.Recalls statementRule ∧ Stalled r) :
    Answers ((sync set).bind fun _ => (typeAhead 1).bind body).run p fun again r =>
      again = true → Proceeds p r := by
  rw [run_bind]
  have hround : Runs ((sync set).run >>= fun _ => ((typeAhead 1).bind body).run) p (fun _ => True)
      fun o r => o = .ok true → Proceeds p r := by
    refine (runs_guard hp set).bind ?_ (by intro _ _ _ h; cases h)
    intro _ q ⟨hq, hle, hheld⟩
    refine runs_look hq 1 fun s hs => ?_
    have hat : x.type (x.skip (1 - 1) q.index) = x.type s.index := by
      rw [hs.index]
      rfl
    rw [hat]
    refine (hbody s hs.ready).mono fun o r h ho => ?_
    rw [hs.index, hs.recalls_iff] at h
    rcases h ho with hlt | ⟨hindex, hfirst, hstalled⟩
    · exact .inl (Nat.lt_of_le_of_lt hle hlt)
    · rcases Nat.eq_or_lt_of_le hle with hsame | hlt
      · refine .inr ⟨hindex.trans hsame.symm, fun hp' => hfirst ?_, hstalled⟩
        -- the guard has done nothing, so that recovery recalls what it did before
        obtain ⟨hrecovery, -⟩ := hheld hp'.1
        rw [Recalls, hrecovery, ← hsame]
        exact hp'.2
      · exact .inl (by rwa [hindex])
  refine hround.to_answers.mono fun again r h hagain => h ?_
  rw [hagain]

/-- A statement that is invoked by a round. -/
theorem runs_statement_round (hp : Ready x p) (follow : TokenSet)
    (hty : x.type p.index ∈ statementHeads) (n : Nat) :
    Runs ((within follow fun _ => statement n).bind fun _ => Recognizer.pure true).run p
      (fun _ => True) fun _ q =>
        p.index < q.index ∨ q.index = p.index ∧ ¬ p.Recalls statementRule ∧ Stalled q := by
  have hinvoked : Runs (within follow fun _ => statement n).run p (fun _ => True) fun _ q =>
      p.index < q.index ∨ q.index = p.index ∧ ¬ p.Recalls statementRule ∧ Stalled q := by
    refine runs_within hp (fun q hq => ?_) fun _ _ h => h
    refine (runs_statement hq.ready (by rwa [hq.index]) n).mono fun o r h => ?_
    rwa [hq.index, hq.recalls_iff] at h
  rw [run_bind]
  exact hinvoked.bind (fun _ _ h => h) fun _ _ h => h

/-- **A round of a block's loop proceeds.** -/
theorem answers_blockRound (hp : Ready x p) (n : Nat) :
    Answers (blockRound n).run p fun again r => again = true → Proceeds p r := by
  refine answers_round hp fun q hq => ?_
  by_cases hty : firstStatement.contains (x.type q.index) = true
  · rw [if_pos hty]
    exact (runs_statement_round hq blockLoop (contains_firstStatement.mp hty) n).mono
      fun _ _ h _ => h
  · rw [if_neg hty]
    intro h
    cases h

/-- **A round of the outermost loop proceeds.** -/
theorem answers_scriptRound (hp : Ready x p) (n : Nat) :
    Answers (scriptRound n).run p fun again r => again = true → Proceeds p r := by
  refine answers_round hp fun q hq => ?_
  by_cases hfunc : x.type q.index = func
  · rw [if_pos hfunc]
    have hord : ((within scriptLoop fun _ => function n).bind fun _ =>
        Recognizer.pure true).Ordinary :=
      (ordinary_within (composed_function composed_ordinary n)).bind fun _ => trivial
    refine Runs.mono (Advances.bind (advances_within hq fun r hr => ?_) hq hord)
      fun _ _ h _ => .inl h
    exact advances_function hr.ready (by rw [hr.index, hfunc]) n
  · rw [if_neg hfunc]
    by_cases hty : firstStatement.contains (x.type q.index) = true
    · rw [if_pos hty]
      exact (runs_statement_round hq scriptLoop (contains_firstStatement.mp hty) n).mono
        fun _ _ h _ => h
    · rw [if_neg hty]
      intro h
      cases h

/-- A round that looks at the current token and matches it, if it goes on, moves the input on. -/
theorem answers_lookRound (hp : Ready x p) {body : TokenType → Recognizer Bool}
    (hbody : ∀ q : Parser σ, Unmoved x p q → (body (x.type p.index)).Advances q ∨
      body (x.type p.index) = .pure false) :
    Answers ((typeAhead 1).bind body).run p fun again r => again = true → p.index < r.index := by
  have hround : Runs ((typeAhead 1).bind body).run p (fun _ => True)
      fun o r => o = .ok true → p.index < r.index := by
    refine runs_look hp 1 fun q hq => ?_
    change Runs (body (x.type p.index)).run q _ _
    rcases hbody q hq with h | h
    · exact (h.of_unmoved hq).mono fun _ _ hlt _ => hlt
    · rw [h]
      intro ho
      cases ho
  refine hround.to_answers.mono fun again r h hagain => h ?_
  rw [hagain]

/-- **A round of a list's loop moves the input on.** -/
theorem answers_signedRound (hp : Ready x p) {signs follow : TokenSet}
    (hsigns : signs.contains .eof = false) {part : Unit → Recognizer Unit}
    (hpart : (part ()).Ordinary) :
    Answers (signedRound signs follow part).run p fun again r => again = true → p.index < r.index := by
  refine answers_lookRound hp fun q hq => ?_
  by_cases hsign : signs.contains (x.type p.index) = true
  · rw [if_pos hsign]
    have hne : x.type p.index ≠ .eof := by
      intro heof
      rw [heof, hsigns] at hsign
      cases hsign
    refine .inl (Advances.bind (advances_expect hq.ready (by rw [hq.index]) hne _) hq.ready ?_)
    exact (ordinary_expect _ _).bind fun _ => (ordinary_within hpart).bind fun _ => trivial
  · rw [if_neg hsign]
    exact .inr rfl

/-- **A round of the parameters' loop moves the input on.** -/
theorem answers_paramsRound (hp : Ready x p) :
    Answers paramsRound.run p fun again r => again = true → p.index < r.index := by
  refine answers_lookRound hp fun q hq => ?_
  by_cases hcomma : x.type p.index = comma
  · rw [if_pos hcomma]
    refine .inl (Advances.bind (advances_expect hq.ready (by rw [hq.index, hcomma]) (by decide) _)
      hq.ready ?_)
    exact (ordinary_expect _ _).bind fun _ => (ordinary_expect _ _).bind fun _ => trivial
  · rw [if_neg hcomma]
    exact .inr rfl

end TreeProjection.Sample
