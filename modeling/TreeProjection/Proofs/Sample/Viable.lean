import TreeProjection.Proofs.Sample.Descent

/-! # The sample recognizers take what the grammar has

Each recognizer of the sample grammar, begun quietly where its rule may come, takes its rule: it goes on quietly
with a derivation of the rule, or the tape goes wrong and the first report is made there.  What its callers take to
follow has to be what may come after the rule.

* `Sample.Accepts` — a recognizer takes a phrase wherever the phrase may come.
* `Sample.accepts_block`, `Sample.accepts_statement`, `Sample.accepts_expr` and the like — the rules one by one.
* `Sample.runs_script` — a whole source. -/

namespace TreeProjection.Sample

open TreeProjection.Parser
open ParseNode (View)
open Phrase

variable {σ : Type} [TokenSource σ] {x : Tape} {a b : Phrase} {K M N : List TokenType → Prop}
  {t ty : TokenType} {fits fits' : (List TokenType → Prop) → Prop} {callers : List TokenSet}
  {follow : TokenSet}

/-! ## Recognizers that take phrases -/

/-- **A recognizer takes a phrase wherever the phrase may come**, if what may come after it fits, and if what is stated
to follow it may come. -/
def Accepts (σ : Type) [TokenSource σ] (x : Tape) (follow : TokenSet) (r : Recognizer Unit) (a : Phrase)
    (fits : (List TokenType → Prop) → Prop) : Prop :=
  ∀ (callers : List TokenSet) (p : Parser σ) (e : Nat) (K : List TokenType → Prop),
    Quiet x callers p → fits K → Permits callers follow K → Awaits x e p.index (After a K) →
      TakesAt x e r a K p

namespace Accepts

variable {r : Recognizer Unit} {f : Unit → Recognizer Unit} {body : Unit → Recognizer Unit}

/-- Giving up. -/
theorem outOfSteps : Accepts σ x follow .outOfSteps a fits := fun _ _ _ _ hp _ _ _ _ => hp.fair

/-- Matching a token. -/
theorem expect (hty : ty ∈ symbols) :
    Accepts σ x follow (Recognizer.expect ty follow) (token ty) fits :=
  fun _ _ _ _ hp _ hK h => takes_expect hp hty follow hK h

/-- One phrase after the other, if what is stated to follow the first heralds the second. -/
theorem seq (h : Accepts σ x follow r a fits') (hheralds : Heralds follow b)
    (h' : Accepts σ x ruleEnd (f ()) b fits) (hfits : ∀ K, fits K → fits' (After b K)) :
    Accepts σ x ruleEnd (r.bind f) (.seq a b) fits := by
  intro callers p e K hp hK hend hawaits
  rw [after_seq] at hawaits
  obtain ⟨z, hz, -⟩ := hawaits.possible
  have hne : ∃ z, K z := exists_of_after (exists_of_after ⟨z, hz⟩)
  refine (h callers p e _ hp (hfits K hK) (hheralds.permits hne hend) hawaits).seq hp ?_
  exact fun q hq hq' => h' callers q e K hq hK hend hq'

/-- A token, and then a phrase. -/
theorem token_seq (hty : ty ∈ symbols) (hheralds : Heralds follow b)
    (h : Accepts σ x ruleEnd (f ()) b fits) :
    Accepts σ x ruleEnd ((Recognizer.expect ty follow).bind f) (.seq (token ty) b) fits := by
  have htoken : Accepts σ x follow (Recognizer.expect ty follow) (token ty) fun _ => True :=
    expect hty
  exact htoken.seq hheralds h fun _ _ => trivial

/-- Invoking a body, at whose end comes what is stated to follow. -/
theorem within (h : Accepts σ x ruleEnd (body ()) a fits) :
    Accepts σ x follow (Recognizer.within follow body) a fits := by
  intro callers p e K hp hK hfollow hawaits
  refine parses_within hp fun p₁ hp₁ hindex => ?_
  rw [← hindex] at hawaits ⊢
  exact h _ p₁ e K hp₁ hK (permits_invoked.mpr hfollow) hawaits

/-- A rule. -/
theorem asRule {r : RuleIndex} (h : Accepts σ x follow (body ()) (rhs r) fits) :
    Accepts σ x follow (Recognizer.asRule r body) (rule r) fits := by
  intro callers p e K hp hK hfollow hawaits
  rw [after_rule] at hawaits
  refine takes_asRule hp fun p₁ hp₁ hindex => ?_
  rw [← hindex] at hawaits
  exact h callers p₁ e K hp₁ hK hfollow hawaits

/-- A loop, if each round is decided by the type ahead. -/
theorem repeatWhile (fits : (List TokenType → Prop) → Prop) {body : Unit → Recognizer Bool}
    (hbody : ∀ (callers : List TokenSet) (p : Parser σ) (e : Nat) (K : List TokenType → Prop),
      Quiet x callers p → fits K → Permits callers follow K → Awaits x e p.index (After (many a) K) →
      Parses x (body ()) p fun again vs j =>
        if again then Takes x e p.index a (After (many a) K) vs j
        else Takes x e p.index .empty K vs j) (rounds : Nat) :
    Accepts σ x follow (Recognizer.repeatWhile body rounds) (many a) fits :=
  fun callers _ e K hp hK hfollow h =>
    takes_repeatWhile hp h (fun q hq hq' => hbody callers q e K hq hK hfollow hq') rounds

/-- **Something that may be left out**, decided by the type ahead, and what comes after it. -/
theorem optional {c : TokenType → Prop} [DecidablePred c] (heads heads' : List TokenType)
    {r r' : Recognizer Unit} (hc : ∀ t, c t ↔ t ∈ heads) (ha : Begins heads (Derives a))
    (hne : ∃ u, Derives a u) (hb : ∀ K, fits K → Begins heads' (After b K))
    (hdisjoint : ∀ t ∈ heads, t ∉ heads') (hyes : Accepts σ x follow r (.seq a b) fits)
    (hno : Accepts σ x follow r' b fits) :
    Accepts σ x follow ((Recognizer.typeAhead 1).bind fun ty => if c ty then r else r')
      (.seq (Phrase.optional a) b) fits := by
  intro callers p e K hp hK hfollow h
  obtain ⟨u, hu⟩ := hne
  rw [after_seq] at h
  obtain ⟨z, hz, -⟩ := h.possible
  have hne' : ∃ z, After b K z := exists_of_after ⟨z, hz⟩
  refine Parses.look hp 1 fun q hq hindex => ?_
  rw [← hindex] at h ⊢
  refine Parses.ite h (M := After a (After b K)) (N := After b K) (fun z => ?_)
    (hc _) (ha.after _) (fun t ht => (hb K hK).not_cons (hdisjoint t ht)) (hu.exists_after hne')
    hne' (fun _ h => ?_) fun _ h => ?_
  · rw [Phrase.optional, after_alt, after_empty]
    exact Or.comm
  · rw [← after_seq] at h
    refine (hyes callers q e K hq hK hfollow h).of_spells fun vs hvs => ?_
    cases hvs with
    | seq ha hb => exact .seq (.right ha) hb
  · refine (hno callers q e K hq hK hfollow h).of_spells fun vs hvs => ?_
    exact .seq (.left .empty) hvs

/-- The trees may be a derivation of another phrase that stands for the same. -/
theorem of_spells (h : Accepts σ x follow r a fits) (hafter : ∀ K, After b K = After a K)
    (hspells : ∀ vs, Spells a vs → Spells b vs) : Accepts σ x follow r b fits := by
  intro callers p e K hp hK hfollow hawaits
  rw [hafter] at hawaits
  exact (h callers p e K hp hK hfollow hawaits).of_spells hspells

/-- Nothing. -/
theorem pure : Accepts σ x follow (.pure ()) .empty fits := by
  intro callers p e K hp _ _ h
  rw [after_empty] at h
  exact .nil hp h .empty

/-- What is asked of what comes after may be more. -/
theorem mono (h : Accepts σ x follow r a fits) (hfits : ∀ K, fits' K → fits K) :
    Accepts σ x follow r a fits' :=
  fun callers p e K hp hK => h callers p e K hp (hfits K hK)

/-- Something at the end that may be left out, decided by the type ahead. -/
theorem optionalLast {c : TokenType → Prop} [DecidablePred c] (heads : List TokenType)
    {heads' : List TokenType} (hc : ∀ t, c t ↔ t ∈ heads) (ha : Begins heads (Derives a)) (hne : ∃ u, Derives a u)
    (hdisjoint : ∀ t ∈ heads, t ∉ heads') (hyes : Accepts σ x follow r a (Begins heads')) :
    Accepts σ x follow ((Recognizer.typeAhead 1).bind fun ty => if c ty then r else .pure ())
      (Phrase.optional a) (Begins heads') := by
  have hempty : ∀ {a : Phrase} vs, Spells (.seq a .empty) vs → Spells a vs := by
    intro a vs h
    cases h with
    | seq ha hempty =>
        cases hempty
        rwa [List.append_nil]
  refine Accepts.of_spells (a := .seq (Phrase.optional a) .empty) ?_ (fun K => ?_) fun vs h => hempty vs h
  · refine optional heads heads' hc ha hne (fun K hK => ?_) hdisjoint (hyes.of_spells (fun K => ?_) ?_) pure
    · rwa [after_empty]
    · rw [after_seq, after_empty]
    · intro vs h
      rw [← List.append_nil vs]
      exact .seq h .empty
  · rw [after_seq, after_empty]

end Accepts

/-! ## Lists with signs -/

/-- One of some tokens. -/
def oneOf (first : TokenType) : List TokenType → Phrase
  | [] => token first
  | next :: rest => alt (token first) (oneOf next rest)

/-- What one of some tokens stands for. -/
theorem derives_oneOf {first : TokenType} {rest : List TokenType} {u : List TokenType} :
    Derives (oneOf first rest) u ↔ ∃ t ∈ first :: rest, u = [t] := by
  induction rest generalizing first with
  | nil =>
      constructor
      · intro h
        cases h with
        | token ty => exact ⟨first, List.mem_cons_self, rfl⟩
      · rintro ⟨t, ht, rfl⟩
        rw [List.mem_singleton.mp ht]
        exact .token first
  | cons next rest ih =>
      constructor
      · intro h
        cases h with
        | left h =>
            cases h with
            | token ty => exact ⟨first, List.mem_cons_self, rfl⟩
        | right h =>
            obtain ⟨t, ht, rfl⟩ := ih.mp h
            exact ⟨t, List.mem_cons_of_mem _ ht, rfl⟩
      · rintro ⟨t, ht, rfl⟩
        rcases List.mem_cons.mp ht with rfl | ht
        · exact .left (.token t)
        · exact .right (ih.mpr ⟨t, ht, rfl⟩)

/-- A token is a derivation of one of some tokens, if it is one of them. -/
theorem Spells.oneOf {first : TokenType} {rest : List TokenType} (ht : t ∈ first :: rest)
    {vs : List View} (h : Spells (Phrase.token t) vs) : Spells (Sample.oneOf first rest) vs := by
  induction rest generalizing first with
  | nil =>
      rw [List.mem_singleton.mp ht] at h
      exact h
  | cons next rest ih =>
      rcases List.mem_cons.mp ht with rfl | ht
      · exact .left h
      · exact .right (ih ht)

/-- One of some tokens comes first. -/
theorem after_oneOf_cons {first : TokenType} {rest z : List TokenType} :
    After (oneOf first rest) K (t :: z) ↔ t ∈ first :: rest ∧ K z := by
  constructor
  · rintro ⟨u, v, hu, hv, heq⟩
    obtain ⟨t', ht', rfl⟩ := derives_oneOf.mp hu
    obtain ⟨rfl, rfl⟩ := List.cons.inj heq
    exact ⟨ht', hv⟩
  · rintro ⟨ht, hz⟩
    exact (derives_oneOf.mpr ⟨t, ht, rfl⟩).after hz

/-- One of some tokens begins with its type. -/
theorem begins_oneOf {first : TokenType} {rest : List TokenType} :
    Begins (first :: rest) (Derives (oneOf first rest)) := by
  intro u hu
  obtain ⟨t, ht, rfl⟩ := derives_oneOf.mp hu
  exact ⟨t, ht, [], rfl⟩

/-- Each of some tokens begins one of them. -/
theorem starts_oneOf {first : TokenType} {rest : List TokenType} :
    Starts (first :: rest) (Derives (oneOf first rest)) :=
  fun t ht => ⟨[], derives_oneOf.mpr ⟨t, ht, rfl⟩⟩

/-- Matching one of some tokens, when its type is ahead. -/
theorem takes_oneOf {p : Parser σ} {e : Nat} {first : TokenType} {rest : List TokenType}
    (hp : Quiet x callers p) (hsymbols : first :: rest ⊆ symbols)
    (hfollow : Permits callers follow K) (h : Awaits x e p.index (After (oneOf first rest) K))
    (ht : x.type p.index ∈ first :: rest) :
    TakesAt x e (Recognizer.expect (x.type p.index) follow) (oneOf first rest) K p := by
  obtain ⟨z, hz, -⟩ := h.possible
  have hawaits := h.choose (N := After (token (x.type p.index)) K) (fun z hz => ?_) (fun z hz => ?_)
    ((Derives.token _).exists_after (exists_of_after ⟨z, hz⟩))
  · exact (takes_expect hp (hsymbols ht) follow hfollow hawaits).of_spells fun vs hvs => hvs.oneOf ht
  · obtain ⟨v, hv, rfl⟩ := after_token.mp hz
    exact after_oneOf_cons.mpr ⟨ht, hv⟩
  · exact after_token_cons.mpr ⟨rfl, (after_oneOf_cons.mp hz).2⟩

/-- **A list of parts with signs between them**, if nothing that may come after it is a sign. -/
theorem accepts_signed (first : TokenType) (rest : List TokenType) {heads : List TokenType}
    {signs : TokenSet} {part : Unit → Recognizer Unit}
    (hpart : Accepts σ x ruleEnd (part ()) b (Begins (first :: rest ++ heads)))
    (hsigns : ∀ t, signs.contains t = true ↔ t ∈ first :: rest) (hsymbols : first :: rest ⊆ symbols)
    (hdisjoint : ∀ t ∈ first :: rest, t ∉ heads) (hstarts : Starts exprHeads (Derives b))
    (rounds : Nat) :
    Accepts σ x ruleEnd (signed signs signs.withEndOfRule part rounds)
      (separated (oneOf first rest) b) (Begins heads) := by
  -- a part can begin with a number, so that some round can come after the first part
  obtain ⟨u, hu⟩ := hstarts int (by decide)
  have hround : Derives (.seq (oneOf first rest) b) (first :: int :: u) :=
    .seq (derives_oneOf.mpr ⟨first, List.mem_cons_self, rfl⟩) hu
  have hheralds : Heralds signs.withEndOfRule (many (.seq (oneOf first rest) b)) :=
    .withEndOfRule hsigns (starts_oneOf.seq hu).many .none
  have hmany : ∀ K, Begins heads K →
      Begins (first :: rest ++ heads) (After (many (.seq (oneOf first rest) b)) K) :=
    fun K hK => .many (begins_oneOf.seq.mono (List.subset_append_left _ _))
      (hK.mono (List.subset_append_right _ _))
  refine Accepts.seq hpart.within hheralds
    (Accepts.repeatWhile _ (fun callers p e K hp hK hend h => ?_) rounds) hmany
  refine Parses.look hp 1 fun q hq hindex => ?_
  rw [← hindex] at h ⊢
  obtain ⟨z, hz, -⟩ := h.possible
  have hneK : ∃ z, K z := exists_of_after ⟨z, hz⟩
  have hpermits : Permits callers firstExpr (After b (After (many (.seq (oneOf first rest) b)) K)) :=
    permits_of_starts rfl (fun _ => contains_firstExpr) (hstarts.after ⟨z, hz⟩)
  refine Parses.ite h (fun z => after_many) (hsigns _) (begins_oneOf.seq.after _)
    (fun t ht => hK.not_cons (hdisjoint t ht)) (hround.exists_after ⟨z, hz⟩) hneK
    (fun hsign h => ?_) fun _ h => ?_
  · rw [after_seq] at h
    refine (takes_oneOf hq hsymbols hpermits h ((hsigns _).mp hsign)).bind hq fun _ vs r hr hvs => ?_
    refine TakesAt.answer (hpart.within callers r e _ hr (hmany K hK) (hheralds.permits hneK hend)
      hvs.awaits) hr true fun ws j hws => ?_
    rw [if_pos rfl]
    exact hvs.append hws .seq
  · refine Parses.pure hq ?_
    rw [if_neg nofun]
    exact .nil h .empty

/-! ## Alternatives -/

section Alternatives

variable {p : Parser σ} {e : Nat} {c : Prop} [Decidable c] {r r' : Recognizer Unit}

/-- **One of two alternatives**, decided by a type. -/
theorem takes_alt (heads heads' : List TokenType) (h : Awaits x e p.index (After (alt a b) K)) (hc : c ↔ x.type p.index ∈ heads)
    (ha : Begins heads (Derives a)) (hb : Begins heads' (Derives b))
    (hdisjoint : ∀ t ∈ heads, t ∉ heads') (hnea : ∃ u, Derives a u) (hneb : ∃ u, Derives b u)
    (hyes : Awaits x e p.index (After a K) → TakesAt x e r a K p)
    (hno : ¬ c → Awaits x e p.index (After b K) → TakesAt x e r' b K p) :
    TakesAt x e (if c then r else r') (alt a b) K p := by
  obtain ⟨u, hu⟩ := hnea
  obtain ⟨v, hv⟩ := hneb
  obtain ⟨z, hz, -⟩ := h.possible
  have hK : ∃ z, K z := exists_of_after ⟨z, hz⟩
  refine Parses.ite h (fun z => after_alt) hc (ha.after K)
    (fun t ht => (hb.after K).not_cons (hdisjoint t ht)) (hu.exists_after hK) (hv.exists_after hK)
    (fun _ h => (hyes h).of_spells fun vs => .left) fun hif h => ?_
  exact TakesAt.of_spells (hno hif h) fun vs => .right

/-- The last alternative, decided by a type. -/
theorem takes_last {heads : List TokenType} (hp : Quiet x callers p)
    (h : Awaits x e p.index (After a K)) (hc : c ↔ x.type p.index ∈ heads) (ha : Begins heads (Derives a))
    (hyes : c → TakesAt x e r a K p) :
    TakesAt x e (if c then r else Recognizer.noViableAlt 1) a K p := by
  by_cases hif : c
  · rw [if_pos hif]
    exact hyes hif
  · rw [if_neg hif]
    exact parses_noViableAlt hp 1 (h.refuted ((ha.after K).not_cons fun ht => hif (hc.mpr ht)))

end Alternatives

/-! ## Expressions -/

/-- What may come after an expression. -/
def exprFollow : List TokenType := [semi, rparen, comma]

mutual

/-- Sums. -/
theorem accepts_expr : ∀ n, Accepts σ x ruleEnd (expr n) (rule exprRule) (Begins exprFollow)
  | 0 => .outOfSteps
  | n + 1 => .asRule (accepts_signed plus [minus] (accepts_term n)
      (TokenSet.contains_ofList (by decide)) (by decide) (by decide) starts_term n)

/-- Products. -/
theorem accepts_term :
    ∀ n, Accepts σ x ruleEnd (term n) (rule termRule) (Begins ([plus, minus] ++ exprFollow))
  | 0 => .outOfSteps
  | n + 1 => .asRule (accepts_signed star [slash] (accepts_primary n)
      (TokenSet.contains_ofList (by decide)) (by decide) (by decide) starts_primary n)

/-- Factors. -/
theorem accepts_primary : ∀ n, Accepts σ x ruleEnd (primary n) (rule primaryRule)
    (Begins ([star, slash] ++ ([plus, minus] ++ exprFollow)))
  | 0 => .outOfSteps
  | n + 1 => by
      refine .asRule fun callers p e K hp hK hend h => Parses.look hp 1 fun q hq hindex => ?_
      rw [← hindex] at h ⊢
      refine takes_alt [int] [string, ident, lparen] h
        -- one alternative after the other: each is told from those left by the types it can begin with
        List.mem_singleton.symm (.token (by decide)) (.alt (.token (by decide))
          (.alt (.seq (.token (by decide))) (.seq (.token (by decide))))) (by decide)
        ⟨_, .token int⟩ ⟨_, .left (.token string)⟩ (takes_expect hq (by decide) _ hend)
        fun _ h => ?_
      refine takes_alt [string] [ident, lparen] h
        List.mem_singleton.symm (.token (by decide))
        (.alt (.seq (.token (by decide))) (.seq (.token (by decide)))) (by decide)
        ⟨_, .token string⟩ ⟨_, .left (.seq (.token ident) (.left .empty))⟩
        (takes_expect hq (by decide) _ hend)
        fun _ h => ?_
      refine takes_alt [ident] [lparen] h
        List.mem_singleton.symm (.seq (.token (by decide))) (.seq (.token (by decide))) (by decide)
        ⟨_, .seq (.token ident) (.left .empty)⟩
        ⟨_, .seq (.token lparen) (.seq derives_expr (.token rparen))⟩ (fun h => ?_) fun _ h => ?_
      · refine Accepts.token_seq (by decide) heralds_call (.optionalLast [lparen]
          (fun t => List.mem_singleton.symm) (.seq (.token (by decide)))
          ⟨_, .seq (.token lparen) (.seq (.left .empty) (.token rparen))⟩ (by decide) ?_)
          callers q e K hq hK hend h
        refine .token_seq (by decide) (heralds_optional starts_args (by decide) rfl)
          (.optional exprHeads [rparen] (fun t => contains_firstExpr) begins_args ⟨_, derives_args⟩
            (fun K _ => ?_) (by decide) (.seq (accepts_args n).within
              (.single (by decide) rfl (.token rparen)) (.expect (by decide)) fun K _ => ?_)
            (.expect (by decide)))
        · exact (Begins.token List.mem_cons_self).after K
        · exact (Begins.token List.mem_cons_self).after K
      · refine takes_last hq h List.mem_singleton.symm (.seq (.token (by decide))) fun _ => ?_
        refine Accepts.token_seq (by decide) (heralds_expr (.token rparen))
          (.seq (accepts_expr n).within (.single (by decide) rfl (.token rparen))
            (.expect (by decide)) fun K _ => ?_) callers q e K hq hK hend h
        exact (Begins.token (by decide)).after K

/-- Arguments. -/
theorem accepts_args : ∀ n, Accepts σ x ruleEnd (args n) (rule argsRule) (Begins [rparen])
  | 0 => .outOfSteps
  | n + 1 => .asRule (accepts_signed comma []
      ((accepts_expr n).mono fun _ hK => hK.mono (by decide))
      (TokenSet.contains_ofList (by decide)) (by decide) (by decide) starts_expr n)

end

/-! ## Statements -/

/-- A semicolon after what comes before it. -/
theorem begins_semi (K : List TokenType → Prop) : Begins exprFollow (After (token semi) K) :=
  (Begins.token (by decide)).after K

/-- What comes in an assignment, from the name on. -/
def assigning : Phrase := all [token ident, token assign, rule exprRule, token semi]

/-- A call as a statement. -/
def calling : Phrase := seq (beginning [ident, lparen] (rule exprRule)) (token semi)

/-- What comes in an assignment, from the name on. -/
theorem accepts_assignment : ∀ n, Accepts σ x ruleEnd (assignment n) assigning fun _ => True
  | 0 => .outOfSteps
  | n + 1 => .token_seq (by decide)
      (.single (by decide) rfl (.seq (.token assign) (.seq derives_expr (.token semi))))
      (.token_seq (by decide) (heralds_expr (.token semi)) (.seq (accepts_expr n).within
        (.single (by decide) rfl (.token semi)) (.expect (by decide)) fun K _ => begins_semi K))

/-- What comes in a return, from the word on. -/
theorem accepts_returning (n : Nat) :
    Accepts σ x ruleEnd ((Recognizer.expect ret (firstExpr.insert semi)).bind fun _ =>
      (Recognizer.typeAhead 1).bind fun ty =>
      if firstExpr.contains ty then
        (Recognizer.within (.single semi) fun _ => expr n).bind fun _ => Recognizer.expect semi ruleEnd
      else Recognizer.expect semi ruleEnd)
      (all [token ret, optional (rule exprRule), token semi]) fun _ => True := by
  refine .token_seq (by decide) (heralds_optional starts_expr (by decide) rfl)
    (.optional exprHeads [semi] (fun t => contains_firstExpr) begins_expr ⟨_, derives_expr⟩
      (fun K _ => ?_) (by decide) (.seq (accepts_expr n).within
        (.single (by decide) rfl (.token semi)) (.expect (by decide)) fun K _ => begins_semi K)
      (.expect (by decide)))
  exact (Begins.token List.mem_cons_self).after K

/-- The second type of what begins with a name. -/
theorem second_of_after {z : List TokenType} (h : After (alt assigning calling) K (ident :: t :: z)) :
    (t = assign ∧ After assigning K (ident :: t :: z)) ∨
      (t = lparen ∧ After (rule exprRule) (After (token semi) K) (ident :: t :: z)) := by
  rw [after_alt] at h
  rcases h with h | h
  · have hassign := h
    simp only [assigning, all, after_seq, after_token_cons] at hassign
    exact .inl ⟨hassign.2.1, h⟩
  · simp only [calling, after_seq] at h
    obtain ⟨hbegins, h⟩ := prefix_of_after_beginning h
    simp only [List.cons_prefix_cons] at hbegins
    exact .inr ⟨hbegins.2.1.symm, h⟩

/-- What begins with a name is an assignment or a call. -/
theorem begins_named : Begins [ident] (Derives (alt assigning calling)) :=
  .alt (.seq (.token List.mem_cons_self)) (.seq (.beginning List.mem_cons_self))

/-- A number is assigned to a name. -/
theorem derives_assigning : Derives assigning [ident, assign, int, semi] :=
  .seq (.token ident) (.seq (.token assign) (.seq derives_expr (.token semi)))

/-- An assignment has more than one token. -/
theorem Derives.two_le_of_assigning {u : List TokenType} (h : Derives assigning u) :
    2 ≤ u.length := by
  cases h with
  | seq ha hb =>
      cases ha
      cases hb with
      | seq hb hc =>
          cases hb
          simp

/-- Once two tokens have been passed, nothing is known of what comes next but what was known before. -/
theorem Takes.back {e e' i j : Nat} {vs : List View} (h : Takes x e' i a K vs j)
    (he : e' = max e (i + 2)) (hlength : 2 ≤ (typesOf vs).length) : Takes x e i a K vs j := by
  have hj : i + 2 ≤ j := by
    rw [h.types, Tape.word, List.length_drop, List.length_take] at hlength
    omega
  refine ⟨h.le, h.spells, h.types, ?_⟩
  rcases Nat.le_total (i + 2) e with hle | hle
  · rw [Nat.max_eq_left hle] at he
    rw [← he]
    exact h.awaits
  · rw [Nat.max_eq_right hle] at he
    exact h.awaits.behind (he ▸ hj) (Nat.le_trans hle hj)

section Named

variable {e i : Nat}

/-- Two types are seen when one looks two places ahead. -/
theorem word_two (hi : i < x.size) (htype : x.type i = ident) :
    ∃ w, x.word i (max e (i + 2)) = ident :: x.type (i + 1) :: w ∧ (e ≤ i + 2 → w = []) := by
  refine ⟨x.word (i + 2) (max e (i + 2)), ?_, fun he => x.word_of_le (by omega)⟩
  rw [x.word_eq_cons (Nat.le_of_lt hi) (by omega), x.word_eq_cons hi (by omega), htype]

/-- **An assignment comes**, as the second type shows. -/
theorem awaits_assigning (h : Awaits x e i (After (alt assigning calling) K)) (hi : i < x.size)
    (htype : x.type i = ident) (hnext : x.type (i + 1) = assign) :
    Awaits x (max e (i + 2)) i (After assigning K) := by
  obtain ⟨w, hw, hnil⟩ := word_two (e := e) hi htype
  obtain ⟨z₀, hz₀, -⟩ := h.possible
  obtain ⟨v, hv⟩ := exists_of_after ⟨z₀, hz₀⟩
  refine h.lookAhead (Nat.le_max_left _ _) (by omega) (fun z hz => ?_) fun he => ?_
  · rw [hw, hnext] at hz
    obtain ⟨z, rfl⟩ := hz
    refine ⟨fun hz => ?_, fun hz => after_alt.mpr (.inl hz)⟩
    rcases second_of_after hz with ⟨-, hz⟩ | ⟨hne, -⟩
    · exact hz
    · exact absurd hne (by decide)
  · refine ⟨_, derives_assigning.after hv, ?_⟩
    rw [hw, hnil (by omega), hnext]
    exact List.prefix_append _ _

/-- **A call comes**, as the second type shows. -/
theorem awaits_calling (h : Awaits x e i (After (alt assigning calling) K)) (hi : i < x.size)
    (htype : x.type i = ident) (hnext : x.type (i + 1) = lparen) :
    Awaits x (max e (i + 2)) i (After (rule exprRule) (After (token semi) K)) := by
  obtain ⟨w, hw, hnil⟩ := word_two (e := e) hi htype
  obtain ⟨z₀, hz₀, -⟩ := h.possible
  obtain ⟨v, hv⟩ := exists_of_after ⟨z₀, hz₀⟩
  refine h.lookAhead (Nat.le_max_left _ _) (by omega) (fun z hz => ?_) fun he => ?_
  · rw [hw, hnext] at hz
    obtain ⟨z, rfl⟩ := hz
    constructor
    · intro hz
      rcases second_of_after hz with ⟨hne, -⟩ | ⟨-, hz⟩
      · exact absurd hne (by decide)
      · exact hz
    · rintro ⟨u, v, hu, hv, heq⟩
      rw [after_alt, calling, after_seq, heq]
      refine .inr ((Derives.beginning hu ?_).after hv)
      -- the parenthesis belongs to the expression, because after that comes a semicolon
      obtain ⟨t, -, u, rfl⟩ := begins_expr u hu
      simp only [List.cons_append, List.cons.injEq] at heq
      obtain ⟨rfl, heq⟩ := heq
      cases u with
      | nil =>
          obtain ⟨v, hv, rfl⟩ := after_token.mp hv
          exact absurd (List.cons.inj heq).1 (by decide)
      | cons t u =>
          simp only [List.cons_append, List.cons.injEq] at heq
          rw [← heq.1]
          exact List.prefix_append [ident, lparen] u
  · refine ⟨_, derives_call.after ((Derives.token semi).after hv), ?_⟩
    rw [hw, hnil (by omega), hnext]
    exact List.prefix_append [ident, lparen] _

/-- An expression that is a call begins with the name and the parenthesis that were seen. -/
theorem begins_of_call {j : Nat} {vs : List View}
    (h : Takes x e i (rule exprRule) (After (token semi) K) vs j) (hi : i < x.size)
    (he : i + 2 ≤ e) (htype : x.type i = ident) (hnext : x.type (i + 1) = lparen) :
    [ident, lparen] <+: typesOf vs := by
  obtain ⟨t, -, u, hu⟩ := begins_expr _ h.spells.derives
  rw [h.types] at hu ⊢
  have hij : i < j := by
    refine Nat.lt_of_not_le fun hle => ?_
    rw [x.word_of_le hle] at hu
    cases hu
  rw [x.word_eq_cons (Nat.le_of_lt hi) hij, htype, List.cons_prefix_cons]
  refine ⟨rfl, ?_⟩
  rcases Nat.eq_or_lt_of_le hij with rfl | hlt
  · -- the parenthesis is ahead, but a semicolon would have to come
    obtain ⟨z, hz, hbegins⟩ := h.awaits.possible
    obtain ⟨v, -, rfl⟩ := after_token.mp hz
    rw [x.word_eq_cons hi (by omega), List.cons_prefix_cons] at hbegins
    exact absurd (hnext.symm.trans hbegins.1) (by decide)
  · rw [x.word_eq_cons hi hlt, hnext, List.cons_prefix_cons]
    exact ⟨rfl, List.nil_prefix⟩

/-- **Neither an assignment nor a call comes**, as the second type shows. -/
theorem refuted_named (h : Awaits x e i (After (alt assigning calling) K)) (hi : i < x.size)
    (htype : x.type i = ident) (hassign : x.type (i + 1) ≠ assign)
    (hlparen : x.type (i + 1) ≠ lparen) : Refuted x (i + 1) := by
  obtain ⟨z, hz, -⟩ := h.possible
  obtain ⟨v, hv⟩ := exists_of_after ⟨z, hz⟩
  have hsome : After (alt assigning calling) K (x.type i :: ([assign, int, semi] ++ v)) := by
    rw [htype]
    exact after_alt.mpr (.inl (derives_assigning.after hv))
  refine (h.next hi ⟨_, hsome⟩).refuted fun z hz => ?_
  · rw [htype] at hz
    rcases second_of_after hz with ⟨hz, -⟩ | ⟨hz, -⟩
    · exact hassign hz
    · exact hlparen hz

end Named

/-- **What begins with a name**, decided by a trial and the type after the name. -/
theorem takes_named {p : Parser σ} {e : Nat} (n : Nat) (hp : Quiet x callers p)
    (hend : Permits callers ruleEnd K)
    (h : Awaits x e p.index (After (alt assigning calling) K)) (htype : x.type p.index = ident)
    {follow' : TokenSet} :
    TakesAt x e ((Recognizer.trial fun _ => (Recognizer.expect ident follow).bind fun _ =>
      Recognizer.expect assign follow').bind fun isAssignment =>
        if isAssignment then assignment n
        else (Recognizer.typeAhead 2).bind fun ty =>
          if ty = lparen then (Recognizer.within (.single semi) fun _ => expr n).bind fun _ =>
            Recognizer.expect semi ruleEnd
          else Recognizer.noViableAlt 2) (alt assigning calling) K p := by
  have hlt : p.index < x.size := by
    refine Nat.lt_of_not_le fun hle => ?_
    rw [x.type_eq_eof_iff.mpr hle] at htype
    exact absurd htype (by decide)
  have hstop : x.stop (p.index + 1) = p.index + 1 := by
    rw [hp.plain.stop, Nat.min_eq_left hlt]
  refine Parses.tryTwo hp fun again q hq hindex hagain => ?_
  rw [hstop] at hagain
  rw [← hindex] at h htype hlt hstop hagain ⊢
  cases again with
  | true =>
      rw [if_pos rfl]
      have hassign := accepts_assignment n callers q _ _ hq trivial hend
        (awaits_assigning h hlt htype (hagain.mp rfl).2)
      refine hassign.mono fun _ vs j hvs => ?_
      exact (hvs.back rfl hvs.spells.derives.two_le_of_assigning).of_spells (.left hvs.spells)
  | false =>
      rw [if_neg nofun]
      refine Parses.look hq 2 fun r hr hindex => ?_
      have hskip : x.skip (2 - 1) q.index = q.index + 1 := hstop
      rw [hskip]
      rw [← hindex] at h htype hlt hagain ⊢
      -- the trial has not found an assignment, so the type after the name decides
      by_cases hcall : x.type (r.index + 1) = lparen
      · rw [if_pos hcall]
        have hcalling := awaits_calling h hlt htype hcall
        obtain ⟨z, hz, -⟩ := hcalling.possible
        have hsemi : Permits callers (.single semi) (After (token semi) K) :=
          (Heralds.single (by decide) rfl (.token semi)).permits
            (exists_of_after (exists_of_after ⟨z, hz⟩)) hend
        refine ((accepts_expr n).within callers r _ _ hr (begins_semi K) hsemi hcalling).bind hr
          fun _ vs q₁ hq₁ hvs => ?_
        have hbegins := begins_of_call hvs hlt (Nat.le_max_right _ _) htype hcall
        refine (takes_expect hq₁ (by decide) _ hend hvs.awaits).mono fun _ ws j hws => ?_
        have happend : Takes x _ r.index calling K (vs ++ ws) j :=
          hvs.append hws fun hvs hws => .seq (.beginning hvs hbegins) hws
        refine (happend.back rfl ?_).of_spells (.right happend.spells)
        have hlength := hbegins.length_le
        rw [typesOf_append, List.length_append]
        exact Nat.le_trans hlength (Nat.le_add_right _ _)
      · -- neither a call nor an assignment: no word that the tape begins with is one of the two
        rw [if_neg hcall]
        refine parses_noViableAlt hr 2 ?_
        have hassign : x.type (r.index + 1) ≠ assign := fun heq =>
          nomatch hagain.mpr ⟨htype, heq⟩
        have hskip : x.skip (max 2 1 - 1) r.index = r.index + 1 := by
          rw [hindex]
          exact hskip
        rw [hskip]
        exact refuted_named h hlt htype hassign hcall

/-- The alternatives of a statement, in the order in which they are decided. -/
def statementAlts : Phrase :=
  alt (all [token var, token ident, token assign, rule exprRule, token semi])
    (alt (all [token ret, optional (rule exprRule), token semi])
      (alt (rule blockRule) (alt assigning calling)))

/-- The order of the alternatives makes no difference. -/
theorem after_statementAlts : After (rhs statementRule) K = After statementAlts K := by
  funext z
  refine propext ?_
  simp only [rhs_statement, statementAlts, after_alt, assigning, calling]
  exact or_congr_right (or_left_comm.trans (or_congr_right or_left_comm))

/-- The order of the alternatives makes no difference. -/
theorem spells_statementAlts {vs : List View} (h : Spells statementAlts vs) :
    Spells (rhs statementRule) vs := by
  cases h with
  | left h => exact .left h
  | right h =>
      cases h with
      | left h => exact .right (.right (.left h))
      | right h =>
          cases h with
          | left h => exact .right (.right (.right (.left h)))
          | right h =>
              cases h with
              | left h => exact .right (.left h)
              | right h => exact .right (.right (.right (.right h)))

mutual

/-- Blocks. -/
theorem accepts_block : ∀ n, Accepts σ x ruleEnd (block n) (rule blockRule) fun _ => True
  | 0 => .outOfSteps
  | n + 1 => by
      have hrbrace : Heralds (.single rbrace) (token rbrace) := .single (by decide) rfl (.token rbrace)
      refine .asRule (.token_seq (by decide) heralds_block (.seq (.repeatWhile (Begins [rbrace])
        (fun callers p e K hp hK hrest h => ?_) n) hrbrace (.expect (by decide)) fun K _ => ?_))
      · have hbegins : Begins (statementHeads ++ [rbrace]) (After (many (rule statementRule)) K) :=
          .many (begins_statement.mono (List.subset_append_left _ _))
            (hK.mono (List.subset_append_right _ _))
        refine Parses.guard hp several_blockLoop h hbegins (fun t => contains_blockLoop)
          fun q hq hindex => ?_
        refine Parses.look hq 1 fun r hr hindex' => ?_
        rw [← hindex, ← hindex'] at h
        rw [← hindex, ← hindex']
        obtain ⟨z, hz, -⟩ := h.possible
        have hneK := exists_of_after ⟨z, hz⟩
        have hloop : Permits callers blockLoop (After (many (rule statementRule)) K) := by
          have hstop : Starts [rbrace] (After (many (rule statementRule)) K) :=
            (Starts.of_begins hK hneK).mono fun _ hz => Derives.none.after hz
          exact permits_of_starts rfl (fun _ => contains_blockLoop)
            ((starts_statement.many.after hneK).append hstop)
        refine Parses.ite h (fun z => after_many) contains_firstStatement (begins_statement.after _)
          (fun t ht => hK.not_cons (by revert t; decide)) (derives_statement.exists_after ⟨z, hz⟩)
          hneK (fun _ h => ?_) fun _ h => ?_
        · exact TakesAt.answer ((accepts_statement n).within callers r e _ hr trivial hloop h) hr true
            fun vs j hvs => hvs
        · exact .pure hr (.nil h .empty)
      · exact (Begins.token List.mem_cons_self).after K

/-- Statements. -/
theorem accepts_statement :
    ∀ n, Accepts σ x ruleEnd (statement n) (rule statementRule) fun _ => True
  | 0 => .outOfSteps
  | n + 1 => by
      refine .asRule (.of_spells (a := statementAlts) ?_ (fun K => after_statementAlts)
        fun vs => spells_statementAlts)
      intro callers p e K hp hK hend h
      refine Parses.look hp 1 fun q hq hindex => ?_
      rw [← hindex] at h ⊢
      refine takes_alt [var] [ret, lbrace, ident] h
        List.mem_singleton.symm (.seq (.token (by decide))) (.alt (.seq (.token (by decide)))
          (.alt (begins_block.mono (by decide)) (begins_named.mono (by decide)))) (by decide)
        ⟨_, .seq (.token var) derives_assigning⟩
        ⟨_, .left (.seq (.token ret) (.seq (.left .empty) (.token semi)))⟩ (fun h => ?_)
        fun _ h => ?_
      · exact Accepts.token_seq (by decide) (.single (by decide) rfl derives_assigning)
          (accepts_assignment n) callers q e K hq hK hend h
      refine takes_alt [ret] [lbrace, ident] h
        List.mem_singleton.symm (.seq (.token (by decide)))
        (.alt (begins_block.mono (by decide)) (begins_named.mono (by decide))) (by decide)
        ⟨_, .seq (.token ret) (.seq (.left .empty) (.token semi))⟩ ⟨_, .left derives_block⟩
        (fun h => ?_) fun _ h => ?_
      · exact accepts_returning n callers q e K hq hK hend h
      refine takes_alt [lbrace] [ident] h
        List.mem_singleton.symm begins_block begins_named (by decide)
        ⟨_, derives_block⟩ ⟨_, .left derives_assigning⟩ ((accepts_block n).within callers q e K hq hK hend)
        fun _ h => ?_
      exact takes_last hq h List.mem_singleton.symm begins_named fun hident =>
        takes_named n hq hend h hident

end

/-! ## Functions and sources -/

/-- Parameters. -/
theorem accepts_params (n : Nat) :
    Accepts σ x ruleEnd (params n) (rule paramsRule) (Begins [rparen]) := by
  have hround : Derives (seq (token comma) (token ident)) [comma, ident] :=
    .seq (.token comma) (.token ident)
  have hheralds : Heralds (TokenSet.single comma).withEndOfRule (many (seq (token comma) (token ident))) :=
    .withEndOfRule (contains_single_iff (by decide)) (Starts.single hround).many .none
  refine .asRule (.token_seq (by decide) hheralds (.repeatWhile _ (fun callers p e K hp hK hend h => ?_) n))
  refine Parses.look hp 1 fun q hq hindex => ?_
  rw [← hindex] at h ⊢
  obtain ⟨z, hz, -⟩ := h.possible
  have hneK : ∃ z, K z := exists_of_after ⟨z, hz⟩
  have hname : Permits callers (.single ident)
      (After (token ident) (After (many (seq (token comma) (token ident))) K)) :=
    permits_of_starts rfl (contains_single_iff (by decide)) (.single (after_token_cons.mpr ⟨rfl, hz⟩))
  refine Parses.ite h (fun z => after_many) List.mem_singleton.symm
    ((Begins.token List.mem_cons_self).seq.after _) (fun t ht => hK.not_cons (by revert t; decide))
    (hround.exists_after ⟨z, hz⟩) hneK (fun _ h => ?_) fun _ h => ?_
  · rw [after_seq] at h
    refine (takes_expect hq (by decide) _ hname h).bind hq fun _ vs r hr hvs => ?_
    exact TakesAt.answer (takes_expect hr (by decide) _ (hheralds.permits hneK hend) hvs.awaits) hr true
      fun ws j hws => hvs.append hws .seq
  · exact .pure hq (.nil h .empty)

/-- Functions. -/
theorem accepts_function (n : Nat) :
    Accepts σ x ruleEnd (function n) (rule functionRule) fun _ => True := by
  have hblock : Heralds (.single lbrace) (rule blockRule) := .single (by decide) rfl derives_block
  have hrest : Derives (all [token rparen, rule blockRule]) [rparen, lbrace, rbrace] :=
    .seq (.token rparen) derives_block
  have hparams : Derives (all [token lparen, Phrase.optional (rule paramsRule), token rparen, rule blockRule])
      [lparen, rparen, lbrace, rbrace] := .seq (.token lparen) (.seq (.left .empty) hrest)
  refine .asRule (.token_seq (by decide) (.single (by decide) rfl (.seq (.token ident) hparams))
    (.token_seq (by decide) (.single (by decide) rfl hparams) (.token_seq (by decide) heralds_params
      (.optional (c := (· = ident)) [ident] [rparen] (fun t => List.mem_singleton.symm) begins_params
        ⟨_, derives_params⟩ (fun K _ => ?_) (by decide) (.seq (accepts_params n).within
          (.single (by decide) rfl hrest) (.token_seq (by decide) hblock (accepts_block n).within)
          fun K _ => ?_)
        (.token_seq (by decide) hblock (accepts_block n).within)))))
  · exact (Begins.token List.mem_cons_self).seq.after K
  · exact (Begins.token List.mem_cons_self).seq.after K

/-- Functions and statements, in any order. -/
def declarations : Phrase := many (alt (rule functionRule) (rule statementRule))

/-- **A round of the outermost loop.** -/
theorem parses_scriptLoop {p : Parser σ} {e : Nat} (n : Nat) (hp : Quiet x callers p)
    (hK : Begins [.eof] K) (hne : ∃ z, K z)
    (h : Awaits x e p.index (After declarations K)) :
    Parses x ((Recognizer.sync scriptLoop).bind fun _ => (Recognizer.typeAhead 1).bind fun ty =>
      if ty = func then
        (Recognizer.within scriptLoop fun _ => function n).bind fun _ => .pure true
      else if firstStatement.contains ty then
        (Recognizer.within scriptLoop fun _ => statement n).bind fun _ => .pure true
      else .pure false) p fun again vs j =>
        if again then Takes x e p.index (alt (rule functionRule) (rule statementRule))
          (After declarations K) vs j
        else Takes x e p.index .empty K vs j := by
  -- the loop ends at the end of the input, which no declaration begins with
  have hbegins : Begins (statementHeads ++ [func, .eof]) (After declarations K) :=
    .many (.alt (begins_function.mono (by decide)) (begins_statement.mono (by decide)))
      (hK.mono (by decide))
  refine Parses.guard hp several_scriptLoop h hbegins (fun t => contains_scriptLoop)
    fun q hq hindex => ?_
  refine Parses.look hq 1 fun r hr hindex' => ?_
  rw [← hindex, ← hindex'] at h
  rw [← hindex, ← hindex']
  have hmore : ∃ z, After declarations K z := Derives.none.exists_after hne
  have hrest : Begins statementHeads (After (rule statementRule) (After declarations K)) :=
    begins_statement.after _
  have hloop : Permits callers scriptLoop (After declarations K) := by
    have hstatement : Starts statementHeads (After declarations K) :=
      (starts_statement.mono fun _ => .right).many.after hne
    have hfunction : Derives (alt (rule functionRule) (rule statementRule))
        [func, ident, lparen, rparen, lbrace, rbrace] := .left derives_function
    have hstop : Starts [.eof] (After declarations K) :=
      (Starts.of_begins hK hne).mono fun _ hz => Derives.none.after hz
    exact permits_of_starts rfl (fun _ => contains_scriptLoop)
      (hstatement.append (((Starts.single hfunction).many.after hne).append hstop))
  refine Parses.ite h (M := After (rule functionRule) (After declarations K))
    (N := fun z => After (rule statementRule) (After declarations K) z ∨ K z) (fun z => ?_)
    List.mem_singleton.symm (begins_function.after _) (fun t ht z => not_or.mpr
      ⟨hrest.not_cons (by revert t; decide) z, hK.not_cons (by revert t; decide) z⟩)
    (derives_function.exists_after hmore) (hne.imp fun z hz => .inr hz) (fun _ h => ?_)
    fun _ h => ?_
  · rw [declarations, after_many, after_alt, or_assoc]
  · exact TakesAt.answer ((accepts_function n).within callers r e _ hr trivial hloop h) hr true
      fun vs j hvs => hvs.of_spells (.left hvs.spells)
  · refine Parses.ite h (fun z => Iff.rfl) contains_firstStatement hrest
      (fun t ht => hK.not_cons (by revert t; decide)) (derives_statement.exists_after hmore) hne
      (fun _ h => ?_) fun _ h => ?_
    · exact TakesAt.answer ((accepts_statement n).within callers r e _ hr trivial hloop h) hr true
        fun vs j hvs => hvs.of_spells (.right hvs.spells)
    · exact .pure hr (.nil h .empty)

/-- **The body of the outermost rule**, begun at the start of the tape. -/
theorem parses_script {p : Parser σ} (n : Nat) (hp : Quiet x [] p) (hindex : p.index = 0)
    {body : Unit → Recognizer Unit} (hbody : script n = .rule scriptRule body .pure) :
    Parses x (body ()) p fun _ vs _ => Spells (rhs scriptRule) vs ∧ typesOf vs = x.types := by
  have hstart := Awaits.start x
  rw [after_rule, rhs_script, after_seq, ← hindex] at hstart
  obtain ⟨-, rfl, -⟩ := Recognizer.rule.inj hbody
  refine Parses.bind (takes_repeatWhile hp hstart (fun q hq h => ?_) n) hp fun _ vs q hq hvs => ?_
  · exact parses_scriptLoop n hq ((Begins.token List.mem_cons_self).after _)
      ((Derives.token _).exists_after ⟨_, rfl⟩) h
  · -- only the end of the input is taken to follow a whole source, and that is what is expected
    have hend : x.type q.index ≠ .eof → (q.viableFollow ruleEnd).contains (x.type q.index) ≠ true := by
      intro hne hviable
      rw [following_eq, hq.follow] at hviable
      have hmem := (contains_single_iff (.inl rfl) _).mp hviable
      exact hne (List.mem_singleton.mp hmem)
    refine (parses_expect hq .eof _
      (fun hne => hvs.awaits.refuted fun z hz => hne (after_token_cons.mp hz).1)
      fun hne r hr => hvs.awaits.mends hq.plain List.mem_cons_self hq.names
        (fun hviable => absurd hviable (hend hne)) hne hr).mono ?_
    rintro _ ws j ⟨htype, hspells, htypes, -⟩
    refine ⟨.seq hvs.spells hspells, ?_⟩
    have hend : q.index = x.size :=
      Nat.le_antisymm hvs.awaits.le_size (x.type_eq_eof_iff.mp htype)
    rw [typesOf_append, hvs.types, htypes, hindex,
      x.word_append (Nat.zero_le _) (Nat.le_succ _), hend, Tape.word, List.drop_zero]
    exact List.take_of_length_le (Nat.le_of_eq x.length_types)

/-- **A whole source.** Either nothing is reported, and the tree is a derivation of the source; or the first
report is where the source goes wrong. -/
theorem runs_script {p : Parser σ} (hp : Fresh x p) (hplain : x.Plain)
    (hnames : p.language.vocabulary = vocabulary) (n : Nat) :
    Runs (script n).run p (Fair x) fun o q => o = .ok () ∧ ∃ node vs, Whole x q node vs ∧
      ((q.reports = [] ∧ Spells (rule scriptRule) [.rule node vs] ∧ typesOf vs = x.types) ∨
        Broken x q.reports) := by
  obtain ⟨body, hbody⟩ : ∃ body, script n = .rule scriptRule body .pure := ⟨_, rfl⟩
  have hordinary : (body ()).Ordinary := by
    have := composed_script Recognizer.composed_ordinary n
    rw [hbody] at this
    exact this.1
  rw [hbody, run_rule_pure]
  have hentered : ∀ p₁ : Parser σ, Entered x (x.stop 0) scriptRule p p₁ →
      Quiet x [] p₁ ∧ p₁.index = 0 := by
    intro p₁ h₁
    have hfree : p.recovery.inRecovery = false := by rw [hp.recovery]
    have hindex : p₁.index = 0 := by rw [h₁.index, hplain.stop, Nat.zero_min]
    rw [← hp.follow]
    exact ⟨quiet_of_entered h₁ hplain hp.reports hfree hp.listeners hnames, hindex⟩
  refine (runs_rule_fresh hp (.inl rfl) (BodyOutcome x fun vs _ =>
    Spells (rhs scriptRule) vs ∧ typesOf vs = x.types) fun p₁ h₁ => ?_).mono ?_
  · obtain ⟨hquiet, hindex⟩ := hentered p₁ h₁
    exact (parses_script n hquiet hindex hbody hordinary).mono fun o q ho => ho.bodyEnd hquiet
  · rintro _ q ⟨rfl, p₁, node, vs, rs, -, hrule, hwhole, -, hreports, hend⟩
    refine ⟨rfl, node, vs, hwhole, ?_⟩
    rcases RuleEnd.quiet hend with ⟨rfl, hnone, -, hspells, htypes⟩ | hbroken
    · rw [← hrule] at hspells ⊢
      exact .inl ⟨hreports, .rule hnone hspells, htypes⟩
    · rw [hreports]
      exact .inr hbroken

end TreeProjection.Sample
