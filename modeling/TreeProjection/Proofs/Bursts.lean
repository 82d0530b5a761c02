import TreeProjection.Proofs.Course

/-! # One report for each burst of errors

After a report nothing more is reported until a token has been matched, and meanwhile whatever is added to the tree is an
error leaf.  So the deeds of a parse are in order: a match opens the way for a report, a report closes it, and error
leaves and marks of failed rules come while it is closed.

* `Parser.Orderly` — deeds in that order.
* `Orderly.exists_match` — between two reports a token has been matched.
* `Orderly.matched_of_silent` — where nothing is reported, nothing is done but matching.
* `Recognizer.Ordinary.tells` — the deeds of an ordinary recognizer are in order, however it ends. -/

namespace TreeProjection

namespace Parser

variable {σ α β : Type}

/-! ## Deeds in order -/

/-- **Deeds in order.** The first flag tells whether reports are held back before them, the second one whether they are
after them. -/
inductive Orderly : Bool → List Deed → Bool → Prop where
  /-- Nothing is done. -/
  | nil (b : Bool) : Orderly b [] b
  /-- A token is matched, and from then on reports are not held back. -/
  | matched {b b' : Bool} {ds : List Deed} (t : Token) (real : t.isConjured = false) (h : Orderly false ds b') :
    Orderly b (.leaf true t :: ds) b'
  /-- A report is made, and from then on reports are held back. -/
  | reported {b' : Bool} {ds : List Deed} (h : Orderly true ds b') : Orderly false (.reported :: ds) b'
  /-- An error leaf is added while reports are held back. -/
  | skipped {b' : Bool} {ds : List Deed} (t : Token) (h : Orderly true ds b') :
    Orderly true (.leaf false t :: ds) b'
  /-- A rule is marked while reports are held back. -/
  | marked {b' : Bool} {ds : List Deed} (h : Orderly true ds b') : Orderly true (.marked :: ds) b'
  /-- A rule is marked, and its failure is reported at once. -/
  | failed {b' : Bool} {ds : List Deed} (h : Orderly true ds b') :
    Orderly false (.marked :: .reported :: ds) b'

namespace Orderly

variable {b b' b'' : Bool} {d : Deed} {ds ds' : List Deed}

/-- First some deeds, then others. -/
theorem append (h : Orderly b ds b') (h' : Orderly b' ds' b'') : Orderly b (ds ++ ds') b'' := by
  induction h with
  | nil b => exact h'
  | matched t real _ ih => exact .matched t real (ih h')
  | reported _ ih => exact .reported (ih h')
  | skipped t _ ih => exact .skipped t (ih h')
  | marked _ ih => exact .marked (ih h')
  | failed _ ih => exact .failed (ih h')

/-- What comes after the first deed is in order. -/
theorem tail (h : Orderly b (d :: ds) b') : ∃ c, Orderly c ds b' := by
  cases h with
  | matched t real h => exact ⟨_, h⟩
  | reported h => exact ⟨_, h⟩
  | skipped t h => exact ⟨_, h⟩
  | marked h => exact ⟨_, h⟩
  | failed h => exact ⟨_, .reported h⟩

/-- What comes after some deeds is in order. -/
theorem drop (h : Orderly b (ds ++ ds') b') : ∃ c, Orderly c ds' b' := by
  induction ds generalizing b with
  | nil => exact ⟨b, h⟩
  | cons d ds ih =>
      obtain ⟨c, h⟩ := h.tail
      exact ih h

/-- **Reports are held back only after a report.** -/
theorem reported_of_held (h : Orderly b ds b') (hb : b = false) (hb' : b' = true) : Deed.reported ∈ ds := by
  induction h with
  | nil b => exact absurd (hb.symm.trans hb') Bool.false_ne_true
  | matched t real _ ih => exact List.mem_cons_of_mem _ (ih rfl hb')
  | reported _ _ => exact List.mem_cons_self
  | skipped _ _ _ => cases hb
  | marked _ _ => cases hb
  | failed _ _ => exact List.mem_cons_of_mem _ List.mem_cons_self

/-- **Where nothing is reported, nothing is done but matching**, unless reports are held back from the start. -/
theorem matched_of_silent (h : Orderly b ds b') (hb : b = false) (hds : Deed.reported ∉ ds) :
    ∀ d ∈ ds, ∃ t, d = .leaf true t ∧ t.isConjured = false := by
  induction h with
  | nil b => exact fun d hd => nomatch hd
  | matched t real _ ih =>
      rw [List.mem_cons, not_or] at hds
      exact List.forall_mem_cons.mpr ⟨⟨t, rfl, real⟩, ih rfl hds.2⟩
  | reported _ _ => exact absurd List.mem_cons_self hds
  | skipped _ _ _ => cases hb
  | marked _ _ => cases hb
  | failed _ _ => exact absurd (List.mem_cons_of_mem _ List.mem_cons_self) hds

end Orderly

/-! ## What is told of an action -/

/-- **A parser that is not on trial**, with a strategy that does all that it is there for. -/
structure Earnest (p : Parser σ) : Prop where
  /-- The parser is not looking ahead on trial. -/
  acting : p.speculating = 0
  /-- No call of a hook is noted. -/
  noted : p.strategy.noted = false
  /-- No hook is denied. -/
  denied : p.strategy.denied = []
  /-- Tokens carry their places. -/
  numbered : p.input.Numbered

/-- **The deeds of an action are in order**, where the flag tells whether reports were held back before them.  If the parse
is given up, then they are so up to there. -/
def Told (b : Bool) (ds : List Deed) (o : Except Interrupt α) (q : Parser σ) : Prop :=
  match o with
  | .ok _ => Orderly b ds q.recovery.inRecovery ∧ q.Earnest
  | .error (.recognition _) => Orderly b ds q.recovery.inRecovery ∧ q.Earnest
  | .error (.abort _) => ∃ b', Orderly b ds b'

/-- However the action ends, its deeds are in order. -/
theorem Told.orderly {b : Bool} {ds : List Deed} {o : Except Interrupt α} {q : Parser σ} (h : Told b ds o q) :
    ∃ b', Orderly b ds b' :=
  match o, h with
  | .ok _, h => ⟨_, h.1⟩
  | .error (.recognition _), h => ⟨_, h.1⟩
  | .error (.abort _), h => h

/-- An action that has ended in order ends so whatever it hands on. -/
theorem Told.of_earnest {b : Bool} {ds : List Deed} {q : Parser σ} (h : Orderly b ds q.recovery.inRecovery)
    (hq : q.Earnest) (o : Except Interrupt α) : Told b ds o q :=
  match o with
  | .ok _ => ⟨h, hq⟩
  | .error (.recognition _) => ⟨h, hq⟩
  | .error (.abort _) => ⟨_, h⟩

/-- First some deeds in order, and then an action. -/
theorem Told.after {b c : Bool} {ds ds' : List Deed} {o : Except Interrupt α} {r : Parser σ}
    (h : Orderly b ds c) (h' : Told c ds' o r) : Told b (ds ++ ds') o r :=
  match o, h' with
  | .ok _, h' => ⟨h.append h'.1, h'.2⟩
  | .error (.recognition _), h' => ⟨h.append h'.1, h'.2⟩
  | .error (.abort _), ⟨b', h'⟩ => ⟨b', h.append h'⟩

/-- A failure is handed on. -/
theorem Told.of_error {b : Bool} {ds : List Deed} {i : Interrupt} {q : Parser σ}
    (h : Told b ds (.error i : Except Interrupt α) q) : Told b ds (.error i : Except Interrupt β) q :=
  match i, h with
  | .recognition _, h => h
  | .abort _, h => h

variable {p q : Parser σ} {b : Bool}

/-- Nothing that is done makes a parser less earnest. -/
theorem Earnest.idle (hp : p.Earnest) (h : p.Idle q) : q.Earnest where
  acting := h.speculating.trans hp.acting
  noted := by rw [h.strategy, hp.noted]
  denied := by rw [h.strategy, hp.denied]
  numbered := h.numbered hp.numbered

/-- A parser that is not on trial is not. -/
theorem Earnest.isSpeculating (hp : p.Earnest) : p.isSpeculating = false := by
  simp [Parser.isSpeculating, hp.acting]

/-- What does nothing is in order. -/
theorem tells_idle {x : ParserM σ α} (hp : p.Earnest) (h : Ends x p fun _ q => p.Idle q) :
    Tells x p (Told p.recovery.inRecovery) := by
  refine .of_idle (h.mono fun o q hq => ⟨hq.ledger, .of_earnest ?_ (hp.idle hq) o⟩)
  rw [hq.recovery]
  exact .nil _

/-- **One action after the other** is in order. -/
theorem Tells.bind_told {x : ParserM σ α} {f : α → ParserM σ β} (h : Tells x p (Told b))
    (hf : ∀ a q, q.Earnest → Tells (f a) q (Told q.recovery.inRecovery)) : Tells (x >>= f) p (Told b) :=
  h.bind (fun _ a q hq => (hf a q hq.2).mono fun _ _ _ hr => hr.after hq.1) fun _ _ _ hq => hq.of_error

/-- One action after the other, where the first one leaves it so that reports are held back. -/
theorem Tells.bind_held {x : ParserM σ α} {f : α → ParserM σ β}
    (h : Tells x p fun ds o q => Told b ds o q ∧ ∀ a, o = .ok a → q.recovery.inRecovery = true)
    (hf : ∀ a q, q.Earnest → q.recovery.inRecovery = true → Tells (f a) q (Told true)) :
    Tells (x >>= f) p (Told b) := by
  refine h.bind (fun ds a q hq => ?_) fun _ _ _ hq => hq.1.of_error
  have hheld := hq.2 a rfl
  refine (hf a q hq.1.2 hheld).mono fun _ _ _ hr => hr.after ?_
  rw [← hheld]
  exact hq.1.1

/-- What does nothing first is in order. -/
theorem Tells.idle_bind {x : ParserM σ α} {f : α → ParserM σ β} (hx : Ends x p fun _ q => p.Idle q)
    (hp : p.Earnest) (hb : b = p.recovery.inRecovery)
    (hf : ∀ a q, p.Idle q → Tells (f a) q (Told b)) : Tells (x >>= f) p (Told b) := by
  have hidle : Tells x p fun ds _ q => ds = [] ∧ p.Idle q :=
    .of_idle (hx.mono fun _ _ hq => ⟨hq.ledger, rfl, hq⟩)
  refine hidle.bind ?_ ?_
  · rintro _ a q ⟨rfl, hq⟩
    exact hf a q hq
  · rintro _ i q ⟨rfl, hq⟩
    refine .of_earnest ?_ (hp.idle hq) _
    rw [hb, hq.recovery]
    exact .nil _

/-- A hook that is neither noted nor denied acts. -/
theorem tells_hooked (hp : p.Earnest) {h : Hook} {denied act : ParserM σ α}
    {post : List Deed → Except Interrupt α → Parser σ → Prop} (hact : Tells act p post) :
    Tells (hooked h denied act) p post := by
  have hallows : p.strategy.allows h = true := by simp [Strategy.allows, hp.denied]
  unfold hooked
  refine .get_bind ?_
  simp only [hp.noted, Bool.false_eq_true, if_false]
  rw [if_pos hallows]
  exact hact

/-! ## Primitive actions -/

/-- Holding reports back. -/
theorem tells_beginErrorCondition (hp : p.Earnest) : Tells beginErrorCondition p fun ds o q =>
    ds = [] ∧ o = .ok () ∧ q = { p with recovery.inRecovery := true } :=
  tells_hooked hp (.of_idle ⟨rfl, rfl, rfl, rfl⟩)

/-- A token has been matched. -/
theorem tells_reportMatch (hp : p.Earnest) : Tells reportMatch p fun ds o q =>
    ds = [] ∧ o = .ok () ∧ q = { p with recovery := {} } :=
  tells_hooked hp (.of_idle ⟨rfl, rfl, rfl, rfl⟩)

/-- **Telling the listeners** is a report. -/
theorem tells_report (hp : p.Earnest) (t : Token) (message : String) (e : Option RecognitionException) :
    Tells (report t message e) p fun ds o q =>
      ds = [.reported] ∧ o = .ok () ∧ q.recovery = p.recovery ∧ q.Earnest := by
  refine .of_deed ?_
  unfold report
  rw [ends_get_bind, ends_set_bind]
  -- the one deed enters the ledger in either case, and the listeners decide how many have heard of it
  have henters : ∀ q : Parser σ, q.ledger = { p.ledger with
      errors := p.ledger.errors + 1
      heard := p.ledger.heard + if 0 < p.ledger.listeners then 1 else 0 } →
      Deed.reported.Enters p.ledger q.ledger := by
    intro q hq
    rw [hq]
    exact .reported _
  by_cases hl : 0 < p.listeners
  · rw [if_pos hl]
    refine ⟨.reported, henters _ ?_, rfl, rfl, rfl, hp.acting, hp.noted, hp.denied, hp.numbered⟩
    simp [ledger, hl, reports, Note.report?]
  · rw [if_neg hl]
    refine ⟨.reported, henters _ ?_, rfl, rfl, rfl, hp.acting, hp.noted, hp.denied, hp.numbered⟩
    simp [ledger, hl, reports]

/-- Adding a leaf is one deed. -/
theorem enters_leaf (p : Parser σ) (matched : Bool) (t : Token) :
    (Deed.leaf matched t).Enters p.ledger
      ({ p with tree := (p.tree.push p.currentNode? (if matched then .terminal t else .error t)).2 } :
        Parser σ).ledger := by
  have hledger : ({ p with tree := (p.tree.push p.currentNode?
      (if matched then .terminal t else .error t)).2 } : Parser σ).ledger =
      { p.ledger with leaves := p.ledger.leaves ++ [(matched, t)] } := by
    cases matched <;>
      simp [ledger, reports, ParseTree.leaves_push, ParseTree.exceptions_push, ParseNode.leaf?, ParseNode.exception?]
  rw [hledger]
  exact .leaf _ _ _

/-- Adding an error leaf. -/
theorem tells_addErrorLeaf (hp : p.Earnest) (t : Token) :
    Tells (addErrorLeaf t) p fun ds o q =>
      ds = [.leaf false t] ∧ o = .ok () ∧ q.recovery = p.recovery ∧ q.Earnest := by
  unfold addErrorLeaf
  refine .get_bind (.of_deed ?_)
  rw [if_neg (by simp [hp.isSpeculating])]
  exact ⟨_, enters_leaf p false t, rfl, rfl, rfl, hp.acting, hp.noted, hp.denied, hp.numbered⟩

/-- A rule is marked. -/
theorem enters_mark (p : Parser σ) (node : Nat) (e : RecognitionException) :
    Deed.marked.Enters p.ledger ({ p with
      tree := p.tree.modifyRule node fun r => { r with exception := some e } } : Parser σ).ledger := by
  have hledger : ∀ t : ParseTree, t.leaves = p.tree.leaves → ({ p with tree := t } : Parser σ).ledger =
      { p.ledger with exceptions := t.exceptions } := by
    intro t ht
    simp [ledger, reports, ht]
  rw [hledger _ (ParseTree.leaves_modifyRule _ _ _)]
  exact .marked _ _

variable [TokenSource σ]

omit [TokenSource σ] in
/-- An operation of the input, and then what is made of its answer; if the source fails, the parse is given up. -/
theorem Tells.read_bind {act : ParserM σ α} {f : α → ParserM σ β} {fits : α → Prop}
    {post : List Deed → Except Interrupt β → Parser σ → Prop} (hp : p.Earnest)
    (hact : Ends act p fun o q => p.Idle q ∧ (∃ s, q = { p with input := s }) ∧
      ∀ e, o ≠ .error (.recognition e)) (hfits : Answers act p fun a _ => fits a)
    (hstop : ∀ a q, post [] (.error (.abort a)) q)
    (hf : ∀ a s, fits a → ({ p with input := s } : Parser σ).Earnest → Tells (f a) { p with input := s } post) :
    Tells (act >>= f) p post := by
  have hread : Tells act p fun ds o q => ds = [] ∧ p.Idle q ∧ (∃ s, q = { p with input := s }) ∧
      (∀ e, o ≠ .error (.recognition e)) ∧ ∀ a, o = .ok a → fits a :=
    .of_idle ((Ends.and hact hfits).mono fun _ _ h => ⟨h.1.1.ledger, rfl, h.1.1, h.1.2.1, h.1.2.2, h.2⟩)
  refine hread.bind ?_ ?_
  · rintro _ a _ ⟨rfl, hidle, ⟨s, rfl⟩, -, ha⟩
    exact hf a s (ha a rfl) (hp.idle hidle)
  · rintro _ i q ⟨rfl, -, -, hi, -⟩
    cases i with
    | recognition e => exact absurd rfl (hi e)
    | abort a => exact hstop a q

/-- Looking ahead, and then what is made of the token. -/
theorem Tells.ahead_bind {f : Token → ParserM σ β} {k : Nat}
    {post : List Deed → Except Interrupt β → Parser σ → Prop} (hp : p.Earnest)
    (hstop : ∀ a q, post [] (.error (.abort a)) q)
    (hf : ∀ t s, t.isConjured = false → ({ p with input := s } : Parser σ).Earnest →
      Tells (f t) { p with input := s } post) : Tells (ahead k >>= f) p post :=
  .read_bind hp (ends_ahead_idle k p) (answers_ahead_numbered hp.numbered k) hstop hf

/-- **Consuming is a deed**: the current token becomes a leaf, an error leaf if reports are held back. -/
theorem tells_consume (hp : p.Earnest) : Tells consume p fun ds o q => match o with
    | .ok t => ds = [.leaf (!p.recovery.inRecovery) t] ∧ t.isConjured = false ∧ q.recovery = p.recovery ∧ q.Earnest
    | .error (.recognition _) => False
    | .error (.abort _) => ds = [] := by
  unfold consume
  refine .ahead_bind hp (fun _ _ => rfl) fun t s ht hp' => ?_
  have hany : Answers (onInput Stream.consume) { p with input := s } fun _ _ => True :=
    (Ends.self _ _).mono fun _ _ _ _ _ => trivial
  refine .read_bind hp' (ends_pass_idle _) hany (fun _ _ => rfl) fun _ s' _ hpassed => ?_
  refine .get_bind (.of_deed ?_)
  rw [if_neg (by simp [hpassed.isSpeculating])]
  refine ⟨.leaf (!p.recovery.inRecovery) t, ?_, rfl, ht, rfl,
    hpassed.acting, hpassed.noted, hpassed.denied, hpassed.numbered⟩
  have hleaf := enters_leaf ({ p with input := s' } : Parser σ) (!p.recovery.inRecovery) t
  cases hheld : p.recovery.inRecovery <;> simpa [hheld] using hleaf

/-- What is consumed while reports are not held back has been matched. -/
theorem tells_consume_match (hp : p.Earnest) (hfree : p.recovery.inRecovery = false) (b : Bool) :
    Tells consume p (Told b) := by
  refine (tells_consume hp).mono fun ds o q h => ?_
  rcases o with (e | a) | t
  · exact h.elim
  · obtain rfl : ds = [] := h
    exact ⟨b, .nil b⟩
  · obtain ⟨hds, hreal, hrecovery, hq⟩ := h
    rw [hfree] at hds
    subst hds
    refine ⟨?_, hq⟩
    rw [hrecovery, hfree]
    exact .matched t hreal (.nil _)

/-- What is consumed while reports are held back has been passed over. -/
theorem tells_consume_skip (hp : p.Earnest) (hheld : p.recovery.inRecovery = true) :
    Tells consume p fun ds o q => Told true ds o q ∧ ∀ t, o = .ok t → q.recovery.inRecovery = true := by
  refine (tells_consume hp).mono fun ds o q h => ?_
  rcases o with (e | a) | t
  · exact h.elim
  · obtain rfl : ds = [] := h
    exact ⟨⟨true, .nil true⟩, by rintro _ ⟨⟩⟩
  · obtain ⟨hds, -, hrecovery, hq⟩ := h
    rw [hheld] at hds
    subst hds
    have hstill : q.recovery.inRecovery = true := by rw [hrecovery, hheld]
    refine ⟨⟨?_, hq⟩, fun _ _ => hstill⟩
    rw [hstill]
    exact .skipped t (.nil _)

/-- **Consuming is in order.** -/
theorem tells_consume_told (hp : p.Earnest) : Tells consume p (Told p.recovery.inRecovery) := by
  cases hheld : p.recovery.inRecovery with
  | false => exact tells_consume_match hp hheld false
  | true => exact (tells_consume_skip hp hheld).mono fun _ _ _ h => h.1

/-! ## Hooks -/

omit [TokenSource σ] in
/-- Holding reports back, and then something that is in order. -/
theorem Tells.begin_bind {f : Unit → ParserM σ α} {post : List Deed → Except Interrupt α → Parser σ → Prop}
    (hp : p.Earnest) (hf : Tells (f ()) { p with recovery.inRecovery := true } post) :
    Tells (beginErrorCondition >>= f) p post := by
  refine (tells_beginErrorCondition hp).bind ?_ (by rintro _ _ _ ⟨-, ⟨⟩, -⟩)
  rintro _ _ _ ⟨rfl, -, rfl⟩
  exact hf

omit [TokenSource σ] in
/-- **Reporting the exception of a failed rule.** It is reported unless reports are held back, and they are from then
on. -/
theorem tells_reportError (hp : p.Earnest) (e : RecognitionException) : Tells (reportError e) p fun ds o q =>
    (ds = if p.recovery.inRecovery then [] else [.reported]) ∧ o = .ok () ∧ q.recovery.inRecovery = true ∧
      q.Earnest := by
  refine tells_hooked hp (.get_bind ?_)
  cases hheld : p.recovery.inRecovery with
  | true =>
      simp only [if_true]
      exact .of_idle ⟨rfl, rfl, rfl, hheld, hp⟩
  | false =>
      -- the one place where an exception is reported; the flag is set first, so that nothing else is reported after it
      simp only [Bool.false_eq_true, if_false]
      have hp' : ({ p with recovery.inRecovery := true } : Parser σ).Earnest :=
        ⟨hp.acting, hp.noted, hp.denied, hp.numbered⟩
      refine .begin_bind hp (.get_bind ((tells_report hp' _ _ _).mono ?_))
      rintro ds o q ⟨hds, ho, hrecovery, hq⟩
      exact ⟨hds, ho, by rw [hrecovery], hq⟩

/-- A hook that reports the current token, by a text that `message` makes up. -/
theorem tells_reportToken (hp : p.Earnest) (message : Parser σ → Token → String) :
    Tells (do
      beginErrorCondition
      let t ← ahead 1
      let p ← get
      report t (message p t) none) p fun ds o q =>
      Told false ds o q ∧ ∀ a, o = .ok a → q.recovery.inRecovery = true := by
  refine .begin_bind hp (.ahead_bind ?_ (fun _ _ => ⟨⟨false, .nil false⟩, fun _ h => nomatch h⟩) fun t s _ hq => ?_)
  · exact ⟨hp.acting, hp.noted, hp.denied, hp.numbered⟩
  · refine .get_bind ((tells_report hq _ _ _).mono ?_)
    rintro ds o r ⟨rfl, rfl, hrecovery, hr⟩
    have hheld : r.recovery.inRecovery = true := by rw [hrecovery]
    refine ⟨⟨?_, hr⟩, fun _ _ => hheld⟩
    rw [hheld]
    exact .reported (.nil _)

/-- The same, unless reports are held back. -/
theorem tells_reportTokenUnlessHeld (hp : p.Earnest) (message : Parser σ → Token → String) :
    Tells (do
      unless (← get).recovery.inRecovery do
        beginErrorCondition
        let t ← ahead 1
        let p ← get
        report t (message p t) none) p fun ds o q =>
      Told p.recovery.inRecovery ds o q ∧ (∀ a, o = .ok a → q.recovery.inRecovery = true) := by
  refine .get_bind ?_
  cases hheld : p.recovery.inRecovery with
  | true =>
      simp only [if_true]
      exact .of_idle ⟨rfl, .of_earnest (by rw [hheld]; exact .nil _) hp _, fun _ _ => hheld⟩
  | false =>
      simp only [Bool.false_eq_true, if_false]
      exact tells_reportToken hp message

/-- **Reporting the current token as one too many.** -/
theorem tells_reportUnwanted (hp : p.Earnest) (expecting : TokenSet) :
    Tells (reportUnwanted expecting) p fun ds o q =>
      Told p.recovery.inRecovery ds o q ∧ (∀ a, o = .ok a → q.recovery.inRecovery = true) :=
  tells_hooked hp (tells_reportTokenUnlessHeld hp fun p t =>
    let expected := p.language.vocabulary.displaySet (p.viableFollow expecting)
    s!"extraneous input {t.shown} expecting {expected}")

/-- **Reporting a token as missing.** -/
theorem tells_reportMissing (hp : p.Earnest) (expecting : TokenSet) :
    Tells (reportMissing expecting) p fun ds o q =>
      Told p.recovery.inRecovery ds o q ∧ (∀ a, o = .ok a → q.recovery.inRecovery = true) :=
  tells_hooked hp (tells_reportTokenUnlessHeld hp fun p t =>
    let expected := p.language.vocabulary.displaySet (p.viableFollow expecting)
    s!"missing {expected} at {t.shown}")

/-- Consuming until a token of a set comes. -/
theorem tells_consumeUntil (hp : p.Earnest) (set : TokenSet) (n : Nat) :
    Tells (consumeUntil set n) p (Told p.recovery.inRecovery) := by
  induction n generalizing p with
  | zero => exact tells_idle hp (.refl p)
  | succ n ih =>
      unfold consumeUntil
      refine .ahead_bind hp (fun _ _ => ⟨_, .nil _⟩) fun t s _ hp' => ?_
      by_cases hstop : (t.isEof || set.contains t.ty) = true
      · rw [if_pos hstop]
        exact tells_idle hp' (.refl _)
      · rw [if_neg hstop]
        exact (tells_consume_told hp').bind_told fun _ q hq => ih hq

/-- Passing over tokens while reports are held back. -/
theorem tells_skipTo (hp : p.Earnest) (hheld : p.recovery.inRecovery = true) (set : TokenSet) :
    Tells (skipTo set) p (Told true) := by
  have hsearch : ∀ {q : Parser σ}, q.Earnest → q.recovery.inRecovery = true →
      Tells (do consumeUntil set ((← get).remaining + 1)) q (Told true) := by
    intro q hq hheld
    rw [← hheld]
    exact .get_bind (tells_consumeUntil hq set _)
  refine tells_hooked hp (.get_bind ?_)
  by_cases hanchor : p.strategy.anchoring = true
  · simp only [hanchor, if_true]
    refine .ahead_bind hp (fun _ _ => ⟨_, .nil _⟩) fun t s _ hp' => ?_
    by_cases heof : t.isEof = true
    · rw [if_pos heof]
      -- the anchor is an error leaf, and error leaves are in order while reports are held back
      refine (tells_addErrorLeaf hp' t).bind ?_ (by rintro _ _ _ ⟨-, ⟨⟩, -⟩)
      rintro _ _ q ⟨rfl, -, hrecovery, hq⟩
      refine (hsearch hq (by rw [hrecovery, hheld])).mono fun ds o r hr => ?_
      exact hr.after (.skipped t (.nil true))
    · rw [if_neg heof]
      exact hsearch hp' hheld
  · simp only [hanchor, if_false, Bool.false_eq_true]
    exact hsearch hp hheld

/-- Bringing the input to where a caller of a failed rule can go on. -/
theorem tells_recover (hp : p.Earnest) (hheld : p.recovery.inRecovery = true) (e : RecognitionException) :
    Tells (recover e) p (Told true) := by
  -- the recovery is kept in mind, and then tokens are passed over
  have hresume : ∀ {q : Parser σ} (rule : Option RuleIndex), q.Earnest → q.recovery.inRecovery = true →
      Tells (do
        modify fun p => { p with
          recovery.lastErrorIndex := some p.index
          recovery.lastErrorRules := p.recovery.lastErrorRules ++ rule.toList }
        skipTo (← get).recoverySet) q (Told true) := by
    intro q rule hq hheld
    refine .modify_bind rfl (.get_bind (tells_skipTo ?_ ?_ _))
    · exact ⟨hq.acting, hq.noted, hq.denied, hq.numbered⟩
    · exact hheld
  -- a token is given up first if recovery would come to the same place again
  refine tells_hooked hp (.get_bind ?_)
  by_cases hstalled : (p.recovery.lastErrorIndex == some p.index &&
    p.currentRule?.any p.recovery.lastErrorRules.contains) = true
  · simp only [hstalled, if_true]
    exact (tells_consume_skip hp hheld).bind_held fun _ q hq hheld => hresume _ hq hheld
  · simp only [hstalled, if_false, Bool.false_eq_true]
    exact hresume _ hp hheld

omit [TokenSource σ] in
/-- An answer that only a broken contract can keep from being given, and what is made of it. -/
theorem Tells.orBroken_bind {answer : Except Violation α} {f : α → ParserM σ β}
    {post : List Deed → Except Interrupt β → Parser σ → Prop} (hstop : ∀ a q, post [] (.error (.abort a)) q)
    (hf : ∀ a, Tells (f a) p post) : Tells (orBroken answer >>= f) p post := by
  have hanswer : Tells (orBroken answer : ParserM σ α) p fun ds o q => ds = [] ∧ q = p ∧
      ∀ e, o ≠ .error (.recognition e) := by
    refine .of_idle ?_
    cases answer with
    | ok a => exact ⟨rfl, rfl, rfl, fun _ h => nomatch h⟩
    | error v => exact ⟨rfl, rfl, rfl, fun _ h => nomatch h⟩
  refine hanswer.bind ?_ ?_
  · rintro _ a _ ⟨rfl, rfl, -⟩
    exact hf a
  · rintro _ i q ⟨rfl, -, hi⟩
    cases i with
    | recognition e => exact absurd rfl (hi e)
    | abort a => exact hstop a q

/-- **Dropping a token.** If one is dropped, the expected one is current, and reports are not held back any more. -/
theorem tells_singleTokenDeletion (hp : p.Earnest) (expected : TokenType) :
    Tells (singleTokenDeletion expected) p fun ds o q => match o with
      | .ok (some matched) => Orderly p.recovery.inRecovery ds true ∧ q.recovery.inRecovery = false ∧ q.Earnest ∧
          matched.isConjured = false
      | o => Told p.recovery.inRecovery ds o q := by
  refine tells_hooked hp (.ahead_bind hp (fun _ _ => ⟨_, .nil _⟩) fun t s _ hp' => ?_)
  by_cases hty : (t.ty != expected) = true
  · simp only [hty, if_true]
    exact .of_idle ⟨rfl, .nil _, hp'⟩
  · simp only [hty, if_false, Bool.false_eq_true]
    refine .orBroken_bind (fun _ _ => ⟨_, .nil _⟩) fun set => ?_
    refine (tells_reportUnwanted hp' set).bind ?_ fun _ _ _ hq => hq.1.of_error
    intro ds _ q hq
    have hheld := hq.2 _ rfl
    have hreported : Orderly p.recovery.inRecovery ds true := by
      rw [← hheld]
      exact hq.1.1
    -- the token that is dropped has been reported, and so becomes an error leaf
    refine (tells_consume_skip hq.1.2 hheld).bind ?_ fun _ _ _ hr => (hr.1.after hreported).of_error
    intro ds' _ r hr
    have hdropped : Orderly p.recovery.inRecovery (ds ++ ds') true := by
      rw [← hr.2 _ rfl]
      exact hreported.append hr.1.1
    refine .ahead_bind hr.1.2 (fun _ _ => ⟨true, ?_⟩) fun matched s' hmatched hs' => ?_
    · rwa [List.append_nil]
    · refine (tells_reportMatch hs').bind ?_ (by rintro _ _ _ ⟨-, ⟨⟩, -⟩)
      rintro _ _ _ ⟨rfl, -, rfl⟩
      refine .of_idle ⟨rfl, ?_, rfl, ⟨hs'.acting, hs'.noted, hs'.denied, hs'.numbered⟩, hmatched⟩
      simpa using hdropped

/-- Seeing whether a token is missing.  If it is, then reports are held back. -/
theorem tells_singleTokenInsertion (hp : p.Earnest) (expected : TokenType) (follow : TokenSet) :
    Tells (singleTokenInsertion expected follow) p fun ds o q =>
      Told p.recovery.inRecovery ds o q ∧ (o = .ok true → q.recovery.inRecovery = true) := by
  refine tells_hooked hp (.ahead_bind hp (fun _ _ => ⟨⟨_, .nil _⟩, by rintro ⟨⟩⟩) fun t s _ hp' => .get_bind ?_)
  by_cases hviable : (!(({ p with input := s } : Parser σ).viableFollow follow).contains t.ty) = true
  · rw [if_pos hviable]
    exact .of_idle ⟨rfl, ⟨.nil _, hp'⟩, by rintro ⟨⟩⟩
  · rw [if_neg hviable]
    refine .orBroken_bind (fun _ _ => ⟨⟨_, .nil _⟩, by rintro ⟨⟩⟩) fun set => ?_
    refine (tells_reportMissing hp' set).bind ?_ fun _ _ _ hq => ⟨hq.1.of_error, by rintro ⟨⟩⟩
    intro ds _ q hq
    refine .of_idle ⟨rfl, ?_, fun _ => hq.2 _ rfl⟩
    rw [List.append_nil]
    exact hq.1

/-- Making up a token does nothing by itself. -/
theorem ends_missingSymbol_idle (hp : p.Earnest) (expected : TokenType) :
    Ends (missingSymbol expected) p fun _ q => p.Idle q := by
  have hallows : p.strategy.allows .missing = true := rfl
  unfold missingSymbol hooked
  rw [ends_get_bind]
  simp only [hp.noted, Bool.false_eq_true, if_false]
  rw [if_pos hallows]
  refine ends_idle_bind ((ends_ahead_idle 1 p).mono fun _ _ h => h.1) fun t q _ => ?_
  rw [ends_get_bind]
  by_cases hanchor : (!q.strategy.anchoring) = true
  · rw [if_pos hanchor]
    exact .refl q
  · rw [if_neg hanchor]
    exact ends_idle_bind ((ends_ahead_idle 1 q).mono fun _ _ h => h.1) fun u r _ => .refl r

/-- **Mending the lack of a token.** If a token is made up, then reports are held back, and whatever the answer is, the
lack has been reported, unless reports were held back before. -/
theorem tells_recoverInline (hp : p.Earnest) (expected : TokenType) (follow : TokenSet) :
    Tells (recoverInline expected follow) p fun ds o q => Told p.recovery.inRecovery ds o q ∧
      (∀ t, o = .ok t → t.isConjured = true → q.recovery.inRecovery = true) ∧
      ∀ t, o = .ok t → p.recovery.inRecovery = false → Deed.reported ∈ ds := by
  -- where neither mending works a mismatch is raised, which is no answer
  have hmismatch : ∀ {q : Parser σ}, q.Earnest → ∀ {b : Bool}, b = q.recovery.inRecovery →
      Tells (do raiseMismatch (← orBroken (TokenSet.single? expected)) : ParserM σ Token) q fun ds o r =>
        Told b ds o r ∧ ∀ t, o ≠ .ok t := by
    intro q hq b hb
    subst hb
    refine .orBroken_bind (fun _ _ => ⟨⟨_, .nil _⟩, fun _ h => nomatch h⟩) fun set => ?_
    refine .ahead_bind hq (fun _ _ => ⟨⟨_, .nil _⟩, fun _ h => nomatch h⟩) fun t s _ hq' => ?_
    refine .of_idle ((ends_newException_idle _ _ _).mono ?_)
    rintro o r ⟨hidle, e, rfl⟩
    refine ⟨hidle.ledger, ⟨?_, hq'.idle hidle⟩, fun _ h => nomatch h⟩
    rw [hidle.recovery]
    exact .nil _
  refine tells_hooked hp ((tells_singleTokenDeletion hp expected).bind ?_ fun _ _ _ hq =>
    ⟨hq.of_error, (fun _ h => nomatch h), fun _ h => nomatch h⟩)
  rintro ds (_ | matched) q hq
  · refine (tells_singleTokenInsertion hq.2 expected follow).bind ?_ fun _ _ _ hr =>
      ⟨(hr.1.after hq.1).of_error, (fun _ h => nomatch h), fun _ h => nomatch h⟩
    rintro ds' missing r hr
    have htold := hr.1.after hq.1
    -- nothing was dropped: without a token to make up there is a mismatch, and with one it has been reported
    cases missing with
    | false =>
        refine (hmismatch hr.1.2 rfl).mono fun ds'' o t ht => ?_
        rw [← List.append_assoc]
        exact ⟨ht.1.after htold.1, fun t ho => absurd ho (ht.2 t), fun t ho => absurd ho (ht.2 t)⟩
    | true =>
        refine .of_idle ((ends_missingSymbol_idle hr.1.2 expected).mono fun o t ht => ⟨ht.ledger, ?_, ?_, ?_⟩)
        · rw [List.append_nil]
          refine .of_earnest ?_ (hr.1.2.idle ht) o
          rw [ht.recovery]
          exact htold.1
        · intro _ _ _
          rw [ht.recovery]
          exact hr.2 rfl
        · intro _ _ hfree
          rw [List.append_nil]
          exact htold.1.reported_of_held hfree (hr.2 rfl)
  · -- after the dropped token the expected one is matched
    obtain ⟨hdropped, hfree, hq, hmatched⟩ := hq
    refine (tells_consume hq).bind ?_ ?_
    · rintro _ t r ⟨rfl, hreal, hrecovery, hr⟩
      refine .of_idle ⟨rfl, ⟨?_, hr⟩, ?_, ?_⟩
      · rw [hrecovery, hfree, List.append_nil]
        exact hdropped.append (.matched t hreal (.nil _))
      · rintro _ ⟨⟩ hconjured
        exact absurd (hmatched.symm.trans hconjured) Bool.false_ne_true
      · intro _ _ hbefore
        exact List.mem_append_left _ (hdropped.reported_of_held hbefore rfl)
    · rintro ds' (e | a) r hr
      · exact hr.elim
      · subst hr
        exact ⟨⟨true, by simpa using hdropped⟩, (fun _ h => nomatch h), fun _ h => nomatch h⟩

/-- **Guarding a loop.** -/
theorem tells_syncHook (hp : p.Earnest) (expecting : TokenSet) :
    Tells (syncHook expecting) p (Told p.recovery.inRecovery) := by
  refine tells_hooked hp (.get_bind ?_)
  cases hheld : p.recovery.inRecovery with
  | true =>
      simp only [if_true]
      rw [← hheld]
      exact tells_idle hp (.refl p)
  | false =>
      simp only [Bool.false_eq_true, if_false]
      refine .ahead_bind hp (fun _ _ => ⟨_, .nil _⟩) fun t s _ hp' => ?_
      -- a token that fits needs no guard; one that does not is reported, after which reports are held back
      by_cases hfits : (expecting.contains t.ty || expecting.endOfRule) = true
      · rw [if_pos hfits, ← hheld]
        exact tells_idle hp' (.refl _)
      · rw [if_neg hfits, ← hheld]
        refine (tells_reportUnwanted hp' expecting).bind_held fun _ q hq hheld => ?_
        exact .get_bind (tells_skipTo hq hheld _)

/-! ## Operations -/

/-- **Matching a token.** -/
theorem tells_expect (hp : p.Earnest) (ty : TokenType) (follow : TokenSet) :
    Tells (expect ty follow) p (Told p.recovery.inRecovery) := by
  unfold expect
  refine .ahead_bind hp (fun _ _ => ⟨_, .nil _⟩) fun t s _ hp' => ?_
  have hacting : ({ p with input := s } : Parser σ).isSpeculating = false := hp'.isSpeculating
  by_cases hty : (t.ty == ty) = true
  · simp only [hty, if_true]
    refine .get_bind ?_
    simp only [hacting, Bool.false_eq_true, if_false]
    -- the flag falls right before the token becomes a leaf
    refine (tells_reportMatch hp').bind ?_ (by rintro _ _ _ ⟨-, ⟨⟩, -⟩)
    rintro _ _ _ ⟨rfl, -, rfl⟩
    have hmatched : ({ p with input := s, recovery := {} } : Parser σ).Earnest :=
      ⟨hp'.acting, hp'.noted, hp'.denied, hp'.numbered⟩
    exact tells_consume_match hmatched rfl _
  · simp only [hty, Bool.false_eq_true, if_false]
    refine .get_bind ?_
    simp only [hacting, Bool.false_eq_true, if_false]
    refine (tells_recoverInline hp' ty follow).bind ?_ fun _ _ _ hq => hq.1.of_error
    intro ds t q hq
    by_cases hconjured : t.isConjured = true
    -- a token that is made up has been reported, so that its leaf comes while reports are held back
    · have hheld := hq.2.1 t rfl hconjured
      have hmended : Orderly p.recovery.inRecovery ds true := by
        rw [← hheld]
        exact hq.1.1
      simp only [hconjured, if_true]
      refine (tells_addErrorLeaf hq.1.2 t).bind ?_ (by rintro _ _ _ ⟨-, ⟨⟩, -⟩)
      rintro _ _ r ⟨rfl, -, hrecovery, hr⟩
      refine .of_idle ⟨rfl, ?_, hr⟩
      rw [hrecovery, hheld, List.append_nil]
      exact hmended.append (.skipped t (.nil true))
    · simp only [hconjured, Bool.false_eq_true, if_false]
      refine .of_idle ⟨rfl, ?_, hq.1.2⟩
      rw [List.append_nil]
      exact hq.1.1

omit [TokenSource σ] in
/-- The exception of a failed rule is noted on its node, if it has one. -/
theorem tells_mark (hp : p.Earnest) (e : RecognitionException) :
    Tells (modify fun p => match p.currentNode? with
      | some node => { p with tree := p.tree.modifyRule node fun r => { r with exception := some e } }
      | none => p) p fun ds o q =>
        (ds = [] ∨ ds = [.marked]) ∧ o = .ok ⟨⟩ ∧ q.recovery = p.recovery ∧ q.Earnest := by
  have hends : ∀ {post : Except Interrupt PUnit → Parser σ → Prop} (g : Parser σ → Parser σ),
      post (.ok ⟨⟩) (g p) → Ends (modify g) p post := fun _ h => h
  cases hnode : p.currentNode? with
  | none =>
      refine .of_idle (hends _ ?_)
      simp only [hnode]
      exact ⟨trivial, .inl trivial, trivial, trivial, hp⟩
  | some node =>
      refine .of_deed (hends _ ?_)
      simp only [hnode]
      exact ⟨_, enters_mark p node e, .inr rfl, trivial, trivial, hp.acting, hp.noted, hp.denied, hp.numbered⟩

/-- **What is done about a rule that has failed.** The failure is reported unless reports are held back. -/
theorem tells_handleRecognition (hp : p.Earnest) (e : RecognitionException) :
    Tells (handleRecognition e) p fun ds o q =>
      Told p.recovery.inRecovery ds o q ∧ (p.recovery.inRecovery = false → Deed.reported ∈ ds) := by
  -- once the rule is marked, the exception is reported unless reports are held back
  have hrest : ∀ {q : Parser σ} {b : Bool} {ds : List Deed}, q.Earnest → b = q.recovery.inRecovery →
      ds = [] ∨ ds = [.marked] →
      Tells (reportError e >>= fun _ => recover e) q fun ds' o r =>
        Told b (ds ++ ds') o r ∧ (b = false → Deed.reported ∈ ds ++ ds') := by
    rintro q _ ds hq rfl hds
    refine (tells_reportError hq e).bind ?_ (by rintro _ _ _ ⟨-, ⟨⟩, -⟩)
    rintro ds' _ r ⟨hds', -, hheld, hr⟩
    refine (tells_recover hr hheld e).mono fun ds'' o r' htold => ?_
    rw [← List.append_assoc]
    have hreported : Orderly q.recovery.inRecovery (ds ++ ds') true := by
      rw [hds']
      obtain rfl | rfl := hds <;> cases q.recovery.inRecovery
      · exact .reported (.nil _)
      · exact .nil _
      · exact .failed (.nil _)
      · exact .marked (.nil _)
    exact ⟨htold.after hreported, fun hfree => List.mem_append_left _ (hreported.reported_of_held hfree rfl)⟩
  refine (tells_mark hp e).bind ?_ (by rintro _ _ _ ⟨-, ⟨⟩, -⟩)
  rintro ds _ q ⟨hds, -, hrecovery, hq⟩
  exact hrest hq (by rw [hrecovery]) hds

/-- Leaving a rule adds nothing to what its body has done. -/
theorem tells_leave {ds : List Deed} {o : Except Interrupt Unit} (h : Told b ds o p) :
    Tells (do
      let exited ← observe exitRule
      release o
      release exited) p fun ds' o' q => Told b (ds ++ ds') o' q := by
  refine .of_idle ((ends_leave_idle o p).mono ?_)
  rintro o' q ⟨hidle, hfailed, -⟩
  refine ⟨hidle.ledger, ?_⟩
  rw [List.append_nil]
  have hstays : ∀ o'' : Except Interrupt Unit, Orderly b ds p.recovery.inRecovery ∧ p.Earnest → Told b ds o'' q := by
    intro o'' hp
    refine .of_earnest ?_ (hp.2.idle hidle) o''
    rw [hidle.recovery]
    exact hp.1
  -- a parse that is given up has no state to speak of any more, but its deeds stay in order
  match o, h with
  | .ok _, h => exact hstays _ h
  | .error (.recognition _), h => exact hstays _ h
  | .error (.abort a), h =>
      rw [hfailed _ rfl]
      exact h

/-- **A rule** whose body is in order is in order. -/
theorem tells_rule {r : RuleIndex} {body : ParserM σ Unit}
    (hbody : ∀ q : Parser σ, q.Earnest → Tells body q (Told q.recovery.inRecovery)) (hp : p.Earnest) :
    Tells (rule r body) p (Told p.recovery.inRecovery) := by
  unfold rule
  refine .idle_bind ((ends_enterRule_idle r p).mono fun _ _ h => h.1) hp rfl fun _ q hidle => ?_
  have hq := hp.idle hidle
  rw [← hidle.recovery]
  refine .observe_bind (hbody q hq) ?_
  intro ds o q' hq'
  match o, hq' with
  | .ok _, hq' => exact tells_leave hq'
  | .error (.abort _), hq' => exact tells_leave hq'
  | .error (.recognition e), hq' =>
      refine .get_bind ?_
      simp only [hq'.2.isSpeculating, Bool.false_eq_true, if_false]
      refine .observe_bind (tells_handleRecognition hq'.2 e) fun ds' o' s hs => ?_
      exact (tells_leave hs.1).mono fun _ _ _ h => h.after hq'.1

omit [TokenSource σ] in
/-- **Invoking** a body that is in order is in order. -/
theorem tells_invoke {follow : TokenSet} {body : ParserM σ α}
    (hbody : ∀ q : Parser σ, q.Earnest → Tells body q (Told q.recovery.inRecovery)) (hp : p.Earnest) :
    Tells (invoke follow body) p (Told p.recovery.inRecovery) := by
  refine .modify_bind rfl ?_
  have hinvoked : ({ p with follow := follow :: p.follow } : Parser σ).Earnest :=
    ⟨hp.acting, hp.noted, hp.denied, hp.numbered⟩
  refine .observe_bind (hbody _ hinvoked) fun ds o q hq => .modify_bind rfl ?_
  refine .of_idle ((ends_release o).mpr ⟨rfl, ?_⟩)
  rw [List.append_nil]
  match o, hq with
  | .ok _, hq => exact ⟨hq.1, hq.2.acting, hq.2.noted, hq.2.denied, hq.2.numbered⟩
  | .error (.recognition _), hq => exact ⟨hq.1, hq.2.acting, hq.2.noted, hq.2.denied, hq.2.numbered⟩
  | .error (.abort _), hq => exact hq

omit [TokenSource σ] in
/-- **Catching the failure** of a body that is in order is in order. -/
theorem tells_attempt {body : ParserM σ α} (hbody : Tells body p (Told p.recovery.inRecovery)) :
    Tells (attempt body) p (Told p.recovery.inRecovery) := by
  refine .observe_bind hbody fun ds o q hq => ?_
  have hstays : ∀ {o' : Except Interrupt (Except RecognitionException α)},
      Told p.recovery.inRecovery ds o' q → Told p.recovery.inRecovery (ds ++ []) o' q := by
    intro o' h
    rwa [List.append_nil]
  match o, hq with
  | .ok _, hq => exact .of_idle ⟨rfl, hstays hq⟩
  | .error (.recognition _), hq => exact .of_idle ⟨rfl, hstays hq⟩
  | .error (.abort _), hq => exact .of_idle ⟨rfl, hstays hq⟩

end Parser

open TreeProjection.Parser

variable {α β : Type} {σ : Type} [TokenSource σ] {p : Parser σ}

/-- **An operation is in order.** -/
theorem Operation.tells (op : Operation β) (hp : p.Earnest) : Tells op.run p (Told p.recovery.inRecovery) := by
  cases op with
  | ahead k => exact tells_idle hp ((ends_ahead_idle k p).mono fun _ _ h => h.1)
  | expect ty follow => exact tells_expect hp ty follow
  | consume => exact tells_consume_told hp
  | sync expecting =>
      refine .get_bind ?_
      simp only [hp.isSpeculating, Bool.false_eq_true, if_false]
      exact tells_syncHook hp expecting
  | require holds text => exact tells_idle hp (ends_require_idle holds text)
  | noViableAlt depth => exact tells_idle hp (ends_raiseNoViableAlt_idle depth)
  | mismatch expected => exact tells_idle hp (ends_raiseMismatch_idle expected)

/-- **What an ordinary recognizer does is in order**, however it ends. -/
theorem Recognizer.Ordinary.tells {r : Recognizer α} (h : r.Ordinary) (hp : p.Earnest) :
    Tells r.run p (Told p.recovery.inRecovery) := by
  induction r generalizing p with
  | pure a => exact tells_idle hp (.refl p)
  | outOfSteps => exact tells_idle hp (.refl p)
  | step op next ih => exact (op.tells hp).bind_told fun b q hq => ih b (h b) hq
  | direct d next ih => exact h.elim
  | rule r body next ihbody ihnext =>
      exact (tells_rule (fun q hq => ihbody () h.1 hq) hp).bind_told fun u q hq => ihnext u (h.2 u) hq
  | invoke follow body next ihbody ihnext =>
      exact (tells_invoke (fun q hq => ihbody () h.1 hq) hp).bind_told fun b q hq => ihnext b (h.2 b) hq
  | speculate body next ihbody ihnext =>
      have htrial := tells_idle hp ((ends_speculate_idle (fun _ hq => h.1.ends_idle hq) p).mono fun _ _ h => h.1)
      exact htrial.bind_told fun b q hq => ihnext b (h.2 b) hq
  | attempt body next ihbody ihnext =>
      exact (tells_attempt (ihbody () h.1 hp)).bind_told fun b q hq => ihnext b (h.2 b) hq

end TreeProjection
