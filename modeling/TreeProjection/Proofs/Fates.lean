import TreeProjection.Proofs.Consumed

/-! # What becomes of the tokens of the input

A token of the input that a parse passes is either matched, when a recognizer expects its type and gets it for an answer,
or skipped: dropped in front of the expected token, passed over by the guard of a loop, or passed over after a rule has
failed.  Which of the two it is shows from outside, in what the operations answer and where they leave the input.  The
tree tells the same: its leaves for matched tokens are the matched ones, and its error leaves the skipped ones.

* `Recognizer.fates` — what becomes of the tokens that a recognizer passes.
* `Recognizer.LeavesConsuming` — a recognizer that leaves it to the other operations to consume tokens.
* `Parser.Accounts` — leaves of a tree tell what has become of tokens.
* `Recognizer.OrdinaryRule.runs_recounts` — the leaves of a finished tree account for all tokens that were passed. -/

namespace TreeProjection

open ParseNode (View)
open TreeProjection.Parser

variable {σ α β : Type}

/-- **What becomes of a token** of the input. -/
inductive Fate where
  /-- It is the answer where a type was expected. -/
  | matched (ty : TokenType) (t : Token)
  /-- It is passed, and is no answer. -/
  | skipped (t : Token)
  deriving DecidableEq, Repr

/-- The leaf for a token, with the flag of a matched one. -/
def Fate.leaf : Fate → Bool × Token
  | matched _ t => (true, t)
  | skipped t => (false, t)

namespace Parser

/-- The state in which an action ends. -/
def after (x : ParserM σ α) (p : Parser σ) : Parser σ :=
  match x p with
  | .ok _ q => q
  | .error _ q => q

/-- What comes of the answer of an action, if it gives one. -/
def onward {γ : Type} (x : ParserM σ α) (p : Parser σ) (f : α → Parser σ → List γ) : List γ :=
  match x p with
  | .ok a q => f a q
  | .error _ _ => []

/-- The visible tokens that have been passed from one state to another. -/
def passed (p q : Parser σ) : List Token :=
  ((q.input.buffer.toList.take q.index).drop p.index).filter Token.isVisible

end Parser

variable [TokenSource σ]

/-- What becomes of the tokens that an operation passes.  Where a type is expected, the answer is a matched token, unless
it was made up, and the tokens passed before it are skipped. -/
def Operation.fates (op : Operation β) (p : Parser σ) : List Fate :=
  match op with
  | .expect ty follow =>
    match Parser.expect ty follow p with
    | .ok t q =>
      if t.isConjured then (p.passed q).map .skipped
      else ((p.passed q).filter (· != t)).map .skipped ++ [.matched ty t]
    | .error _ q => (p.passed q).map .skipped
  | op => (p.passed (after op.run p)).map .skipped

/-- **What becomes of the tokens that a recognizer passes**, one after the other.  Nothing becomes of those that it tries.
A rule that fails passes over tokens once its body has ended. -/
def Recognizer.fates {α : Type} : Recognizer α → Parser σ → List Fate
  | .pure _, _ => []
  | .outOfSteps, _ => []
  | .step op next, p => op.fates p ++ onward op.run p fun b q => (next b).fates q
  | .direct d next, p => onward d.run p fun b q => (next b).fates q
  | .rule r body next, p =>
    (onward (Parser.enterRule r) p fun _ p₁ => (body ()).fates p₁ ++
      ((after (body ()).run p₁).passed (after (Parser.rule r (body ()).run) p)).map .skipped) ++
    onward (Parser.rule r (body ()).run) p fun u q => (next u).fates q
  | .invoke follow body next, p =>
    (body ()).fates { p with follow := follow :: p.follow } ++
    onward (Parser.invoke follow (body ()).run) p fun b q => (next b).fates q
  | .speculate body next, p => onward (Parser.speculate (body ()).run) p fun b q => (next b).fates q
  | .attempt body next, p =>
    (body ()).fates p ++ onward (Parser.attempt (body ()).run) p fun b q => (next b).fates q

/-- Whether an operation is to consume the current token, whatever it is. -/
def Operation.isConsume : Operation β → Bool
  | .consume => true
  | _ => false

omit [TokenSource σ] in
/-- **Whether a recognizer leaves it to other operations to consume tokens.** What it does on trial makes no
difference. -/
def Recognizer.LeavesConsuming {α : Type} : Recognizer α → Prop
  | .pure _ => True
  | .outOfSteps => True
  | .step op next => op.isConsume = false ∧ ∀ b, (next b).LeavesConsuming
  | .direct _ next => ∀ b, (next b).LeavesConsuming
  | .rule _ body next => (body ()).LeavesConsuming ∧ ∀ u, (next u).LeavesConsuming
  | .invoke _ body next => (body ()).LeavesConsuming ∧ ∀ b, (next b).LeavesConsuming
  | .speculate _ next => ∀ b, (next b).LeavesConsuming
  | .attempt body next => (body ()).LeavesConsuming ∧ ∀ b, (next b).LeavesConsuming

namespace Parser

variable {x : Tape} {p p₁ q r : Parser σ} {vs ws : List View} {fair : List Report → Prop}

/-! ## Leaves that account for tokens -/

/-- Whether a leaf is for a matched token, or for a token of the input that was passed: any but one that was made up or
that stands for the end. -/
def isKept (l : Bool × Token) : Bool := l.1 || (!l.2.isConjured && !l.2.isEof)

/-- **Leaves account for what has become of tokens**: those for made-up tokens and for the end apart, they are for the
tokens, in order, and each token matched where a type was expected has that type. -/
structure Accounts (ls : List (Bool × Token)) (fs : List Fate) : Prop where
  /-- The leaves are for the tokens. -/
  leaves : ls.filter isKept = fs.map Fate.leaf
  /-- What has been matched is what was expected. -/
  types : ∀ ty t, Fate.matched ty t ∈ fs → t.ty = ty

namespace Accounts

variable {ls ms : List (Bool × Token)} {fs gs : List Fate}

/-- Nothing accounts for nothing. -/
theorem nil : Accounts [] [] := ⟨rfl, fun _ _ h => absurd h List.not_mem_nil⟩

/-- First some leaves, then others. -/
theorem append (h : Accounts ls fs) (h' : Accounts ms gs) : Accounts (ls ++ ms) (fs ++ gs) where
  leaves := by rw [List.filter_append, List.map_append, h.leaves, h'.leaves]
  types ty t ht := (List.mem_append.mp ht).elim (h.types ty t) (h'.types ty t)

/-- **A leaf is for a matched token** if the token was matched where its own type was expected, and only then. -/
theorem mem_matched (h : Accounts ls fs) (t : Token) : (true, t) ∈ ls ↔ Fate.matched t.ty t ∈ fs := by
  have hkept : (true, t) ∈ ls ↔ (true, t) ∈ ls.filter isKept := by simp [List.mem_filter, isKept]
  rw [hkept, h.leaves, List.mem_map]
  constructor
  · rintro ⟨fate, hfate, hleaf⟩
    cases fate with
    | matched ty t' =>
        cases hleaf
        rwa [h.types ty t hfate]
    | skipped t' => cases hleaf
  · exact fun hfate => ⟨_, hfate, rfl⟩

/-- **A leaf is an error leaf** for a token of the input if the token was skipped, and only then. -/
theorem mem_skipped (h : Accounts ls fs) {t : Token} (hreal : t.isConjured = false) (hinner : t.isEof = false) :
    (false, t) ∈ ls ↔ Fate.skipped t ∈ fs := by
  have hkept : (false, t) ∈ ls ↔ (false, t) ∈ ls.filter isKept := by
    simp [List.mem_filter, isKept, hreal, hinner]
  rw [hkept, h.leaves, List.mem_map]
  constructor
  · rintro ⟨fate, hfate, hleaf⟩
    cases fate with
    | matched ty t' => cases hleaf
    | skipped t' =>
        cases hleaf
        exact hfate
  · exact fun hfate => ⟨_, hfate, rfl⟩

/-- **Error leaves account for skipped tokens.** -/
theorem skipped (hvs : ∀ v ∈ vs, ∃ t, v = View.error t) :
    Accounts (View.leavesOf vs) ((View.read vs).map .skipped) := by
  refine ⟨?_, fun ty t ht => ?_⟩
  · rw [View.read]
    induction vs with
    | nil => rfl
    | cons v vs ih =>
        obtain ⟨t, rfl⟩ := hvs v List.mem_cons_self
        have ih := ih fun w hw => hvs w (List.mem_cons_of_mem _ hw)
        simp only [View.leavesOf, View.leaves, List.singleton_append, List.map_cons, List.filter_cons, isKept,
          Bool.false_or]
        cases hkept : !t.isConjured && !t.isEof
        · simpa using ih
        · simpa [Fate.leaf] using ih
  · obtain ⟨u, -, hu⟩ := List.mem_map.mp ht
    cases hu

end Accounts

/-- **What has been passed** up to a place of the tape. -/
theorem passed_eq_between (hq : q.input.Standing x q.index) : p.passed q = x.between p.index q.index := by
  rw [passed, hq.take_buffer, Tape.between, ← List.map_drop, List.drop_range']
  simp

/-! ## Actions and what they have come to -/

/-- **An action has ended so.** -/
def Ran (act : ParserM σ α) (p : Parser σ) (o : Except RecognitionException α) (q : Parser σ) : Prop :=
  act p = match o with
    | .ok a => .ok a q
    | .error e => .error (.recognition e) q

omit [TokenSource σ] in
/-- Every action ends in the way that it ends. -/
theorem ran {act : ParserM σ α} {good : Except RecognitionException α → Parser σ → Prop}
    (h : Runs act p fair good) : Runs act p fair fun o q => good o q ∧ Ran act p o q := by
  refine (Ends.and h (Ends.self act p)).mono fun o q hq => ?_
  match o with
  | .ok _ => exact hq
  | .error (.recognition _) => exact hq
  | .error (.abort _) => exact hq.1

namespace Ran

variable {act : ParserM σ α} {o : Except RecognitionException α}

omit [TokenSource σ] in
/-- The state in which an action has ended. -/
theorem after_eq (h : Ran act p o q) : after act p = q := by
  unfold Ran at h
  unfold after
  cases o <;> rw [h]

omit [TokenSource σ] in
/-- What comes of an answer. -/
theorem onward_ok {γ : Type} {a : α} (h : Ran act p (.ok a) q) (f : α → Parser σ → List γ) :
    onward act p f = f a q := by
  have hact : act p = .ok a q := h
  unfold onward
  rw [hact]

omit [TokenSource σ] in
/-- Nothing comes of a failure. -/
theorem onward_error {γ : Type} {e : RecognitionException} (h : Ran act p (.error e) q)
    (f : α → Parser σ → List γ) : onward act p f = [] := by
  have hact : act p = .error (.recognition e) q := h
  unfold onward
  rw [hact]

end Ran

/-- **What an action has added to the tree accounts for what has become of tokens.** -/
def Recounts (x : Tape) (p : Parser σ) (fs : List Fate) (o : Except RecognitionException α) (q : Parser σ) : Prop :=
  ∃ vs rs, Step x p vs rs q ∧ (∀ e, o = .error e → e.anchor = x.token q.index) ∧ Accounts (View.leavesOf vs) fs

/-- An action that answers accounts for what its step accounts for. -/
theorem Step.recounts_ok {fs : List Fate} {rs : List Report} {a : α} (hstep : Step x p vs rs q)
    (h : Accounts (View.leavesOf vs) fs) : Recounts x p fs (.ok a) q := by
  refine ⟨vs, rs, hstep, ?_, h⟩
  rintro _ ⟨⟩

/-- A step that adds error leaves alone accounts for the tokens that it passes. -/
theorem Step.recounts {rs : List Report} {o : Except RecognitionException α} (hstep : Step x p vs rs q)
    (hvs : ∀ v ∈ vs, ∃ t, v = View.error t) (hanchor : ∀ e, o = .error e → e.anchor = x.token q.index) :
    Recounts x p ((p.passed q).map .skipped) o q := by
  refine ⟨vs, rs, hstep, hanchor, ?_⟩
  rw [passed_eq_between hstep.standing, ← hstep.read]
  exact .skipped hvs

/-- A step that adds nothing accounts for the tokens that it passes, if it answers. -/
theorem Step.recounts_nothing {rs : List Report} {a : α} (hstep : Step x p [] rs q) :
    Recounts x p ((p.passed q).map .skipped) (.ok a) q :=
  hstep.recounts (fun _ hv => absurd hv List.not_mem_nil) (by rintro _ ⟨⟩)

/-- A failed action has passed nothing. -/
theorem Failed.recounts {e : RecognitionException} (h : Failed x p e q) :
    Recounts x p ((p.passed q).map .skipped) (.error e : Except RecognitionException α) q := by
  refine h.step.recounts (fun _ hv => absurd hv List.not_mem_nil) ?_
  rintro _ ⟨⟩
  rw [h.anchor, h.index]

/-- What comes after a step that accounts for some tokens. -/
theorem Recounts.after {o : Except RecognitionException α} {fs gs : List Fate} {rs : List Report}
    (hstep : Step x p vs rs q) (hvs : Accounts (View.leavesOf vs) fs) (h : Recounts x q gs o r) :
    Recounts x p (fs ++ gs) o r := by
  obtain ⟨ws, rs', hrest, hanchor, hws⟩ := h
  refine ⟨vs ++ ws, rs ++ rs', hstep.trans hrest, hanchor, ?_⟩
  rw [View.leavesOf_append]
  exact hvs.append hws

/-- A failure is handed on, and nothing comes after it. -/
theorem Recounts.handed_on {e : RecognitionException} {fs : List Fate}
    (h : Recounts x p fs (.error e : Except RecognitionException α) q) :
    Recounts x p (fs ++ []) (.error e : Except RecognitionException β) q := by
  obtain ⟨vs, rs, hstep, hanchor, hvs⟩ := h
  rw [List.append_nil]
  exact ⟨vs, rs, hstep, fun _ he => hanchor _ (congrArg _ (Except.error.inj he)), hvs⟩

/-- **One action after the other**, the second of which accounts for what comes of the answer of the first. -/
theorem recounts_bind {act : ParserM σ α} {next : α → ParserM σ β} {fs : List Fate}
    {f : α → Parser σ → List Fate} (hp : Ready x p)
    (h : Runs act p (fun _ => True) (Recounts x p fs))
    (hnext : ∀ a q, Ready x q → Runs (next a) q (fun _ => True) (Recounts x q (f a q))) :
    Runs (act >>= next) p (fun _ => True) (Recounts x p (fs ++ onward act p f)) := by
  refine (ran h).bind ?_ ?_
  · rintro a q ⟨⟨vs, rs, hstep, -, hvs⟩, hran⟩
    rw [hran.onward_ok]
    exact (hnext a q (hstep.ready hp)).mono fun _ _ hr => hr.after hstep hvs
  · rintro e q ⟨hq, hran⟩
    rw [hran.onward_error]
    exact hq.handed_on

/-! ## Operations -/

/-- What becomes of the tokens where a type was expected and a token of the input was the answer. -/
theorem fates_expect_ok {ty : TokenType} {follow : TokenSet} {t : Token}
    (h : Ran (expect ty follow) p (.ok t) q) (ht : t.isConjured = false) :
    (Operation.expect ty follow).fates p = ((p.passed q).filter (· != t)).map .skipped ++ [.matched ty t] := by
  have hexpect : expect ty follow p = .ok t q := h
  simp only [Operation.fates, hexpect, ht, Bool.false_eq_true, if_false]

/-- The current token, which is not the end, is the one that is passed. -/
theorem passed_one (hp : Ready x p) (hlt : p.index < x.size) (hq : q.input.Standing x q.index)
    (hindex : q.index = x.stop (p.index + 1)) : p.passed q = [x.token p.index] := by
  rw [passed_eq_between hq, hindex, x.between_stop hlt hp.standing.isStop]

/-- **A token that was expected** is matched, and one that was dropped before it is skipped. -/
theorem Matched.recounts (hp : Ready x p) {ty : TokenType} {follow : TokenSet}
    {o : Except RecognitionException Token} (h : Matched x p ty follow q o)
    (hran : Ran (expect ty follow) p o q) : Recounts x p ((Operation.expect ty follow).fates p) o q := by
  cases h with
  | here type step index recovery =>
      refine step.recounts_ok ?_
      have hnone : (p.passed q).filter (· != x.token p.index) = [] := by
        rcases Nat.lt_or_ge p.index x.size with hlt | hge
        · simp [passed_one hp hlt step.standing index]
        · have hend : q.index = p.index := by
            have hle := hp.standing.le_size
            rw [index, x.stop_of_le (Nat.le_succ_of_le hge)]
            omega
          simp [passed_eq_between step.standing, hend]
      rw [fates_expect_ok hran (x.isConjured_token _), hnone]
      refine ⟨rfl, fun ty' t ht => ?_⟩
      obtain ⟨rfl, rfl⟩ : ty' = ty ∧ t = x.token p.index := by simpa using ht
      exact type
  | dropped type next rs heard step recovery =>
      refine step.recounts_ok ?_
      have hle := hp.standing.le_size
      have hlt : p.index < x.size := by
        refine Nat.lt_of_le_of_ne hle fun heq => type ?_
        rw [← next, heq, x.stop_of_le (Nat.le_succ _)]
      have hinner : (x.token p.index).isEof = false := by
        rw [x.token_isEof, decide_eq_false_iff_not]
        exact Nat.not_le_of_lt hlt
      -- the token that is dropped is another one than the token after it
      have hother : (x.token p.index != x.token (x.stop (p.index + 1))) = true := by
        have hnext : p.index < x.stop (p.index + 1) := x.le_stop hlt
        have hend : x.stop (p.index + 1) ≤ x.size := x.stop_le
        rw [bne_iff_ne]
        intro heq
        have hindex := congrArg Token.index heq
        rw [x.token_index, x.token_index, Option.some.injEq] at hindex
        omega
      have hdropped : (p.passed q).filter (· != x.token (x.stop (p.index + 1))) = [x.token p.index] := by
        rw [passed_eq_between step.standing, ← step.read]
        cases hend : (x.token (x.stop (p.index + 1))).isEof <;>
          simp [View.read, View.leavesOf, View.leaves, hinner, hend, hother]
      rw [fates_expect_ok hran (x.isConjured_token _), hdropped]
      refine ⟨?_, fun ty' t ht => ?_⟩
      · simp [View.leavesOf, View.leaves, isKept, hinner, Fate.leaf]
      · obtain ⟨rfl, rfl⟩ : ty' = ty ∧ t = x.token (x.stop (p.index + 1)) := by simpa using ht
        exact next
  | madeUp type t conjured made viable rs heard step index recovery =>
      refine step.recounts_ok ?_
      have hexpect : expect ty follow p = .ok t q := hran
      have hnone : p.passed q = [] := by rw [passed_eq_between step.standing, index, x.between_self]
      simp only [Operation.fates, hexpect, conjured, if_true, hnone]
      refine ⟨?_, fun _ _ ht => absurd ht List.not_mem_nil⟩
      simp [View.leavesOf, View.leaves, isKept, conjured]
  | failed type e failed =>
      have hexpect : expect ty follow p = .error (.recognition e) q := hran
      simp only [Operation.fates, hexpect]
      exact failed.recounts

end Parser

/-- **An operation accounts for the tokens that it passes**, unless it is to consume whatever is there. -/
theorem Operation.runs_recounts {x : Tape} {p : Parser σ} (op : Operation β) (hp : Ready x p)
    (hop : op.isConsume = false) : Runs op.run p (fun _ => True) (Recounts x p (op.fates p)) := by
  -- an operation that only fails has passed nothing on, so whatever it has passed was skipped
  have hfails : ∀ {act : ParserM σ β}, Runs act p (fun _ => True) (fun o q => ∃ e, o = .error e ∧ Failed x p e q) →
      Runs act p (fun _ => True) (Recounts x p ((p.passed (after act p)).map .skipped)) := by
    intro act h
    refine (ran h).mono ?_
    rintro _ q ⟨⟨e, rfl, hfailed⟩, hran⟩
    rw [hran.after_eq]
    exact hfailed.recounts
  cases op with
  | ahead k =>
      refine (ran (runs_ahead (.standing hp.standing) trivial k)).mono ?_
      rintro _ _ ⟨⟨rfl, s, hs, rfl⟩, hran⟩
      change Recounts x p ((p.passed (after (Parser.ahead k) p)).map .skipped) _ _
      rw [hran.after_eq]
      exact (hp.reread hs).recounts_nothing
  | expect ty follow =>
      exact (ran (runs_expect hp trivial ty follow fun _ _ _ _ => trivial)).mono fun _ _ hq => hq.1.recounts hp hq.2
  | consume => cases hop
  | sync expecting =>
      refine (ran (runs_sync hp trivial expecting fun _ _ _ _ => trivial)).mono ?_
      rintro _ q ⟨⟨rfl, hguarded⟩, hran⟩
      change Recounts x p ((p.passed (after (Parser.sync expecting) p)).map .skipped) _ _
      rw [hran.after_eq]
      cases hguarded with
      | «open» step => exact step.recounts_nothing
      | passed _ _ _ _ step _ _ _ errors => exact step.recounts errors (by rintro _ ⟨⟩)
      | stayed _ _ _ step => exact step.recounts_nothing
  | require holds text =>
      refine (ran (runs_require hp trivial holds text)).mono ?_
      rintro _ q ⟨⟨rfl, -, rfl⟩ | ⟨e, rfl, hfailed, -⟩, hran⟩
      · change Recounts x q ((q.passed (after (Parser.require holds text) q)).map .skipped) _ _
        rw [hran.after_eq]
        exact hp.refl.recounts_nothing
      · change Recounts x p ((p.passed (after (Parser.require holds text) p)).map .skipped) _ _
        rw [hran.after_eq]
        exact hfailed.recounts
  | noViableAlt depth =>
      exact hfails ((runs_raiseNoViableAlt hp trivial depth).mono fun _ _ ⟨e, ho, hfailed, _⟩ => ⟨e, ho, hfailed⟩)
  | mismatch expected =>
      exact hfails ((runs_raiseMismatch hp trivial expected).mono fun _ _ ⟨e, ho, hfailed, _⟩ => ⟨e, ho, hfailed⟩)

namespace Parser

variable {x : Tape} {p p₁ q : Parser σ} {vs : List View} {rs : List Report}

/-- **How the body of a rule ends** that accounts for the tokens that it passes. -/
structure BodyRecounts (x : Tape) (body : ParserM σ Unit) (fs : List Fate) (p₁ : Parser σ) (vs : List View)
    (rs : List Report) (q : Parser σ) : Prop where
  /-- The body is a step. -/
  step : Step x p₁ vs rs q
  /-- Its leaves account for what has become of tokens. -/
  accounts : Accounts (View.leavesOf vs) fs
  /-- It has ended here. -/
  ended : after body p₁ = q

/-- **A rule accounts for the tokens that it passes**: what comes after the end of its body is skipped. -/
theorem Accounts.of_ruleEnd {body : ParserM σ Unit} {fs : List Fate} {node : RuleNode} (hmoves : Moves x p₁ vs rs q)
    (h : RuleEnd x (fun _ => BodyRecounts x body fs p₁) q node vs rs) :
    Accounts (View.leavesOf vs) (fs ++ ((after body p₁).passed q).map .skipped) := by
  have hpassed : ∀ {p : Parser σ}, p.passed q = x.between p.index q.index := passed_eq_between hmoves.standing
  cases h with
  | well vs rs q₀ h exception recovery index =>
      rw [h.ended, hpassed, index, x.between_self, List.map_nil, List.append_nil]
      exact h.accounts
  | failed e vs ws rs rs' q₀ h exception heard inRecovery resumed errors =>
      have hread : View.read ws = x.between q₀.index q.index := by
        refine (List.append_right_inj (View.read vs)).mp ?_
        rw [← View.read_append, hmoves.read, h.step.read, x.between_append h.step.index_le resumed.index_le]
      rw [h.ended, hpassed, ← hread, View.leavesOf_append]
      exact h.accounts.append (.skipped errors)

/-- **A rule below another one** accounts for the tokens that it passes if its body does. -/
theorem runs_rule_recounts (hp : Ready x p) {r : RuleIndex} {body : ParserM σ Unit} {f : Parser σ → List Fate}
    (hbody : ∀ p₁, Ready x p₁ → Runs body p₁ (fun _ => True) (Recounts x p₁ (f p₁))) :
    Runs (rule r body) p (fun _ => True) (Recounts x p (onward (enterRule r) p fun _ p₁ =>
      f p₁ ++ ((after body p₁).passed (after (rule r body) p)).map .skipped)) := by
  refine (ran (runs_rule_entered (.standing hp.standing) hp.acting hp.noted hp.denied trivial
    (fun p₁ _ => BodyRecounts x body (f p₁) p₁) fun p₁ _ h₁ => (ran (hbody p₁ h₁.ready)).mono ?_)).mono ?_
  · rintro o q ⟨⟨vs, rs, hstep, hanchor, hvs⟩, hran⟩
    exact ⟨vs, rs, hstep, ⟨hstep, hvs, hran.after_eq⟩, hanchor, trivial, fun _ _ _ _ _ => trivial⟩
  · rintro _ q ⟨⟨rfl, p₁, node, vs, rs, hfrom, hentered, -, hframes, hopen, hmoves, hend⟩, hran⟩
    have hentering : Ran (enterRule r) p (.ok ()) p₁ := hfrom
    rw [hentering.onward_ok, hran.after_eq]
    refine (hmoves.step_of_opened hp hentered hframes hopen).recounts_ok ?_
    rw [View.leavesOf_rule]
    exact .of_ruleEnd hmoves hend

end Parser

/-- **A recognizer accounts for the tokens that it passes**, if it leaves it to other operations to consume them. -/
theorem Recognizer.Ordinary.runs_recounts {x : Tape} {p : Parser σ} {r : Recognizer α} (h : r.Ordinary)
    (hr : r.LeavesConsuming) (hp : Ready x p) :
    Runs r.run p (fun _ => True) (Recounts x p (r.fates p)) := by
  -- induction on the recognizer: the tokens that a part passes have their fates from that part
  induction r generalizing p with
  | pure a => exact hp.refl.recounts_ok .nil
  | outOfSteps => trivial
  | step op next ih =>
      exact recounts_bind hp (op.runs_recounts hp hr.1) fun b q hq => ih b (h b) (hr.2 b) hq
  | direct d next ih => exact h.elim
  | rule r body next ihbody ihnext =>
      exact recounts_bind hp (runs_rule_recounts hp fun p₁ hp₁ => ihbody () h.1 hr.1 hp₁) fun u q hq =>
        ihnext u (h.2 u) (hr.2 u) hq
  | invoke follow body next ihbody ihnext =>
      refine recounts_bind hp ?_ fun b q hq => ihnext b (h.2 b) (hr.2 b) hq
      refine (runs_invoke (ihbody () h.1 hr.1 (hp.invoked follow))).mono ?_
      rintro o _ ⟨q, ⟨vs, rs, hbody, hanchor, hvs⟩, rfl⟩
      exact ⟨vs, rs, hbody.of_invoke, hanchor, hvs⟩
  | speculate body next ihbody ihnext =>
      -- what a trial passes is taken back, and what comes of it is passed again in earnest
      have htrial : Runs (Parser.speculate (body ()).run) p (fun _ => True) (Recounts x p []) := by
        refine (runs_speculate hp.standing trivial (fun _ => True) fun p₁ hp₁ _ _ =>
          (h.1.runs_trying hp₁ trivial).mono fun _ _ hq => ⟨hq, trivial⟩).mono ?_
        rintro _ _ ⟨b, s, n, rfl, hs, hn, rfl, -⟩
        exact (hp.aside hs p.recovery hn).recounts_ok .nil
      exact recounts_bind hp htrial fun b q hq => ihnext b (h.2 b) (hr b) hq
  | attempt body next ihbody ihnext =>
      refine recounts_bind hp ?_ fun b q hq => ihnext b (h.2 b) (hr.2 b) hq
      refine (runs_attempt (ihbody () h.1 hr.1 hp)).mono ?_
      rintro _ q ⟨b, rfl, vs, rs, hstep, -, hvs⟩
      exact hstep.recounts_ok hvs

/-- **The leaves of a finished tree account for all tokens that were passed**, if the recognizer leaves it to other
operations to consume them. -/
theorem Recognizer.OrdinaryRule.runs_recounts {x : Tape} {p : Parser σ} {e : Recognizer Unit} (h : e.OrdinaryRule)
    (he : e.LeavesConsuming) (hreads : p.input.Reads x) (hstarted : p.input.started = false)
    (hacting : p.speculating = 0) (hnoted : p.strategy.noted = false)
    (hdenied : p.strategy.denied = []) (hframes : p.frames = []) (htree : p.tree = {}) :
    Runs e.run p (fun _ => True) fun _ q =>
      ∃ v, q.tree.view? = some v ∧ Accounts v.leaves (e.fates p) := by
  obtain ⟨r, body, rfl, hbody⟩ := h
  rw [run_rule_pure]
  refine (ran (runs_rule_entered (.fresh hreads hstarted rfl) hacting hnoted hdenied trivial
    (fun p₁ _ => BodyRecounts x (body ()).run ((body ()).fates p₁) p₁) fun p₁ _ h₁ =>
      (ran (hbody.runs_recounts he.1 h₁.ready)).mono ?_)).mono ?_
  · rintro o q ⟨⟨vs, rs, hstep, hanchor, hvs⟩, hran⟩
    exact ⟨vs, rs, hstep, ⟨hstep, hvs, hran.after_eq⟩, hanchor, trivial, fun _ _ _ _ _ => trivial⟩
  · rintro _ q ⟨⟨rfl, p₁, node, vs, rs, hfrom, hentered, -, -, hopen, hmoves, hend⟩, hran⟩
    obtain ⟨hroot, hsize, hshows⟩ := hentered.shows_of_opened hframes htree hopen
    refine ⟨.rule node vs, ?_, ?_⟩
    · rw [ParseTree.view?, hroot, Option.bind_some]
      exact ParseTree.viewAt_of_shows _ _ _ hshows (Nat.le_of_eq hsize.symm)
    · have hentering : Ran (enterRule r) p (.ok ()) p₁ := hfrom
      -- entering the rule and leaving it pass no token, so the fates are those of the body
      rw [Recognizer.fates, hentering.onward_ok, hran.after_eq, hran.onward_ok, Recognizer.fates, List.append_nil]
      exact .of_ruleEnd hmoves hend

end TreeProjection
