import TreeProjection.Proofs.Arena
import TreeProjection.Proofs.Reading
import TreeProjection.Recognition.Errors
import TreeProjection.Recognition.Operations

/-! # Steps of a parse

What an operation does to a parse is told by a `Step`: it moves on along the tape, adds trees below the rule
that is being recognized, and tells the listeners of errors.  Steps compose, and they keep the account of the
input: the tokens among the leaves that were added are the visible tokens that were passed.

* `Runs` — how an action ends that may also give the whole parse up.
* `Parser.Ready` — a parser in a rule, with its input at a place of the tape.
* `Parser.Step` — what has happened between two states of a parse.
* `Parser.runs_ahead`, `Parser.runs_consume`, `Parser.runs_raiseMismatch`, `Parser.runs_raiseNoViableAlt` —
  reading, consuming and failing. -/

namespace TreeProjection

open ParseNode (View)

variable {σ α β : Type}

/-- The token that a report is placed at. -/
def Report.anchor (r : Report) : Token := (SyntaxError.ofReport r).offending

/-- **How an action ends.** Its answer or exception is one that `good` allows; if it gives the parse up, then
`fair` holds of the reports up to there. -/
def Runs (act : ParserM σ α) (p : Parser σ) (fair : List Report → Prop)
    (good : Except RecognitionException α → Parser σ → Prop) : Prop :=
  Ends act p fun o q => match o with
    | .ok a => good (.ok a) q
    | .error (.recognition e) => good (.error e) q
    | .error (.abort _) => fair q.reports

namespace Runs

variable {act : ParserM σ α} {next : α → ParserM σ β} {p : Parser σ} {fair : List Report → Prop}

/-- What is allowed stays allowed when more is allowed. -/
theorem mono {good good' : Except RecognitionException α → Parser σ → Prop}
    (h : Runs act p fair good) (himp : ∀ o q, good o q → good' o q) : Runs act p fair good' :=
  Ends.mono h fun o _ ho => match o with
    | .ok _ => himp _ _ ho
    | .error (.recognition _) => himp _ _ ho
    | .error (.abort _) => ho

/-- Two demands on one end are one demand. -/
theorem and {fair' : List Report → Prop}
    {good good' : Except RecognitionException α → Parser σ → Prop} (h : Runs act p fair good)
    (h' : Runs act p fair' good') : Runs act p fair fun o q => good o q ∧ good' o q :=
  Ends.mono (Ends.and h h') fun o _ ho => match o with
    | .ok _ => ho
    | .error (.recognition _) => ho
    | .error (.abort _) => ho.1

/-- A demand on the answer is one on the end. -/
theorem and_answers {good : Except RecognitionException α → Parser σ → Prop}
    {post : α → Parser σ → Prop} (h : Runs act p fair good) (h' : Answers act p post) :
    Runs act p fair fun o q => good o q ∧ ∀ a, o = .ok a → post a q := by
  refine Ends.mono (Ends.and h h') fun o _ ho => ?_
  match o with
  | .ok a => exact ⟨ho.1, fun b hb => ho.2 b (congrArg Except.ok (Except.ok.inj hb))⟩
  | .error (.recognition _) => exact ⟨ho.1, nofun⟩
  | .error (.abort _) => exact ho.1

/-- What an end is known to satisfy its answer satisfies. -/
theorem to_answers {good : Except RecognitionException α → Parser σ → Prop}
    (h : Runs act p fair good) : Answers act p fun a q => good (.ok a) q := by
  refine Ends.mono h fun o _ ho a ha => ?_
  subst ha
  exact ho

/-- **One action after the other.** An exception of the first is one of the whole. -/
theorem bind {mid : Except RecognitionException α → Parser σ → Prop}
    {good : Except RecognitionException β → Parser σ → Prop} (h : Runs act p fair mid)
    (hok : ∀ a q, mid (.ok a) q → Runs (next a) q fair good)
    (herr : ∀ e q, mid (.error e) q → good (.error e) q) : Runs (act >>= next) p fair good :=
  Ends.bind h hok fun i q hi => match i with
    | .recognition e => herr e q hi
    | .abort _ => hi

/-- The state that is looked at. -/
theorem of_get {good : Except RecognitionException β → Parser σ → Prop}
    {next : Parser σ → ParserM σ β} (h : Runs (next p) p fair good) :
    Runs (get >>= next) p fair good := h

/-- The state that is changed. -/
theorem of_modify {good : Except RecognitionException β → Parser σ → Prop}
    {f : Parser σ → Parser σ} {next : PUnit → ParserM σ β} (h : Runs (next ⟨⟩) (f p) fair good) :
    Runs (modify f >>= next) p fair good := h

/-- The parse is given up. -/
theorem of_giveUp {good : Except RecognitionException α → Parser σ → Prop} {a : Abort}
    (h : fair p.reports) : Runs (Parser.giveUp a : ParserM σ α) p fair good := h

/-- An answer that only a broken contract can keep from being given, and what is made of it. -/
theorem of_orBroken {good : Except RecognitionException β → Parser σ → Prop}
    {answer : Except Violation α} (hfair : fair p.reports)
    (h : ∀ a, answer = .ok a → Runs (next a) p fair good) :
    Runs (Parser.orBroken answer >>= next) p fair good := by
  cases answer with
  | ok a => exact h a rfl
  | error v => exact hfair

/-- An operation of the input changes nothing but the input. -/
theorem of_onInput {act : StreamM σ α} {mid : α → Stream σ → Prop} (h : Answers act p.input mid)
    (hfair : fair p.reports) : Runs (Parser.onInput act) p fair fun o q =>
      ∃ a s, o = .ok a ∧ mid a s ∧ q = { p with input := s } := by
  refine Parser.ends_onInput (Ends.mono h fun o s hs => ?_)
  cases o with
  | ok a => exact ⟨a, s, rfl, hs a rfl, rfl⟩
  | error e => exact hfair

/-- What is made of an action's end, once that has been observed. -/
theorem of_observe {good : Except RecognitionException α → Parser σ → Prop}
    {post : Except RecognitionException β → Parser σ → Prop}
    {next : Except Interrupt α → ParserM σ β} (h : Runs act p fair good)
    (hok : ∀ a q, good (.ok a) q → Runs (next (.ok a)) q fair post)
    (herr : ∀ e q, good (.error e) q → Runs (next (.error (.recognition e))) q fair post)
    (habort : ∀ a q, fair q.reports → Runs (next (.error (.abort a))) q fair post) :
    Runs (Parser.observe act >>= next) p fair post := by
  -- an observed end is an answer, so nothing but what is made of it can fail
  have hobserved : Ends (Parser.observe act) p fun o q => match o with
      | .ok (.ok a) => good (.ok a) q
      | .ok (.error (.recognition e)) => good (.error e) q
      | .ok (.error (.abort _)) => fair q.reports
      | .error _ => False :=
    Parser.ends_observe (Ends.mono h fun o _ ho => match o with
      | .ok _ => ho
      | .error (.recognition _) => ho
      | .error (.abort _) => ho)
  refine Ends.bind hobserved (fun o q ho => ?_) fun _ _ ho => ho.elim
  match o, ho with
  | .ok a, ho => exact hok a q ho
  | .error (.recognition e), ho => exact herr e q ho
  | .error (.abort a), ho => exact habort a q ho

end Runs

namespace Parser

variable [TokenSource σ] {x : Tape} {p q r : Parser σ} {vs ws : List View} {rs rs' : List Report} {i : Nat}
  {fair : List Report → Prop}

/-! ## What happens between two states -/

/-- The part of a parser's state that operations leave as it was, its active rules apart. -/
structure Situation where
  /-- The grammar's names. -/
  language : Language
  /-- How to recover from errors. -/
  strategy : Strategy
  /-- How many rules may be active at once. -/
  recursionLimit : Option Nat
  /-- How many listeners hear of errors. -/
  listeners : Nat
  /-- What may come after each active invocation. -/
  follow : List TokenSet
  /-- How many speculations are under way. -/
  speculating : Nat

/-- The situation of a parser. -/
def situation (p : Parser σ) : Situation :=
  ⟨p.language, p.strategy, p.recursionLimit, p.listeners, p.follow, p.speculating⟩

/-- **A parser in a rule.** It is not looking ahead on trial, its input stands at a place of the tape, its
strategy does all that it is there for and notes nothing, and there is a rule for new leaves to go to. -/
structure Ready (x : Tape) (p : Parser σ) : Prop where
  /-- The input stands at a place of the tape. -/
  standing : p.input.Standing x p.index
  /-- No call of a hook is noted. -/
  noted : p.strategy.noted = false
  /-- No hook is denied. -/
  denied : p.strategy.denied = []
  /-- The parser is not looking ahead on trial. -/
  acting : p.speculating = 0
  /-- The rule that is being recognized has a node. -/
  inRule : ∃ c r, p.currentNode? = some c ∧ p.tree.nodes[c]? = some (.rule r)

/-- **Leaves walk along the tape**: each is a token made up for a missing one, or the token at the place that the
walk has reached, and after that the walk goes on from the next place. -/
inductive Walk (x : Tape) : Nat → List (Bool × Token) → Nat → Prop where
  /-- There are no leaves. -/
  | nil (i : Nat) : Walk x i [] i
  /-- A token has been made up. -/
  | made {i j : Nat} {t : Token} {ls : List (Bool × Token)} (conjured : t.isConjured = true)
    (h : Walk x i ls j) : Walk x i ((false, t) :: ls) j
  /-- The token at the place has been passed. -/
  | token {i j : Nat} {ls : List (Bool × Token)} (matched : Bool) (le_size : i ≤ x.size)
    (isStop : Stream.isStop (x.token i) = true) (h : Walk x (x.stop (i + 1)) ls j) :
    Walk x i ((matched, x.token i) :: ls) j

namespace Walk

variable {j k : Nat} {ls ms : List (Bool × Token)}

/-- A walk does not go back. -/
theorem le (h : Walk x i ls j) : i ≤ j := by
  induction h with
  | nil i => exact Nat.le_refl i
  | made _ _ ih => exact ih
  | token _ le_size _ _ ih => exact Nat.le_trans (x.le_stop_succ le_size) ih

/-- First one walk, then another. -/
theorem append (h : Walk x i ls j) (h' : Walk x j ms k) : Walk x i (ls ++ ms) k := by
  induction h with
  | nil i => exact h'
  | made conjured _ ih => exact .made conjured (ih h')
  | token matched le_size isStop _ ih => exact .token matched le_size isStop (ih h')

/-- **The tokens on a walk** that are neither made up nor the end are those that were passed. -/
theorem passed (h : Walk x i ls j) :
    (ls.map Prod.snd).filter (fun t => !t.isConjured && !t.isEof) = x.between i j := by
  induction h with
  | nil i => exact x.between_self.symm
  | made conjured _ ih => simpa [conjured] using ih
  | @token i j ls matched le_size isStop h ih =>
      rw [List.map_cons, ← x.between_append (x.le_stop_succ le_size) h.le, ← ih]
      rcases Nat.eq_or_lt_of_le le_size with rfl | hlt
      · rw [x.stop_of_le (Nat.le_succ _), x.between_self]
        simp
      · rw [x.between_stop hlt isStop]
        simp [Nat.not_le_of_lt hlt]

/-- A leaf on a walk is made up, or it is a token of the way. -/
theorem of_mem (h : Walk x i ls j) {l : Bool × Token} (hl : l ∈ ls) :
    (l.1 = false ∧ l.2.isConjured = true) ∨ ∃ a, i ≤ a ∧ a ≤ j ∧ l.2 = x.token a := by
  induction h with
  | nil i => cases hl
  | made conjured _ ih =>
      rcases List.mem_cons.mp hl with rfl | hl
      · exact .inl ⟨rfl, conjured⟩
      · exact ih hl
  | @token i j ls matched le_size isStop h ih =>
      have hle := x.le_stop_succ le_size
      rcases List.mem_cons.mp hl with rfl | hl
      · exact .inr ⟨i, Nat.le_refl _, Nat.le_trans hle h.le, rfl⟩
      · rcases ih hl with hmade | ⟨a, h1, h2, h3⟩
        · exact .inl hmade
        · exact .inr ⟨a, Nat.le_trans hle h1, h2, h3⟩

end Walk

/-- **What has been read and reported** between two states of a parse, when the trees `vs` have been added and
the listeners have been told of `rs`. -/
structure Moves (x : Tape) (p : Parser σ) (vs : List View) (rs : List Report) (q : Parser σ) :
    Prop where
  /-- The input stands at a place of the tape. -/
  standing : q.input.Standing x q.index
  /-- The situation is as before. -/
  situation : q.situation = p.situation
  /-- The listeners have been told of nothing else. -/
  reports : q.reports = p.reports ++ rs
  /-- The numbers of exceptions go up. -/
  nextException : p.nextException ≤ q.nextException
  /-- The leaves that were added walk along the tape. -/
  walk : Walk x p.index (View.leavesOf vs) q.index
  /-- What was reported is placed on the way. -/
  anchored : ∀ r ∈ rs, ∃ a, p.index ≤ a ∧ a ≤ q.index ∧ r.anchor = x.token a

/-- **What an operation has done.** -/
structure Step (x : Tape) (p : Parser σ) (vs : List View) (rs : List Report) (q : Parser σ) : Prop
    extends Moves x p vs rs q where
  /-- The same rules are active. -/
  frames : q.frames = p.frames
  /-- The trees have been added below the rule that is being recognized. -/
  grows : ∃ c, p.currentNode? = some c ∧ p.tree.Grows c vs q.tree

/-- The input does not go back. -/
theorem Moves.index_le (h : Moves x p vs rs q) : p.index ≤ q.index := h.walk.le

/-- The leaves that were added hold the tokens that were passed. -/
theorem Moves.read (h : Moves x p vs rs q) : View.read vs = x.between p.index q.index :=
  h.walk.passed

/-- First one thing has happened, then another. -/
theorem Moves.trans (h : Moves x p vs rs q) (h' : Moves x q ws rs' r) :
    Moves x p (vs ++ ws) (rs ++ rs') r where
  standing := h'.standing
  situation := h'.situation.trans h.situation
  reports := by rw [h'.reports, h.reports, List.append_assoc]
  nextException := Nat.le_trans h.nextException h'.nextException
  walk := by
    rw [View.leavesOf_append]
    exact h.walk.append h'.walk
  anchored := by
    intro e he
    rcases List.mem_append.mp he with he | he
    · obtain ⟨a, h1, h2, h3⟩ := h.anchored e he
      exact ⟨a, h1, Nat.le_trans h2 h'.index_le, h3⟩
    · obtain ⟨a, h1, h2, h3⟩ := h'.anchored e he
      exact ⟨a, Nat.le_trans h.index_le h1, h2, h3⟩

namespace Step

/-- The node of the rule that is being recognized is the same. -/
theorem currentNode (h : Step x p vs rs q) : q.currentNode? = p.currentNode? := by
  simp only [currentNode?, h.frames]

/-- First one step, then another. -/
theorem trans (h : Step x p vs rs q) (h' : Step x q ws rs' r) :
    Step x p (vs ++ ws) (rs ++ rs') r where
  toMoves := h.toMoves.trans h'.toMoves
  frames := h'.frames.trans h.frames
  grows := by
    obtain ⟨c, hc, hgrows⟩ := h.grows
    obtain ⟨d, hd, hgrows'⟩ := h'.grows
    rw [h.currentNode, hc] at hd
    cases hd
    exact ⟨c, hc, hgrows.trans hgrows'⟩

/-- First a step without trace, then another step. -/
theorem silent_trans (h : Step x p [] [] q) (h' : Step x q ws rs' r) : Step x p ws rs' r :=
  h.trans h'

/-- First a step, then one without trace. -/
theorem trans_silent (h : Step x p vs rs q) (h' : Step x q [] [] r) : Step x p vs rs r := by
  have := h.trans h'
  rwa [List.append_nil, List.append_nil] at this

/-- After a step the parser is in a rule again. -/
theorem ready (h : Step x p vs rs q) (hp : Ready x p) : Ready x q where
  standing := h.standing
  noted := (congrArg (fun s => s.strategy.noted) h.situation).trans hp.noted
  denied := (congrArg (fun s => s.strategy.denied) h.situation).trans hp.denied
  acting := (congrArg Situation.speculating h.situation).trans hp.acting
  inRule := by
    obtain ⟨c, hc, hgrows⟩ := h.grows
    obtain ⟨r, hr⟩ := hgrows.exists_rule
    exact ⟨c, r, h.currentNode.trans hc, hr⟩

/-- What was fair of all reports to come is fair of those after a step. -/
theorem fair_after (h : Step x p vs rs q) (hfair : ∀ rs, fair (p.reports ++ rs)) :
    ∀ rs, fair (q.reports ++ rs) := by
  intro rs'
  rw [h.reports, List.append_assoc]
  exact hfair _

end Step

namespace Ready

/-- The parser builds its tree and reports errors. -/
theorem isSpeculating (hp : Ready x p) : p.isSpeculating = false := by
  simp [Parser.isSpeculating, hp.acting]

/-- Nothing has happened. -/
theorem refl (hp : Ready x p) : Step x p [] [] p where
  standing := hp.standing
  situation := rfl
  reports := (List.append_nil _).symm
  nextException := Nat.le_refl _
  walk := .nil _
  anchored _ h := nomatch h
  frames := rfl
  grows := by
    obtain ⟨c, r, hc, hr⟩ := hp.inRule
    exact ⟨c, hc, .refl hr⟩

/-- The input may have been read ahead, exceptions may have been numbered, and recovery may keep something
else in mind. -/
theorem aside (hp : Ready x p) {s : Stream σ} (hs : s.Standing x p.index) (m : RecoveryState)
    {n k : Nat} (hn : p.nextException ≤ n) :
    Step x p [] [] { p with input := s, recovery := m, nextException := n, syntaxErrors := k } where
  standing := by
    have hindex : s.cursor = p.index := hs.cursor
    simpa only [index, hindex] using hs
  situation := rfl
  reports := (List.append_nil _).symm
  nextException := hn
  walk := by
    have hindex : s.cursor = p.index := hs.cursor
    simp only [index, hindex]
    exact .nil _
  anchored _ h := nomatch h
  frames := rfl
  grows := hp.refl.grows

/-- The input may have been read ahead. -/
theorem reread (hp : Ready x p) {s : Stream σ} (hs : s.Standing x p.index) :
    Step x p [] [] { p with input := s } :=
  hp.aside hs p.recovery (Nat.le_refl _)

/-- Recovery may keep something else in mind. -/
theorem remind (hp : Ready x p) (m : RecoveryState) : Step x p [] [] { p with recovery := m } :=
  hp.aside hp.standing m (Nat.le_refl _)

/-- A leaf that stands for nothing that was passed. -/
theorem leaf (hp : Ready x p) (matched : Bool) {t : Token}
    (ht : (matched = false ∧ t.isConjured = true) ∨ (t.isEof = true ∧ t = x.token p.index)) :
    Step x p [ParseTree.leafView matched t] []
      { p with tree := (p.tree.push p.currentNode?
          (if matched then .terminal t else .error t)).2 } where
  standing := hp.standing
  situation := rfl
  reports := (List.append_nil _).symm
  nextException := Nat.le_refl _
  walk := by
    rw [ParseTree.leavesOf_leafView]
    -- a conjured token stands for no input; the end of the input is passed without moving on
    rcases ht with ⟨rfl, ht⟩ | ⟨heof, rfl⟩
    · exact .made ht (.nil _)
    · have hend : x.stop (p.index + 1) = p.index := by
        have hle : x.size ≤ p.index := x.type_eq_eof_iff.mp (TokenType.isEof_iff.mp heof)
        rw [x.stop_of_le (Nat.le_succ_of_le hle)]
        exact Nat.le_antisymm hle hp.standing.le_size
      refine .token matched hp.standing.le_size hp.standing.isStop ?_
      rw [hend]
      exact .nil _
  anchored _ h := nomatch h
  frames := rfl
  grows := by
    obtain ⟨c, r, hc, hr⟩ := hp.inRule
    refine ⟨c, hc, ?_⟩
    rw [hc]
    exact ParseTree.grows_push_leaf hr matched t

end Ready

/-! ## Reading ahead -/

/-- **Looking ahead.** -/
theorem runs_ahead (h : p.input.Facing x i) (hfair : fair p.reports) (k : Nat) :
    Runs (ahead k) p fair fun o q =>
      o = .ok (x.token (x.skip (k - 1) i)) ∧ ∃ s, s.Standing x i ∧ q = { p with input := s } := by
  refine (Runs.of_onInput (Stream.answers_ahead h k) hfair).mono ?_
  rintro _ _ ⟨_, s, rfl, ⟨rfl, hs⟩, rfl⟩
  exact ⟨rfl, s, hs, rfl⟩

/-- Looking at the current token. -/
theorem runs_ahead_one (h : p.input.Facing x i) (hfair : fair p.reports) :
    Runs (ahead 1) p fair fun o q =>
      o = .ok (x.token i) ∧ ∃ s, s.Standing x i ∧ q = { p with input := s } :=
  runs_ahead h hfair 1

/-! ## Consuming -/

/-- **Consuming the current token.** -/
theorem runs_consume (hp : Ready x p) (hfair : fair p.reports) :
    Runs consume p fair fun o q => o = .ok (x.token p.index) ∧
      Step x p [ParseTree.leafView (!p.recovery.inRecovery) (x.token p.index)] [] q ∧
      q.recovery = p.recovery ∧ q.index = x.stop (p.index + 1) := by
  unfold consume
  refine (runs_ahead_one (.standing hp.standing) hfair).bind ?_ (by rintro e q ⟨⟨⟩, -⟩)
  rintro _ _ ⟨⟨⟩, s, hs, rfl⟩
  -- at the end of the input consuming leaves the cursor where it is, and `x.stop` says so
  refine (Runs.of_onInput (p := { p with input := s }) (Stream.answers_consume (.standing hs))
    hfair).bind ?_ (by rintro e q ⟨_, _, ⟨⟩, -⟩)
  rintro _ _ ⟨_, u, ⟨⟩, hu, rfl⟩
  have hcursor : u.cursor = x.stop (p.index + 1) := hu.cursor
  obtain ⟨c, r, hc, hr⟩ := hp.inRule
  have hgrows := ParseTree.grows_push_leaf hr (!p.recovery.inRecovery) (x.token p.index)
  refine Runs.of_get ?_
  rw [if_neg (by simp [isSpeculating, hp.acting])]
  refine ⟨rfl, ⟨⟨?_, rfl, (List.append_nil _).symm, Nat.le_refl _, ?_, fun _ h => absurd h List.not_mem_nil⟩, rfl,
    c, hc, ?_⟩, rfl, hcursor⟩
  · simpa only [index, hcursor] using hu
  · rw [ParseTree.leavesOf_leafView]
    simp only [index, hcursor]
    exact .token _ hp.standing.le_size hp.standing.isStop (.nil _)
  · simp only [currentNode?] at hc ⊢
    rw [hc]
    cases hrec : p.recovery.inRecovery <;> simpa [hrec] using hgrows

/-- Adding an error leaf for nothing that was passed. -/
theorem runs_addErrorLeaf (hp : Ready x p) {t : Token}
    (ht : t.isConjured = true ∨ (t.isEof = true ∧ t = x.token p.index)) : Runs (addErrorLeaf t) p fair fun o q =>
      o = .ok () ∧ Step x p [.error t] [] q ∧ q.index = p.index ∧ q.recovery = p.recovery := by
  unfold addErrorLeaf
  refine Runs.of_get ?_
  rw [if_neg (by simp [isSpeculating, hp.acting])]
  exact ⟨rfl, hp.leaf false (ht.imp_left fun h => ⟨rfl, h⟩), rfl, rfl⟩

/-! ## Failing -/

/-- What a failed action leaves behind: nothing but a number for its exception. -/
structure Failed (x : Tape) (p : Parser σ) (e : RecognitionException) (q : Parser σ) : Prop where
  /-- Nothing has been added or reported. -/
  step : Step x p [] [] q
  /-- The input is where it was. -/
  index : q.index = p.index
  /-- Recovery keeps in mind what it did. -/
  recovery : q.recovery = p.recovery
  /-- The exception is placed at the current token. -/
  anchor : e.anchor = x.token p.index
  /-- The exception has a number of its own. -/
  id : p.nextException ≤ e.id ∧ e.id < q.nextException

/-- A new exception. -/
theorem runs_newException_throw (hp : Ready x p) {s : Stream σ} (hs : s.Standing x p.index)
    (kind : ExceptionKind) (offending : Token) (expected : TokenSet)
    (hanchor : RecognitionException.anchor ⟨0, kind, offending, expected, ⟨0⟩⟩ =
      x.token p.index) :
    Runs (do throw (.recognition (← newException kind offending expected)) : ParserM σ α)
      { p with input := s } fair fun o q => ∃ e, o = .error e ∧ Failed x p e q ∧
        e.kind = kind ∧ e.offending = offending ∧ e.expected = expected := by
  refine ⟨_, rfl, ⟨hp.aside hs p.recovery (Nat.le_succ _), hs.cursor, rfl, ?_, Nat.le_refl _,
    Nat.lt_succ_self _⟩, rfl, rfl, rfl⟩
  simpa only [RecognitionException.anchor] using hanchor

/-- **Failing because the current token is none of the expected ones.** -/
theorem runs_raiseMismatch (hp : Ready x p) (hfair : fair p.reports) (expected : TokenSet) :
    Runs (raiseMismatch expected : ParserM σ α) p fair fun o q => ∃ e, o = .error e ∧
      Failed x p e q ∧ e.kind = .inputMismatch ∧ e.offending = x.token p.index ∧
      e.expected = expected := by
  unfold raiseMismatch
  refine (runs_ahead_one (.standing hp.standing) hfair).bind ?_ (by rintro e q ⟨⟨⟩, -⟩)
  rintro _ _ ⟨⟨⟩, s, hs, rfl⟩
  exact runs_newException_throw hp hs _ _ _ rfl

/-- **Failing because no alternative fits.** -/
theorem runs_raiseNoViableAlt (hp : Ready x p) (hfair : fair p.reports) (depth : Nat) :
    Runs (raiseNoViableAlt depth : ParserM σ α) p fair fun o q => ∃ e, o = .error e ∧
      Failed x p e q ∧ e.kind = .noViableAlt (x.token p.index) ∧
      e.offending = x.token (x.skip (max depth 1 - 1) p.index) ∧ e.expected = ∅ := by
  unfold raiseNoViableAlt
  refine (runs_ahead_one (.standing hp.standing) hfair).bind ?_ (by rintro e q ⟨⟨⟩, -⟩)
  rintro _ _ ⟨⟨⟩, s, hs, rfl⟩
  refine (runs_ahead (p := { p with input := s }) (.standing hs) hfair _).bind ?_
    (by rintro e q ⟨⟨⟩, -⟩)
  rintro _ _ ⟨⟨⟩, s', hs', rfl⟩
  exact runs_newException_throw hp hs' _ _ _ rfl

/-- Failing unless a condition holds. -/
theorem runs_require (hp : Ready x p) (hfair : fair p.reports) (holds : Bool) (text : String) :
    Runs (require holds text) p fair fun o q =>
      (o = .ok () ∧ holds = true ∧ q = p) ∨
      ∃ e, o = .error e ∧ Failed x p e q ∧ e.kind = .failedPredicate text ∧
        e.offending = x.token p.index ∧ e.expected = ∅ := by
  unfold require
  cases holds with
  | true => exact .inl ⟨rfl, rfl, rfl⟩
  | false =>
      refine (runs_ahead_one (.standing hp.standing) hfair).bind ?_ (by rintro e q ⟨⟨⟩, -⟩)
      rintro _ _ ⟨⟨⟩, s, hs, rfl⟩
      exact (runs_newException_throw hp hs _ _ _ rfl).mono fun o q h => .inr h

end Parser

end TreeProjection
