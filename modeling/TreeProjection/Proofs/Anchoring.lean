import TreeProjection.Proofs.Buffered
import TreeProjection.Proofs.Ordinary
import TreeProjection.Proofs.Trimming

/-! # What anchoring changes

A strategy that anchors does what the plain one does, and leaves anchors behind.  Two runs that differ in this go hand in
hand: all that is not in the same state on both sides is the tree, where the anchors are, and with it the numbers that
active rules have there.

* `Parser.Twins` — a parser that recovers plainly, and one that anchors and is in the same state otherwise.
* `Parser.Agrees` — two actions that do the same to such parsers.
* `Recognizer.Resembles` — two recognizers that go on alike whatever the places of tokens that are made up.
* `Recognizer.OrdinaryRule.anchoring_only_anchors` — the same recognizer under both strategies. -/

namespace TreeProjection

variable {σ α β γ : Type}

/-- Two active rules that belong together. -/
structure Frame.Resembles (pair : Nat → Nat → Prop) (f f' : Frame) : Prop where
  /-- They are the same rule. -/
  rule : f.rule = f'.rule
  /-- Their nodes belong together, if they have nodes. -/
  node : Option.Rel pair f.node f'.node

section

variable {pair pair' : Nat → Nat → Prop}

/-- Two active rules belong together still if more nodes do. -/
theorem Frame.Resembles.mono {f f' : Frame} (h : f.Resembles pair f') (hpair : ∀ i j, pair i j → pair' i j) :
    f.Resembles pair' f' where
  rule := h.rule
  node := by
    have hnode := h.node
    revert hnode
    generalize f.node = m
    generalize f'.node = m'
    rintro (hij | -)
    · exact .some (hpair _ _ hij)
    · exact .none

/-- The innermost of active rules that belong together. -/
theorem head_frames {fs fs' : List Frame} (h : List.Forall₂ (Frame.Resembles pair) fs fs') :
    fs.head?.map Frame.rule = fs'.head?.map Frame.rule ∧
      Option.Rel pair (fs.head?.bind Frame.node) (fs'.head?.bind Frame.node) := by
  cases h with
  | nil => exact ⟨rfl, .none⟩
  | cons hf _ => exact ⟨congrArg some hf.rule, hf.node⟩

end

namespace Parser

/-- **A parser that recovers plainly, and one that anchors**, in the same state but for anchors in their trees.  Both are
in a rule, so that there is a root and the first token has been taken. -/
structure Twins (p q : Parser σ) : Prop where
  /-- The first one recovers plainly. -/
  plain : p.strategy = .default
  /-- The first token has been taken. -/
  started : p.input.started = true
  /-- The second one differs in its strategy, its tree, and the nodes of active rules. -/
  same : q = { p with strategy := .anchored, tree := q.tree, frames := q.frames }
  /-- The trees are the same but for anchors, and the nodes of active rules belong together. -/
  tree : ∃ pair, p.tree.Resembles pair q.tree ∧ List.Forall₂ (Frame.Resembles pair) p.frames q.frames

variable {p q : Parser σ}

namespace Twins

/-- The second parser is the first one but for some parts. -/
theorem exists_eq (h : p.Twins q) : ∃ tree frames, q = { p with strategy := .anchored, tree, frames } :=
  ⟨_, _, h.same⟩

/-- **The same change on both sides** that touches neither the trees nor active rules nor the strategy. -/
theorem change (h : p.Twins q) (f : Parser σ → Parser σ)
    (hf : ∀ p, (f p).strategy = p.strategy ∧ (f p).input = p.input ∧ (f p).tree = p.tree ∧ (f p).frames = p.frames)
    (hcomm : ∀ (p : Parser σ) tree frames, f { p with strategy := .anchored, tree, frames } =
      { f p with strategy := .anchored, tree, frames }) : (f p).Twins (f q) := by
  obtain ⟨hplain, hstarted, hsame, htree⟩ := h
  obtain ⟨h1, h2, h3, h4⟩ := hf p
  obtain ⟨-, -, h3', h4'⟩ := hf q
  refine ⟨by rw [h1, hplain], by rw [h2, hstarted], ?_, by rwa [h3, h4, h3', h4']⟩
  rw [h3', h4', ← hcomm, ← hsame]

/-- The same rule is recognized. -/
theorem currentRule (h : p.Twins q) : p.currentRule? = q.currentRule? := by
  obtain ⟨-, -, -, pair, -, hframes⟩ := h
  exact (head_frames hframes).1

/-- As many rules are active. -/
theorem length_frames (h : p.Twins q) : q.frames.length = p.frames.length := by
  obtain ⟨-, -, -, pair, -, hframes⟩ := h
  exact hframes.length_eq.symm

/-- Only the second one anchors. -/
theorem anchoring (h : p.Twins q) : p.strategy.anchoring = false ∧ q.strategy.anchoring = true :=
  ⟨by rw [h.plain]; rfl, by rw [h.same]; rfl⟩

/-- The trees have been changed, and the active rules. -/
theorem retree (h : p.Twins q) {pair : Nat → Nat → Prop} {t t' : ParseTree} {fs fs' : List Frame}
    (htree : t.Resembles pair t') (hframes : List.Forall₂ (Frame.Resembles pair) fs fs') :
    ({ p with tree := t, frames := fs } : Parser σ).Twins { q with tree := t', frames := fs' } := by
  obtain ⟨hplain, hstarted, hsame, -⟩ := h
  refine ⟨hplain, hstarted, ?_, pair, htree, hframes⟩
  rw [hsame]

end Twins

/-! ## Actions on both sides -/

/-- **Two actions that agree**: begun by twins they end in the same way, up to how their answers are compared, and by
then their parsers are twins again. -/
def Agrees (R : α → β → Prop) (x : ParserM σ α) (y : ParserM σ β) : Prop :=
  ∀ p q, p.Twins q → Ends x p fun o p' => Ends y q fun o' q' => Agreeing R o o' ∧ p'.Twins q'

section

variable {α' β' : Type} {R : α → α' → Prop} {S : β → β' → Prop} {x : ParserM σ α} {y : ParserM σ α'}

/-- Answering. -/
theorem agrees_pure {a : α} {a' : α'} (h : R a a') : Agrees R (pure a : ParserM σ α) (pure a') :=
  fun _ _ hpq => ⟨h, hpq⟩

/-- Failing. -/
theorem agrees_throw (i : Interrupt) : Agrees R (throw i : ParserM σ α) (throw i) := fun _ _ hpq => ⟨rfl, hpq⟩

namespace Agrees

/-- Answers may be compared in less detail. -/
theorem mono {R' : α → α' → Prop} (h : Agrees R x y) (himp : ∀ a a', R a a' → R' a a') : Agrees R' x y := by
  refine fun p q hpq => (h p q hpq).mono fun o p' ho => ho.mono fun o' q' hoq => ⟨?_, hoq.2⟩
  have hagree := hoq.1
  rcases o with i | a <;> rcases o' with i' | a'
  · exact hagree
  · exact hagree.elim
  · exact hagree.elim
  · exact himp a a' hagree

/-- **One action after the other** on both sides. -/
theorem bind {f : α → ParserM σ β} {g : α' → ParserM σ β'} (h : Agrees R x y)
    (hnext : ∀ a a', R a a' → Agrees S (f a) (g a')) : Agrees S (x >>= f) (y >>= g) := by
  intro p q hpq
  refine Ends.bind (h p q hpq) (fun a p' ho => ?_) fun i p' ho => ?_
  · cases hy : y q with
    | ok a' q' =>
        obtain ⟨ha, hpq'⟩ := ho.of_ok hy
        exact (hnext a a' ha p' q' hpq').mono fun _ _ h => (Ends.bind_of_ok hy).mpr h
    | error j q' => exact (ho.of_error hy).1.elim
  · cases hy : y q with
    | ok a' q' => exact (ho.of_ok hy).1.elim
    | error j q' =>
        obtain ⟨rfl, hpq'⟩ := ho.of_error hy
        exact (Ends.bind_of_error hy).mpr ⟨rfl, hpq'⟩

/-- One action after the other, where it makes no difference what the first one answers. -/
theorem seq {x y : ParserM σ Unit} {f : Unit → ParserM σ β} {g : Unit → ParserM σ β'} (h : Agrees Eq x y)
    (hnext : Agrees S (f ()) (g ())) : Agrees S (x >>= f) (y >>= g) :=
  h.bind fun _ _ _ => hnext

/-- The same choice on both sides. -/
theorem ite {x' : ParserM σ α} {y' : ParserM σ α'} {b b' : Bool} (hb : b = b') (h : Agrees R x y)
    (h' : Agrees R x' y') : Agrees R (if b then x else x') (if b' then y else y') := by
  subst hb
  cases b with
  | true => exact h
  | false => exact h'

/-- What comes after an action that is observed on both sides. -/
theorem observe_bind {f : Except Interrupt α → ParserM σ β} {g : Except Interrupt α' → ParserM σ β'}
    (h : Agrees R x y) (hnext : ∀ o o', Agreeing R o o' → Agrees S (f o) (g o')) :
    Agrees S (observe x >>= f) (observe y >>= g) := by
  have hobserved : Agrees (Agreeing R) (observe x) (observe y) := fun p q hpq =>
    ends_observe ((h p q hpq).mono fun _ _ ho => ends_observe (ho.mono fun _ _ hoq => hoq))
  exact hobserved.bind hnext

end Agrees

/-- Ending the way observed actions have ended. -/
theorem agrees_release {o : Except Interrupt α} {o' : Except Interrupt α'} (h : Agreeing R o o') :
    Agrees R (release o : ParserM σ α) (release o') := by
  intro p q hpq
  rw [ends_release, ends_release]
  exact ⟨h, hpq⟩

/-- Looking at the state on both sides. -/
theorem agrees_get {f : Parser σ → ParserM σ β} {g : Parser σ → ParserM σ β'}
    (h : ∀ p q, p.Twins q → Agrees S (f p) (g q)) : Agrees S (get >>= f) (get >>= g) :=
  fun p q hpq => h p q hpq p q hpq

/-- Changing the state on both sides. -/
theorem agrees_modify {f g : Parser σ → Parser σ} (h : ∀ p q, p.Twins q → (f p).Twins (g q)) :
    Agrees Eq (modify f) (modify g) := fun p q hpq => ⟨rfl, h p q hpq⟩

/-- Replacing the state on both sides. -/
theorem agrees_set {p q : Parser σ} (h : p.Twins q) : Agrees Eq (set p : ParserM σ PUnit) (set q) :=
  fun _ _ _ => ⟨rfl, h⟩

/-- A hook. -/
theorem agrees_hooked (h : Hook) {denied denied' : ParserM σ α} {act : ParserM σ α} {act' : ParserM σ α}
    {R : α → α → Prop} (hact : Agrees R act act') : Agrees R (hooked h denied act) (hooked h denied' act') := by
  refine agrees_get fun p q hpq => ?_
  obtain ⟨tree, frames, rfl⟩ := hpq.exists_eq
  have hallows : ∀ s : Strategy, s = .default ∨ s = .anchored → s.noted = false ∧ s.allows h = true := by
    rintro s (rfl | rfl) <;> exact ⟨rfl, by simp [Strategy.allows, Strategy.default, Strategy.anchored]⟩
  obtain ⟨hnoted, hdoes⟩ := hallows _ (.inl hpq.plain)
  obtain ⟨hnoted', hdoes'⟩ := hallows .anchored (.inr rfl)
  simp only [hnoted, hdoes, hnoted', hdoes', if_true, Bool.false_eq_true, if_false]
  exact hact

/-- An answer that only a broken contract can keep from being given. -/
theorem agrees_orBroken (answer : Except Violation α) : Agrees Eq (orBroken answer : ParserM σ α) (orBroken answer) := by
  cases answer with
  | ok a => exact agrees_pure rfl
  | error v => exact agrees_throw _

end

/-! ## What does not touch the input -/

/-- Adding a node that is the same but for anchors. -/
theorem agrees_addLeaf {n n' : ParseNode} (h : n.Alike n') : Agrees Eq (addLeaf n : ParserM σ Unit) (addLeaf n') := by
  refine agrees_modify fun p q hpq => ?_
  -- the nodes of the innermost rules belong together, and so do their new children
  obtain ⟨pair, htree, hframes⟩ := hpq.tree
  obtain ⟨pair', hpair, -, hpushed⟩ := htree.push (head_frames hframes).2 h
  exact hpq.retree hpushed (hframes.imp fun _ _ hf => hf.mono hpair)

/-- Adding an error leaf for one token, but for its place if it is made up.  It may be an anchor on both sides. -/
theorem agrees_addLeaf_error {a b : Token} (h : a.unanchored = b.unanchored) :
    Agrees Eq (addLeaf (.error a) : ParserM σ Unit) (addLeaf (.error b)) := by
  refine agrees_modify fun p q hpq => ?_
  obtain ⟨pair, htree, hframes⟩ := hpq.tree
  obtain ⟨pair', hpair, hpushed⟩ := htree.push_error (head_frames hframes).2 h
  exact hpq.retree hpushed (hframes.imp fun _ _ hf => hf.mono hpair)

/-- Adding such an error leaf unless on trial. -/
theorem agrees_addErrorLeaf {a b : Token} (h : a.unanchored = b.unanchored) :
    Agrees Eq (addErrorLeaf a : ParserM σ Unit) (addErrorLeaf b) := by
  refine agrees_get fun p q hpq => .ite ?_ (agrees_pure rfl) (agrees_addLeaf_error h)
  obtain ⟨tree, frames, rfl⟩ := hpq.exists_eq
  rfl

/-- Numbering an exception. -/
theorem agrees_newException (kind : ExceptionKind) (offending : Token) (expected : TokenSet) :
    Agrees Eq (newException kind offending expected : ParserM σ _) (newException kind offending expected) := by
  refine agrees_get fun p q hpq => (agrees_set ?_).bind fun _ _ _ => agrees_pure ?_
  · exact hpq.change (fun p => { p with nextException := p.nextException + 1 }) (fun _ => ⟨rfl, rfl, rfl, rfl⟩)
      fun _ _ _ => rfl
  · have hrule := hpq.currentRule
    obtain ⟨tree, frames, rfl⟩ := hpq.exists_eq
    rw [hrule]

/-- Failing with a new exception. -/
theorem agrees_fail {R : α → β → Prop} (kind : ExceptionKind) (offending : Token) (expected : TokenSet) :
    Agrees R (do throw (.recognition (← newException kind offending expected)) : ParserM σ α)
      (do throw (.recognition (← newException kind offending expected))) :=
  (agrees_newException kind offending expected).bind fun _ _ he => he ▸ agrees_throw _

/-- Writing something down. -/
theorem agrees_note (n : Note) : Agrees Eq (note n : ParserM σ Unit) (note n) :=
  agrees_modify fun _ _ hpq => hpq.change (fun p => { p with journal := p.journal.push n })
    (fun _ => ⟨rfl, rfl, rfl, rfl⟩) fun _ _ _ => rfl

/-- Telling the listeners. -/
theorem agrees_report (t : Token) (message : String) (e : Option RecognitionException) :
    Agrees Eq (report t message e : ParserM σ Unit) (report t message e) := by
  refine agrees_get fun p q hpq => (agrees_set ?_).bind fun _ _ _ => ?_
  · exact hpq.change (fun p => { p with syntaxErrors := p.syntaxErrors + 1 }) (fun _ => ⟨rfl, rfl, rfl, rfl⟩)
      fun _ _ _ => rfl
  · obtain ⟨tree, frames, rfl⟩ := hpq.exists_eq
    by_cases hl : 0 < p.listeners
    · simp only [hl, if_true]
      exact agrees_note _
    · simp only [hl, if_false]
      exact agrees_pure rfl

/-- Holding reports back. -/
theorem agrees_beginErrorCondition : Agrees Eq (beginErrorCondition : ParserM σ Unit) beginErrorCondition :=
  agrees_hooked _ (agrees_modify fun _ _ hpq => hpq.change (fun p => { p with recovery.inRecovery := true })
    (fun _ => ⟨rfl, rfl, rfl, rfl⟩) fun _ _ _ => rfl)

/-- No longer holding reports back. -/
theorem agrees_reportMatch : Agrees Eq (reportMatch : ParserM σ Unit) reportMatch :=
  agrees_hooked _ (agrees_modify fun _ _ hpq => hpq.change (fun p => { p with recovery := {} })
    (fun _ => ⟨rfl, rfl, rfl, rfl⟩) fun _ _ _ => rfl)

/-- Doing something unless reports are held back. -/
theorem agrees_unlessInRecovery {x y : ParserM σ Unit} (hxy : Agrees Eq x y) :
    Agrees Eq (do unless (← get).recovery.inRecovery do x) (do unless (← get).recovery.inRecovery do y) := by
  refine agrees_get fun p q hpq => .ite ?_ (agrees_pure rfl) hxy
  obtain ⟨tree, frames, rfl⟩ := hpq.exists_eq
  rfl

/-- Reporting an exception. -/
theorem agrees_reportError (e : RecognitionException) : Agrees Eq (reportError e : ParserM σ Unit) (reportError e) := by
  refine agrees_hooked _ (agrees_unlessInRecovery ?_)
  refine agrees_beginErrorCondition.seq (agrees_get fun p q hpq => ?_)
  obtain ⟨tree, frames, rfl⟩ := hpq.exists_eq
  exact agrees_report _ _ _

/-! ## What touches the input -/

variable [TokenSource σ]

omit [TokenSource σ] in
/-- An operation of the input. -/
theorem agrees_onInput {act : StreamM σ α}
    (h : ∀ s, s.started = true → Ends act s fun _ s' => s'.started = true) : Agrees Eq (onInput act) (onInput act) := by
  intro p q hpq
  have hread : ∀ {s : Stream σ}, s.started = true → ({ p with input := s } : Parser σ).Twins { q with input := s } := by
    intro s hs
    obtain ⟨hplain, -, hsame, htree⟩ := hpq
    refine ⟨hplain, hs, ?_, htree⟩
    rw [hsame]
  have hkept := h p.input hpq.started
  have hinput : q.input = p.input := by rw [hpq.same]
  unfold Ends onInput
  -- the same input gives the same answer, and a stream that is started stays so
  cases hact : act p.input with
  | ok a s =>
      simp only [hinput, hact]
      exact ⟨rfl, hread (hkept.of_ok hact)⟩
  | error a s =>
      simp only [hinput, hact]
      exact ⟨rfl, hread (hkept.of_error hact)⟩

/-- Looking ahead. -/
theorem agrees_ahead (k : Nat) : Agrees Eq (ahead k : ParserM σ Token) (ahead k) :=
  agrees_onInput fun _ hs => Stream.stable_started.ahead k hs

/-- Moving past the current token. -/
theorem agrees_pass : Agrees Eq (onInput Stream.consume : ParserM σ Unit) (onInput Stream.consume) :=
  agrees_onInput fun _ hs => Stream.stable_started.consume hs

/-- Looking at the current token changes nothing once the first one has been taken. -/
theorem ahead_one_of_started {p : Parser σ} (h : p.input.started = true) : ahead 1 p =
    p.input.buffer[p.input.cursor]?.elim (.error (.abort (.broken .outsideBuffer)) p) fun t => .ok t p := by
  simp only [ahead, onInput, Stream.ahead_one_of_started h]
  cases p.input.buffer[p.input.cursor]? <;> rfl

/-- **Twins look at the same current token**, which changes nothing, or there is none. -/
theorem Twins.ahead_one {p q : Parser σ} (h : p.Twins q) :
    (∃ t, ahead 1 p = .ok t p ∧ ahead 1 q = .ok t q) ∨ ∃ i, ahead 1 p = .error i p ∧ ahead 1 q = .error i q := by
  have hinput : q.input = p.input := by rw [h.same]
  rw [ahead_one_of_started h.started, ahead_one_of_started (p := q) (hinput ▸ h.started), hinput]
  cases p.input.buffer[p.input.cursor]? with
  | none => exact .inr ⟨_, rfl, rfl⟩
  | some t => exact .inl ⟨t, rfl, rfl⟩

/-- Consuming. -/
theorem agrees_consume : Agrees Eq (consume : ParserM σ Token) consume := by
  refine (agrees_ahead 1).bind fun t _ ht => agrees_pass.seq (agrees_get fun p q hpq => ?_)
  subst ht
  obtain ⟨tree, frames, rfl⟩ := hpq.exists_eq
  refine .ite rfl (agrees_pure rfl) (.seq ?_ (agrees_pure rfl))
  -- both are in recovery or neither is, so that the leaves are of the same kind
  cases p.recovery.inRecovery with
  | true => exact agrees_addLeaf_error rfl
  | false => exact agrees_addLeaf (.terminal t)

/-- Failing because of the current token. -/
theorem agrees_raiseMismatch {R : α → β → Prop} (expected : TokenSet) :
    Agrees R (raiseMismatch expected : ParserM σ α) (raiseMismatch expected) :=
  (agrees_ahead 1).bind fun _ _ ht => ht ▸ agrees_fail _ _ _

/-- Failing because no alternative fits. -/
theorem agrees_raiseNoViableAlt {R : α → β → Prop} (depth : Nat) :
    Agrees R (raiseNoViableAlt depth : ParserM σ α) (raiseNoViableAlt depth) :=
  (agrees_ahead 1).bind fun _ _ hstart => hstart ▸ (agrees_ahead _).bind fun _ _ ht => ht ▸ agrees_fail _ _ _

/-- Failing unless a condition holds. -/
theorem agrees_require (holds : Bool) (text : String) :
    Agrees Eq (require holds text : ParserM σ Unit) (require holds text) :=
  .ite rfl (agrees_pure rfl) ((agrees_ahead 1).bind fun _ _ ht => ht ▸ agrees_fail _ _ _)

/-- Consuming until a token of a set comes. -/
theorem agrees_consumeUntil (set : TokenSet) (n : Nat) :
    Agrees Eq (consumeUntil set n : ParserM σ Unit) (consumeUntil set n) := by
  induction n with
  | zero => exact agrees_throw _
  | succ n ih =>
      refine (agrees_ahead 1).bind fun t _ ht => ?_
      subst ht
      exact .ite rfl (agrees_pure rfl) (agrees_consume.bind fun _ _ _ => ih)

omit [TokenSource σ] in
/-- **Leaving an anchor** on the side of the strategy that anchors. -/
theorem Twins.addErrorLeaf {p q : Parser σ} (h : p.Twins q) {t : Token} (hend : t.isEof = true) :
    Ends (Parser.addErrorLeaf t) q fun o q' => o = .ok () ∧ p.Twins q' := by
  unfold Parser.addErrorLeaf
  rw [ends_get_bind]
  cases q.isSpeculating with
  | true => exact ⟨rfl, h⟩
  | false =>
      obtain ⟨pair, htree, hframes⟩ := h.tree
      exact ⟨rfl, h.retree (htree.push_anchor q.currentNode? hend) hframes⟩

/-- **Passing over tokens.** At the end of the input the strategy that anchors leaves an anchor first. -/
theorem agrees_skipTo (set : TokenSet) : Agrees Eq (skipTo set : ParserM σ Unit) (skipTo set) := by
  refine agrees_hooked _ fun p q hpq => ?_
  -- an anchor makes no difference to what is passed over after it
  have hpass : ∀ {q : Parser σ}, p.Twins q → Ends (consumeUntil set (p.remaining + 1)) p fun o p' =>
      Ends (do consumeUntil set ((← get).remaining + 1)) q fun o' q' => Agreeing Eq o o' ∧ p'.Twins q' := by
    intro q hpq
    simp only [ends_get_bind]
    have hremaining : q.remaining = p.remaining := by
      obtain ⟨tree, frames, rfl⟩ := hpq.exists_eq
      rfl
    rw [hremaining]
    exact agrees_consumeUntil set _ p q hpq
  rw [ends_get_bind]
  simp only [ends_get_bind, hpq.anchoring.1, hpq.anchoring.2, Bool.false_eq_true, if_false, if_true]
  -- both look at the current token first, and only the strategy that anchors does so twice
  rcases hpq.ahead_one with ⟨t, hp, hq⟩ | ⟨i, hp, hq⟩
  · simp only [Ends.bind_of_ok hq]
    cases hend : t.isEof with
    | false => exact hpass hpq
    | true =>
        have hleft := hpq.addErrorLeaf hend
        cases hadded : Parser.addErrorLeaf t q with
        | ok u q₁ =>
            refine (hpass (hleft.of_ok hadded).2).mono fun o p' ho => ?_
            exact (Ends.bind_of_ok hadded).mpr ho
        | error i q₁ => cases (hleft.of_error hadded).1
  · unfold consumeUntil
    exact (Ends.bind_of_error hp).mpr ((Ends.bind_of_error hq).mpr ⟨rfl, hpq⟩)

/-- **Making up a token.** The strategy that anchors gives it a place. -/
theorem agrees_missingSymbol (expected : TokenType) : Agrees (fun a b : Token => a.unanchored = b.unanchored)
    (missingSymbol expected : ParserM σ Token) (missingSymbol expected) := by
  refine agrees_hooked _ fun p q hpq => ?_
  rcases hpq.ahead_one with ⟨t, hp, hq⟩ | ⟨i, hp, hq⟩
  · refine (Ends.bind_of_ok hp).mpr ?_
    rw [ends_get_bind]
    simp only [Ends.bind_of_ok hq, ends_get_bind, hpq.anchoring.1, hpq.anchoring.2, Bool.not_false, Bool.not_true,
      if_true, Bool.false_eq_true, if_false]
    -- the tokens differ in their places at most
    refine ⟨?_, hpq⟩
    obtain ⟨tree, frames, rfl⟩ := hpq.exists_eq
    rfl
  · exact (Ends.bind_of_error hp).mpr ((Ends.bind_of_error hq).mpr ⟨rfl, hpq⟩)

/-- Reporting something about the current token, by a text that what may follow goes into. -/
theorem agrees_reportCurrent (k : Hook) (expecting : TokenSet) (text : Token → String → String) :
    Agrees Eq
      (hooked k (pure ()) do
        unless (← get).recovery.inRecovery do
          beginErrorCondition
          let t ← ahead 1
          let p ← get
          let expected := p.language.vocabulary.displaySet (p.viableFollow expecting)
          report t (text t expected) none : ParserM σ Unit)
      (hooked k (pure ()) do
        unless (← get).recovery.inRecovery do
          beginErrorCondition
          let t ← ahead 1
          let p ← get
          let expected := p.language.vocabulary.displaySet (p.viableFollow expecting)
          report t (text t expected) none) := by
  refine agrees_hooked _ (agrees_unlessInRecovery ?_)
  refine agrees_beginErrorCondition.seq ((agrees_ahead 1).bind fun t _ ht => ?_)
  subst ht
  refine agrees_get fun p q hpq => ?_
  obtain ⟨tree, frames, rfl⟩ := hpq.exists_eq
  exact agrees_report _ _ _

/-- Reporting the current token as one too many. -/
theorem agrees_reportUnwanted (expecting : TokenSet) :
    Agrees Eq (reportUnwanted expecting : ParserM σ Unit) (reportUnwanted expecting) :=
  agrees_reportCurrent _ expecting fun t expected => s!"extraneous input {t.shown} expecting {expected}"

/-- Reporting a token as missing. -/
theorem agrees_reportMissing (expecting : TokenSet) :
    Agrees Eq (reportMissing expecting : ParserM σ Unit) (reportMissing expecting) :=
  agrees_reportCurrent _ expecting fun t expected => s!"missing {expected} at {t.shown}"

/-- Bringing the input to where a caller can go on. -/
theorem agrees_recover (e : RecognitionException) : Agrees Eq (recover e : ParserM σ Unit) (recover e) := by
  refine agrees_hooked _ (agrees_get fun p q hpq => ?_)
  have hrule : q.currentRule? = p.currentRule? := hpq.currentRule.symm
  have hindex : q.index = p.index := by rw [hpq.same]; rfl
  have hrecovery : q.recovery = p.recovery := by rw [hpq.same]
  rw [hrule, hindex, hrecovery]
  -- whether or not a token is given up first, the recovery is kept in mind
  have hresume : ∀ rule : Option RuleIndex, Agrees Eq
      (do
        modify fun p => { p with
          recovery.lastErrorIndex := some p.index
          recovery.lastErrorRules := p.recovery.lastErrorRules ++ rule.toList }
        skipTo (← get).recoverySet : ParserM σ Unit)
      (do
        modify fun p => { p with
          recovery.lastErrorIndex := some p.index
          recovery.lastErrorRules := p.recovery.lastErrorRules ++ rule.toList }
        skipTo (← get).recoverySet) := by
    refine fun rule => .seq (agrees_modify fun _ _ hpq => ?_) (agrees_get fun p q hpq => ?_)
    · exact hpq.change (fun p => { p with
        recovery.lastErrorIndex := some p.index
        recovery.lastErrorRules := p.recovery.lastErrorRules ++ rule.toList }) (fun _ => ⟨rfl, rfl, rfl, rfl⟩)
        fun _ _ _ => rfl
    · obtain ⟨tree, frames, rfl⟩ := hpq.exists_eq
      exact agrees_skipTo _
  exact .ite rfl (agrees_consume.bind fun _ _ _ => hresume _) (hresume _)

/-- Dropping a token. -/
theorem agrees_singleTokenDeletion (expected : TokenType) :
    Agrees Eq (singleTokenDeletion expected : ParserM σ (Option Token)) (singleTokenDeletion expected) := by
  refine agrees_hooked _ ((agrees_ahead 2).bind fun t _ ht => ?_)
  subst ht
  refine .ite rfl (agrees_pure rfl) ((agrees_orBroken _).bind fun set _ hset => ?_)
  subst hset
  refine (agrees_reportUnwanted set).seq (agrees_consume.bind fun _ _ _ => ?_)
  refine (agrees_ahead 1).bind fun matched _ hmatched => ?_
  exact agrees_reportMatch.seq (agrees_pure (congrArg some hmatched))

/-- Seeing whether a token is missing. -/
theorem agrees_singleTokenInsertion (expected : TokenType) (follow : TokenSet) :
    Agrees Eq (singleTokenInsertion expected follow : ParserM σ Bool) (singleTokenInsertion expected follow) := by
  refine agrees_hooked _ ((agrees_ahead 1).bind fun t _ ht => ?_)
  subst ht
  refine agrees_get fun p q hpq => ?_
  obtain ⟨tree, frames, rfl⟩ := hpq.exists_eq
  refine .ite rfl (agrees_pure rfl) ((agrees_orBroken _).bind fun set _ hset => ?_)
  subst hset
  exact (agrees_reportMissing set).seq (agrees_pure rfl)

/-- Mending the lack of a token. -/
theorem agrees_recoverInline (expected : TokenType) (follow : TokenSet) :
    Agrees (fun a b : Token => a.unanchored = b.unanchored) (recoverInline expected follow : ParserM σ Token)
      (recoverInline expected follow) := by
  have hmismatch : Agrees (fun a b : Token => a.unanchored = b.unanchored)
      (do raiseMismatch (← orBroken (TokenSet.single? expected)) : ParserM σ Token)
      (do raiseMismatch (← orBroken (TokenSet.single? expected))) :=
    (agrees_orBroken _).bind fun set _ hset => hset ▸ agrees_raiseMismatch set
  refine agrees_hooked _ ((agrees_singleTokenDeletion expected).bind fun o _ ho => ?_)
  subst ho
  cases o with
  | some matched => exact agrees_consume.bind fun _ _ _ => agrees_pure rfl
  | none =>
      refine (agrees_singleTokenInsertion expected follow).bind fun b _ hb => ?_
      exact .ite hb (agrees_missingSymbol expected) hmismatch

/-- Guarding a loop. -/
theorem agrees_syncHook (expecting : TokenSet) :
    Agrees Eq (syncHook expecting : ParserM σ Unit) (syncHook expecting) := by
  refine agrees_hooked _ (agrees_unlessInRecovery ((agrees_ahead 1).bind fun t _ ht => ?_))
  subst ht
  refine .ite rfl (agrees_pure rfl) ((agrees_reportUnwanted expecting).seq (agrees_get fun p q hpq => ?_))
  obtain ⟨tree, frames, rfl⟩ := hpq.exists_eq
  exact agrees_skipTo _

/-! ## Operations -/

/-- Matching a token.  Only if it is made up can its place be another one. -/
theorem agrees_expect (ty : TokenType) (follow : TokenSet) : Agrees (fun a b : Token => a.unanchored = b.unanchored)
    (expect ty follow : ParserM σ Token) (expect ty follow) := by
  have hconsume : Agrees (fun a b : Token => a.unanchored = b.unanchored) (consume : ParserM σ Token) consume :=
    agrees_consume.mono fun _ _ h => congrArg _ h
  refine (agrees_ahead 1).bind fun t _ ht => ?_
  subst ht
  refine .ite rfl (agrees_get fun p q hpq => ?_) (agrees_get fun p q hpq => ?_) <;>
    obtain ⟨tree, frames, rfl⟩ := hpq.exists_eq
  · exact .ite rfl hconsume (agrees_reportMatch.seq hconsume)
  · refine .ite rfl ((agrees_orBroken _).bind fun set _ hset => hset ▸ agrees_raiseMismatch set) ?_
    -- both tokens are made up or neither is, and only then does one become an error leaf
    refine (agrees_recoverInline ty follow).bind fun a b hab => .ite ?_ ?_ (agrees_pure hab)
    · exact Token.isConjured_of_unanchored hab
    · exact (agrees_addErrorLeaf hab).seq (agrees_pure hab)

/-- Guarding a loop, unless on trial. -/
theorem agrees_sync (expecting : TokenSet) : Agrees Eq (sync expecting : ParserM σ Unit) (sync expecting) := by
  refine agrees_get fun p q hpq => ?_
  obtain ⟨tree, frames, rfl⟩ := hpq.exists_eq
  exact .ite rfl (agrees_pure rfl) (agrees_syncHook expecting)

/-- Handling a failure. -/
theorem agrees_handleRecognition (e : RecognitionException) :
    Agrees Eq (handleRecognition e : ParserM σ Unit) (handleRecognition e) := by
  refine (agrees_modify fun p q hpq => ?_).seq ((agrees_reportError e).seq (agrees_recover e))
  obtain ⟨pair, htree, hframes⟩ := hpq.tree
  have hnode : Option.Rel pair p.currentNode? q.currentNode? := (head_frames hframes).2
  generalize p.currentNode? = m at hnode
  generalize q.currentNode? = m' at hnode
  cases hnode with
  | none => exact hpq
  | some hij =>
      exact hpq.retree (htree.modifyRule hij (fun _ => rfl) fun r r' hsame =>
        congrArg (fun r : RuleNode => { r with exception := some e }) hsame) hframes

/-- Looking at the flag. -/
theorem agrees_checkCancelled : Agrees Eq (checkCancelled : ParserM σ Unit) checkCancelled := by
  refine agrees_get fun p q hpq => ?_
  obtain ⟨tree, frames, rfl⟩ := hpq.exists_eq
  exact .ite rfl (agrees_throw _) (agrees_pure rfl)

/-- Entering a rule that may be entered. -/
theorem agrees_beginRule (r : RuleIndex) : Agrees Eq (beginRule r : ParserM σ Unit) (beginRule r) := by
  refine agrees_get fun p q hpq => ?_
  obtain ⟨tree, frames, rfl⟩ := hpq.exists_eq
  refine .ite rfl (agrees_modify fun p q hpq => ?_) ((agrees_ahead 1).bind fun start _ hstart => ?_)
  · obtain ⟨pair, htree, hframes⟩ := hpq.tree
    exact hpq.retree htree (.cons ⟨rfl, .none⟩ hframes)
  · subst hstart
    refine agrees_modify fun p q hpq => ?_
    obtain ⟨pair, htree, hframes⟩ := hpq.tree
    have hnode : ParseNode.Alike (.rule { rule := r, start := start.index })
        (.rule { rule := r, start := start.index }) := .rule rfl .nil
    obtain ⟨pair', hpair, hnew, hpushed⟩ := htree.push (head_frames hframes).2 hnode
    rw [← ParseTree.push_fst _ p.currentNode? (.rule { rule := r, start := start.index }),
      ← ParseTree.push_fst _ q.currentNode? (.rule { rule := r, start := start.index })] at hnew
    exact hpq.retree hpushed (.cons ⟨rfl, .some hnew⟩ (hframes.imp fun _ _ hf => hf.mono hpair))

/-- Entering a rule. -/
theorem agrees_enterRule (r : RuleIndex) : Agrees Eq (enterRule r : ParserM σ Unit) (enterRule r) := by
  rw [enterRule_eq]
  refine agrees_checkCancelled.seq (agrees_get fun p q hpq => ?_)
  have hlimit : q.recursionLimit = p.recursionLimit := by rw [hpq.same]
  rw [hpq.length_frames, hlimit]
  exact .ite rfl (agrees_throw _) (agrees_beginRule r)

omit [TokenSource σ] in
/-- Taking the innermost rule off. -/
theorem agrees_popRule : Agrees Eq (popRule : ParserM σ Unit) popRule := by
  intro p q hpq
  obtain ⟨pair, htree, hframes⟩ := hpq.tree
  have hbehind : q.behind? 1 = p.behind? 1 := by rw [hpq.same]; rfl
  unfold popRule
  rw [ends_get_bind]
  simp only [ends_get_bind]
  generalize p.frames = fs at hframes
  generalize q.frames = fs' at hframes
  cases hframes with
  | nil => exact ⟨rfl, hpq⟩
  | @cons f f' fs fs' hf hrest =>
      rw [ends_modify_bind]
      simp only [ends_modify_bind]
      have hnode := hf.node
      generalize f.node = m at hnode
      generalize f'.node = m' at hnode
      cases hnode with
      | none => exact ⟨rfl, hpq.retree htree hrest⟩
      | @some i j hij =>
          have hclosed := htree.modifyRule hij (f := fun r => { r with
            stop := (p.behind? 1 >>= Token.index).filter fun s => r.start.any (· ≤ s) })
            (fun _ => rfl) fun r r' hsame => congrArg (fun r : RuleNode => { r with
              stop := (p.behind? 1 >>= Token.index).filter fun s => r.start.any (· ≤ s) }) hsame
          refine ⟨rfl, ?_⟩
          -- both have passed the same token last
          change Twins _ { q with
            frames := fs'
            tree := q.tree.modifyRule j fun r => { r with
              stop := (q.behind? 1 >>= Token.index).filter fun s => r.start.any (· ≤ s) } }
          rw [hbehind]
          exact hpq.retree hclosed hrest

/-- Leaving a rule. -/
theorem agrees_exitRule : Agrees Eq (exitRule : ParserM σ Unit) exitRule := by
  rw [exitRule_eq]
  exact agrees_popRule.seq agrees_checkCancelled

/-- Leaving a rule with what its body has ended with. -/
theorem agrees_leave (o : Except Interrupt Unit) : Agrees Eq
    (do
      let exited ← observe exitRule
      release o
      release exited : ParserM σ Unit)
    (do
      let exited ← observe exitRule
      release o
      release exited) := by
  refine agrees_exitRule.observe_bind fun exited exited' hexited => ?_
  have hsame : ∀ o : Except Interrupt Unit, Agreeing Eq o o := fun o => by cases o <;> rfl
  exact (agrees_release (hsame o)).seq (agrees_release hexited)

/-- What becomes of a rule. -/
theorem agrees_settleRule (o : Except Interrupt Unit) : Agrees Eq (settleRule o : ParserM σ Unit) (settleRule o) := by
  match o with
  | .ok u => exact agrees_leave _
  | .error (.abort a) => exact agrees_leave _
  | .error (.recognition e) =>
      refine agrees_get fun p q hpq => ?_
      obtain ⟨tree, frames, rfl⟩ := hpq.exists_eq
      refine .ite rfl (agrees_leave _) ((agrees_handleRecognition e).observe_bind fun o o' ho => ?_)
      obtain rfl := eq_of_agreeing ho
      exact agrees_leave o

/-- A rule. -/
theorem agrees_rule (r : RuleIndex) {x y : ParserM σ Unit} (hbody : Agrees Eq x y) :
    Agrees Eq (rule r x) (rule r y) := by
  refine (agrees_enterRule r).seq (hbody.observe_bind (f := settleRule) (g := settleRule) fun o o' ho => ?_)
  obtain rfl := eq_of_agreeing ho
  exact agrees_settleRule o

section

variable {α' : Type} {R : α → α' → Prop} {x : ParserM σ α} {y : ParserM σ α'}

omit [TokenSource σ] in
/-- Invoking a body. -/
theorem agrees_invoke (follow : TokenSet) (hbody : Agrees R x y) : Agrees R (invoke follow x) (invoke follow y) := by
  refine .seq (agrees_modify fun _ _ hpq => ?_) (hbody.observe_bind fun o o' ho => ?_)
  · exact hpq.change (fun p => { p with follow := follow :: p.follow }) (fun _ => ⟨rfl, rfl, rfl, rfl⟩) fun _ _ _ => rfl
  · refine .seq (agrees_modify fun _ _ hpq => ?_) (agrees_release ho)
    exact hpq.change (fun p => { p with follow := p.follow.tail }) (fun _ => ⟨rfl, rfl, rfl, rfl⟩) fun _ _ _ => rfl

omit [TokenSource σ] in
/-- Running a body for its exception. -/
theorem agrees_attempt (hbody : Agrees R x y) : Agrees (Agreeing R) (attempt x) (attempt y) := by
  refine hbody.observe_bind fun o o' ho => ?_
  rcases o with i | a <;> rcases o' with i' | a'
  · obtain rfl : i = i' := ho
    cases i with
    | recognition e => exact agrees_pure rfl
    | abort a => exact agrees_throw _
  · exact ho.elim
  · exact ho.elim
  · exact agrees_pure ho

end

/-- What becomes of a trial once its body has ended. -/
theorem agrees_endTrial (start rules invocations : Nat) (o : Except Interrupt Unit) :
    Agrees Eq (endTrial start rules invocations o : ParserM σ Bool) (endTrial start rules invocations o) := by
  refine .seq (agrees_modify fun p q hpq => ?_) ?_
  · obtain ⟨hplain, hstarted, hsame, pair, htree, hframes⟩ := hpq
    refine ⟨hplain, hstarted, by rw [hsame], pair, htree, ?_⟩
    unfold lastOf
    rw [← hframes.length_eq]
    exact List.forall₂_drop _ hframes
  · refine (agrees_onInput fun _ hs => Stream.stable_started.seek start hs).seq ?_
    match o with
    | .ok () => exact agrees_pure rfl
    | .error (.recognition _) => exact agrees_pure rfl
    | .error (.abort a) => exact agrees_throw _

/-- A trial. -/
theorem agrees_speculate {x y : ParserM σ Unit} (hbody : Agrees Eq x y) : Agrees Eq (speculate x) (speculate y) := by
  refine (agrees_ahead 1).bind fun _ _ _ => agrees_get fun p q hpq => ?_
  have hindex : q.index = p.index := by rw [hpq.same]; rfl
  have hfollow : q.follow = p.follow := by rw [hpq.same]
  rw [hpq.length_frames, hindex, hfollow]
  refine .seq (agrees_modify fun _ _ hpq => ?_) (hbody.observe_bind fun o o' ho => ?_)
  · exact hpq.change (fun p => { p with speculating := p.speculating + 1 }) (fun _ => ⟨rfl, rfl, rfl, rfl⟩)
      fun _ _ _ => rfl
  · obtain rfl := eq_of_agreeing ho
    exact agrees_endTrial _ _ _ o

end Parser

open ParseNode (View)
open TreeProjection.Parser

/-! ## Recognizers -/

/-- Whether two answers of an operation differ at most in the place of a token that is made up. -/
def Operation.Resembles (op : Operation β) (b b' : β) : Prop :=
  match op, b, b' with
  | .expect _ _, b, b' => b.unanchored = b'.unanchored
  | _, b, b' => b = b'

/-- **Two recognizers that go on alike**, whatever places the tokens have that are made up for them.  A recognizer that
does not look at such places goes on like itself; `R` compares what is answered in the end. -/
inductive Recognizer.Resembles : {α α' : Type} → (α → α' → Prop) → Recognizer α → Recognizer α' → Prop where
  /-- Both answer. -/
  | pure {α α' : Type} {R : α → α' → Prop} {a : α} {a' : α'} (h : R a a') : Resembles R (.pure a) (.pure a')
  /-- Both give up for want of steps. -/
  | outOfSteps {α α' : Type} {R : α → α' → Prop} : Resembles R .outOfSteps .outOfSteps
  /-- Both carry out the same operation. -/
  | step {α α' β : Type} {R : α → α' → Prop} (op : Operation β) {next : β → Recognizer α} {next' : β → Recognizer α'}
    (h : ∀ b b', op.Resembles b b' → Resembles R (next b) (next' b')) : Resembles R (.step op next) (.step op next')
  /-- Both run the same rule. -/
  | rule {α α' : Type} {R : α → α' → Prop} (r : RuleIndex) {body body' : Unit → Recognizer Unit}
    {next : Unit → Recognizer α} {next' : Unit → Recognizer α'} (hbody : Resembles Eq (body ()) (body' ()))
    (hnext : Resembles R (next ()) (next' ())) : Resembles R (.rule r body next) (.rule r body' next')
  /-- Both invoke a body that may be followed by the same. -/
  | invoke {α α' β β' : Type} {R : α → α' → Prop} (follow : TokenSet) {S : β → β' → Prop} {body : Unit → Recognizer β}
    {body' : Unit → Recognizer β'} {next : β → Recognizer α} {next' : β' → Recognizer α'}
    (hbody : Resembles S (body ()) (body' ())) (hnext : ∀ b b', S b b' → Resembles R (next b) (next' b')) :
    Resembles R (.invoke follow body next) (.invoke follow body' next')
  /-- Both try a body. -/
  | speculate {α α' : Type} {R : α → α' → Prop} {body body' : Unit → Recognizer Unit} {next : Bool → Recognizer α}
    {next' : Bool → Recognizer α'} (hbody : Resembles Eq (body ()) (body' ()))
    (hnext : ∀ b, Resembles R (next b) (next' b)) : Resembles R (.speculate body next) (.speculate body' next')
  /-- Both run a body for its exception. -/
  | attempt {α α' β β' : Type} {R : α → α' → Prop} {S : β → β' → Prop} {body : Unit → Recognizer β}
    {body' : Unit → Recognizer β'} {next : Except RecognitionException β → Recognizer α}
    {next' : Except RecognitionException β' → Recognizer α'} (hbody : Resembles S (body ()) (body' ()))
    (hnext : ∀ o o', Agreeing S o o' → Resembles R (next o) (next' o')) :
    Resembles R (.attempt body next) (.attempt body' next')

/-- **A recognizer that does not look at places** goes on like itself. -/
theorem Recognizer.Ordinary.resembles {r : Recognizer α} (h : r.Ordinary) (hheeds : r.Heeds .unplaced) :
    Resembles Eq r r := by
  -- without its place a token is the same if it is the same without the place of one that is made up
  have hsketch : ∀ {a b : Token}, a.unanchored = b.unanchored → a.sketch .unplaced = b.sketch .unplaced := by
    intro a b hab
    have hsame : ∀ t : Token, t.unanchored.sketch .unplaced = t.sketch .unplaced := fun t => by
      unfold Token.unanchored
      cases t.isConjured <;> rfl
    rw [← hsame a, hab, hsame b]
  induction r with
  | pure a => exact .pure rfl
  | outOfSteps => exact .outOfSteps
  | step op next ih =>
      -- only the answer of `expect` can differ, and not in anything that the recognizer looks at
      refine .step op fun b b' hb => ?_
      have hlike : op.sketch .unplaced b = op.sketch .unplaced b' := by
        cases op with
        | expect ty follow => exact hsketch hb
        | ahead k => exact congrArg _ hb
        | consume => exact congrArg _ hb
        | sync expecting => exact hb
        | require holds text => exact hb
        | noViableAlt depth => exact hb
        | mismatch expected => exact hb
      rw [hheeds.1 b b' hlike]
      exact ih b' (h b') (hheeds.2 b')
  | direct d next ih => exact h.elim
  | rule r body next ihbody ihnext =>
      exact .rule r (ihbody () h.1 hheeds.1) (ihnext () (h.2 ()) (hheeds.2 ()))
  | invoke follow body next ihbody ihnext =>
      exact .invoke follow (ihbody () h.1 hheeds.1) fun b _ hb => hb ▸ ihnext b (h.2 b) (hheeds.2 b)
  | speculate body next ihbody ihnext =>
      exact .speculate (ihbody () h.1 hheeds.1) fun b => ihnext b (h.2 b) (hheeds.2 b)
  | attempt body next ihbody ihnext =>
      refine .attempt (ihbody () h.1 hheeds.1) fun o o' ho => ?_
      exact eq_of_agreeing ho ▸ ihnext o (h.2 o) (hheeds.2.2 o)

variable [TokenSource σ]

/-- An operation. -/
theorem Operation.agrees (op : Operation β) : Agrees op.Resembles (op.run : ParserM σ β) op.run := by
  cases op with
  | ahead k => exact agrees_ahead k
  | expect ty follow => exact agrees_expect ty follow
  | consume => exact agrees_consume
  | sync expecting => exact agrees_sync expecting
  | require holds text => exact agrees_require holds text
  | noViableAlt depth => exact agrees_raiseNoViableAlt depth
  | mismatch expected => exact agrees_raiseMismatch expected

/-- **Recognizers that go on alike do the same** under both strategies. -/
theorem Recognizer.Resembles.agrees {α' : Type} {R : α → α' → Prop} {r : Recognizer α} {r' : Recognizer α'}
    (h : Resembles R r r') : Agrees R (r.run : ParserM σ α) r'.run := by
  induction h with
  | pure h => exact agrees_pure h
  | outOfSteps => exact agrees_throw _
  | step op _ ih => exact op.agrees.bind fun b b' hb => ih b b' hb
  | rule r _ _ ihbody ihnext => exact (agrees_rule r ihbody).seq ihnext
  | invoke follow _ _ ihbody ihnext => exact (agrees_invoke follow ihbody).bind ihnext
  | speculate _ _ ihbody ihnext => exact (agrees_speculate ihbody).bind fun b _ hb => hb ▸ ihnext b
  | attempt _ _ ihbody ihnext => exact (agrees_attempt ihbody).bind ihnext

/-! ## From the outermost rule on -/

/-- **Entering a rule, spelled out**: the flag and the limit are looked at, and unless this is a trial, the current token
is taken and a node is added. -/
theorem Parser.enterRule_apply (r : RuleIndex) (p : Parser σ) : enterRule r p =
    if TokenSource.isCancelled p.input.source then .error (.abort (.error .cancelled)) p
    else if p.recursionLimit.any (· ≤ p.frames.length) then .error (.abort (.error .recursionLimitExceeded)) p
    else if p.isSpeculating then .ok () { p with frames := ⟨r, none⟩ :: p.frames }
    else match Stream.ahead 1 p.input with
      | .ok t s => .ok () (Parser.openRule { p with input := s } r t.index)
      | .error a s => .error (.abort a) { p with input := s } := by
  have hcheck : checkCancelled p = if TokenSource.isCancelled p.input.source = true then
      .error (.abort (.error .cancelled)) p else .ok () p := by
    change (if _ then _ else _ : ParserM σ Unit) p = _
    split <;> rfl
  have hbegin : beginRule r p = if p.isSpeculating then .ok () { p with frames := ⟨r, none⟩ :: p.frames }
      else match Stream.ahead 1 p.input with
        | .ok t s => .ok () (Parser.openRule { p with input := s } r t.index)
        | .error a s => .error (.abort a) { p with input := s } := by
    change (if p.isSpeculating = true then _ else _ : ParserM σ Unit) p = _
    split
    · rfl
    · change EStateM.bind (onInput (Stream.ahead 1)) _ p = _
      simp only [EStateM.bind, onInput]
      cases Stream.ahead 1 p.input <;> rfl
  rw [enterRule_eq]
  change EStateM.bind checkCancelled _ p = _
  simp only [EStateM.bind, hcheck]
  -- the conditions are looked at in this order, so each case is that of the first one that holds
  by_cases hcancelled : TokenSource.isCancelled p.input.source = true
  · simp only [hcancelled, if_true]
  · simp only [hcancelled, if_false, Bool.false_eq_true]
    change (if p.recursionLimit.any (· ≤ p.frames.length) = true then _ else _ : ParserM σ Unit) p = _
    split
    · rfl
    · exact hbegin

/-- **Entering the outermost rule** under both strategies makes twins of parsers that have done nothing yet, unless both
give up at once. -/
theorem Parser.enterRule_fresh {source : σ} {language : Language} {recursionLimit : Option Nat} {listeners : Nat}
    {p q : Parser σ} (hp : p = { input := .ofSource source, language, strategy := .default, recursionLimit, listeners })
    (hq : q = { p with strategy := .anchored }) (r : RuleIndex) :
    (∃ p' q', enterRule r p = .ok () p' ∧ enterRule r q = .ok () q' ∧ p'.Twins q') ∨
      ∃ i p', enterRule r p = .error i p' ∧ enterRule r q = .error i { p' with strategy := .anchored } := by
  have hfirst := Stream.ends_ahead_started 1 (Stream.ofSource source)
  subst hp hq
  simp only [enterRule_apply]
  by_cases hcancelled : TokenSource.isCancelled (Stream.ofSource source).source = true
  · simp only [hcancelled, if_true]
    exact .inr ⟨_, _, rfl, rfl⟩
  by_cases hlimit : recursionLimit.any (· ≤ ([] : List Frame).length) = true
  · simp only [hcancelled, hlimit, if_true, if_false, Bool.false_eq_true]
    exact .inr ⟨_, _, rfl, rfl⟩
  simp only [hcancelled, hlimit, if_false, Bool.false_eq_true]
  cases hahead : Stream.ahead 1 (Stream.ofSource source) with
  | error a s => exact .inr ⟨_, _, rfl, rfl⟩
  | ok t s =>
      -- the root is the only node on either side, and the first token has been taken
      refine .inl ⟨_, _, rfl, rfl, rfl, hfirst.of_ok hahead, rfl, _, ParseTree.resembles_root rfl, ?_⟩
      exact .cons ⟨rfl, .some ⟨rfl, rfl⟩⟩ .nil

/-- **A strategy that anchors only adds anchors.**  Whatever is read, and however the parse ends, it ends alike under both
strategies, at the same place in the input and with the same errors reported.  The trees are the same once error leaves
for the end of the input are gone, and with them the places of tokens that are made up.  The recognizer must not look at
these places, since they are what the strategies differ in. -/
theorem Recognizer.OrdinaryRule.anchoring_only_anchors {e : Recognizer Unit} (h : e.OrdinaryRule)
    (hplaces : Resembles Eq e e) (source : σ) (language : Language) (recursionLimit : Option Nat) (listeners : Nat)
    {p q : Parser σ}
    (hp : p = { input := .ofSource source, language, strategy := .default, recursionLimit, listeners })
    (hq : q = { input := .ofSource source, language, strategy := .anchored, recursionLimit, listeners }) :
    Ends e.run p fun o p' => Ends e.run q fun o' q' =>
      o = o' ∧ p'.index = q'.index ∧ p'.reports = q'.reports ∧ p'.syntaxErrors = q'.syntaxErrors ∧
        p'.tree.view?.map View.trim = q'.tree.view?.map View.trim := by
  obtain ⟨r, body, rfl, -⟩ := h
  have hbody : Resembles Eq (body ()) (body ()) := by
    cases hplaces with
    | rule _ hbody _ => exact hbody
  have hrest : Agrees Eq (observe (body ()).run >>= settleRule : ParserM σ Unit)
      (observe (body ()).run >>= settleRule) :=
    hbody.agrees.observe_bind fun o o' ho => eq_of_agreeing ho ▸ agrees_settleRule o
  rw [run_rule_pure]
  -- from the outermost rule on the two parsers are twins
  rcases enterRule_fresh (q := q) hp (by rw [hp, hq]) r with ⟨p₁, q₁, hp₁, hq₁, htwins⟩ | ⟨i, p₁, hp₁, hq₁⟩
  · refine (Ends.bind_of_ok hp₁).mpr ((hrest p₁ q₁ htwins).mono fun o p' ho => ?_)
    refine (Ends.bind_of_ok hq₁).mpr (ho.mono fun o' q' hend => ?_)
    obtain ⟨hsame, hend⟩ := hend
    obtain ⟨pair, htree, -⟩ := hend.tree
    have htrim := htree.view
    obtain ⟨tree, frames, rfl⟩ := hend.exists_eq
    exact ⟨eq_of_agreeing hsame, rfl, rfl, rfl, htrim⟩
  · exact (Ends.bind_of_error hp₁).mpr ((Ends.bind_of_error hq₁).mpr ⟨rfl, rfl, rfl, rfl, rfl⟩)

namespace Truncated

/-- Matches three tokens, of which the second one may be the last. -/
def recognizer : Recognizer Unit :=
  .asRule ⟨0⟩ fun _ => (Recognizer.expect ⟨1⟩ ∅).bind fun _ => (Recognizer.expect ⟨2⟩ (.single .eof)).bind fun _ =>
    .expect ⟨3⟩ ∅

/-- The first token alone. -/
def source : ListedTokens where
  rest := [{ ty := ⟨1⟩, text := "a" }]
  last := .endOfInput 1

/-- The recognizer is a rule made of ordinary operations. -/
theorem ordinaryRule_recognizer : recognizer.OrdinaryRule := Recognizer.ordinaryRule_asRule <|
  (Recognizer.ordinary_expect _ _).bind fun _ => (Recognizer.ordinary_expect _ _).bind fun _ =>
    Recognizer.ordinary_expect _ _

/-- The recognizer does not look at the tokens that it gets. -/
theorem heeds_recognizer : recognizer.Heeds .unplaced :=
  ⟨⟨fun _ _ _ => rfl, fun _ => ⟨fun _ _ _ => rfl, fun _ => ⟨fun _ _ _ => rfl, fun _ => trivial⟩⟩⟩, fun _ => trivial⟩

/-- The second token is made up, and for want of the third one the rule is given up at the end of the input.  Of this only
a strategy that anchors leaves a third leaf; there is one error with either, and without anchors there is one tree. -/
theorem anchoring_only_anchors_truncated : ∃ p q,
    recognizer.run { input := .ofSource source, language := default, listeners := 1 } = .ok () p ∧
    recognizer.run { input := .ofSource source, language := default, strategy := .anchored, listeners := 1 } =
      .ok () q ∧
    p.tree.nodes.size = 3 ∧ q.tree.nodes.size = 4 ∧ p.reports = q.reports ∧ p.reports.length = 1 ∧
    p.tree.view?.map View.trim = q.tree.view?.map View.trim := by
  have hend : ∃ u p, recognizer.run { input := .ofSource source, language := default, listeners := 1 } = .ok u p ∧
      p.tree.nodes.size = 3 ∧ p.reports.length = 1 := by decide +kernel
  have hend' : ∃ u q, recognizer.run
      { input := .ofSource source, language := default, strategy := .anchored, listeners := 1 } = .ok u q ∧
      q.tree.nodes.size = 4 := by decide +kernel
  have hplaces := ordinaryRule_recognizer.ordinary.resembles heeds_recognizer
  generalize hp : ({ input := .ofSource source, language := default, listeners := 1 } : Parser ListedTokens) = p
    at hend ⊢
  generalize hq : ({ input := .ofSource source, language := default, strategy := .anchored, listeners := 1 } :
    Parser ListedTokens) = q at hend' ⊢
  have hall := ordinaryRule_recognizer.anchoring_only_anchors hplaces source default none 1 hp.symm hq.symm
  obtain ⟨_, p', hrun, hsize, hcount⟩ := hend
  obtain ⟨_, q', hrun', hsize'⟩ := hend'
  obtain ⟨-, -, hreports, -, htrim⟩ := (hall.of_ok hrun).of_ok hrun'
  exact ⟨p', q', hrun, hrun', hsize, hsize', hreports, hcount, htrim⟩

end Truncated

end TreeProjection
