import TreeProjection.Proofs.Ending
import TreeProjection.Proofs.Sketch

/-! # Properties that go from primitive actions to recognizers

Whatever an ordinary recognizer does, it does by a handful of primitive actions: it reads ahead, passes a token,
changes what recovery keeps in mind, adds a leaf, and enters and leaves rules, invocations and trials.  A property of
two actions that holds of each pair of primitive ones, and goes over to what is put together from them, holds of each
ordinary recognizer over two sources.  The two actions begin with parsers of one sketch, and their answers are
compared by sketches of them.  A property of one action is the case where the second one is not looked at.

* `Parser.Aside` — a change that touches neither the input nor what is active.
* `Uniform` — a property of that kind, with what it asks of types, rules and steps.
* `Recognizer.Within` — an ordinary recognizer that is asked for no more than that.
* `Uniform.recognizer` — the property holds of such recognizers. -/

namespace TreeProjection

variable {σ σ' : Type} {α β : Type}

/-! ## Changes that touch nothing active -/

/-- **The rules of a tree are rules of another one**, node by node. -/
def ParseTree.RulesFrom (t u : ParseTree) : Prop :=
  ∀ (n : Nat) (r : RuleNode), u.nodes[n]? = some (.rule r) →
    ∃ r' : RuleNode, t.nodes[n]? = some (.rule r') ∧ r'.rule = r.rule

namespace ParseTree

variable {t u w : ParseTree}

/-- Nothing has changed. -/
theorem RulesFrom.refl (t : ParseTree) : t.RulesFrom t := fun _ r h => ⟨r, h, rfl⟩

/-- A rule node is changed, but not its rule. -/
theorem rulesFrom_modifyRule (t : ParseTree) (n : Nat) {f : RuleNode → RuleNode}
    (hf : ∀ r, (f r).rule = r.rule) : t.RulesFrom (t.modifyRule n f) := by
  intro m r hr
  simp only [modifyRule, Array.getElem?_modify] at hr
  -- only the node at `n` is touched, and it is found to have been a rule with the same index
  by_cases hm : n = m
  · simp only [hm, if_true] at hr
    cases hnode : t.nodes[m]? with
    | none =>
        rw [hnode] at hr
        cases hr
    | some node =>
        rw [hnode, Option.map_some] at hr
        cases node with
        | rule r' =>
            obtain rfl := ParseNode.rule.inj (Option.some.inj hr)
            exact ⟨r', rfl, (hf r').symm⟩
        | terminal token => cases Option.some.inj hr
        | error token => cases Option.some.inj hr
  · simp only [hm, if_false] at hr
    exact ⟨r, hr, rfl⟩

/-- A node is added: either it is a leaf, or its rule is a new one. -/
theorem rule_of_push (t : ParseTree) (parent : Option Nat) (node : ParseNode) {n : Nat}
    {r : RuleNode} (hr : (t.push parent node).2.nodes[n]? = some (.rule r)) :
    (∃ r', t.nodes[n]? = some (.rule r') ∧ r'.rule = r.rule) ∨
      ∃ r', node = .rule r' ∧ r'.rule = r.rule := by
  -- the node is put at the end, whatever becomes of its parent
  have hpushed : ∀ {m : Nat} {r₁ : RuleNode}, (t.nodes.push node)[m]? = some (.rule r₁) →
      (∃ r', t.nodes[m]? = some (.rule r') ∧ r'.rule = r₁.rule) ∨
        ∃ r', node = .rule r' ∧ r'.rule = r₁.rule := by
    intro m r₁ hr₁
    rw [Array.getElem?_push] at hr₁
    by_cases hm : m = t.nodes.size
    · rw [if_pos hm] at hr₁
      exact .inr ⟨r₁, Option.some.inj hr₁, rfl⟩
    · rw [if_neg hm] at hr₁
      exact .inl ⟨r₁, hr₁, rfl⟩
  unfold push at hr
  cases hparent : parent.filter t.isRuleAt with
  | none =>
      rw [hparent] at hr
      exact hpushed hr
  | some c =>
      rw [hparent] at hr
      obtain ⟨r', hr', hrule⟩ := rulesFrom_modifyRule { t with nodes := t.nodes.push node } c
        (by exact fun _ => rfl) n r hr
      rw [← hrule]
      exact hpushed hr'

/-- A leaf is added. -/
theorem rulesFrom_push (t : ParseTree) (parent : Option Nat) {node : ParseNode}
    (hnode : node.isRule = false) : t.RulesFrom (t.push parent node).2 := by
  intro n r hr
  rcases t.rule_of_push parent node hr with h | ⟨r', rfl, -⟩
  · exact h
  · cases hnode

end ParseTree

/-- **A change that touches neither the input nor what is active**, and adds no rule to the tree. -/
structure Parser.Aside (p q : Parser σ) : Prop where
  /-- The input is the same. -/
  input : q.input = p.input
  /-- So is the limit of active rules. -/
  recursionLimit : q.recursionLimit = p.recursionLimit
  /-- The same rules are active. -/
  frames : q.frames = p.frames
  /-- The same invocations are active. -/
  follow : q.follow = p.follow
  /-- The same speculations are under way. -/
  speculating : q.speculating = p.speculating
  /-- The rules of the tree were there before. -/
  rules : p.tree.RulesFrom q.tree

/-! ## Properties of primitive actions -/

variable [TokenSource σ] [TokenSource σ']

/-- **A property of two actions that goes from primitive ones to whole recognizers.** The two begin with parsers of one
sketch, and `R view` compares their answers as `view` shows them.  It may be a property that holds only of matching
certain types and of recognizing certain rules; `steps` tells whether it holds of giving up for want of steps. -/
structure Uniform (d : Detail) (types : TokenType → Prop) (rules : RuleIndex → Prop) (steps : Prop)
    (R : {α : Type} → (α → α) → ParserM σ α → ParserM σ' α → Prop) : Prop where
  /-- Answering. -/
  of_pure {α : Type} {view : α → α} {a b : α} (h : view a = view b) : R view (pure a) (pure b)
  /-- Failing. -/
  of_throw {α : Type} {view : α → α} {e e' : RecognitionException} (h : e.sketch d = e'.sketch d) :
    R view (throw (.recognition e)) (throw (.recognition e'))
  /-- Giving up for want of steps. -/
  outOfSteps {α : Type} {view : α → α} (h : steps) :
    R view (Parser.giveUp .outOfSteps) (Parser.giveUp .outOfSteps)
  /-- One action after the other. -/
  of_bind {α β : Type} {view : α → α} {view' : β → β} {x : ParserM σ α} {y : ParserM σ' α}
    {f : α → ParserM σ β} {g : α → ParserM σ' β} (h : R view x y)
    (hnext : ∀ a b, view a = view b → R view' (f a) (g b)) : R view' (x >>= f) (y >>= g)
  /-- Looking at the state. -/
  of_get {α : Type} {view : α → α} {f : Parser σ → ParserM σ α} {g : Parser σ' → ParserM σ' α}
    (h : ∀ p q, p.sketch d = q.sketch d → R view (f p) (g q)) : R view (get >>= f) (get >>= g)
  /-- Changing what is not active. -/
  of_modify {f : Parser σ → Parser σ} {g : Parser σ' → Parser σ'} (hf : ∀ p : Parser σ, p.Aside (f p))
    (hg : ∀ q : Parser σ', q.Aside (g q)) (h : ∀ p q, p.sketch d = q.sketch d → (f p).sketch d = (g q).sketch d) :
    R id (modify f) (modify g)
  /-- Looking ahead. -/
  ahead (k : Nat) : R (Token.sketch d) (Parser.ahead k) (Parser.ahead k)
  /-- Moving past the current token. -/
  pass : R id (Parser.onInput Stream.consume) (Parser.onInput Stream.consume)
  /-- The set of a type. -/
  single {ty : TokenType} (h : types ty) :
    R id (Parser.orBroken (TokenSet.single? ty)) (Parser.orBroken (TokenSet.single? ty))
  /-- Consuming tokens, as many as there may be. -/
  passOver (set : TokenSet) (hconsume : R (Token.sketch d) Parser.consume Parser.consume) :
    R id (get >>= fun p => Parser.consumeUntil set (p.remaining + 1))
      (get >>= fun p => Parser.consumeUntil set (p.remaining + 1))
  /-- A rule, the failures of which are handled. -/
  rule {r : RuleIndex} {x : ParserM σ Unit} {y : ParserM σ' Unit} (h : rules r)
    (hfailure : ∀ e e' : RecognitionException, e.sketch d = e'.sketch d →
      R id (Parser.handleRecognition e) (Parser.handleRecognition e')) (hbody : R id x y) :
    R id (Parser.rule r x) (Parser.rule r y)
  /-- Invoking a body. -/
  invoke {α : Type} {x : ParserM σ α} {y : ParserM σ' α} (follow : TokenSet) (hbody : R id x y) :
    R id (Parser.invoke follow x) (Parser.invoke follow y)
  /-- Trying a body. -/
  speculate {x : ParserM σ Unit} {y : ParserM σ' Unit} (hbody : R id x y) :
    R id (Parser.speculate x) (Parser.speculate y)
  /-- Running a body for its exception. -/
  attempt {α : Type} {x : ParserM σ α} {y : ParserM σ' α} (hbody : R id x y) :
    R (sketchOutcome (·.sketch d) id) (Parser.attempt x) (Parser.attempt y)

namespace Uniform

omit [TokenSource σ] [TokenSource σ'] in
/-- The same choice on both sides. -/
theorem on_ite {R : {α : Type} → (α → α) → ParserM σ α → ParserM σ' α → Prop} {view : α → α}
    {x x' : ParserM σ α} {y y' : ParserM σ' α} {b b' : Bool} (hb : b = b') (hx : R view x y)
    (hx' : R view x' y') : R view (if b then x else x') (if b' then y else y') := by
  subst hb
  cases b with
  | true => exact hx
  | false => exact hx'

variable {d : Detail} {types : TokenType → Prop} {rules : RuleIndex → Prop} {steps : Prop}
  {R : {α : Type} → (α → α) → ParserM σ α → ParserM σ' α → Prop} (h : Uniform d types rules steps R)

include h

/-- One action after the other, where it makes no difference what the first answers. -/
theorem of_seq {x : ParserM σ Unit} {y : ParserM σ' Unit} {view : α → α} {f : Unit → ParserM σ α}
    {g : Unit → ParserM σ' α} (hx : R id x y) (hnext : R view (f ()) (g ())) :
    R view (x >>= f) (y >>= g) :=
  h.of_bind hx fun _ _ _ => hnext

/-- Changing neither the input nor the tree nor what is active, by a change that can be seen on a sketch. -/
theorem aside (f : {σ : Type} → Parser σ → Parser σ)
    (hf : ∀ {σ : Type} (p : Parser σ), (f p).tree = p.tree ∧ (f p).input = p.input ∧
      (f p).frames = p.frames ∧ (f p).follow = p.follow ∧ (f p).speculating = p.speculating ∧
      (f p).recursionLimit = p.recursionLimit)
    (hsketch : ∀ {σ : Type} (p : Parser σ), (f p).sketch d = f (p.sketch d)) :
    R id (modify f) (modify f) := by
  have haside : ∀ {σ : Type} (p : Parser σ), p.Aside (f p) := by
    intro σ p
    obtain ⟨htree, hinput, hframes, hfollow, hspeculating, hlimit⟩ := hf p
    refine ⟨hinput, hlimit, hframes, hfollow, hspeculating, ?_⟩
    rw [htree]
    exact .refl _
  refine h.of_modify haside haside fun p q hpq => ?_
  rw [hsketch, hsketch, hpq]

/-! ### What does not touch the input -/

/-- Adding a leaf. -/
theorem addLeaf {leaf leaf' : ParseNode} (hleaf : leaf.isRule = false)
    (hsame : leaf.sketch d = leaf'.sketch d) : R id (Parser.addLeaf leaf) (Parser.addLeaf leaf') := by
  have hleaf' : leaf'.isRule = false := by
    rw [← leaf'.isRule_sketch d, ← hsame, leaf.isRule_sketch d, hleaf]
  refine h.of_modify (fun p => ⟨rfl, rfl, rfl, rfl, rfl, p.tree.rulesFrom_push _ hleaf⟩)
    (fun q => ⟨rfl, rfl, rfl, rfl, rfl, q.tree.rulesFrom_push _ hleaf'⟩) fun p q hpq => ?_
  rw [p.sketch_addLeaf, q.sketch_addLeaf, hpq, hsame]

/-- Adding an error leaf. -/
theorem addErrorLeaf {t u : Token} (htu : t.sketch d = u.sketch d) :
    R id (Parser.addErrorLeaf t) (Parser.addErrorLeaf u) :=
  h.of_get fun _ _ hpq => on_ite (Parser.congr_sketch Parser.isSpeculating (fun _ => rfl) hpq)
    (h.of_pure rfl) (h.addLeaf rfl (congrArg ParseNode.error htu))

/-- Numbering an exception. -/
theorem newException {kind kind' : ExceptionKind} {offending offending' : Token} (expected : TokenSet)
    (hkind : kind.sketch d = kind'.sketch d) (hoffending : offending.sketch d = offending'.sketch d) :
    R (RecognitionException.sketch d) (Parser.newException kind offending expected)
      (Parser.newException kind' offending' expected) := by
  have heq : ∀ {σ : Type} (kind : ExceptionKind) (offending : Token),
      (Parser.newException kind offending expected : ParserM σ _) =
      get >>= fun p => modify (fun p => { p with nextException := p.nextException + 1 }) >>=
        fun _ => pure { id := p.nextException, kind, offending, expected
                        rule := p.currentRule?.getD ⟨0⟩ } := fun _ _ => rfl
  rw [heq, heq]
  refine h.of_get fun p q hpq => h.of_seq ?_ (h.of_pure ?_)
  · exact h.aside (fun p => { p with nextException := p.nextException + 1 })
      (fun _ => ⟨rfl, rfl, rfl, rfl, rfl, rfl⟩) fun _ => rfl
  · have hid : p.nextException = q.nextException := congrArg Parser.nextException hpq
    have hrule : p.currentRule? = q.currentRule? := congrArg Parser.currentRule? hpq
    simp only [RecognitionException.sketch, hid, hrule, hkind, hoffending]

/-- Failing with a new exception. -/
theorem fail {view : α → α} {kind kind' : ExceptionKind} {offending offending' : Token}
    (expected : TokenSet) (hkind : kind.sketch d = kind'.sketch d)
    (hoffending : offending.sketch d = offending'.sketch d) :
    R view (do throw (.recognition (← Parser.newException kind offending expected)))
      (do throw (.recognition (← Parser.newException kind' offending' expected))) :=
  h.of_bind (h.newException expected hkind hoffending) fun _ _ he => h.of_throw he

/-- Writing something down. -/
theorem note {n n' : Note} (hn : n.sketch d = n'.sketch d) : R id (Parser.note n) (Parser.note n') := by
  have haside : ∀ {σ : Type} (n : Note) (p : Parser σ),
      p.Aside { p with journal := p.journal.push n } := fun _ p => ⟨rfl, rfl, rfl, rfl, rfl, .refl _⟩
  refine h.of_modify (haside n) (haside n') fun p q hpq => ?_
  rw [p.sketch_note, q.sketch_note, hpq, hn]

/-- Telling the listeners. -/
theorem report {t u : Token} {message message' : String} {e e' : Option RecognitionException}
    (htu : t.sketch d = u.sketch d) (hmessage : message = message')
    (he : e.map (·.sketch d) = e'.map (·.sketch d)) :
    R id (Parser.report t message e) (Parser.report u message' e') := by
  -- the two sides are of different parsers, so the action is put into one shape before they are compared
  have heq : ∀ {σ : Type} (t : Token) (message : String) (e : Option RecognitionException),
      (Parser.report t message e : ParserM σ Unit) =
      get >>= fun p => modify (fun p => { p with syntaxErrors := p.syntaxErrors + 1 }) >>=
        fun _ => if decide (0 < p.listeners) then
          Parser.note (.report p.listeners ⟨t, t.line, t.column, message, e⟩) else pure () := by
    intro σ t message e
    simp only [decide_eq_true_eq]
    rfl
  rw [heq, heq]
  refine h.of_get fun p q hpq => h.of_seq ?_ ?_
  · exact h.aside (fun p => { p with syntaxErrors := p.syntaxErrors + 1 })
      (fun _ => ⟨rfl, rfl, rfl, rfl, rfl, rfl⟩) fun _ => rfl
  · have hlisteners : p.listeners = q.listeners := congrArg Parser.listeners hpq
    have hline : t.line = u.line := Token.congr_sketch Token.line (fun _ => rfl) htu
    have hcolumn : t.column = u.column := Token.congr_sketch Token.column (fun _ => rfl) htu
    refine on_ite (by rw [hlisteners]) (h.note ?_) (h.of_pure rfl)
    simp only [Note.sketch, Report.sketch, hlisteners, hline, hcolumn, hmessage, htu, he]

/-- A hook. -/
theorem hooked (k : Hook) {view : α → α} {denied act : ParserM σ α} {denied' act' : ParserM σ' α}
    (hdenied : R view denied denied') (hact : R view act act') :
    R view (Parser.hooked k denied act) (Parser.hooked k denied' act') := by
  refine h.of_get fun p q hpq => ?_
  have hstrategy : p.strategy = q.strategy := congrArg Parser.strategy hpq
  have hchoice := on_ite (R := R) (congrArg (Strategy.allows · k) hstrategy) hact hdenied
  exact on_ite (congrArg Strategy.noted hstrategy) (h.of_seq (h.note rfl) hchoice) hchoice

/-- Holding reports back. -/
theorem beginErrorCondition : R id Parser.beginErrorCondition Parser.beginErrorCondition :=
  h.hooked _ (h.of_pure rfl) (h.aside (fun p => { p with recovery.inRecovery := true })
    (fun _ => ⟨rfl, rfl, rfl, rfl, rfl, rfl⟩) fun _ => rfl)

/-- No longer holding reports back. -/
theorem reportMatch : R id Parser.reportMatch Parser.reportMatch :=
  h.hooked _ (h.of_pure rfl) (h.aside (fun p => { p with recovery := {} })
    (fun _ => ⟨rfl, rfl, rfl, rfl, rfl, rfl⟩) fun _ => rfl)

/-- Doing something unless reports are held back. -/
theorem unlessInRecovery {x : ParserM σ Unit} {y : ParserM σ' Unit} (hxy : R id x y) :
    R id (do unless (← get).recovery.inRecovery do x) (do unless (← get).recovery.inRecovery do y) :=
  h.of_get fun _ _ hpq =>
    on_ite (Parser.congr_sketch (fun p => p.recovery.inRecovery) (fun _ => rfl) hpq) (h.of_pure rfl) hxy

/-- Reporting an exception. -/
theorem reportError {e e' : RecognitionException} (he : e.sketch d = e'.sketch d) :
    R id (Parser.reportError e) (Parser.reportError e') := by
  refine h.hooked _ (h.of_pure rfl) (h.unlessInRecovery ?_)
  refine h.of_seq h.beginErrorCondition (h.of_get fun p q hpq => h.report ?_ ?_ (congrArg some he))
  · exact congrArg RecognitionException.offending he
  · rw [← p.exceptionMessage_sketch d, hpq, he, q.exceptionMessage_sketch d]

/-! ### What touches the input -/

/-- Consuming. -/
theorem consume : R (Token.sketch d) Parser.consume Parser.consume := by
  refine h.of_bind (h.ahead 1) fun t u htu => h.of_seq h.pass ?_
  refine h.of_get fun p q hpq => on_ite (Parser.congr_sketch Parser.isSpeculating (fun _ => rfl) hpq)
    (h.of_pure htu) (h.of_seq (h.addLeaf ?_ ?_) (h.of_pure htu))
  · cases p.recovery.inRecovery <;> rfl
  · have hrecovery : p.recovery.inRecovery = q.recovery.inRecovery :=
      congrArg (fun p => p.recovery.inRecovery) hpq
    rw [hrecovery]
    cases q.recovery.inRecovery with
    | true => exact congrArg ParseNode.error htu
    | false => exact congrArg ParseNode.terminal htu

/-- Failing because of the current token. -/
theorem raiseMismatch {view : α → α} (expected : TokenSet) :
    R view (Parser.raiseMismatch expected) (Parser.raiseMismatch expected) :=
  h.of_bind (h.ahead 1) fun _ _ htu => h.fail _ rfl htu

/-- Failing because no alternative fits. -/
theorem raiseNoViableAlt {view : α → α} (depth : Nat) :
    R view (Parser.raiseNoViableAlt depth) (Parser.raiseNoViableAlt depth) :=
  h.of_bind (h.ahead 1) fun _ _ hstart => h.of_bind (h.ahead _) fun _ _ htu =>
    h.fail _ (congrArg ExceptionKind.noViableAlt hstart) htu

/-- Failing unless a condition holds. -/
theorem require (holds : Bool) (text : String) :
    R id (Parser.require holds text) (Parser.require holds text) :=
  on_ite rfl (h.of_pure rfl) (h.of_bind (h.ahead 1) fun _ _ htu => h.fail _ rfl htu)

/-- Passing over tokens. -/
theorem skipTo (set : TokenSet) : R id (Parser.skipTo set) (Parser.skipTo set) := by
  have hpass := h.passOver set h.consume
  refine h.hooked _ (h.of_pure rfl) (h.of_get fun p q hpq => ?_)
  refine on_ite (Parser.congr_sketch (fun p => p.strategy.anchoring) (fun _ => rfl) hpq) ?_ hpass
  refine h.of_bind (h.ahead 1) fun t u htu =>
    on_ite (Token.congr_sketch Token.isEof (fun _ => rfl) htu) ?_ hpass
  exact h.of_seq (h.addErrorLeaf htu) hpass

/-- Bringing the input to where a caller can go on. -/
theorem recover (e e' : RecognitionException) : R id (Parser.recover e) (Parser.recover e') := by
  refine h.hooked _ (h.of_pure rfl) (h.of_get fun p q hpq => ?_)
  have hrule : p.currentRule? = q.currentRule? := congrArg Parser.currentRule? hpq
  have hindex : p.index = q.index := congrArg Parser.index hpq
  have hrecovery : p.recovery = q.recovery := congrArg Parser.recovery hpq
  rw [hrule, hindex, hrecovery]
  -- whether or not a token is given up first, the recovery is kept in mind
  have hresume : ∀ rule : Option RuleIndex, R id
      (do
        modify fun p => { p with
          recovery.lastErrorIndex := some p.index
          recovery.lastErrorRules := p.recovery.lastErrorRules ++ rule.toList }
        Parser.skipTo (← get).recoverySet)
      (do
        modify fun p => { p with
          recovery.lastErrorIndex := some p.index
          recovery.lastErrorRules := p.recovery.lastErrorRules ++ rule.toList }
        Parser.skipTo (← get).recoverySet) := by
    intro rule
    refine h.of_seq ?_ (h.of_get fun p q hpq => ?_)
    · exact h.aside (fun p => { p with
          recovery.lastErrorIndex := some p.index
          recovery.lastErrorRules := p.recovery.lastErrorRules ++ rule.toList })
        (fun _ => ⟨rfl, rfl, rfl, rfl, rfl, rfl⟩) fun _ => rfl
    · have hset : p.recoverySet = q.recoverySet := congrArg Parser.recoverySet hpq
      rw [hset]
      exact h.skipTo _
  exact on_ite rfl (h.of_bind h.consume fun _ _ _ => hresume _) (hresume _)

/-- Reporting something about the current token, by a text that what may follow goes into. -/
theorem reportCurrent (k : Hook) (expecting : TokenSet) (text : Token → String → String)
    (htext : ∀ (t u : Token) (expected : String), t.sketch d = u.sketch d → text t expected = text u expected) :
    R id
      (Parser.hooked k (pure ()) do
        unless (← get).recovery.inRecovery do
          Parser.beginErrorCondition
          let t ← Parser.ahead 1
          let p ← get
          let expected := p.language.vocabulary.displaySet (p.viableFollow expecting)
          Parser.report t (text t expected) none)
      (Parser.hooked k (pure ()) do
        unless (← get).recovery.inRecovery do
          Parser.beginErrorCondition
          let t ← Parser.ahead 1
          let p ← get
          let expected := p.language.vocabulary.displaySet (p.viableFollow expecting)
          Parser.report t (text t expected) none) := by
  refine h.hooked _ (h.of_pure rfl) (h.unlessInRecovery ?_)
  refine h.of_seq h.beginErrorCondition (h.of_bind (h.ahead 1) fun t u htu => ?_)
  refine h.of_get fun p q hpq => h.report htu ?_ rfl
  have hlanguage : p.language = q.language := congrArg Parser.language hpq
  have hfollow : p.viableFollow expecting = q.viableFollow expecting :=
    congrArg (Parser.viableFollow · expecting) hpq
  rw [hlanguage, hfollow]
  exact htext _ _ _ htu

/-- Reporting the current token as one too many. -/
theorem reportUnwanted (expecting : TokenSet) :
    R id (Parser.reportUnwanted expecting) (Parser.reportUnwanted expecting) :=
  h.reportCurrent _ expecting (fun t expected => s!"extraneous input {t.shown} expecting {expected}")
    fun _ _ _ htu => by rw [Token.congr_sketch Token.shown (fun _ => rfl) htu]

/-- Reporting a token as missing. -/
theorem reportMissing (expecting : TokenSet) :
    R id (Parser.reportMissing expecting) (Parser.reportMissing expecting) :=
  h.reportCurrent _ expecting (fun t expected => s!"missing {expected} at {t.shown}")
    fun _ _ _ htu => by rw [Token.congr_sketch Token.shown (fun _ => rfl) htu]

/-- Dropping a token. -/
theorem singleTokenDeletion {expected : TokenType} (hty : types expected) :
    R (Option.map (Token.sketch d)) (Parser.singleTokenDeletion expected)
      (Parser.singleTokenDeletion expected) := by
  refine h.hooked _ (h.of_pure rfl) (h.of_bind (h.ahead 2) fun t u htu => ?_)
  refine on_ite (Token.congr_sketch (fun t => t.ty != expected) (fun _ => rfl) htu) (h.of_pure rfl) ?_
  refine h.of_bind (h.single hty) fun set _ hset => ?_
  obtain rfl := hset
  refine h.of_seq (h.reportUnwanted set) (h.of_bind h.consume fun _ _ _ => ?_)
  refine h.of_bind (h.ahead 1) fun matched _ hmatched => h.of_seq h.reportMatch (h.of_pure ?_)
  exact congrArg some hmatched

/-- Seeing whether a token is missing. -/
theorem singleTokenInsertion {expected : TokenType} (hty : types expected) (follow : TokenSet) :
    R id (Parser.singleTokenInsertion expected follow) (Parser.singleTokenInsertion expected follow) := by
  refine h.hooked _ (h.of_pure rfl) (h.of_bind (h.ahead 1) fun t u htu => ?_)
  refine h.of_get fun p q hpq => ?_
  have hfollow : p.viableFollow follow = q.viableFollow follow :=
    congrArg (Parser.viableFollow · follow) hpq
  have htype : t.ty = u.ty := Token.congr_sketch Token.ty (fun _ => rfl) htu
  refine on_ite (by rw [hfollow, htype]) (h.of_pure rfl) (h.of_bind (h.single hty) fun set _ hset => ?_)
  obtain rfl := hset
  exact h.of_seq (h.reportMissing set) (h.of_pure rfl)

/-- Making up a token. -/
theorem missingSymbol (expected : TokenType) :
    R (Token.sketch d) (Parser.missingSymbol expected) (Parser.missingSymbol expected) := by
  have hact : R (Token.sketch d)
      (Parser.ahead 1 >>= fun t => get >>= fun p =>
        if !p.strategy.anchoring then pure (p.madeUp expected t) else Parser.ahead 1 >>= fun u =>
          pure { p.madeUp expected t with span := some (u.span.getD (.emptyAt 0)) })
      (Parser.ahead 1 >>= fun t => get >>= fun p =>
        if !p.strategy.anchoring then pure (p.madeUp expected t) else Parser.ahead 1 >>= fun u =>
          pure { p.madeUp expected t with span := some (u.span.getD (.emptyAt 0)) }) := by
    refine h.of_bind (h.ahead 1) fun t t' ht => h.of_get fun p q hpq => ?_
    have hmade : p.madeUp expected t = q.madeUp expected t' := by
      rw [← p.madeUp_sketch d, hpq, ht, q.madeUp_sketch d]
    rw [hmade]
    refine on_ite (Parser.congr_sketch (fun p => !p.strategy.anchoring) (fun _ => rfl) hpq) (h.of_pure rfl) ?_
    refine h.of_bind (h.ahead 1) fun u u' hu => h.of_pure ?_
    exact Token.sketch_congr_span (d.span_getD (congrArg Token.span hu))
  -- a denied hook acts all the same
  exact h.hooked _ hact hact

/-- Mending the lack of a token. -/
theorem recoverInline {expected : TokenType} (hty : types expected) (follow : TokenSet) :
    R (Token.sketch d) (Parser.recoverInline expected follow) (Parser.recoverInline expected follow) := by
  -- a mismatch is raised where neither mending works, and also where the hook is not to mend at all
  have hmismatch : R (Token.sketch d)
      (Parser.orBroken (TokenSet.single? expected) >>= fun set => Parser.raiseMismatch set)
      (Parser.orBroken (TokenSet.single? expected) >>= fun set => Parser.raiseMismatch set) := by
    refine h.of_bind (h.single hty) fun set _ hset => ?_
    obtain rfl := hset
    exact h.raiseMismatch set
  refine h.hooked _ hmismatch (h.of_bind (h.singleTokenDeletion hty) fun o o' ho => ?_)
  -- one side drops a token exactly if the other does, so mixed outcomes contradict `ho`
  cases o with
  | some matched =>
      cases o' with
      | none => cases ho
      | some matched' => exact h.of_bind h.consume fun _ _ _ => h.of_pure (Option.some.inj ho)
  | none =>
      cases o' with
      | some matched' => cases ho
      | none =>
          refine h.of_bind (h.singleTokenInsertion hty follow) fun b b' hb => ?_
          exact on_ite hb (h.missingSymbol expected) hmismatch

/-- Guarding a loop. -/
theorem syncHook (expecting : TokenSet) :
    R id (Parser.syncHook expecting) (Parser.syncHook expecting) := by
  refine h.hooked _ (h.of_pure rfl) (h.unlessInRecovery ?_)
  refine h.of_bind (h.ahead 1) fun t u htu => ?_
  have htype : t.ty = u.ty := Token.congr_sketch Token.ty (fun _ => rfl) htu
  refine on_ite (by rw [htype]) (h.of_pure rfl) ?_
  refine h.of_seq (h.reportUnwanted expecting) (h.of_get fun p q hpq => ?_)
  have hset : p.recoverySet = q.recoverySet := congrArg Parser.recoverySet hpq
  rw [hset]
  exact h.skipTo _

/-! ### Operations -/

/-- Handling a failure. -/
theorem handleRecognition {e e' : RecognitionException} (he : e.sketch d = e'.sketch d) :
    R id (Parser.handleRecognition e) (Parser.handleRecognition e') := by
  have haside : ∀ {σ : Type} (e : RecognitionException) (p : Parser σ) (node : Nat),
      p.Aside { p with tree := p.tree.modifyRule node fun r => { r with exception := some e } } :=
    fun e p node => ⟨rfl, rfl, rfl, rfl, rfl, p.tree.rulesFrom_modifyRule node fun _ => rfl⟩
  refine h.of_seq (h.of_modify (fun p => ?_) (fun q => ?_) fun p q hpq => ?_)
    (h.of_seq (h.reportError he) (h.recover e e'))
  -- a parser without a node has nowhere to note the exception
  · cases p.currentNode? with
    | none => exact ⟨rfl, rfl, rfl, rfl, rfl, .refl _⟩
    | some node => exact haside e p node
  · cases q.currentNode? with
    | none => exact ⟨rfl, rfl, rfl, rfl, rfl, .refl _⟩
    | some node => exact haside e' q node
  · have hnode : p.currentNode? = q.currentNode? := congrArg Parser.currentNode? hpq
    rw [hnode]
    cases q.currentNode? with
    | none => exact hpq
    | some node => simp only [Parser.sketch_noteException, hpq, he]

/-- Matching a token. -/
theorem expect {ty : TokenType} (hty : types ty) (follow : TokenSet) :
    R (Token.sketch d) (Parser.expect ty follow) (Parser.expect ty follow) := by
  have htrial : ∀ {p : Parser σ} {q : Parser σ'}, p.sketch d = q.sketch d →
      p.isSpeculating = q.isSpeculating := congrArg Parser.isSpeculating
  refine h.of_bind (h.ahead 1) fun t u htu =>
    on_ite (Token.congr_sketch (fun t => t.ty == ty) (fun _ => rfl) htu) ?_ ?_
  · refine h.of_get fun p q hpq => on_ite (htrial hpq) h.consume ?_
    exact h.of_seq h.reportMatch h.consume
  · refine h.of_get fun p q hpq => on_ite (htrial hpq) ?_ ?_
    · refine h.of_bind (h.single hty) fun set _ hset => ?_
      obtain rfl := hset
      exact h.raiseMismatch set
    · refine h.of_bind (h.recoverInline hty follow) fun t u htu => ?_
      refine on_ite (Token.congr_sketch Token.isConjured (fun _ => rfl) htu) ?_ (h.of_pure htu)
      exact h.of_seq (h.addErrorLeaf htu) (h.of_pure htu)

/-- Guarding a loop, unless on trial. -/
theorem sync (expecting : TokenSet) : R id (Parser.sync expecting) (Parser.sync expecting) :=
  h.of_get fun _ _ hpq => on_ite (Parser.congr_sketch Parser.isSpeculating (fun _ => rfl) hpq)
    (h.of_pure rfl) (h.syncHook expecting)

end Uniform

/-! ## Recognizers -/

/-- Whether an operation matches none but certain types. -/
def Operation.Within {β : Type} (types : TokenType → Prop) : Operation β → Prop
  | .expect ty _ => types ty
  | _ => True

/-- **An ordinary recognizer that keeps to certain types and rules**, and gives up only if `steps` allows for it. -/
def Recognizer.Within {α : Type} (types : TokenType → Prop) (rules : RuleIndex → Prop) (steps : Prop) :
    Recognizer α → Prop
  | .pure _ => True
  | .outOfSteps => steps
  | .step op next => op.Within types ∧ ∀ b, (next b).Within types rules steps
  | .direct _ _ => False
  | .rule r body next =>
    rules r ∧ (body ()).Within types rules steps ∧ ∀ u, (next u).Within types rules steps
  | .invoke _ body next =>
    (body ()).Within types rules steps ∧ ∀ b, (next b).Within types rules steps
  | .speculate body next =>
    (body ()).Within types rules steps ∧ ∀ b, (next b).Within types rules steps
  | .attempt body next =>
    (body ()).Within types rules steps ∧ ∀ b, (next b).Within types rules steps

/-- A recognizer that keeps to some rules keeps to more rules. -/
theorem Recognizer.Within.mono {types : TokenType → Prop} {rules rules' : RuleIndex → Prop} {steps : Prop}
    {r : Recognizer α} (hr : r.Within types rules steps) (himp : ∀ r, rules r → rules' r) :
    r.Within types rules' steps := by
  induction r with
  | pure a => trivial
  | outOfSteps => exact hr
  | step op next ih => exact ⟨hr.1, fun b => ih b (hr.2 b)⟩
  | direct d next ih => exact hr.elim
  | rule r body next ihbody ihnext =>
      exact ⟨himp r hr.1, ihbody () hr.2.1, fun u => ihnext u (hr.2.2 u)⟩
  | invoke follow body next ihbody ihnext => exact ⟨ihbody () hr.1, fun b => ihnext b (hr.2 b)⟩
  | speculate body next ihbody ihnext => exact ⟨ihbody () hr.1, fun b => ihnext b (hr.2 b)⟩
  | attempt body next ihbody ihnext => exact ⟨ihbody () hr.1, fun b => ihnext b (hr.2 b)⟩

/-- Every ordinary recognizer keeps to the types and rules that there are. -/
theorem Recognizer.Ordinary.within {r : Recognizer α} (hr : r.Ordinary) :
    r.Within (fun _ => True) (fun _ => True) True := by
  induction r with
  | pure a => trivial
  | outOfSteps => trivial
  | step op next ih => exact ⟨by cases op <;> trivial, fun b => ih b (hr b)⟩
  | direct d next ih => exact hr.elim
  | rule r body next ihbody ihnext =>
      exact ⟨trivial, ihbody () hr.1, fun u => ihnext u (hr.2 u)⟩
  | invoke follow body next ihbody ihnext => exact ⟨ihbody () hr.1, fun b => ihnext b (hr.2 b)⟩
  | speculate body next ihbody ihnext => exact ⟨ihbody () hr.1, fun b => ihnext b (hr.2 b)⟩
  | attempt body next ihbody ihnext => exact ⟨ihbody () hr.1, fun b => ihnext b (hr.2 b)⟩

namespace Uniform

variable {d : Detail} {types : TokenType → Prop} {rules : RuleIndex → Prop} {steps : Prop}
  {R : {α : Type} → (α → α) → ParserM σ α → ParserM σ' α → Prop} (h : Uniform d types rules steps R)

include h

/-- An operation. -/
theorem operation {op : Operation β} (hop : op.Within types) : R (op.sketch d) op.run op.run := by
  cases op with
  | ahead k => exact h.ahead k
  | expect ty follow => exact h.expect hop follow
  | consume => exact h.consume
  | sync expecting => exact h.sync expecting
  | require holds text => exact h.require holds text
  | noViableAlt depth => exact h.raiseNoViableAlt depth
  | mismatch expected => exact h.raiseMismatch expected

/-- **An ordinary recognizer that keeps to the types and rules** and goes by nothing but sketches. -/
theorem recognizer {r : Recognizer α} (hr : r.Within types rules steps) (hheeds : r.Heeds d) :
    R id r.run r.run := by
  -- the same goes on after the same has been answered
  have hsame : ∀ {β γ : Type} {next : β → Recognizer γ} (b b' : β), id b = id b' →
      (∀ b, R id (next b).run (next b).run) → R id (next b).run (next b').run := by
    rintro β γ next b _ rfl hnext
    exact hnext b
  induction r with
  | pure a => exact h.of_pure rfl
  | outOfSteps => exact h.outOfSteps hr
  | step op next ih =>
      refine h.of_bind (h.operation hr.1) fun b b' hb => ?_
      rw [hheeds.1 b b' hb]
      exact ih b' (hr.2 b') (hheeds.2 b')
  | direct d next ih => exact hr.elim
  | rule r body next ihbody ihnext =>
      refine h.of_seq (h.rule hr.1 (fun _ _ => h.handleRecognition) (ihbody () hr.2.1 hheeds.1)) ?_
      exact ihnext () (hr.2.2 ()) (hheeds.2 ())
  | invoke follow body next ihbody ihnext =>
      refine h.of_bind (h.invoke follow (ihbody () hr.1 hheeds.1)) fun b b' hb => ?_
      exact hsame b b' hb fun b => ihnext b (hr.2 b) (hheeds.2 b)
  | speculate body next ihbody ihnext =>
      refine h.of_bind (h.speculate (ihbody () hr.1 hheeds.1)) fun b b' hb => ?_
      exact hsame b b' hb fun b => ihnext b (hr.2 b) (hheeds.2 b)
  | attempt body next ihbody ihnext =>
      refine h.of_bind (h.attempt (ihbody () hr.1 hheeds.1)) fun b b' hb => ?_
      rw [hheeds.2.1 b b' hb]
      exact ihnext b' (hr.2 b') (hheeds.2.2 b')

end Uniform

end TreeProjection
