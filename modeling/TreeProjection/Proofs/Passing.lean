import TreeProjection.Proofs.Growing

/-! # The states that a parse passes through

A run tells the state that it ends in, and not those before.  These are listed here, operation by operation, each time
that something may have become of the tree or of the active rules.  That none has been left out shows in how each comes
from the one before: at most one thing has become of the tree.  So what has been said of a growing tree holds all the
way, also in the midst of recovery, on trial, and where the run is given up.

* `Recognizer.states` — the states that a run passes through.
* `Recognizer.Ordinary.passes` — an ordinary recognizer passes through them, one change at a time.
* `Recognizer.OrdinaryRule.stays_tree` — the parse tree is a tree in all of them. -/

namespace TreeProjection

open TreeProjection.Parser
open ParseTree (Change Growing)

variable {σ α β : Type}

namespace Parser

variable {p q r : Parser σ} {ms : List (Parser σ)}

/-! ## Putting passages together -/

section

variable {act : ParserM σ α} {next : α → ParserM σ β}

/-- The state in which an action ends. -/
theorem ends_after (act : ParserM σ α) (p : Parser σ) : Ends act p fun _ q => after act p = q := by
  unfold Ends after
  cases act p <;> rfl

/-- The passage of an action. -/
theorem Passes.passage (h : Passes act p ms) : Passage p ms (after act p) := by
  unfold Passes Ends at h
  unfold after
  cases hact : act p with
  | ok a q =>
      rw [hact] at h
      exact h.1
  | error i q =>
      rw [hact] at h
      exact h.1

/-- **One action after the other.** -/
theorem Passes.bind {f : α → Parser σ → List (Parser σ)} (h : Passes act p ms)
    (hnext : ∀ a q, p.Balanced q → Passes (next a) q (f a q)) : Passes (act >>= next) p (ms ++ onward act p f) := by
  refine (Ends.and h (Ends.self act p)).bind ?_ ?_
  · rintro a q ⟨⟨hpassage, hbalanced⟩, hact⟩
    have honward : onward act p f = f a q := by rw [onward, hact]
    rw [honward]
    exact (hnext a q hbalanced).mono fun _ r hr => ⟨hpassage.append hr.1, hbalanced.trans hr.2⟩
  · rintro i q ⟨hq, hact⟩
    have honward : onward act p f = [] := by rw [onward, hact]
    rw [honward, List.append_nil]
    exact hq

/-- An action by which at most one thing becomes of the tree. -/
theorem Alters.passes (h : Alters act p) : Passes act p [after act p] := by
  refine (Ends.and h (ends_after act p)).mono ?_
  rintro _ q ⟨⟨hchange, hbalanced⟩, rfl⟩
  exact ⟨.cons hchange (.nil rfl rfl), hbalanced⟩

/-- An action that leaves the tree alone passes through nothing. -/
theorem Still.passes (h : Still act) (p : Parser σ) : Passes act p [] :=
  (h p).mono fun _ _ hq => ⟨.nil hq.tree hq.balanced.frames, hq.balanced⟩

/-- The tree is left alone first. -/
theorem Still.passes_bind {f : α → Parser σ → List (Parser σ)} (h : Still act)
    (hnext : ∀ a q, p.Balanced q → Passes (next a) q (f a q)) : Passes (act >>= next) p (onward act p f) :=
  (h.passes p).bind hnext

/-- One thing becomes of the tree first. -/
theorem Alters.passes_bind {f : α → Parser σ → List (Parser σ)} (h : Alters act p)
    (hnext : ∀ a q, p.Balanced q → Passes (next a) q (f a q)) :
    Passes (act >>= next) p (after act p :: onward act p f) :=
  h.passes.bind hnext

/-- An action that leaves the tree alone. -/
theorem Still.alters (h : Still act) (p : Parser σ) : Alters act p :=
  (h p).mono fun _ _ hq => ⟨hq.tree ▸ hq.balanced.frames ▸ .same _ _, hq.balanced⟩

/-- The state is looked at. -/
theorem Alters.of_get {next : Parser σ → ParserM σ α} (h : Alters (next p) p) : Alters (get >>= next) p := h

/-- The tree is left alone afterwards. -/
theorem Passes.bind_still (h : Passes act p ms) (hnext : ∀ a, Still (next a)) : Passes (act >>= next) p ms :=
  Ends.bind h (fun a _ hq => (hnext a _).mono fun _ _ hr => ⟨hq.1.to_same hr.tree hr.balanced.frames,
    hq.2.trans hr.balanced⟩) fun _ _ hq => hq

/-- It may begin in a state that has been left untouched. -/
theorem Passes.after_untouched (h : Passes act q ms) (hq : p.Untouched q) :
    Ends act q fun _ r => Passage p ms r ∧ p.Balanced r :=
  h.mono fun _ _ hr => ⟨hr.1.from_same hq.tree hq.balanced.frames, hq.balanced.trans hr.2⟩

/-- Something else is changed. -/
theorem Passes.of_modify {g : Parser σ → Parser σ} {next : Unit → ParserM σ α} (hg : p.Untouched (g p))
    (h : Passes (next ()) (g p) ms) : Passes (modify g >>= next) p ms := by
  unfold Passes
  rw [ends_modify_bind]
  exact h.after_untouched hg

/-- The state is looked at. -/
theorem Passes.of_get {next : Parser σ → ParserM σ α} (h : Passes (next p) p ms) : Passes (get >>= next) p ms := h

/-- The tree is left alone first. -/
theorem Still.alters_bind (h : Still act) (hnext : ∀ a q, p.Balanced q → Alters (next a) q) :
    Alters (act >>= next) p := by
  refine (h p).bind (fun a q hq => (hnext a q hq.balanced).mono fun _ r hr => ⟨?_, hq.balanced.trans hr.2⟩) ?_
  · rw [← hq.tree, ← hq.balanced.frames]
    exact hr.1
  · exact fun _ _ hq => ⟨hq.tree ▸ hq.balanced.frames ▸ .same _ _, hq.balanced⟩

/-- The tree is left alone afterwards. -/
theorem Alters.bind_still (h : Alters act p) (hnext : ∀ a, Still (next a)) : Alters (act >>= next) p :=
  h.bind (fun a q hq => (hnext a q).mono fun _ _ hr => ⟨hr.tree.symm ▸ hr.balanced.frames.symm ▸ hq.1,
    hq.2.trans hr.balanced⟩) fun _ _ hq => hq

/-- A hook by which at most one thing becomes of the tree. -/
theorem Alters.hooked {h : Hook} {denied act : ParserM σ α} (hdenied : Still denied)
    (hact : ∀ q, p.Balanced q → Alters act q) : Alters (Parser.hooked h denied act) p := by
  have hnoting := untouched_noting h p
  have hchoice : Alters (if p.strategy.allows h then act else denied) (noting h p) := by
    split
    · exact hact _ hnoting.balanced
    · exact hdenied.alters _
  refine (ends_hooked h).mpr (hchoice.mono fun _ _ hq => ⟨?_, hnoting.balanced.trans hq.2⟩)
  rw [← hnoting.tree, ← hnoting.balanced.frames]
  exact hq.1

/-- The states that a hook passes through. -/
def hookStates (h : Hook) (f : Parser σ → List (Parser σ)) (p : Parser σ) : List (Parser σ) :=
  if p.strategy.allows h then f (noting h p) else []

/-- **The states of a hook.** -/
theorem Passes.hooked {h : Hook} {denied act : ParserM σ α} {f : Parser σ → List (Parser σ)} (hdenied : Still denied)
    (hact : ∀ q, p.Balanced q → Passes act q (f q)) : Passes (Parser.hooked h denied act) p (hookStates h f p) := by
  have hnoting := untouched_noting h p
  have hchoice : Passes (if p.strategy.allows h then act else denied) (noting h p) (hookStates h f p) := by
    unfold hookStates
    split
    · exact hact _ hnoting.balanced
    · exact hdenied.passes _
  exact (ends_hooked h).mpr (hchoice.after_untouched hnoting)

end

/-! ## The states of a run -/

variable [TokenSource σ]

/-- The states that consuming until a token of a set comes passes through. -/
def untilStates (set : TokenSet) : Nat → Parser σ → List (Parser σ)
  | 0, _ => []
  | fuel + 1, p => onward (ahead 1) p fun t q =>
    if t.isEof || set.contains t.ty then []
    else after consume q :: onward consume q fun _ r => untilStates set fuel r

/-- The states that passing over tokens passes through. -/
def skipStates (set : TokenSet) : Parser σ → List (Parser σ) :=
  let search (p : Parser σ) := untilStates set (p.remaining + 1) p
  hookStates .skipTo fun p =>
    if p.strategy.anchoring then
      onward (ahead 1) p fun t q =>
        if t.isEof then after (addErrorLeaf t) q :: onward (addErrorLeaf t) q fun _ r => search r else search q
    else search p

/-- A rule that has failed recovers here. -/
def resuming (rule : Option RuleIndex) (p : Parser σ) : Parser σ :=
  { p with
    recovery.lastErrorIndex := some p.index
    recovery.lastErrorRules := p.recovery.lastErrorRules ++ rule.toList }

/-- Whether the rule has recovered here before. -/
def isStalled (p : Parser σ) : Bool :=
  p.recovery.lastErrorIndex == some p.index && p.currentRule?.any p.recovery.lastErrorRules.contains

/-- The states that the recovery of a rule passes through. -/
def recoverStates : Parser σ → List (Parser σ) := hookStates .recover fun p =>
  let resume (q : Parser σ) := skipStates (resuming p.currentRule? q).recoverySet (resuming p.currentRule? q)
  if p.isStalled then after consume p :: onward consume p fun _ q => resume q else resume p

/-- The states that mending the lack of a token passes through. -/
def inlineStates (expected : TokenType) : Parser σ → List (Parser σ) := hookStates .recoverInline fun p =>
  after (singleTokenDeletion expected) p :: onward (singleTokenDeletion expected) p fun matched q =>
    match matched with
    | some _ => [after consume q]
    | none => []

/-- The states that guarding a loop passes through. -/
def syncStates (expecting : TokenSet) : Parser σ → List (Parser σ) := hookStates .sync fun p =>
  if p.recovery.inRecovery then []
  else onward (ahead 1) p fun t q =>
    if expecting.contains t.ty || expecting.endOfRule then []
    else onward (reportUnwanted expecting) q fun _ r => skipStates (expecting.union r.recoverySet) r

/-- The states that matching a token passes through.  A made-up token is added in the end. -/
def expectStates (ty : TokenType) (follow : TokenSet) (p : Parser σ) : List (Parser σ) :=
  onward (ahead 1) p fun t q =>
    if t.ty == ty then
      if q.isSpeculating then [after consume q] else onward reportMatch q fun _ r => [after consume r]
    else if q.isSpeculating then []
    else inlineStates ty q ++ onward (recoverInline ty follow) q fun t r =>
      if t.isConjured then [after (addErrorLeaf t) r] else []

/-- The states that leaving a rule passes through. -/
def exitStates (p : Parser σ) : List (Parser σ) := [{ p with frames := p.frames.tail }, after exitRule p]

/-- The states that a rule passes through after its body has failed. -/
def failStates (e : RecognitionException) (p : Parser σ) : List (Parser σ) :=
  after (announce e) p :: onward (announce e) p fun _ q => recoverStates q

/-- The states that a rule passes through after its body. -/
def closingStates (body : ParserM σ Unit) (p : Parser σ) : List (Parser σ) :=
  match body p with
  | .error (.recognition e) q =>
    if q.isSpeculating then exitStates q else failStates e q ++ exitStates (after (handleRecognition e) q)
  | .error (.abort _) q => exitStates q
  | .ok _ q => exitStates q

/-- The states that a rule passes through, the body of which passes through those of `f`. -/
def ruleStates (r : RuleIndex) (body : ParserM σ Unit) (f : Parser σ → List (Parser σ)) (p : Parser σ) :
    List (Parser σ) :=
  after (enterRule r) p :: onward (enterRule r) p fun _ q => f q ++ closingStates body q

end Parser

variable [TokenSource σ]

/-- The states that an operation passes through. -/
def Operation.states (op : Operation β) (p : Parser σ) : List (Parser σ) :=
  match op with
  | .expect ty follow => expectStates ty follow p
  | .consume => [after Parser.consume p]
  | .sync expecting => if p.isSpeculating then [] else syncStates expecting p
  | _ => []

/-- **The states that a run passes through**, one after the other. -/
def Recognizer.states {α : Type} : Recognizer α → Parser σ → List (Parser σ)
  | .pure _, _ => []
  | .outOfSteps, _ => []
  | .step op next, p => op.states p ++ onward op.run p fun b q => (next b).states q
  | .direct d next, p => after d.run p :: onward d.run p fun b q => (next b).states q
  | .rule r body next, p =>
    ruleStates r (body ()).run (fun q => (body ()).states q) p ++
    onward (Parser.rule r (body ()).run) p fun u q => (next u).states q
  | .invoke follow body next, p =>
    (body ()).states { p with follow := follow :: p.follow } ++
    onward (Parser.invoke follow (body ()).run) p fun b q => (next b).states q
  | .speculate body next, p =>
    (onward (Parser.ahead 1) p fun _ q => (body ()).states { q with speculating := q.speculating + 1 }) ++
    onward (Parser.speculate (body ()).run) p fun b q => (next b).states q
  | .attempt body next, p =>
    (body ()).states p ++ onward (Parser.attempt (body ()).run) p fun b q => (next b).states q

namespace Parser

variable {p q r : Parser σ} {ms : List (Parser σ)}

/-! ## Operations -/

omit [TokenSource σ] in
/-- **A leaf is added**, below the current rule. -/
theorem alters_addLeaf {n : Nat} (hn : p.currentNode? = some n) {leaf : ParseNode} (hleaf : leaf.isRule = false) :
    Alters (addLeaf leaf) p := by
  refine ⟨?_, rfl, rfl, rfl⟩
  change Change p.tree p.frames (p.tree.push p.currentNode? leaf).2 p.frames
  rw [hn]
  exact .leaf p.tree hn hleaf

omit [TokenSource σ] in
/-- An error leaf is added. -/
theorem alters_addErrorLeaf (hp : p.Placed) (t : Token) : Alters (addErrorLeaf t) p := by
  unfold addErrorLeaf
  refine .of_get ?_
  cases htrial : p.isSpeculating with
  | true => exact (still_pure ()).alters p
  | false =>
      obtain ⟨n, hn⟩ := hp htrial
      exact alters_addLeaf hn rfl

/-- **Consuming a token** adds one leaf, or none on trial. -/
theorem alters_consume (hp : p.Placed) : Alters consume p := by
  refine (still_ahead 1).alters_bind fun t q hq => (still_onInput _).alters_bind fun _ r hr => ?_
  refine .of_get ?_
  cases htrial : r.isSpeculating with
  | true => exact (still_pure t).alters r
  | false =>
      obtain ⟨n, hn⟩ := (hp.of_balanced (hq.trans hr)) htrial
      refine (alters_addLeaf hn ?_).bind_still fun _ => still_pure t
      cases r.recovery.inRecovery <;> rfl

/-- Consuming until a token of a set comes. -/
theorem passes_consumeUntil (hp : p.Placed) (set : TokenSet) (fuel : Nat) :
    Passes (consumeUntil set fuel) p (untilStates set fuel p) := by
  induction fuel generalizing p with
  | zero => exact (still_throw _).passes p
  | succ fuel ih =>
      refine (still_ahead 1).passes_bind fun t q hq => ?_
      have hplaced := hp.of_balanced hq
      split
      · exact (still_pure ()).passes q
      · exact (alters_consume hplaced).passes_bind fun _ r hr => ih (hplaced.of_balanced hr)

/-- **Passing over tokens.** -/
theorem passes_skipTo (hp : p.Placed) (set : TokenSet) : Passes (skipTo set) p (skipStates set p) := by
  have hsearch : ∀ q : Parser σ, q.Placed →
      Passes (do consumeUntil set ((← get).remaining + 1)) q (untilStates set (q.remaining + 1) q) :=
    fun q hq => .of_get (passes_consumeUntil hq set _)
  unfold skipTo skipStates
  refine Passes.hooked (still_pure ()) fun q hq => .of_get ?_
  have hplaced := hp.of_balanced hq
  cases q.strategy.anchoring with
  | false => exact hsearch q hplaced
  | true =>
      refine (still_ahead 1).passes_bind fun t r hr => ?_
      have hplaced := hplaced.of_balanced hr
      cases t.isEof with
      | false => exact hsearch r hplaced
      | true => exact (alters_addErrorLeaf hplaced t).passes_bind fun _ s hs => hsearch s (hplaced.of_balanced hs)

/-- **The recovery of a rule.** -/
theorem passes_recover (hp : p.Placed) (e : RecognitionException) : Passes (recover e) p (recoverStates p) := by
  have hresume : ∀ (rule : Option RuleIndex) (q : Parser σ), q.Placed → Passes (do
      modify fun p => { p with
        recovery.lastErrorIndex := some p.index
        recovery.lastErrorRules := p.recovery.lastErrorRules ++ rule.toList }
      skipTo (← get).recoverySet) q (skipStates (resuming rule q).recoverySet (resuming rule q)) := fun rule q hq =>
    .of_modify ⟨rfl, rfl, rfl, rfl⟩ (.of_get (passes_skipTo (p := resuming rule q) hq _))
  unfold recover recoverStates
  refine Passes.hooked (still_pure ()) fun q hq => .of_get ?_
  have hplaced := hp.of_balanced hq
  change Passes (if q.isStalled then _ else _) q _
  cases hstalled : q.isStalled with
  | false => exact hresume _ q hplaced
  | true => exact (alters_consume hplaced).passes_bind fun _ r hr => hresume _ r (hplaced.of_balanced hr)

/-- **Dropping a token** adds one leaf at most. -/
theorem alters_singleTokenDeletion (hp : p.Placed) (expected : TokenType) :
    Alters (singleTokenDeletion expected) p := by
  refine Alters.hooked (still_pure none) fun q hq => (still_ahead 2).alters_bind fun t r hr => ?_
  have hplaced := hp.of_balanced (hq.trans hr)
  split
  · exact (still_pure none).alters r
  · refine (still_orBroken _).alters_bind fun set s hs => (still_reportUnwanted set).alters_bind fun _ u hu => ?_
    refine (alters_consume (hplaced.of_balanced (hs.trans hu))).bind_still fun _ => ?_
    exact (still_ahead 1).bind fun _ => still_reportMatch.bind fun _ => still_pure _

/-- **Mending the lack of a token.** -/
theorem passes_recoverInline (hp : p.Placed) (expected : TokenType) (follow : TokenSet) :
    Passes (recoverInline expected follow) p (inlineStates expected p) := by
  have hmismatch : Still (do raiseMismatch (← orBroken (TokenSet.single? expected)) : ParserM σ Token) :=
    (still_orBroken _).bind still_raiseMismatch
  refine Passes.hooked hmismatch fun q hq => ?_
  have hplaced := hp.of_balanced hq
  refine (alters_singleTokenDeletion hplaced expected).passes_bind fun matched r hr => ?_
  cases matched with
  | none =>
      -- a token is made up, but it is left to others to add it
      refine ((still_singleTokenInsertion expected follow).bind fun inserted => ?_).passes r
      cases inserted with
      | false => exact hmismatch
      | true => exact still_missingSymbol expected
  | some matched => exact (alters_consume (hplaced.of_balanced hr)).passes.bind_still fun _ => still_pure matched

/-- **Guarding a loop.** -/
theorem passes_syncHook (hp : p.Placed) (expecting : TokenSet) :
    Passes (syncHook expecting) p (syncStates expecting p) := by
  refine Passes.hooked (still_pure ()) fun q hq => .of_get ?_
  have hplaced := hp.of_balanced hq
  cases q.recovery.inRecovery with
  | true => exact (still_pure ()).passes q
  | false =>
      refine (still_ahead 1).passes_bind fun t r hr => ?_
      split
      · exact (still_pure ()).passes r
      · refine (still_reportUnwanted expecting).passes_bind fun _ s hs => .of_get ?_
        exact passes_skipTo (hplaced.of_balanced (hr.trans hs)) _

/-- **Matching a token.** -/
theorem passes_expect (hp : p.Placed) (ty : TokenType) (follow : TokenSet) :
    Passes (expect ty follow) p (expectStates ty follow p) := by
  refine (still_ahead 1).passes_bind fun t q hq => ?_
  have hplaced := hp.of_balanced hq
  cases t.ty == ty with
  | true =>
      refine .of_get ?_
      cases q.isSpeculating with
      | true => exact (alters_consume hplaced).passes
      | false => exact still_reportMatch.passes_bind fun _ r hr => (alters_consume (hplaced.of_balanced hr)).passes
  | false =>
      refine .of_get ?_
      cases q.isSpeculating with
      | true => exact ((still_orBroken _).bind still_raiseMismatch).passes q
      | false =>
          refine (passes_recoverInline hplaced ty follow).bind fun made r hr => ?_
          cases made.isConjured with
          | true => exact (alters_addErrorLeaf (hplaced.of_balanced hr) made).passes.bind_still fun _ => still_pure made
          | false => exact (still_pure made).passes r

/-- **Whether a rule can be entered**: below the current one, or as the outermost one. -/
def Enterable (p : Parser σ) : Prop := p.Placed ∨ p.tree = {} ∧ p.frames = []

omit [TokenSource σ] in
/-- The node of a rule that is entered. -/
theorem Enterable.change (hp : p.Enterable) (htrial : p.isSpeculating = false) {node : RuleNode}
    (hchildless : node.children = #[]) :
    Change p.tree p.frames (p.tree.push p.currentNode? (.rule node)).2
      (⟨node.rule, some (p.tree.push p.currentNode? (.rule node)).1⟩ :: p.frames) := by
  rcases hp with hp | ⟨htree, hframes⟩
  · obtain ⟨n, hn⟩ := hp htrial
    rw [ParseTree.push_fst, hn]
    exact .entered p.tree hn hchildless
  · rw [currentNode?, htree, hframes]
    exact .opened hchildless

/-- **Entering a rule.**  It is active then, or the run has been given up. -/
theorem ends_enterRule_change (hp : p.Enterable) (r : RuleIndex) :
    Ends (enterRule r) p fun o q => Change p.tree p.frames q.tree q.frames ∧ match o with
      | .ok _ => p.Inside q ∧ q.Placed
      | .error _ => p.Balanced q := by
  have hsame : ∀ q : Parser σ, p.Untouched q → Change p.tree p.frames q.tree q.frames ∧ p.Balanced q := fun q hq =>
    ⟨hq.tree ▸ hq.balanced.frames ▸ .same _ _, hq.balanced⟩
  refine (enterRule_activates r p).mono fun o q hends => ?_
  cases hends with
  | calledOff | tooDeep => exact hsame p (.refl p)
  | unmarked _ trying =>
      exact ⟨.tried _ _ r, ⟨⟨_, rfl⟩, rfl, rfl⟩, fun hacting => absurd (hacting.symm.trans trying) Bool.false_ne_true⟩
  | unread _ _ ahead => exact hsame q ((still_ahead 1 p).of_error ahead)
  | @marked start s _ acting ahead =>
      have hs : p.Untouched s := (still_ahead 1 p).of_ok ahead
      refine ⟨?_, ⟨⟨_, congrArg _ hs.balanced.frames⟩, hs.balanced.follow, hs.balanced.speculating⟩, fun _ => ⟨_, rfl⟩⟩
      have hcurrent : s.currentNode? = p.currentNode? := by rw [currentNode?, hs.balanced.frames, currentNode?]
      change Change p.tree p.frames (s.tree.push s.currentNode? (.rule { rule := r, start := start.index })).2
        (⟨r, some (s.tree.push s.currentNode? (.rule { rule := r, start := start.index })).1⟩ :: s.frames)
      rw [hs.tree, hs.balanced.frames, hcurrent]
      exact hp.change acting rfl

/-- **Leaving a rule.** -/
theorem ends_exitRule_passes (h : p.Inside q) :
    Ends exitRule q fun _ r => Passage q (exitStates q) r ∧ p.Balanced r := by
  obtain ⟨⟨frame, hframes⟩, hfollow, hspeculating⟩ := h
  have hlast : Ends exitRule q fun _ r => Change q.tree p.frames r.tree r.frames ∧ p.Balanced r := by
    refine (exitRule_retires q).mono fun o r hends => ?_
    obtain ⟨-, rfl⟩ := hends.of_active hframes
    cases frame.node with
    | none => exact ⟨.same _ _, rfl, hfollow, hspeculating⟩
    | some node => exact ⟨.noted _ _ node fun _ => rfl, rfl, hfollow, hspeculating⟩
  refine (Ends.and hlast (ends_after exitRule q)).mono ?_
  rintro _ r ⟨⟨hchange, hbalanced⟩, rfl⟩
  refine ⟨?_, hbalanced⟩
  rw [exitStates, hframes]
  refine .cons ?_ (.cons hchange (.nil rfl rfl))
  rw [hframes]
  exact .left _ frame _

/-- Leaving a rule and handing on how its body has ended. -/
theorem ends_leave_passes {s : Parser σ} (hinside : p.Inside q) (o : Except Interrupt Unit) (hpassage : Passage q ms s)
    (hbalanced : q.Balanced s) : Ends (do let exited ← observe exitRule; release o; release exited) s fun _ r =>
      Passage q (ms ++ exitStates s) r ∧ p.Balanced r := by
  refine ends_observe_bind (ends_exitRule_passes (hinside.balanced hbalanced)) fun exited r hr => ?_
  have hend : Passage q (ms ++ exitStates s) r := hpassage.append hr.1
  cases o with
  | ok _ => exact (ends_release exited).mpr ⟨hend, hr.2⟩
  | error _ => exact ⟨hend, hr.2⟩

/-- **Going on after the failure of a rule's body.** -/
theorem passes_handleRecognition (hp : p.Placed) (e : RecognitionException) :
    Passes (handleRecognition e) p (failStates e p) := by
  rw [handleRecognition_eq]
  have hannounce : Alters (announce e) p := by
    unfold announce Alters
    rw [ends_modify_bind]
    cases p.currentNode? with
    | none => exact (still_reportError e).alters p
    | some n =>
        refine ((still_reportError e) _).mono fun _ q hq => ?_
        obtain ⟨htree, hframes, hfollow, hspeculating⟩ := hq
        refine ⟨?_, hframes, hfollow, hspeculating⟩
        rw [htree, hframes]
        exact .noted _ _ n fun _ => rfl
  exact hannounce.passes_bind fun _ q hq => passes_recover (hp.of_balanced hq) e

/-- **A rule.** -/
theorem passes_rule (hp : p.Enterable) (r : RuleIndex) {body : ParserM σ Unit} {f : Parser σ → List (Parser σ)}
    (hbody : ∀ q, q.Placed → Passes body q (f q)) : Passes (rule r body) p (ruleStates r body f p) := by
  refine ((ends_enterRule_change hp r).and (Ends.self (enterRule r) p)).bind ?_ ?_
  · rintro _ q ⟨⟨hchange, hinside, hplaced⟩, henter⟩
    have hstates : ruleStates r body f p = q :: (f q ++ closingStates body q) := by
      simp only [ruleStates, after, onward, henter]
    rw [hstates]
    -- the rule has been entered; whatever its body does, it is left in the end
    suffices hbodyEnd : Ends _ q fun _ s => Passage q (f q ++ closingStates body q) s ∧ p.Balanced s from
      hbodyEnd.mono fun _ _ hs => ⟨.cons hchange hs.1, hs.2⟩
    refine ends_observe_bind ((hbody q hplaced).and (Ends.self body q)) ?_
    rintro o s ⟨⟨hpassage, hbalanced⟩, hrun⟩
    match o with
    | .ok u =>
        rw [closingStates, hrun]
        exact ends_leave_passes hinside _ hpassage hbalanced
    | .error (.abort a) =>
        rw [closingStates, hrun]
        exact ends_leave_passes hinside _ hpassage hbalanced
    | .error (.recognition e) =>
        rw [closingStates, hrun]
        simp only
        rw [ends_get_bind]
        by_cases htrial : s.isSpeculating = true
        · rw [if_pos htrial, if_pos htrial]
          exact ends_leave_passes hinside _ hpassage hbalanced
        · rw [if_neg htrial, if_neg htrial, ← List.append_assoc]
          have hplaced := hplaced.of_balanced hbalanced
          refine ends_observe_bind ((passes_handleRecognition hplaced e).and (ends_after _ s)) ?_
          rintro o s' ⟨⟨hfailed, hbalanced'⟩, rfl⟩
          exact ends_leave_passes hinside o (hpassage.append hfailed) (hbalanced.trans hbalanced')
  · -- the run has been given up, and nothing has been entered
    rintro i q ⟨⟨hchange, hbalanced⟩, henter⟩
    have hstates : ruleStates r body f p = [q] := by simp only [ruleStates, after, onward, henter]
    exact ⟨hstates ▸ .cons hchange (.nil rfl rfl), hbalanced⟩

omit [TokenSource σ] in
/-- **Invoking a body.** -/
theorem passes_invoke {follow : TokenSet} {body : ParserM σ α}
    (h : Passes body { p with follow := follow :: p.follow } ms) : Passes (invoke follow body) p ms := by
  unfold invoke Passes
  rw [ends_modify_bind]
  refine ends_observe_bind h ?_
  rintro o q ⟨hpassage, hbalanced⟩
  rw [ends_modify_bind, ends_release]
  have hfollow : q.follow.tail = p.follow := congrArg List.tail hbalanced.follow
  have hfrom : Passage p ms q := hpassage.from_same rfl rfl
  exact ⟨hfrom.to_same rfl rfl, hbalanced.frames, hfollow, hbalanced.speculating⟩

/-- **Trying a body.**  It leaves the tree alone, and so does what comes after it. -/
theorem passes_speculate {body : ParserM σ Unit} {f : Parser σ → List (Parser σ)}
    (hbody : ∀ q : Parser σ, q.isSpeculating = true → Passes body q (f q)) :
    Passes (speculate body) p (onward (ahead 1) p fun _ q => f { q with speculating := q.speculating + 1 }) := by
  refine (still_ahead 1).passes_bind fun _ q _ => .of_get ?_
  unfold Passes
  rw [ends_modify_bind]
  -- there is a trial under way now, so that the body need not be in a rule
  refine ends_observe_bind (hbody _ (by simp [isSpeculating])) ?_
  rintro o s ⟨hpassage, hframes, hfollow, hspeculating⟩
  rw [ends_modify_bind]
  refine ((still_onInput _).bind fun _ => ?_ : Still _) _ |>.mono fun _ s' hs' => ?_
  · rcases o with (e | a) | b
    · exact still_pure _
    · exact still_throw _
    · exact still_pure _
  · obtain ⟨htree', hframes', hfollow', hspeculating'⟩ := hs'
    -- the body has left nothing active, so that nothing is taken off
    have hkept : s'.frames = q.frames := by
      rw [hframes', hframes]
      exact lastOf_length q.frames
    have hfrom : Passage q (f { q with speculating := q.speculating + 1 }) s := hpassage.from_same rfl rfl
    refine ⟨hfrom.to_same htree' (hkept.trans hframes.symm), hkept, ?_, ?_⟩
    · rw [hfollow', hfollow]
      exact lastOf_length q.follow
    · rw [hspeculating', hspeculating]
      rfl

omit [TokenSource σ] in
/-- **Running a body for its exception.** -/
theorem passes_attempt {body : ParserM σ α} (h : Passes body p ms) : Passes (attempt body) p ms := by
  unfold attempt Passes
  refine ends_observe_bind h fun o q hq => ?_
  rcases o with (e | a) | b
  · exact hq
  · exact hq
  · exact hq

end Parser

/-- **An operation.** -/
theorem Operation.passes {p : Parser σ} (op : Operation β) (hp : p.Placed) : Passes op.run p (op.states p) := by
  cases op with
  | ahead k => exact (still_ahead k).passes p
  | expect ty follow => exact passes_expect hp ty follow
  | consume => exact (alters_consume hp).passes
  | sync expecting =>
      refine .of_get ?_
      rw [Operation.states]
      cases p.isSpeculating with
      | true => exact (still_pure ()).passes p
      | false => exact passes_syncHook hp expecting
  | require holds text => exact (still_require holds text).passes p
  | noViableAlt depth => exact (still_raiseNoViableAlt depth).passes p
  | mismatch expected => exact (still_raiseMismatch expected).passes p

/-- **An ordinary recognizer** passes through its states, one change at a time. -/
theorem Recognizer.Ordinary.passes {r : Recognizer α} (h : r.Ordinary) {p : Parser σ} (hp : p.Placed) :
    Passes r.run p (r.states p) := by
  induction r generalizing p with
  | pure a => exact (still_pure a).passes p
  | outOfSteps => exact (still_throw _).passes p
  | step op next ih => exact (op.passes hp).bind fun b q hq => ih b (h b) (hp.of_balanced hq)
  | direct d next ih => exact h.elim
  | rule r body next ihbody ihnext =>
      exact (passes_rule (.inl hp) r fun q hq => ihbody () h.1 hq).bind fun u q hq =>
        ihnext u (h.2 u) (hp.of_balanced hq)
  | invoke follow body next ihbody ihnext =>
      exact (passes_invoke (ihbody () h.1 hp)).bind fun b q hq => ihnext b (h.2 b) (hp.of_balanced hq)
  | speculate body next ihbody ihnext =>
      refine (passes_speculate fun q hq => ihbody () h.1 ?_).bind fun b q hq => ihnext b (h.2 b) (hp.of_balanced hq)
      exact fun hacting => absurd (hacting.symm.trans hq) Bool.false_ne_true
  | attempt body next ihbody ihnext =>
      exact (passes_attempt (ihbody () h.1 hp)).bind fun b q hq => ihnext b (h.2 b) (hp.of_balanced hq)

/-- **The parse tree stays a tree.**  In every state that a parse passes through, the tree is one, and each open rule is
the parent of the next one.  From each of these states to the next at most one thing becomes of the tree. -/
theorem Recognizer.OrdinaryRule.stays_tree {e : Recognizer Unit} (h : e.OrdinaryRule) (p : Parser σ)
    (htree : p.tree = {}) (hframes : p.frames = []) :
    Passage p (e.states p) (after e.run p) ∧ ∀ q ∈ p :: (e.states p ++ [after e.run p]),
      q.tree.IsTree ∧ (openNodes q.frames).IsChain q.tree.Lists := by
  obtain ⟨r, body, rfl, hbody⟩ := h
  have hpasses : Passes (Recognizer.rule r body .pure).run p ((Recognizer.rule r body .pure).states p) :=
    (passes_rule (.inr ⟨htree, hframes⟩) r fun q hq => hbody.passes hq).bind fun u q _ => (still_pure u).passes q
  have hgrowing : p.tree.Growing p.frames := by
    rw [htree, hframes]
    exact .empty rfl
  obtain ⟨hstates, hend⟩ := hpasses.passage.growing hgrowing
  have hall : ∀ q ∈ p :: (_ ++ [after _ p]), q.tree.Growing q.frames :=
    List.forall_mem_cons.mpr ⟨hgrowing, List.forall_mem_append.mpr ⟨hstates, List.forall_mem_singleton.mpr hend⟩⟩
  exact ⟨hpasses.passage, fun q hq => ⟨(hall q hq).isTree, (hall q hq).isChain⟩⟩

namespace Ventured

/-- A rule that matches a token of type `1`. -/
def item : Recognizer Unit := .asRule ⟨1⟩ fun _ => .expect ⟨1⟩ ∅

/-- A rule that tries the one above, and then has two of it. -/
def recognizer : Recognizer Unit :=
  .asRule ⟨0⟩ fun _ => (Recognizer.trial fun _ => item).bind fun _ => item.bind fun _ => item

/-- An `x`, which is matched, and a `y`, which is not. -/
def start : Parser ListedTokens where
  input := .ofSource
    { rest := [{ ty := ⟨1⟩, text := "x" }, { ty := ⟨2⟩, text := "y" }]
      last := .endOfInput 2 }
  language := default

/-- It is a rule made of ordinary operations. -/
theorem ordinaryRule_recognizer : recognizer.OrdinaryRule := by
  have hitem : item.Ordinary := Recognizer.ordinary_asRule (Recognizer.ordinary_expect _ _)
  apply Recognizer.ordinaryRule_asRule
  exact (Recognizer.ordinary_trial hitem).bind fun _ => hitem.bind fun _ => hitem

/-- The rule that is tried has no node.  The one that fails passes over the `y`, which is a child of it. -/
theorem stays_tree_recognizer :
    (recognizer.states start).map (fun q => (q.tree.size, q.frames.map Frame.node)) =
      [(1, [some 0]), (1, [none, some 0]), (1, [none, some 0]), (1, [some 0]), (1, [some 0]), (2, [some 1, some 0]),
        (3, [some 1, some 0]), (3, [some 0]), (3, [some 0]), (4, [some 3, some 0]), (4, [some 3, some 0]),
        (4, [some 3, some 0]), (5, [some 3, some 0]), (5, [some 0]), (5, [some 0]), (5, []), (5, [])] ∧
    ∀ q ∈ start :: (recognizer.states start ++ [after recognizer.run start]),
      q.tree.IsTree ∧ (openNodes q.frames).IsChain q.tree.Lists :=
  ⟨by decide +kernel, (ordinaryRule_recognizer.stays_tree start rfl rfl).2⟩

end Ventured

end TreeProjection
