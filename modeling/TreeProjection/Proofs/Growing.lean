import Mathlib.Data.List.Chain
import TreeProjection.Proofs.Balance
import TreeProjection.Proofs.Branching
import TreeProjection.Proofs.Moments

/-! # How a parse tree grows

From one state of a parse to the next, at most one thing becomes of the tree and the active rules: a leaf is added below
the current rule, a rule is entered or left, or a rule is noted something on.  None of these can make the tree anything
but a tree.  On trial rules are entered without a node, so that the rules with a node are still the open ones, and the
current rule has a node whenever something is added.

* `ParseTree.Change` — from one state to the next; `Parser.Passage` — from one to another by way of some.
* `ParseTree.Growing`, `ParseTree.Change.growing` — the tree is a tree, with the open rules last, and stays one.
* `Parser.Still`, `Parser.Alters`, `Parser.Passes` — actions by which nothing, at most one thing, or one thing after the
  other becomes of the tree. -/

namespace TreeProjection

open TreeProjection.Parser

variable {σ α β : Type}

/-! ## From one state to the next -/

/-- The nodes of the open rules, the outermost first.  A rule that has been entered on trial has none. -/
def openNodes (frames : List Frame) : List Nat := (frames.filterMap Frame.node).reverse

/-- The open rules, once one more rule is active. -/
theorem openNodes_cons (frame : Frame) (frames : List Frame) :
    openNodes (frame :: frames) = openNodes frames ++ frame.node.toList := by
  rw [openNodes, openNodes]
  cases hnode : frame.node <;> simp [hnode]

namespace ParseTree

variable {t u : ParseTree} {frames frames' : List Frame} {n : Nat}

/-- **What may become of the tree and the active rules** from one state to the next: at most one thing. -/
inductive Change : ParseTree → List Frame → ParseTree → List Frame → Prop where
  /-- Nothing. -/
  | same (t : ParseTree) (frames : List Frame) : Change t frames t frames
  /-- A leaf is added below the current rule. -/
  | leaf (t : ParseTree) {frames : List Frame} {n : Nat} {node : ParseNode}
    (current : frames.head?.bind Frame.node = some n) (isLeaf : node.isRule = false) :
    Change t frames (t.push (some n) node).2 frames
  /-- The outermost rule is entered. -/
  | opened {r : RuleNode} (childless : r.children = #[]) :
    Change {} [] (({} : ParseTree).push none (.rule r)).2 [⟨r.rule, some 0⟩]
  /-- A rule is entered below the current one. -/
  | entered (t : ParseTree) {frames : List Frame} {n : Nat} {r : RuleNode}
    (current : frames.head?.bind Frame.node = some n) (childless : r.children = #[]) :
    Change t frames (t.push (some n) (.rule r)).2 (⟨r.rule, some t.size⟩ :: frames)
  /-- A rule is entered on trial. -/
  | tried (t : ParseTree) (frames : List Frame) (r : RuleIndex) : Change t frames t (⟨r, none⟩ :: frames)
  /-- The innermost rule is left. -/
  | left (t : ParseTree) (frame : Frame) (frames : List Frame) : Change t (frame :: frames) t frames
  /-- Something is noted on a rule. -/
  | noted (t : ParseTree) (frames : List Frame) (n : Nat) {f : RuleNode → RuleNode}
    (children : ∀ r, (f r).children = r.children) : Change t frames (t.modifyRule n f) frames

/-- **The tree is a tree**, and the open rules are the last nodes of their levels. -/
inductive Growing : ParseTree → List Frame → Prop where
  /-- There is no tree yet. -/
  | empty {frames : List Frame} (outside : openNodes frames = []) : Growing {} frames
  /-- There is a tree; the rules below the open ones, if there are any, have been left. -/
  | grown {t : ParseTree} {frames : List Frame} {ns : List Nat} (root : t.root = some 0) (spine : t.Spine 0 ns)
    (isPrefix : openNodes frames <+: ns) : Growing t frames

namespace Growing

/-- If there is a current rule, it is the innermost of the open ones, and they are the last nodes of their levels. -/
theorem spine (h : t.Growing frames) (hn : frames.head?.bind Frame.node = some n) :
    t.root = some 0 ∧ ∃ ns, openNodes frames = ns ++ [n] ∧ t.Spine 0 (ns ++ [n]) := by
  obtain ⟨frame, hframe, hnode⟩ := Option.bind_eq_some_iff.mp hn
  obtain ⟨outer, rfl⟩ := List.head?_eq_some_iff.mp hframe
  have hopen : openNodes (frame :: outer) = openNodes outer ++ [n] := by rw [openNodes_cons, hnode, Option.toList_some]
  cases h with
  | empty outside =>
      rw [hopen] at outside
      simp at outside
  | grown root spine isPrefix =>
      rw [hopen] at isPrefix
      exact ⟨root, _, hopen, spine.cut isPrefix (by simp)⟩

/-- Rules may be left. -/
theorem of_prefix (h : t.Growing frames) (hopen : openNodes frames' <+: openNodes frames) : t.Growing frames' := by
  cases h with
  | empty outside => exact .empty (List.prefix_nil.mp (outside ▸ hopen))
  | grown root spine isPrefix => exact .grown root spine (hopen.trans isPrefix)

/-- **The tree is a tree.** -/
theorem isTree (h : t.Growing frames) : t.IsTree := by
  cases h with
  | empty => exact isTree_empty
  | grown root spine => exact spine.spans.isTree root spine.exists_eq_cons.2

/-- **Each open rule is the parent of the next one.** -/
theorem isChain (h : t.Growing frames) : (openNodes frames).IsChain t.Lists := by
  cases h with
  | empty outside => exact outside ▸ .nil
  | grown root spine isPrefix => exact spine.isChain.prefix isPrefix

end Growing

/-- **The tree stays a tree** from one state to the next. -/
theorem Change.growing (h : Change t frames u frames') (ht : t.Growing frames) : u.Growing frames' := by
  cases h with
  | same => exact ht
  | @leaf _ _ n node current isLeaf =>
      obtain ⟨hroot, ns, hns, hspine⟩ := ht.spine current
      have hchildless : node.children = #[] := by
        cases node with
        | rule r => cases isLeaf
        | terminal token | error token => rfl
      obtain ⟨hroot', hspine', -⟩ := hspine.push hchildless
      exact .grown (hroot'.trans hroot) hspine' (hns ▸ List.prefix_rfl)
  | @opened r childless =>
      -- the outermost rule is all there is
      exact .grown rfl (.tip rfl (congrArg (fun children : Array Nat => some children.toList) childless) .nil)
        List.prefix_rfl
  | @entered _ _ n r current childless =>
      obtain ⟨hroot, ns, hns, hspine⟩ := ht.spine current
      -- the rule that is entered comes after the innermost open one
      obtain ⟨hroot', -, hspine'⟩ := hspine.push (show (ParseNode.rule r).children = #[] from childless)
      refine .grown (hroot'.trans hroot) (hspine' rfl) ?_
      rw [openNodes_cons, hns, List.append_assoc]
      exact List.prefix_rfl
  | tried _ _ r =>
      -- without a node it is not among the open rules
      have hopen : openNodes (⟨r, none⟩ :: frames) = openNodes frames := by
        rw [openNodes_cons, Option.toList_none, List.append_nil]
      exact ht.of_prefix (hopen ▸ List.prefix_rfl)
  | left _ frame => exact ht.of_prefix (by rw [openNodes_cons]; exact List.prefix_append ..)
  | noted _ _ n children =>
      cases ht with
      | empty outside => exact .empty outside
      | grown root spine isPrefix => exact .grown root (spine.modify children n) isPrefix

end ParseTree

open ParseTree (Change Growing)

namespace Parser

variable {p p' q r : Parser σ} {ms ms' : List (Parser σ)}

/-- **From one state to another by way of some**, with at most one change from each to the next. -/
inductive Passage : Parser σ → List (Parser σ) → Parser σ → Prop where
  /-- There are no states in between. -/
  | nil {p q : Parser σ} (tree : q.tree = p.tree) (frames : q.frames = p.frames) : Passage p [] q
  /-- First there is one, and then there are others. -/
  | cons {p m q : Parser σ} {ms : List (Parser σ)} (change : Change p.tree p.frames m.tree m.frames)
    (rest : Passage m ms q) : Passage p (m :: ms) q

namespace Passage

/-- The tree is a tree all the way. -/
theorem growing (h : Passage p ms q) (hp : p.tree.Growing p.frames) :
    (∀ m ∈ ms, m.tree.Growing m.frames) ∧ q.tree.Growing q.frames := by
  induction h with
  | nil tree frames =>
      rw [tree, frames]
      exact ⟨List.forall_mem_nil _, hp⟩
  | cons change rest ih =>
      have hm := change.growing hp
      obtain ⟨hms, hq⟩ := ih hm
      exact ⟨List.forall_mem_cons.mpr ⟨hm, hms⟩, hq⟩

/-- It may begin in a state with the same tree and the same rules. -/
theorem from_same (h : Passage p' ms q) (tree : p'.tree = p.tree) (frames : p'.frames = p.frames) :
    Passage p ms q := by
  cases h with
  | nil tree' frames' => exact .nil (tree'.trans tree) (frames'.trans frames)
  | cons change rest => exact .cons (tree ▸ frames ▸ change) rest

/-- It may end in a state with the same tree and the same rules. -/
theorem to_same (h : Passage p ms q) (tree : r.tree = q.tree) (frames : r.frames = q.frames) : Passage p ms r := by
  induction h with
  | nil tree' frames' => exact .nil (tree.trans tree') (frames.trans frames')
  | cons change _ ih => exact .cons change (ih tree frames)

/-- First by way of some states, and then by way of others. -/
theorem append (h : Passage p ms q) (h' : Passage q ms' r) : Passage p (ms ++ ms') r := by
  induction h with
  | nil tree frames => exact h'.from_same tree frames
  | cons change _ ih => exact .cons change (ih h')

end Passage

/-! ## Actions between two states -/

/-- **Nothing becomes of the tree**, and the same is active. -/
structure Untouched (p q : Parser σ) : Prop where
  /-- The tree is the same. -/
  tree : q.tree = p.tree
  /-- The same is active. -/
  balanced : p.Balanced q

theorem Untouched.refl (p : Parser σ) : p.Untouched p := ⟨rfl, .refl p⟩

theorem Untouched.trans (h : p.Untouched q) (h' : q.Untouched r) : p.Untouched r :=
  ⟨h'.tree.trans h.tree, h.balanced.trans h'.balanced⟩

/-- **An action that leaves the tree alone.** -/
def Still (act : ParserM σ α) : Prop := ∀ p, Ends act p fun _ q => p.Untouched q

/-- **An action by which at most one thing becomes of the tree.** -/
def Alters (act : ParserM σ α) (p : Parser σ) : Prop :=
  Ends act p fun _ q => Change p.tree p.frames q.tree q.frames ∧ p.Balanced q

/-- **An action that passes through some states**, and ends with the same active as before. -/
def Passes (act : ParserM σ α) (p : Parser σ) (ms : List (Parser σ)) : Prop :=
  Ends act p fun _ q => Passage p ms q ∧ p.Balanced q

/-- **Whether there is a rule to add leaves to**, unless the parser is on trial. -/
def Placed (p : Parser σ) : Prop := p.isSpeculating = false → ∃ n, p.currentNode? = some n

/-- There still is. -/
theorem Placed.of_balanced (h : p.Placed) (h' : p.Balanced q) : q.Placed := by
  have htrial : q.isSpeculating = p.isSpeculating := by rw [isSpeculating, h'.speculating, isSpeculating]
  have hcurrent : q.currentNode? = p.currentNode? := by rw [currentNode?, h'.frames, currentNode?]
  rw [Placed, htrial, hcurrent]
  exact h

section

variable {act : ParserM σ α} {next : α → ParserM σ β}

theorem still_pure (a : α) : Still (pure a : ParserM σ α) := .refl

theorem still_throw (i : Interrupt) : Still (throw i : ParserM σ α) := .refl

/-- One after the other. -/
theorem Still.bind (h : Still act) (hnext : ∀ a, Still (next a)) : Still (act >>= next) := fun p =>
  (h p).bind (fun a q hq => (hnext a q).mono fun _ _ hr => hq.trans hr) fun _ _ hq => hq

/-- The state is looked at. -/
theorem still_get_bind {next : Parser σ → ParserM σ α} (h : ∀ p, Still (next p)) : Still (get >>= next) :=
  fun p => h p p

/-- A change of something else. -/
theorem still_modify {f : Parser σ → Parser σ} (h : ∀ p : Parser σ, p.Untouched (f p)) :
    Still (modify f : ParserM σ Unit) :=
  fun p => h p

/-- An operation of the input. -/
theorem still_onInput (act : StreamM σ α) : Still (onInput act : ParserM σ α) := fun p =>
  ends_onInput ((Ends.self act p.input).mono fun _ _ _ => ⟨rfl, rfl, rfl, rfl⟩)

theorem still_orBroken (x : Except Violation α) : Still (orBroken x : ParserM σ α) := by
  cases x with
  | ok a => exact still_pure a
  | error v => exact still_throw _

theorem still_note (n : Note) : Still (note n : ParserM σ Unit) := still_modify fun _ => ⟨rfl, rfl, rfl, rfl⟩

theorem still_report (t : Token) (message : String) (e : Option RecognitionException) :
    Still (report t message e : ParserM σ Unit) := by
  intro p
  unfold report
  rw [ends_get_bind, ends_set_bind]
  split
  · have hcounted : p.Untouched { p with syntaxErrors := p.syntaxErrors + 1 } := ⟨rfl, rfl, rfl, rfl⟩
    exact ((still_note _) _).mono fun _ _ hq => hcounted.trans hq
  · exact ⟨rfl, rfl, rfl, rfl⟩

/-- The state in which a hook acts. -/
def noting (h : Hook) (p : Parser σ) : Parser σ :=
  if p.strategy.noted then { p with journal := p.journal.push (.hook h) } else p

/-- Noting the call of a hook leaves the tree alone. -/
theorem untouched_noting (h : Hook) (p : Parser σ) : p.Untouched (noting h p) := by
  unfold noting
  split
  · exact ⟨rfl, rfl, rfl, rfl⟩
  · exact .refl p

/-- **A hook** acts in the state in which its call is noted. -/
theorem ends_hooked (h : Hook) {denied act : ParserM σ α} {post : Except Interrupt α → Parser σ → Prop} :
    Ends (hooked h denied act) p post ↔ Ends (if p.strategy.allows h then act else denied) (noting h p) post := by
  unfold hooked noting
  rw [ends_get_bind]
  by_cases hnoted : p.strategy.noted = true
  · simp only [hnoted, if_true]
    exact Iff.rfl
  · simp only [hnoted, if_false, Bool.false_eq_true]

/-- A hook. -/
theorem Still.hooked {h : Hook} {denied act : ParserM σ α} (hdenied : Still denied) (hact : Still act) :
    Still (Parser.hooked h denied act) := by
  intro p
  have hchoice : Still (if p.strategy.allows h then act else denied) := by
    split
    · exact hact
    · exact hdenied
  exact (ends_hooked h).mpr ((hchoice _).mono fun _ _ hq => (untouched_noting h p).trans hq)

theorem still_beginErrorCondition : Still (beginErrorCondition : ParserM σ Unit) :=
  (still_pure ()).hooked (still_modify fun _ => ⟨rfl, rfl, rfl, rfl⟩)

theorem still_reportMatch : Still (reportMatch : ParserM σ Unit) :=
  (still_pure ()).hooked (still_modify fun _ => ⟨rfl, rfl, rfl, rfl⟩)

theorem still_reportError (e : RecognitionException) : Still (reportError e : ParserM σ Unit) := by
  refine (still_pure ()).hooked (still_get_bind fun p => ?_)
  split
  · exact still_pure _
  · exact still_beginErrorCondition.bind fun _ => still_get_bind fun _ => still_report _ _ _

variable [TokenSource σ]

theorem still_ahead (k : Nat) : Still (ahead k : ParserM σ Token) := still_onInput _

omit [TokenSource σ] in
theorem still_newException (kind : ExceptionKind) (offending : Token) (expected : TokenSet) :
    Still (newException kind offending expected : ParserM σ RecognitionException) :=
  fun _ => ⟨rfl, rfl, rfl, rfl⟩

theorem still_raiseMismatch (expected : TokenSet) : Still (raiseMismatch expected : ParserM σ α) :=
  (still_ahead 1).bind fun _ => (still_newException _ _ _).bind fun _ => still_throw _

theorem still_raiseNoViableAlt (depth : Nat) : Still (raiseNoViableAlt depth : ParserM σ α) :=
  (still_ahead 1).bind fun _ => (still_ahead _).bind fun _ => (still_newException _ _ _).bind fun _ => still_throw _

theorem still_require (holds : Bool) (text : String) : Still (require holds text : ParserM σ Unit) := by
  cases holds with
  | true => exact still_pure _
  | false => exact (still_ahead 1).bind fun _ => (still_newException _ _ _).bind fun _ => still_throw _

/-- Reporting the current token, unless reports are held back. -/
theorem still_reportToken (message : Parser σ → Token → String) : Still (do
    unless (← get).recovery.inRecovery do
      beginErrorCondition
      let t ← ahead 1
      let p ← get
      report t (message p t) none : ParserM σ Unit) := by
  refine still_get_bind fun p => ?_
  split
  · exact still_pure _
  · exact still_beginErrorCondition.bind fun _ => (still_ahead 1).bind fun _ => still_get_bind fun _ =>
      still_report _ _ _

theorem still_reportUnwanted (expecting : TokenSet) : Still (reportUnwanted expecting : ParserM σ Unit) :=
  (still_pure ()).hooked (still_reportToken fun p t =>
    s!"extraneous input {t.shown} expecting {p.language.vocabulary.displaySet (p.viableFollow expecting)}")

theorem still_reportMissing (expecting : TokenSet) : Still (reportMissing expecting : ParserM σ Unit) :=
  (still_pure ()).hooked (still_reportToken fun p t =>
    s!"missing {p.language.vocabulary.displaySet (p.viableFollow expecting)} at {t.shown}")

theorem still_singleTokenInsertion (expected : TokenType) (follow : TokenSet) :
    Still (singleTokenInsertion expected follow : ParserM σ Bool) := by
  refine (still_pure _).hooked ((still_ahead 1).bind fun t => still_get_bind fun p => ?_)
  split
  · exact still_pure _
  · exact (still_orBroken _).bind fun _ => (still_reportMissing _).bind fun _ => still_pure _

theorem still_missingSymbol (expected : TokenType) : Still (missingSymbol expected : ParserM σ Token) := by
  unfold missingSymbol
  have hmake : ∀ (anchoring : Bool) (made : Token), Still (do
      if !anchoring then return made
      let current ← ahead 1
      return { made with span := some (current.span.getD (.emptyAt 0)) } : ParserM σ Token) := fun anchoring _ => by
    cases anchoring with
    | false => exact still_pure _
    | true => exact (still_ahead 1).bind fun _ => still_pure _
  suffices hact : Still _ from hact.hooked hact
  exact (still_ahead 1).bind fun _ => still_get_bind fun p => hmake p.strategy.anchoring _

end

end Parser

end TreeProjection
