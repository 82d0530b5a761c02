import TreeProjection.Projection.Event
import TreeProjection.Proofs.Ending
import TreeProjection.Recognition.Errors
import TreeProjection.Recognition.Recognizer

/-! # Sketches

A parse carries along where its tokens stand in the source, but it never goes by it.  A **sketch** of a part of a
parse shows that part down to some detail, with or without those places.  Two parts of one sketch are alike in all
that a parse may go by.

* `Detail` — what a sketch shows.
* `Token.sketch`, `ParseTree.sketch`, `Parser.sketch` and the like — sketches of what tokens are part of.
* `Stream.over`, `Parser.over` — the same over another source, which no sketch shows.
* `Recognizer.Heeds` — a recognizer that goes by nothing that a sketch does not show. -/

namespace TreeProjection

variable {σ σ' : Type} {α β ε : Type}

/-- What a sketch shows. -/
inductive Detail where
  /-- Everything. -/
  | full
  /-- Everything but where tokens stand in the source. -/
  | unplaced
  deriving DecidableEq, Repr, Inhabited

/-- What a sketch shows of a stretch of the source. -/
def Detail.span : Detail → Option Span → Option Span
  | .full, s => s
  | .unplaced, _ => none

/-! ## Sketches of data -/

/-- A sketch of a token. -/
def Token.sketch (d : Detail) (t : Token) : Token := { t with span := d.span t.span }

/-- A sketch of what an exception says has failed. -/
def ExceptionKind.sketch (d : Detail) : ExceptionKind → ExceptionKind
  | .inputMismatch => .inputMismatch
  | .noViableAlt start => .noViableAlt (start.sketch d)
  | .failedPredicate text => .failedPredicate text

/-- A sketch of an exception. -/
def RecognitionException.sketch (d : Detail) (e : RecognitionException) : RecognitionException :=
  { e with kind := e.kind.sketch d, offending := e.offending.sketch d }

/-- A sketch of why a recognizer stopped early. -/
def Interrupt.sketch (d : Detail) : Interrupt → Interrupt
  | .recognition e => .recognition (e.sketch d)
  | .abort a => .abort a

/-- A sketch of a report. -/
def Report.sketch (d : Detail) (r : Report) : Report :=
  { r with offending := r.offending.sketch d, exception := r.exception.map (·.sketch d) }

/-- A sketch of a note. -/
def Note.sketch (d : Detail) : Note → Note
  | .report listeners r => .report listeners (r.sketch d)
  | .token t => .token (t.sketch d)
  | .caught e => .caught (e.sketch d)
  | n => n

/-- A sketch of a rule's node. -/
def RuleNode.sketch (d : Detail) (r : RuleNode) : RuleNode :=
  { r with exception := r.exception.map (·.sketch d) }

/-- A sketch of a node. -/
def ParseNode.sketch (d : Detail) : ParseNode → ParseNode
  | .rule r => .rule (r.sketch d)
  | .terminal t => .terminal (t.sketch d)
  | .error t => .error (t.sketch d)

/-- A sketch of a parse tree. -/
def ParseTree.sketch (d : Detail) (t : ParseTree) : ParseTree :=
  { t with nodes := t.nodes.map (·.sketch d) }

/-- A sketch of a collected error. -/
def SyntaxError.sketch (d : Detail) (e : SyntaxError) : SyntaxError :=
  { e with offending := e.offending.sketch d }

/-- A sketch of a step of a projection. -/
def ProjectionEvent.sketch (d : Detail) : ProjectionEvent → ProjectionEvent
  | .advance t => .advance (t.sketch d)
  | .errorLeaf t message => .errorLeaf (t.sketch d) message
  | e => e

/-- A sketch of a stream; it does not show the source. -/
def Stream.sketch (d : Detail) (s : Stream σ) : Stream Unit :=
  { source := (), buffer := s.buffer.map (·.sketch d), cursor := s.cursor, started := s.started
    ended := s.ended }

/-- A sketch of a parser; it shows neither the source nor the limit of active rules. -/
def Parser.sketch (d : Detail) (p : Parser σ) : Parser Unit :=
  { input := p.input.sketch d, language := p.language, strategy := p.strategy, listeners := p.listeners
    tree := p.tree.sketch d, frames := p.frames, follow := p.follow, recovery := p.recovery
    nextException := p.nextException, speculating := p.speculating
    syntaxErrors := p.syntaxErrors, journal := p.journal.map (·.sketch d) }

/-- A sketch of how an action has ended, made of sketches of failures and of answers. -/
def sketchOutcome (failure : ε → ε) (answer : α → α) : Except ε α → Except ε α
  | .ok a => .ok (answer a)
  | .error e => .error (failure e)

/-! ## Sketches that show everything -/

@[simp] theorem RecognitionException.sketch_full (e : RecognitionException) : e.sketch .full = e := by
  obtain ⟨id, kind, offending, expected, rule⟩ := e
  cases kind <;> rfl

@[simp] theorem Interrupt.sketch_full : ∀ i : Interrupt, i.sketch .full = i
  | .recognition e => congrArg _ e.sketch_full
  | .abort _ => rfl

@[simp] theorem RuleNode.sketch_full (r : RuleNode) : r.sketch .full = r := by
  obtain ⟨rule, children, start, stop, exception⟩ := r
  cases exception <;> simp [sketch]

@[simp] theorem ParseNode.sketch_full : ∀ n : ParseNode, n.sketch .full = n
  | .rule r => congrArg _ r.sketch_full
  | .terminal _ => rfl
  | .error _ => rfl

@[simp] theorem ParseTree.sketch_full (t : ParseTree) : t.sketch .full = t := by
  simp [sketch]

@[simp] theorem Report.sketch_full (r : Report) : r.sketch .full = r := by
  obtain ⟨offending, line, column, message, exception⟩ := r
  cases exception <;> simp [sketch, Token.sketch, Detail.span]

@[simp] theorem Note.sketch_full : ∀ n : Note, n.sketch .full = n
  | .report _ r => congrArg _ r.sketch_full
  | .caught e => congrArg _ e.sketch_full
  | .hook _ => rfl
  | .token _ => rfl
  | .speculated _ => rfl
  | .seen .. => rfl

@[simp] theorem ProjectionEvent.sketch_full (e : ProjectionEvent) : e.sketch .full = e := by
  cases e <;> rfl

@[simp] theorem sketchOutcome_id : ∀ o : Except ε α, sketchOutcome id id o = o
  | .ok _ => rfl
  | .error _ => rfl

/-! ## The same over another source -/

/-- The same stream over another source. -/
def Stream.over (s : Stream σ) (u : σ') : Stream σ' :=
  { source := u, buffer := s.buffer, cursor := s.cursor, started := s.started, ended := s.ended }

/-- The same parser over another source. -/
def Parser.over (p : Parser σ) (u : σ') : Parser σ' :=
  { input := p.input.over u, language := p.language, strategy := p.strategy
    recursionLimit := p.recursionLimit, listeners := p.listeners, tree := p.tree
    frames := p.frames, follow := p.follow, recovery := p.recovery
    nextException := p.nextException, speculating := p.speculating
    syntaxErrors := p.syntaxErrors, journal := p.journal }

/-- No sketch shows what a stream is over. -/
theorem Stream.sketch_over (d : Detail) (s : Stream σ) (u : σ') : (s.over u).sketch d = s.sketch d := rfl

/-- No sketch shows what a parser is over. -/
theorem Parser.sketch_over (d : Detail) (p : Parser σ) (u : σ') : (p.over u).sketch d = p.sketch d := rfl

/-- **Parsers of one full sketch** differ in their sources at most, if the same limit holds for both. -/
theorem Parser.eq_over_of_sketch {p : Parser σ} {q : Parser σ'} (h : p.sketch .full = q.sketch .full)
    (hlimit : p.recursionLimit = q.recursionLimit) : q = p.over q.input.source := by
  obtain ⟨⟨source, buffer, cursor, started, ended⟩, _, _, _, _, tree, _, _, _, _, _, _, journal⟩ := p
  obtain ⟨⟨source', buffer', cursor', started', ended'⟩, _, _, _, _, tree', _, _, _, _, _, _, journal'⟩ := q
  simp only [Parser.sketch, Stream.sketch, ParseTree.sketch_full, Note.sketch_full, Array.map_id',
    Parser.mk.injEq, Stream.mk.injEq, true_and] at h hlimit
  have hbuffer : buffer = buffer' := by
    have hmap : ∀ b : Array Token, b.map (·.sketch .full) = b := fun b => Array.map_id' b
    rw [← hmap buffer, ← hmap buffer']
    exact h.1.1
  simp only [Parser.over, Stream.over, Parser.mk.injEq, Stream.mk.injEq, true_and]
  simp_all

/-! ## What sketches show -/

/-- What a sketch of a token shows is the same for tokens of one sketch. -/
theorem Token.congr_sketch {d : Detail} {t u : Token} (f : Token → α) (hf : ∀ t : Token, f (t.sketch d) = f t)
    (h : t.sketch d = u.sketch d) : f t = f u := by
  rw [← hf t, h, hf u]

/-- What a sketch of a rule's node shows is the same for nodes of one sketch. -/
theorem RuleNode.congr_sketch {d : Detail} {r r' : RuleNode} (f : RuleNode → α)
    (hf : ∀ r : RuleNode, f (r.sketch d) = f r) (h : r.sketch d = r'.sketch d) : f r = f r' := by
  rw [← hf r, h, hf r']

/-- What a sketch of a parser shows is the same for parsers of one sketch. -/
theorem Parser.congr_sketch {d : Detail} {p : Parser σ} {q : Parser σ'} (f : {σ : Type} → Parser σ → α)
    (hf : ∀ {σ : Type} (p : Parser σ), f (p.sketch d) = f p) (h : p.sketch d = q.sketch d) : f p = f q := by
  rw [← hf p, h, hf q]

section

variable (d : Detail)

/-- Whether a node is a rule. -/
theorem ParseNode.isRule_sketch (n : ParseNode) : (n.sketch d).isRule = n.isRule := by
  cases n <;> rfl

namespace ParseTree

variable (t : ParseTree)

/-- Which nodes are rules. -/
theorem isRuleAt_sketch (id : Nat) : (t.sketch d).isRuleAt id = t.isRuleAt id := by
  unfold isRuleAt sketch
  rw [Array.getElem?_map, Option.any_map]
  exact congrArg (Option.any · _) (funext (ParseNode.isRule_sketch d))

/-- A change of a rule node, as a sketch shows it. -/
theorem sketch_modifyRule (id : Nat) {f f' : RuleNode → RuleNode}
    (hf : ∀ r, (f r).sketch d = f' (r.sketch d)) :
    (t.modifyRule id f).sketch d = (t.sketch d).modifyRule id f' := by
  unfold modifyRule sketch
  congr 1
  refine Array.ext_getElem? fun i => ?_
  simp only [Array.getElem?_map, Array.getElem?_modify]
  by_cases hi : id = i
  · simp only [hi, if_true, Option.map_map]
    congr 1
    funext n
    cases n with
    | rule r => exact congrArg ParseNode.rule (hf r)
    | terminal token => rfl
    | error token => rfl
  · simp only [hi, if_false]

/-- A new node, as a sketch shows it. -/
theorem push_sketch (parent : Option Nat) (node : ParseNode) :
    (t.sketch d).push parent (node.sketch d) = ((t.push parent node).1, (t.push parent node).2.sketch d) := by
  have hnodes : ((t.sketch d).nodes.push (node.sketch d)) = (t.nodes.push node).map (·.sketch d) := by
    simp [sketch]
  have hrule : (fun i => (t.sketch d).isRuleAt i) = t.isRuleAt := funext (t.isRuleAt_sketch d)
  have hsize : (t.sketch d).nodes.size = t.nodes.size := by simp [sketch]
  unfold push
  simp only [hrule, hsize]
  cases parent.filter t.isRuleAt with
  | none =>
      simp only [hnodes]
      rfl
  | some c =>
      simp only [hnodes]
      refine Prod.ext rfl (sketch_modifyRule d { t with nodes := t.nodes.push node } c ?_).symm
      exact fun _ => rfl

end ParseTree

namespace Stream

variable (s : Stream σ)

/-- Where the cursor may stand among some tokens. -/
theorem stopAmong?_sketch (n i : Nat) : (s.sketch d).stopAmong? n i = s.stopAmong? n i := by
  induction n generalizing i with
  | zero => rfl
  | succ n ih =>
      unfold stopAmong?
      rw [ih]
      unfold sketch
      simp only [Array.getElem?_map, Option.any_map]
      rfl

/-- Where the cursor may stand. -/
theorem findStop?_sketch (i : Nat) : (s.sketch d).findStop? i = s.findStop? i := by
  have hsize : (s.sketch d).buffer.size = s.buffer.size := by simp [sketch]
  unfold findStop?
  rw [hsize, stopAmong?_sketch]

omit d in
/-- Streams of one sketch have taken as many tokens. -/
theorem size_buffer_of_sketch {d : Detail} {s : Stream σ} {t : Stream σ'} (h : s.sketch d = t.sketch d) :
    s.buffer.size = t.buffer.size := by
  have hsize : (s.sketch d).buffer.size = (t.sketch d).buffer.size := by rw [h]
  simpa [sketch] using hsize

/-- A token that has been taken from the source. -/
theorem sketch_push (t : Token) : (s.push t).sketch d = (s.sketch d).push (t.sketch d) := by
  simp only [push, sketch, Array.map_push, Array.size_map]
  rfl

/-- What lies before a place. -/
theorem visibleBefore?_sketch (n i : Nat) :
    (s.sketch d).visibleBefore? n i = (s.visibleBefore? n i).map (·.sketch d) := by
  -- induction on the place; a sketch keeps the channel, so the same places are visible
  induction i generalizing n with
  | zero => cases n <;> rfl
  | succ i ih =>
      have hnode : (s.sketch d).buffer[i]?.filter Token.isVisible =
          (s.buffer[i]?.filter Token.isVisible).map (·.sketch d) := by
        simp only [sketch, Array.getElem?_map, Option.filter_map]
        rfl
      unfold visibleBefore?
      rw [hnode]
      cases s.buffer[i]?.filter Token.isVisible with
      | none => cases n <;> exact ih _
      | some t =>
          cases n with
          | zero => rfl
          | succ n => exact ih n

/-- What lies before the cursor. -/
theorem behind?_sketch (k : Nat) : (s.sketch d).behind? k = (s.behind? k).map (·.sketch d) := by
  cases k with
  | zero => rfl
  | succ n => exact s.visibleBefore?_sketch d n _

/-- The text from one token to another. -/
theorem textBetween_sketch (first last : Nat) :
    (s.sketch d).textBetween first last = s.textBetween first last := by
  unfold textBetween sketch
  simp only [Array.toList_map, ← List.map_take, ← List.map_drop, List.filterMap_map]
  rfl

end Stream

namespace Parser

variable (p : Parser σ)

/-- What lies before the current token. -/
theorem behind?_sketch (k : Nat) : (p.sketch d).behind? k = (p.behind? k).map (·.sketch d) :=
  p.input.behind?_sketch d k

/-- The text from one token to another. -/
theorem textBetween_sketch (first last : Token) :
    (p.sketch d).textBetween (first.sketch d) (last.sketch d) = p.textBetween first last := by
  have hfirst : (first.sketch d).index = first.index := rfl
  have hlast : (last.sketch d).index = last.index := rfl
  unfold textBetween
  rw [hfirst, hlast]
  cases first.index with
  | none => rfl
  | some i =>
      cases last.index with
      | none => rfl
      | some j => exact p.input.textBetween_sketch d i j

/-- The text of a report for an exception. -/
theorem exceptionMessage_sketch (e : RecognitionException) :
    (p.sketch d).exceptionMessage (e.sketch d) = p.exceptionMessage e := by
  obtain ⟨id, kind, offending, expected, rule⟩ := e
  cases kind with
  | inputMismatch => rfl
  | failedPredicate text => rfl
  | noViableAlt start =>
      unfold exceptionMessage
      simp only [RecognitionException.sketch, ExceptionKind.sketch, textBetween_sketch]
      rfl

end Parser

end

/-! ## Nodes that are added -/

section

variable (d : Detail) (p : Parser σ)

/-- A leaf is added. -/
theorem Parser.sketch_addLeaf (leaf : ParseNode) :
    ({ p with tree := (p.tree.push p.currentNode? leaf).2 } : Parser σ).sketch d =
      { p.sketch d with
        tree := ((p.sketch d).tree.push (p.sketch d).currentNode? (leaf.sketch d)).2 } := by
  change _ = { p.sketch d with tree := ((p.tree.sketch d).push p.currentNode? (leaf.sketch d)).2 }
  rw [ParseTree.push_sketch]
  rfl

/-- A rule is entered. -/
theorem Parser.sketch_openRule (r : RuleIndex) (start : Option Nat) :
    (p.openRule r start).sketch d = (p.sketch d).openRule r start := by
  have hpush := p.tree.push_sketch d p.currentNode? (.rule { rule := r, start })
  have hopened : (p.sketch d).openRule r start = { p.sketch d with
      tree := ((p.tree.sketch d).push p.currentNode? ((ParseNode.rule { rule := r, start }).sketch d)).2
      frames := ⟨r, some ((p.tree.sketch d).push p.currentNode?
        ((ParseNode.rule { rule := r, start }).sketch d)).1⟩ :: p.frames } := rfl
  rw [hopened, hpush]
  rfl

/-- A rule is left. -/
theorem Parser.sketch_closeRule (node : Nat) :
    (p.closeRule node).sketch d = (p.sketch d).closeRule node := by
  have hstop : ((p.sketch d).behind? 1 >>= Token.index) = (p.behind? 1 >>= Token.index) := by
    rw [behind?_sketch]
    cases p.behind? 1 <;> rfl
  have htree : ∀ stop : Option Nat, (p.tree.modifyRule node fun r =>
      { r with stop := stop.filter fun s => r.start.any (· ≤ s) }).sketch d =
        (p.tree.sketch d).modifyRule node fun r =>
          { r with stop := stop.filter fun s => r.start.any (· ≤ s) } := fun _ =>
    p.tree.sketch_modifyRule d node fun _ => rfl
  unfold closeRule
  rw [hstop]
  simp only [sketch, htree]

/-- An exception is noted. -/
theorem Parser.sketch_noteException (node : Nat) (e : RecognitionException) :
    ({ p with tree := p.tree.modifyRule node fun r => { r with exception := some e } } : Parser σ).sketch d =
      { p.sketch d with
        tree := (p.sketch d).tree.modifyRule node fun r => { r with exception := some (e.sketch d) } } := by
  have htree : (p.tree.modifyRule node fun r => { r with exception := some e }).sketch d =
      (p.tree.sketch d).modifyRule node fun r => { r with exception := some (e.sketch d) } :=
    p.tree.sketch_modifyRule d node fun _ => rfl
  simp only [sketch, htree]

/-- Something is written down. -/
theorem Parser.sketch_note (n : Note) : ({ p with journal := p.journal.push n } : Parser σ).sketch d =
    { p.sketch d with journal := (p.sketch d).journal.push (n.sketch d) } := by
  simp only [sketch, Array.map_push]

end

/-! ## Tokens that are made up -/

/-- The token that is made up for a missing one where another one is current, but for its place. -/
def Parser.madeUp (p : Parser σ) (expected : TokenType) (current : Token) : Token :=
  let near := if current.isEof then (p.behind? 1).getD current else current
  { Token.conjured expected (Parser.missingText p.language.vocabulary expected) with
    line := near.line, column := near.column }

/-- What is made up can be told from a sketch. -/
theorem Parser.madeUp_sketch (d : Detail) (p : Parser σ) (expected : TokenType) (t : Token) :
    (p.sketch d).madeUp expected (t.sketch d) = p.madeUp expected t := by
  have hnear : (if (t.sketch d).isEof then ((p.behind? 1).map (·.sketch d)).getD (t.sketch d)
      else t.sketch d) = (if t.isEof then (p.behind? 1).getD t else t).sketch d := by
    by_cases heof : t.isEof = true
    · rw [if_pos (by exact heof), if_pos heof]
      cases p.behind? 1 <;> rfl
    · rw [if_neg (by exact heof), if_neg heof]
  unfold madeUp
  rw [behind?_sketch, hnear]
  rfl

/-- Tokens of one sketch have one where their places are filled in. -/
theorem Detail.span_getD {d : Detail} {s s' : Option Span} (h : d.span s = d.span s') {other : Span} :
    d.span (some (s.getD other)) = d.span (some (s'.getD other)) := by
  cases d with
  | full =>
      obtain rfl : s = s' := h
      rfl
  | unplaced => rfl

/-- A token has one sketch at all places of one sketch. -/
theorem Token.sketch_congr_span {d : Detail} {t : Token} {s s' : Option Span} (h : d.span s = d.span s') :
    ({ t with span := s } : Token).sketch d = ({ t with span := s' } : Token).sketch d := by
  simp only [sketch, h]

/-! ## Recognizers that go by sketches -/

/-- A sketch of an operation's answer. -/
def Operation.sketch (d : Detail) : Operation β → β → β
  | .ahead _ => Token.sketch d
  | .expect _ _ => Token.sketch d
  | .consume => Token.sketch d
  | _ => id

@[simp] theorem Operation.sketch_full (op : Operation β) : op.sketch .full = id := by
  cases op <;> rfl

@[simp] theorem sketchOutcome_full :
    (sketchOutcome (·.sketch .full) id : Except RecognitionException α → _) = id := by
  have hfull : (fun e : RecognitionException => e.sketch .full) = id := funext (·.sketch_full)
  funext o
  rw [hfull, sketchOutcome_id, id]

/-- **A recognizer that goes by nothing that a sketch does not show**: neither what operations answer nor the
exceptions it looks into make a difference to it, as long as their sketches are the same. -/
def Recognizer.Heeds {α : Type} (d : Detail) : Recognizer α → Prop
  | .pure _ => True
  | .outOfSteps => True
  | .step op next => (∀ a b, op.sketch d a = op.sketch d b → next a = next b) ∧ ∀ b, (next b).Heeds d
  | .direct _ next => ∀ b, (next b).Heeds d
  | .rule _ body next => (body ()).Heeds d ∧ ∀ u, (next u).Heeds d
  | .invoke _ body next => (body ()).Heeds d ∧ ∀ b, (next b).Heeds d
  | .speculate body next => (body ()).Heeds d ∧ ∀ b, (next b).Heeds d
  | .attempt body next => (body ()).Heeds d ∧
      (∀ a b, sketchOutcome (·.sketch d) id a = sketchOutcome (·.sketch d) id b → next a = next b) ∧
      ∀ b, (next b).Heeds d

namespace Recognizer

/-- A full sketch shows everything that there is to go by. -/
theorem heeds_full {α : Type} (r : Recognizer α) : r.Heeds .full := by
  induction r with
  | pure a => trivial
  | outOfSteps => trivial
  | step op next ih =>
      refine ⟨fun a b hab => congrArg next ?_, ih⟩
      rwa [op.sketch_full] at hab
  | direct d next ih => exact ih
  | rule r body next ihbody ihnext => exact ⟨ihbody (), ihnext⟩
  | invoke follow body next ihbody ihnext => exact ⟨ihbody (), ihnext⟩
  | speculate body next ihbody ihnext => exact ⟨ihbody (), ihnext⟩
  | attempt body next ihbody ihnext =>
      refine ⟨ihbody (), fun a b hab => congrArg next ?_, ihnext⟩
      rwa [sketchOutcome_full] at hab

/-- Whoever decides on types and texts alone does not go by where tokens stand. -/
theorem LexemeDriven.heeds {α : Type} {r : Recognizer α} (h : r.LexemeDriven) (d : Detail) : r.Heeds d := by
  -- induction on the recognizer; only the answers that are tokens need the two sides' tokens compared
  induction r with
  | pure a => trivial
  | outOfSteps => trivial
  | step op next ih =>
      refine ⟨fun a b hab => h.1 a b ?_, fun b => ih b (h.2 b)⟩
      cases op with
      | ahead k => exact Token.congr_sketch Token.lexeme (fun _ => rfl) hab
      | expect ty follow => exact Token.congr_sketch Token.lexeme (fun _ => rfl) hab
      | consume => exact Token.congr_sketch Token.lexeme (fun _ => rfl) hab
      | sync expecting => exact hab
      | require holds text => exact hab
      | noViableAlt depth => exact hab
      | mismatch expected => exact hab
  | direct d next ih => exact fun b => ih b (h b)
  | rule r body next ihbody ihnext => exact ⟨ihbody () h.1, fun u => ihnext u (h.2 u)⟩
  | invoke follow body next ihbody ihnext => exact ⟨ihbody () h.1, fun b => ihnext b (h.2 b)⟩
  | speculate body next ihbody ihnext => exact ⟨ihbody () h.1, fun b => ihnext b (h.2 b)⟩
  | attempt body next ihbody ihnext =>
      refine ⟨ihbody () h.1, fun a b hab => h.2.1 a b ?_, fun b => ihnext b (h.2.2 b)⟩
      -- an attempt answers on both sides or fails on both, since `hab` tells the two kinds apart
      cases a with
      | error e =>
          cases b with
          | error e' => trivial
          | ok b => cases hab
      | ok a =>
          cases b with
          | error e' => cases hab
          | ok b => exact Except.ok.inj hab

end Recognizer

end TreeProjection
