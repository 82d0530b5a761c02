import Mathlib.Data.List.Forall2
import TreeProjection.Proofs.Lockstep
import TreeProjection.Proofs.Projecting

/-! # Projections side by side

Two hosts that are told the same do the same, as far as a projection can tell, if what they tell of themselves is the
same, and if the offsets at which errors are looked up in one of them are paired off with those in the other.  A
projection looks at nothing else.

* `PairedOff` — offsets in two sources that belong together.
* `Supervised.Alongside` — hosts that do the same when they are told the same.
* `Projector.Beside` — the states of projections onto such hosts.
* `Projector.Parallel` — actions that do the same from there.
* `Session.parallel_layOut` — the second half of a projection. -/

namespace TreeProjection

variable {α β β' τ τ' : Type}

/-! ## Offsets that belong together -/

/-- **Offsets in two sources are paired off**: as soon as two of them are the same in one source, those that they are
paired with are the same in the other one. -/
def PairedOff (pair : Nat → Nat → Prop) : Prop :=
  ∀ ⦃a a' b b' : Nat⦄, pair a a' → pair b b' → (a = b ↔ a' = b')

/-- Each offset on its own. -/
theorem pairedOff_eq : PairedOff Eq := by
  rintro a _ b _ rfl rfl
  exact Iff.rfl

/-- **Two tokens side by side**: a sketch shows the same, and unless they are made up, they stand at offsets that are
paired. -/
structure Token.Beside (d : Detail) (pair : Nat → Nat → Prop) (t t' : Token) : Prop where
  /-- A sketch shows the same. -/
  sketch : t.sketch d = t'.sketch d
  /-- The offsets are paired. -/
  offset : t.isConjured = false → pair (t.start?.getD 0) (t'.start?.getD 0)

/-- Each token is beside itself. -/
theorem Token.Beside.refl (d : Detail) (t : Token) : Token.Beside d Eq t t := ⟨rfl, fun _ => rfl⟩

/-- **The errors of two parses side by side**, as far as a projection looks them up. -/
structure ErrorIndex.Beside (pair : Nat → Nat → Prop) (x x' : ErrorIndex) : Prop where
  /-- At paired offsets there are the same texts. -/
  messagesAt? : ∀ {o o' : Nat}, pair o o' → x.messagesAt? o = x'.messagesAt? o'
  /-- Each exception has the same text. -/
  message : ∀ id, (x.forException? id).map SyntaxError.message = (x'.forException? id).map SyntaxError.message

/-- The errors of a parse are beside themselves. -/
theorem ErrorIndex.Beside.refl (x : ErrorIndex) : Beside Eq x x where
  messagesAt? h := congrArg x.messagesAt? h
  message _ := rfl

/-- The offsets in one list are found there where those that they are paired with are found in the other one. -/
theorem PairedOff.contains_iff {pair : Nat → Nat → Prop} (h : PairedOff pair) {spent spent' : List Nat}
    (hspent : List.Forall₂ pair spent spent') {o o' : Nat} (ho : pair o o') :
    spent.contains o = spent'.contains o' := by
  induction hspent with
  | nil => rfl
  | @cons a a' as as' ha _ ih =>
      have heq : (o == a) = (o' == a') := by
        rw [Bool.eq_iff_iff, beq_iff_eq, beq_iff_eq]
        exact h ho ha
      rw [List.contains_cons, List.contains_cons, heq, ih]

/-- The text for a rule that an exception ended does not depend on anything but the number of the exception. -/
theorem ErrorIndex.Beside.failureMessage {pair : Nat → Nat → Prop} {x x' : ErrorIndex} (h : x.Beside pair x')
    {e e' : RecognitionException} (hid : e.id = e'.id) :
    Projector.failureMessage x e = Projector.failureMessage x' e' := by
  unfold Projector.failureMessage
  rw [h.message, hid]

/-- **Rules of one sketch** have not been ended by an exception, or by exceptions of the same number. -/
theorem RuleNode.exception_of_sketch {d : Detail} {r r' : RuleNode} (h : r.sketch d = r'.sketch d) :
    (r.exception = none ∧ r'.exception = none) ∨
      ∃ e e', r.exception = some e ∧ r'.exception = some e' ∧ e.id = e'.id := by
  have hids := RuleNode.congr_sketch (fun r => r.exception.map (·.id))
    (fun r => by cases he : r.exception <;> simp [RuleNode.sketch, he, RecognitionException.sketch]) h
  cases he : r.exception with
  | none =>
      rw [he] at hids
      exact .inl ⟨rfl, Option.map_eq_none_iff.mp hids.symm⟩
  | some e =>
      rw [he] at hids
      obtain ⟨e', he', hid⟩ := Option.map_eq_some_iff.mp hids.symm
      exact .inr ⟨e, e', rfl, he', hid.symm⟩

/-- **Two nodes side by side.** Only the tokens of error leaves are looked up by their offsets. -/
inductive ParseNode.Beside (d : Detail) (pair : Nat → Nat → Prop) : ParseNode → ParseNode → Prop where
  /-- Rules. -/
  | rule {r r' : RuleNode} (h : r.sketch d = r'.sketch d) : Beside d pair (.rule r) (.rule r')
  /-- Tokens that were matched. -/
  | terminal {t t' : Token} (h : t.sketch d = t'.sketch d) : Beside d pair (.terminal t) (.terminal t')
  /-- Error leaves. -/
  | error {t t' : Token} (h : t.Beside d pair t') : Beside d pair (.error t) (.error t')

/-- **Two parse trees side by side**, node by node. -/
structure ParseTree.Beside (d : Detail) (pair : Nat → Nat → Prop) (t t' : ParseTree) : Prop where
  /-- The roots have the same number. -/
  root : t.root = t'.root
  /-- There are as many nodes. -/
  size : t.size = t'.size
  /-- Nodes of the same number are side by side. -/
  nodes : ∀ id : Nat, Option.Rel (ParseNode.Beside d pair) t.nodes[id]? t'.nodes[id]?

/-- Nodes of the same number are side by side. -/
theorem ParseTree.Beside.node {d : Detail} {pair : Nat → Nat → Prop} {t t' : ParseTree} (h : t.Beside d pair t')
    {id : Nat} {n n' : ParseNode} (hn : t.nodes[id]? = some n) (hn' : t'.nodes[id]? = some n') :
    n.Beside d pair n' := by
  have hnodes := h.nodes id
  rw [hn, hn'] at hnodes
  cases hnodes with
  | some hnode => exact hnode

/-- Each parse tree is beside itself. -/
theorem ParseTree.Beside.refl (d : Detail) (t : ParseTree) : Beside d Eq t t where
  root := rfl
  size := rfl
  nodes id := by
    cases t.nodes[id]? with
    | none => exact .none
    | some n =>
        refine .some ?_
        cases n with
        | rule r => exact .rule rfl
        | terminal token => exact .terminal rfl
        | error token => exact .error (.refl d token)

/-! ## Hosts side by side -/

/-- **Outcomes that agree**: both refuse for the same reason, or both answer, and the answers are related. -/
def Agreeing {ε : Type} (rel : α → β → Prop) : Except ε α → Except ε β → Prop
  | .ok a, .ok b => rel a b
  | .error e, .error e' => e = e'
  | _, _ => False

/-- Outcomes that agree without anything being left out are the same. -/
theorem eq_of_agreeing {ε : Type} {o o' : Except ε α} (h : Agreeing Eq o o') : o = o' := by
  rcases o with e | a <;> rcases o' with e' | a'
  · exact congrArg Except.error h
  · exact h.elim
  · exact h.elim
  · exact congrArg Except.ok h

/-- **Hosts that do the same when they are told the same**, unless the first is called off and that is lost. -/
structure Supervised.Alongside [TreeBuilder β τ] [TreeBuilder β' τ'] (lost : Abort → Prop)
    (rel : Supervised β → Supervised β' → Prop) : Prop where
  /-- They open the same region. -/
  mark : ∀ {s t}, rel s t → s.mark.1 = t.mark.1 ∧ rel s.mark.2 t.mark.2
  /-- They close a region as a node, or both refuse to. -/
  done : ∀ {s t}, rel s t → ∀ marker kind, Agreeing rel (s.done marker kind) (t.done marker kind)
  /-- They close a region as an error element, or both refuse to. -/
  error : ∀ {s t}, rel s t → ∀ marker message, Agreeing rel (s.error marker message) (t.error marker message)
  /-- They drop a region, or both refuse to. -/
  rollback : ∀ {s t}, rel s t → ∀ marker, Agreeing rel (s.rollback marker) (t.rollback marker)
  /-- They pass a token. -/
  advance : ∀ {s t}, rel s t → rel s.advance t.advance
  /-- They have the same kinds. -/
  elements : ∀ {s t}, rel s t → s.elements = t.elements
  /-- They come to the end together. -/
  atEnd : ∀ {s t}, rel s t → TreeBuilder.atEnd s.builder = TreeBuilder.atEnd t.builder
  /-- As many tokens are still to come. -/
  remaining : ∀ {s t}, rel s t → TreeBuilder.remaining s.builder = TreeBuilder.remaining t.builder
  /-- They are called off together, or calling off the first one is lost. -/
  cancelled : ∀ {s t}, rel s t → s.cancelled = t.cancelled ∨
    (s.cancelled = true ∧ lost (.error .cancelled))

/-- What is made of an outcome agrees with it. -/
theorem agreeing_map {ε : Type} (f : α → β) (o : Except ε α) : Agreeing (fun a b => b = f a) o (o.map f) := by
  cases o <;> rfl

/-! ## Actions of projections side by side -/

namespace Projector

variable {d : Detail} {pair : Nat → Nat → Prop} {lost : Abort → Prop}
  {rel : Supervised β → Supervised β' → Prop}

/-- **The states of two projections side by side.** -/
structure Beside (d : Detail) (pair : Nat → Nat → Prop) (rel : Supervised β → Supervised β' → Prop)
    (p : Projector β) (q : Projector β') : Prop where
  /-- The hosts are related. -/
  host : rel p.host q.host
  /-- The errors are side by side. -/
  errors : p.errors.Beside pair q.errors
  /-- The same regions are open for rules. -/
  markers : p.markers = q.markers
  /-- The offsets whose errors have been placed are paired. -/
  spent : List.Forall₂ pair p.spent q.spent
  /-- The counts are the same. -/
  stats : p.stats = q.stats
  /-- A sketch of the steps shows the same. -/
  events : p.events.map (·.sketch d) = q.events.map (·.sketch d)

/-- Two things to be done during replays side by side. -/
inductive Visit.Beside (d : Detail) : Visit → Visit → Prop where
  /-- Nodes of the same number are replayed. -/
  | enter (id : Nat) : Beside d (.enter id) (.enter id)
  /-- The regions of two rules are closed. -/
  | exit {r r' : RuleNode} (h : r.sketch d = r'.sketch d) : Beside d (.exit r) (.exit r')

/-- A full sketch of the steps shows that they are the same. -/
theorem Beside.events_eq {p : Projector β} {q : Projector β'} (h : Beside .full pair rel p q) :
    p.events = q.events := by
  simpa using h.events

/-- **Two actions that do the same** from states side by side. -/
abbrev Parallel (d : Detail) (pair : Nat → Nat → Prop) (lost : Abort → Prop)
    (rel : Supervised β → Supervised β' → Prop) (x : ProjectorM β α) (y : ProjectorM β' α) : Prop :=
  TreeProjection.Parallel (fun _ => False) lost (Beside d pair rel) id id x y

/-- Looking at the states. -/
theorem parallel_get {f : Projector β → ProjectorM β α} {g : Projector β' → ProjectorM β' α}
    (h : ∀ p q, Beside d pair rel p q → Parallel d pair lost rel (f p) (g q)) :
    Parallel d pair lost rel (get >>= f) (get >>= g) where
  stays _ h := h.elim
  keeps p q hpq := (h p q hpq).keeps p q hpq

/-- Changing the states. -/
theorem parallel_modify {f : Projector β → Projector β} {g : Projector β' → Projector β'}
    (h : ∀ p q, Beside d pair rel p q → Beside d pair rel (f p) (g q)) :
    Parallel d pair lost rel (modify f) (modify g) where
  stays _ h := h.elim
  keeps p q hpq := .inr ⟨rfl, h p q hpq⟩

/-- An answer that only a broken contract can keep from being given. -/
theorem parallel_orBroken (x : Except Violation α) :
    Parallel d pair lost rel (orBroken x) (orBroken x) := by
  cases x with
  | ok a => exact .pure rfl
  | error v => exact .throw rfl

/-- What may be refused by the hosts, and changes nothing else. -/
theorem parallel_host {act : Supervised β → Except Violation (Supervised β)}
    {act' : Supervised β' → Except Violation (Supervised β')}
    (h : ∀ {s t}, rel s t → Agreeing rel (act s) (act' t)) :
    Parallel d pair lost rel
      (do
        let p ← get
        let host ← orBroken (act p.host)
        set { p with host })
      (do
        let p ← get
        let host ← orBroken (act' p.host)
        set { p with host }) := by
  refine ⟨fun _ h => h.elim, fun p q hpq => ?_⟩
  have hact := h hpq.host
  rw [ends_get_bind]
  simp only [ends_get_bind]
  -- the hosts agree on whether they refuse, so one refusing and the other not contradicts `hact`
  cases hp : act p.host with
  | ok s =>
      cases hq : act' q.host with
      | ok t =>
          rw [hp, hq] at hact
          exact .inr ⟨rfl, { hpq with host := hact }⟩
      | error v =>
          rw [hp, hq] at hact
          exact hact.elim
  | error v =>
      cases hq : act' q.host with
      | ok t =>
          rw [hp, hq] at hact
          exact hact.elim
      | error v' =>
          rw [hp, hq] at hact
          obtain rfl : v = v' := hact
          exact .inr ⟨rfl, hpq⟩

/-- Writing a step down. -/
theorem parallel_tell {e e' : ProjectionEvent} (he : e.sketch d = e'.sketch d) :
    Parallel d pair lost rel (tell e) (tell e') :=
  parallel_modify fun _ _ hpq => { hpq with events := by rw [Array.map_push, Array.map_push, hpq.events, he] }

/-- Changing the counts. -/
theorem parallel_count (f : ProjectionStats → ProjectionStats) :
    Parallel d pair lost rel (count f) (count f) :=
  parallel_modify fun _ _ hpq => { hpq with stats := congrArg f hpq.stats }

section

variable [TreeBuilder β τ] [TreeBuilder β' τ'] (hhosts : Supervised.Alongside lost rel)

include hhosts

/-- Looking at the flags. -/
theorem parallel_checkCancelled : Parallel d pair lost rel checkCancelled checkCancelled := by
  refine ⟨fun _ h => h.elim, fun p q hpq => ?_⟩
  unfold checkCancelled
  rw [ends_get_bind]
  simp only [ends_get_bind]
  rcases hhosts.cancelled hpq.host with hsame | ⟨hcancelled, hlost⟩
  · rw [hsame]
    cases q.host.cancelled with
    | true => exact .inr ⟨rfl, hpq⟩
    | false => exact .inr ⟨rfl, hpq⟩
  · rw [hcancelled]
    exact .inl (.inr ⟨_, rfl, hlost⟩)

/-- Opening a region. -/
theorem parallel_mark : Parallel d pair lost rel mark mark := by
  refine ⟨fun _ h => h.elim, fun p q hpq => ?_⟩
  obtain ⟨hmarker, hmarked⟩ := hhosts.mark hpq.host
  exact .inr ⟨congrArg Except.ok hmarker, { hpq with host := hmarked }⟩

/-- Closing a region as a node. -/
theorem parallel_done (marker : Nat) (kind : Kind) :
    Parallel d pair lost rel (done marker kind) (done marker kind) :=
  parallel_host fun h => hhosts.done h marker kind

/-- Closing a region as an error element. -/
theorem parallel_error (marker : Nat) (message : String) :
    Parallel d pair lost rel (error marker message) (error marker message) :=
  parallel_host fun h => hhosts.error h marker message

/-- Passing the token of a leaf. -/
theorem parallel_advance {t t' : Token} (ht : t.sketch d = t'.sketch d) :
    Parallel d pair lost rel (advance t) (advance t') := by
  have heof : t.isEof = t'.isEof := Token.congr_sketch Token.isEof (fun _ => rfl) ht
  refine .ite (by rw [heof]) (.pure rfl) ?_
  refine .bind (parallel_modify fun p q hpq => ?_) fun _ => parallel_count _
  exact { hpq with host := hhosts.advance hpq.host }

/-- Opening the region of a rule. -/
theorem parallel_enterRule {r r' : RuleNode} (hr : r.sketch d = r'.sketch d) :
    Parallel d pair lost rel (enterRule r) (enterRule r') := by
  have hrule : r.rule = r'.rule := RuleNode.congr_sketch RuleNode.rule (fun _ => rfl) hr
  refine (parallel_checkCancelled hhosts).bind fun _ => (parallel_mark hhosts).bind fun marker => ?_
  refine .bind (parallel_modify fun p q hpq => ?_) fun _ => (parallel_count _).bind fun _ => ?_
  · exact { hpq with markers := congrArg _ hpq.markers }
  · rw [hrule]
    exact parallel_tell rfl

/-- Closing the region of a rule. -/
theorem parallel_exitRule {r r' : RuleNode} (hr : r.sketch d = r'.sketch d) :
    Parallel d pair lost rel (exitRule r) (exitRule r') := by
  have hrule : r.rule = r'.rule := RuleNode.congr_sketch RuleNode.rule (fun _ => rfl) hr
  refine (parallel_checkCancelled hhosts).bind fun _ => parallel_get fun p q hpq => ?_
  rw [hpq.markers, hrule]
  cases q.markers with
  | nil => exact .throw rfl
  | cons marker rest =>
      refine .bind (parallel_modify fun p q hpq => { hpq with markers := rfl }) fun _ => ?_
      -- both rules were ended by an exception, or neither was
      rcases RuleNode.exception_of_sketch hr with ⟨he, he'⟩ | ⟨e, e', he, he', hid⟩
      · rw [he, he']
        refine parallel_get fun p q hpq => ?_
        rw [hhosts.elements hpq.host]
        refine (parallel_orBroken _).bind fun kind => (parallel_done hhosts _ _).bind fun _ => ?_
        exact (parallel_count _).bind fun _ => parallel_tell rfl
      · rw [he, he']
        refine parallel_get fun p q hpq => ?_
        rw [hpq.errors.failureMessage hid]
        refine (parallel_error hhosts _ _).bind fun _ => ?_
        exact (parallel_count _).bind fun _ => parallel_tell rfl

/-- Replaying a matched token. -/
theorem parallel_terminal {t t' : Token} (ht : t.sketch d = t'.sketch d) :
    Parallel d pair lost rel (terminal t) (terminal t') :=
  (parallel_advance hhosts ht).bind fun _ => parallel_tell (congrArg ProjectionEvent.advance ht)

/-- Replaying an error leaf. -/
theorem parallel_errorLeaf (hpair : PairedOff pair) {t t' : Token} (ht : t.Beside d pair t') :
    Parallel d pair lost rel (errorLeaf t) (errorLeaf t') := by
  have hconjured : t.isConjured = t'.isConjured := Token.congr_sketch Token.isConjured (fun _ => rfl) ht.sketch
  have htext : t.text = t'.text := Token.congr_sketch Token.text (fun _ => rfl) ht.sketch
  have htell : ∀ message, (ProjectionEvent.errorLeaf t message).sketch d =
      (ProjectionEvent.errorLeaf t' message).sketch d := fun message =>
    congrArg (ProjectionEvent.errorLeaf · message) ht.sketch
  unfold errorLeaf
  rw [hconjured, htext]
  by_cases hmade : t'.isConjured = true
  · rw [if_pos hmade, if_pos hmade]
    refine (parallel_mark hhosts).bind fun marker => (parallel_error hhosts _ _).bind fun _ => ?_
    exact (parallel_count _).bind fun _ => parallel_tell (htell _)
  · have hoffset := ht.offset (by rw [hconjured]; exact Bool.eq_false_iff.mpr hmade)
    rw [if_neg hmade, if_neg hmade]
    refine parallel_get fun p q hpq => ?_
    -- the errors at the two offsets are the same, and if they have been placed, then on both sides
    rw [hpair.contains_iff hpq.spent hoffset, hpq.errors.messagesAt? hoffset]
    cases (if q.spent.contains (t'.start?.getD 0) then none
        else q.errors.messagesAt? (t'.start?.getD 0)) with
    | some message =>
        refine (parallel_mark hhosts).bind fun marker => (parallel_advance hhosts ht.sketch).bind fun _ => ?_
        refine (parallel_error hhosts _ _).bind fun _ => .bind (parallel_modify fun p q hpq => ?_) fun _ => ?_
        · exact { hpq with spent := .cons hoffset hpq.spent }
        · exact (parallel_count _).bind fun _ => parallel_tell (htell _)
    | none => exact (parallel_advance hhosts ht.sketch).bind fun _ => parallel_tell (htell _)

/-- Replaying what is on two stacks. -/
theorem parallel_replayStack (hpair : PairedOff pair) {tree tree' : ParseTree} (htree : tree.Beside d pair tree')
    (fuel : Nat) {stack stack' : List Visit} (hstack : List.Forall₂ (Visit.Beside d) stack stack') :
    Parallel d pair lost rel (replayStack tree fuel stack) (replayStack tree' fuel stack') := by
  -- induction on the fuel: what is on top of the stacks is replayed alike, and the rest stays in step
  induction fuel generalizing stack stack' with
  | zero =>
      cases hstack with
      | nil => exact .pure rfl
      | cons _ _ => exact .throw rfl
  | succ fuel ih =>
      cases hstack with
      | nil => exact .pure rfl
      | cons hv hrest =>
          cases hv with
          | exit hr => exact (parallel_exitRule hhosts hr).bind fun _ => ih hrest
          | enter id =>
              have hnode := htree.nodes id
              unfold replayStack
              generalize tree.nodes[id]? = node, tree'.nodes[id]? = node' at hnode ⊢
              cases hnode with
              | none => exact .throw rfl
              | some hn =>
                  cases hn with
                  | @rule r r' hr =>
                      have hchildren : r.children = r'.children :=
                        RuleNode.congr_sketch RuleNode.children (fun _ => rfl) hr
                      -- a rule puts its children on the stack, and these are the same in both trees
                      refine (parallel_enterRule hhosts hr).bind fun _ => ih ?_
                      rw [hchildren]
                      refine List.rel_append ?_ (.cons (.exit hr) hrest)
                      rw [List.forall₂_map_left_iff, List.forall₂_map_right_iff, List.forall₂_same]
                      exact fun id _ => .enter id
                  | terminal ht => exact (parallel_terminal hhosts ht).bind fun _ => ih hrest
                  | error ht => exact (parallel_errorLeaf hhosts hpair ht).bind fun _ => ih hrest

/-- **Replaying two trees side by side.** -/
theorem parallel_replay (hpair : PairedOff pair) {tree tree' : ParseTree} (htree : tree.Beside d pair tree') :
    Parallel d pair lost rel (replay tree) (replay tree') := by
  unfold replay
  rw [htree.root, htree.size]
  cases tree'.root with
  | none => exact .pure rfl
  | some root =>
      refine (parallel_replayStack hhosts hpair htree _ (.cons (.enter root) .nil)).bind fun _ =>
        parallel_get fun p q hpq => ?_
      rw [hpq.markers]
      exact .ite Iff.rfl (.pure rfl) (.throw rfl)

end

end Projector

/-! ## The second half of a projection -/

namespace Session

open Projector

variable [TreeBuilder β τ] [TreeBuilder β' τ'] {d : Detail} {pair : Nat → Nat → Prop} {lost : Abort → Prop}
  {rel : Supervised β → Supervised β' → Prop} (hhosts : Supervised.Alongside lost rel)

include hhosts

/-- Passing the tokens that are left. -/
theorem parallel_drain (fuel passed : Nat) :
    Projector.Parallel d pair lost rel (drain fuel passed) (drain fuel passed) := by
  induction fuel generalizing passed with
  | zero => exact .pure rfl
  | succ fuel ih =>
      refine parallel_get fun p q hpq => .ite (by rw [hhosts.atEnd hpq.host]) (.pure rfl) ?_
      refine (parallel_checkCancelled hhosts).bind fun _ => .bind (parallel_modify fun p q hpq => ?_) fun _ => ih _
      exact { hpq with host := hhosts.advance hpq.host }

/-- **All of the second half of a projection** but handing over the tree. -/
theorem parallel_layOut (hpair : PairedOff pair) (snapshot : Nat) (root : Kind) {tree tree' : ParseTree}
    (htree : tree.Beside d pair tree') :
    Projector.Parallel d pair lost rel (layOut snapshot root tree) (layOut snapshot root tree') := by
  refine .bind (parallel_host fun h => hhosts.rollback h snapshot) fun _ => ?_
  refine (parallel_mark hhosts).bind fun marker => (parallel_replay hhosts hpair htree).bind fun _ => ?_
  refine parallel_get fun p q hpq => ?_
  rw [hhosts.remaining hpq.host]
  refine (parallel_drain hhosts _ 0).bind fun drained => (parallel_tell rfl).bind fun _ => ?_
  exact (parallel_count _).bind fun _ => parallel_done hhosts _ _

end Session

end TreeProjection
