import TreeProjection.Proofs.Arena
import TreeProjection.Proofs.Buffered
import TreeProjection.Recognition.Recognizer

/-! # The course of a parse

What a parse does that can be seen from outside is a sequence of deeds: it reports a syntax error, adds a leaf to the
tree, or marks a rule with the exception that it has failed with.  A `Course` tells the deeds of an action in the order
in which they are done: it takes the action apart the way it was put together, down to parts that do one thing or
nothing.

* `Parser.Ledger` — what reports and the tree amount to; a `Deed` is entered there.
* `Parser.Course` — the deeds of an action, one after the other.
* `Parser.Tells` — how an action ends, and by which deeds it has come there.
* `Parser.Idle` — nothing has been done; `Recognizer.Ordinary.ends_idle` — nothing is done on trial. -/

namespace TreeProjection

variable {σ α β : Type}

/-! ## Leaves and exceptions of a tree -/

/-- The token of a leaf, and whether it was matched. -/
def ParseNode.leaf? : ParseNode → Option (Bool × Token)
  | rule _ => none
  | terminal t => some (true, t)
  | error t => some (false, t)

/-- The exception that a rule is marked with. -/
def ParseNode.exception? : ParseNode → Option RecognitionException
  | rule r => r.exception
  | _ => none

namespace ParseNode.View

mutual

/-- What is taken from the nodes of a tree, each before those below it. -/
def collect {γ : Type} (g : ParseNode → Option γ) : ParseNode.View → List γ
  | rule r children => (g (.rule r)).toList ++ collectAll g children
  | terminal t => (g (.terminal t)).toList
  | error t => (g (.error t)).toList

/-- What is taken from the nodes of several trees. -/
def collectAll {γ : Type} (g : ParseNode → Option γ) : List ParseNode.View → List γ
  | [] => []
  | v :: rest => collect g v ++ collectAll g rest

end

mutual

/-- The leaves of a tree are taken from its nodes. -/
theorem collect_leaf : ∀ v : ParseNode.View, v.collect ParseNode.leaf? = v.leaves
  | rule _ children => collectAll_leaf children
  | terminal _ => rfl
  | error _ => rfl

/-- The leaves of several trees are taken from their nodes. -/
theorem collectAll_leaf : ∀ vs : List ParseNode.View, collectAll ParseNode.leaf? vs = leavesOf vs
  | [] => rfl
  | v :: rest => by rw [collectAll, leavesOf, collect_leaf v, collectAll_leaf rest]

end

@[simp] theorem collectAll_append {γ : Type} (g : ParseNode → Option γ) (vs ws : List ParseNode.View) :
    collectAll g (vs ++ ws) = collectAll g vs ++ collectAll g ws := by
  induction vs with
  | nil => rfl
  | cons v vs ih => simp [collectAll, ih]

/-- Error leaves are marked with no exception. -/
theorem collectAll_exception_errors {vs : List ParseNode.View} (h : ∀ v ∈ vs, ∃ t, v = .error t) :
    collectAll ParseNode.exception? vs = [] := by
  induction vs with
  | nil => rfl
  | cons v vs ih =>
      obtain ⟨t, rfl⟩ := h v List.mem_cons_self
      exact ih fun w hw => h w (List.mem_cons_of_mem _ hw)

end ParseNode.View

namespace ParseTree

/-- The leaves in the order in which they were added; the flag tells which were matched. -/
def leaves (t : ParseTree) : List (Bool × Token) := t.nodes.toList.filterMap ParseNode.leaf?

/-- The exceptions that rules are marked with. -/
def exceptions (t : ParseTree) : List RecognitionException := t.nodes.toList.filterMap ParseNode.exception?

/-- What is taken from a list is the same if the change of an element makes no difference to it. -/
theorem filterMap_modify {γ : Type} {g : α → Option γ} {f : α → α} (h : ∀ a, g (f a) = g a) :
    ∀ (l : List α) (n : Nat), (l.modify n f).filterMap g = l.filterMap g
  | [], n => by simp
  | a :: l, 0 => by simp [List.filterMap_cons, h]
  | a :: l, n + 1 => by simp [List.filterMap_cons, filterMap_modify h l n]

/-- What is taken from the nodes of a tree is the same if the change of a rule makes no difference to it. -/
theorem filterMap_modifyRule {γ : Type} {g : ParseNode → Option γ} {f : RuleNode → RuleNode}
    (h : ∀ r, g (.rule (f r)) = g (.rule r)) (t : ParseTree) (n : Nat) :
    (t.modifyRule n f).nodes.toList.filterMap g = t.nodes.toList.filterMap g := by
  simp only [modifyRule, Array.toList_modify]
  refine filterMap_modify (fun node => ?_) _ n
  cases node with
  | rule r => exact h r
  | terminal token => rfl
  | error token => rfl

/-- What is taken from the nodes of a tree once a node has been added. -/
theorem filterMap_push {γ : Type} {g : ParseNode → Option γ}
    (h : ∀ (r : RuleNode) (children : Array Nat), g (.rule { r with children }) = g (.rule r))
    (t : ParseTree) (parent : Option Nat) (node : ParseNode) :
    (t.push parent node).2.nodes.toList.filterMap g =
      t.nodes.toList.filterMap g ++ (g node).toList := by
  have hpushed : (t.nodes.push node).toList.filterMap g =
      t.nodes.toList.filterMap g ++ (g node).toList := by
    rw [Array.toList_push, List.filterMap_append]
    cases hg : g node <;> simp [hg]
  unfold push
  cases parent.filter t.isRuleAt with
  | none => exact hpushed
  | some c =>
      refine (filterMap_modifyRule (fun r => ?_) _ c).trans hpushed
      exact h r _

/-- A rule is changed, but not its exception. -/
theorem leaves_modifyRule (t : ParseTree) (n : Nat) (f : RuleNode → RuleNode) :
    (t.modifyRule n f).leaves = t.leaves :=
  filterMap_modifyRule (g := ParseNode.leaf?) (f := f) (fun _ => rfl) t n

/-- A rule is changed, but not its exception. -/
theorem exceptions_modifyRule {f : RuleNode → RuleNode} (h : ∀ r, (f r).exception = r.exception)
    (t : ParseTree) (n : Nat) : (t.modifyRule n f).exceptions = t.exceptions :=
  filterMap_modifyRule h t n

/-- A node is added. -/
theorem leaves_push (t : ParseTree) (parent : Option Nat) (node : ParseNode) :
    (t.push parent node).2.leaves = t.leaves ++ node.leaf?.toList :=
  filterMap_push (fun _ _ => rfl) t parent node

/-- A node is added. -/
theorem exceptions_push (t : ParseTree) (parent : Option Nat) (node : ParseNode) :
    (t.push parent node).2.exceptions = t.exceptions ++ node.exception?.toList :=
  filterMap_push (fun _ _ => rfl) t parent node

/-- A row of nodes that begins with a node. -/
theorem take_drop_of_getElem? {l : List α} {i : Nat} {a : α} (h : l[i]? = some a) (n : Nat) :
    (l.drop i).take (n + 1) = a :: (l.drop (i + 1)).take n := by
  obtain ⟨hi, rfl⟩ := List.getElem?_eq_some_iff.mp h
  rw [List.drop_eq_getElem_cons hi, List.take_succ_cons]

open ParseNode (View) in
mutual

/-- What is taken from the nodes that hold a tree is what is taken from the tree. -/
theorem Shows.collect {γ : Type} {t : ParseTree} (g : ParseNode → Option γ) :
    ∀ (v : View) (lo : Nat), t.Shows lo v →
      ((t.nodes.toList.drop lo).take v.size).filterMap g = v.collect g
  | .rule r children, lo, h => by
      have hnode := Array.getElem?_toList.trans h.1
      have hinside := ShowsAll.collect g children (lo + 1) h.2.2
      rw [View.size, take_drop_of_getElem? hnode, View.collect, ← hinside, List.filterMap_cons]
      cases g (.rule r) <;> rfl
  | .terminal token, lo, h => by
      have hnode := Array.getElem?_toList.trans h
      rw [View.size, take_drop_of_getElem? hnode, View.collect, List.filterMap_cons]
      cases g (.terminal token) <;> rfl
  | .error token, lo, h => by
      have hnode := Array.getElem?_toList.trans h
      rw [View.size, take_drop_of_getElem? hnode, View.collect, List.filterMap_cons]
      cases g (.error token) <;> rfl

/-- What is taken from the nodes that hold several trees is what is taken from the trees. -/
theorem ShowsAll.collect {γ : Type} {t : ParseTree} (g : ParseNode → Option γ) :
    ∀ (vs : List View) (lo : Nat), t.ShowsAll lo vs →
      ((t.nodes.toList.drop lo).take (View.sizes vs)).filterMap g = View.collectAll g vs
  | [], _, _ => rfl
  | v :: rest, lo, h => by
      rw [View.sizes, List.take_add, List.filterMap_append, Shows.collect g v lo h.1, List.drop_drop,
        ShowsAll.collect g rest _ h.2, View.collectAll]

end

/-- What is taken from the nodes of a whole tree is what is taken from the tree that it is seen as. -/
theorem collect_of_shows {γ : Type} {t : ParseTree} {v : ParseNode.View} (h : t.Shows 0 v)
    (hsize : t.size = v.size) (g : ParseNode → Option γ) : t.nodes.toList.filterMap g = v.collect g := by
  have hall : t.nodes.toList.take t.size = t.nodes.toList :=
    List.take_of_length_le (Nat.le_of_eq Array.length_toList)
  have hcollect := Shows.collect g v 0 h
  rwa [← hsize, List.drop_zero, hall] at hcollect

/-- **The leaves of a whole tree** are those of the tree that it is seen as. -/
theorem leaves_of_shows {t : ParseTree} {v : ParseNode.View} (h : t.Shows 0 v) (hsize : t.size = v.size) :
    t.leaves = v.leaves :=
  (collect_of_shows h hsize _).trans v.collect_leaf

end ParseTree

/-! ## Deeds -/

namespace Parser

/-- **What a parse amounts to**, as far as it can be seen from outside. -/
structure Ledger where
  /-- How many listeners hear of errors. -/
  listeners : Nat
  /-- How many syntax errors have been found. -/
  errors : Nat
  /-- How many reports have been heard. -/
  heard : Nat
  /-- The leaves of the tree. -/
  leaves : List (Bool × Token)
  /-- The exceptions that rules are marked with. -/
  exceptions : List RecognitionException

/-- The ledger of a parser. -/
def ledger (p : Parser σ) : Ledger :=
  ⟨p.listeners, p.syntaxErrors, p.reports.length, p.tree.leaves, p.tree.exceptions⟩

/-- **Something that a parse does** and that can be seen from outside. -/
inductive Deed where
  /-- A syntax error is reported. -/
  | reported
  /-- A leaf is added to the tree; the flag tells whether its token was matched. -/
  | leaf (matched : Bool) (t : Token)
  /-- A rule is marked with the exception that it has failed with. -/
  | marked
  deriving DecidableEq, Repr

namespace Deed

/-- The leaf that a deed adds. -/
def leaf? : Deed → Option (Bool × Token)
  | leaf matched t => some (matched, t)
  | _ => none

/-- **How a ledger goes on after a deed.** Which exceptions there are after a rule has been marked is left open. -/
inductive Enters : Deed → Ledger → Ledger → Prop where
  /-- One more error has been found, and the listeners have heard of it, if there are any. -/
  | reported (l : Ledger) : Enters .reported l
      { l with errors := l.errors + 1, heard := l.heard + if 0 < l.listeners then 1 else 0 }
  /-- There is one more leaf. -/
  | leaf (l : Ledger) (matched : Bool) (t : Token) :
      Enters (.leaf matched t) l { l with leaves := l.leaves ++ [(matched, t)] }
  /-- There may be one more exception. -/
  | marked (l : Ledger) (exceptions : List RecognitionException) :
      Enters .marked l { l with exceptions }

end Deed

/-- **The course of an action**: the deeds by which it has come from one state to another, one after the other.  It is
found by taking the action apart the way it was put together, down to actions that do one thing or nothing. -/
inductive Course : {α : Type} → ParserM σ α → Parser σ → List Deed → Except Interrupt α → Parser σ → Prop where
  /-- Nothing has been done. -/
  | idle {α : Type} {x : ParserM σ α} {p q : Parser σ} {o : Except Interrupt α}
    (ends : Ends x p fun o' q' => o' = o ∧ q' = q) (same : q.ledger = p.ledger) : Course x p [] o q
  /-- One thing has been done. -/
  | deed {α : Type} {x : ParserM σ α} {p q : Parser σ} {o : Except Interrupt α} {d : Deed}
    (ends : Ends x p fun o' q' => o' = o ∧ q' = q) (enters : d.Enters p.ledger q.ledger) :
    Course x p [d] o q
  /-- One action has answered, and then the other one has gone on. -/
  | seq {α β : Type} {x : ParserM σ α} {f : α → ParserM σ β} {p q r : Parser σ} {ds ds' : List Deed}
    {a : α} {o : Except Interrupt β} (first : Course x p ds (.ok a) q) (next : Course (f a) q ds' o r) :
    Course (x >>= f) p (ds ++ ds') o r
  /-- The first action has failed. -/
  | stop {α β : Type} {x : ParserM σ α} {f : α → ParserM σ β} {p q : Parser σ} {ds : List Deed}
    {i : Interrupt} (first : Course x p ds (.error i) q) : Course (x >>= f) p ds (.error i) q
  /-- An action has been observed. -/
  | observed {α : Type} {x : ParserM σ α} {p q : Parser σ} {ds : List Deed} {o : Except Interrupt α}
    (course : Course x p ds o q) : Course (observe x) p ds (.ok o) q

/-- **What several deeds come to**, one after the other. -/
inductive Tallied : List Deed → Ledger → Ledger → Prop where
  /-- There are none. -/
  | nil (l : Ledger) : Tallied [] l l
  /-- There is one, and then there are others. -/
  | cons {d : Deed} {ds : List Deed} {l m n : Ledger} (first : d.Enters l m) (rest : Tallied ds m n) :
    Tallied (d :: ds) l n

namespace Tallied

variable {ds ds' : List Deed} {l m n : Ledger}

/-- First some deeds, then others. -/
theorem append (h : Tallied ds l m) (h' : Tallied ds' m n) : Tallied (ds ++ ds') l n := by
  induction h with
  | nil l => exact h'
  | cons first _ ih => exact .cons first (ih h')

/-- Each report is one error. -/
theorem errors (h : Tallied ds l m) : m.errors = l.errors + ds.count .reported := by
  induction h with
  | nil l => rfl
  | cons first _ ih => cases first <;> simp [ih, Nat.add_comm, Nat.add_left_comm]

/-- If someone listens, each report is heard. -/
theorem heard (h : Tallied ds l m) (hl : 0 < l.listeners) :
    m.heard = l.heard + ds.count .reported := by
  induction h with
  | nil l => rfl
  | cons first _ ih => cases first <;> simp_all [Nat.add_comm, Nat.add_left_comm]

/-- The leaves are those that were added. -/
theorem leaves (h : Tallied ds l m) : m.leaves = l.leaves ++ ds.filterMap Deed.leaf? := by
  induction h with
  | nil l => simp
  | cons first _ ih => cases first <;> simp [ih, Deed.leaf?, List.filterMap_cons]

/-- If no rule is marked, there are no more exceptions. -/
theorem exceptions (h : Tallied ds l m) (hds : Deed.marked ∉ ds) : m.exceptions = l.exceptions := by
  induction h with
  | nil l => rfl
  | cons first _ ih =>
      rw [List.mem_cons, not_or] at hds
      cases first with
      | reported l => exact ih hds.2
      | leaf l => exact ih hds.2
      | marked l => exact absurd rfl hds.1

end Tallied

/-- **A ledger is kept by its deeds.** -/
theorem Course.tallied {x : ParserM σ α} {p q : Parser σ} {ds : List Deed} {o : Except Interrupt α}
    (h : Course x p ds o q) : Tallied ds p.ledger q.ledger := by
  induction h with
  | idle _ same =>
      rw [same]
      exact .nil _
  | deed _ enters => exact .cons enters (.nil _)
  | seq _ _ ih ih' => exact ih.append ih'
  | stop _ ih => exact ih
  | observed _ ih => exact ih

/-! ## How actions end, and by which deeds -/

/-- **How an action ends, and by which deeds** it has come there. -/
def Tells (x : ParserM σ α) (p : Parser σ) (post : List Deed → Except Interrupt α → Parser σ → Prop) : Prop :=
  Ends x p fun o q => ∃ ds, Course x p ds o q ∧ post ds o q

/-- Every action ends in the way that it ends. -/
theorem ends_unique (x : ParserM σ α) (p : Parser σ) :
    Ends x p fun o q => Ends x p fun o' q' => o' = o ∧ q' = q := by
  unfold Ends
  cases x p <;> exact ⟨rfl, rfl⟩

namespace Tells

variable {x : ParserM σ α} {f : α → ParserM σ β} {p : Parser σ}
  {post : List Deed → Except Interrupt α → Parser σ → Prop}
  {post' : List Deed → Except Interrupt β → Parser σ → Prop}

/-- What is allowed stays allowed when more is allowed. -/
theorem mono {post₁ : List Deed → Except Interrupt α → Parser σ → Prop} (h : Tells x p post)
    (himp : ∀ ds o q, post ds o q → post₁ ds o q) : Tells x p post₁ :=
  Ends.mono h fun o q ⟨ds, hcourse, hpost⟩ => ⟨ds, hcourse, himp ds o q hpost⟩

/-- An action that does nothing. -/
theorem of_idle (h : Ends x p fun o q => q.ledger = p.ledger ∧ post [] o q) : Tells x p post :=
  ((ends_unique x p).and h).mono fun _ _ ⟨hends, hsame, hpost⟩ => ⟨[], .idle hends hsame, hpost⟩

/-- An action that does one thing. -/
theorem of_deed (h : Ends x p fun o q => ∃ d : Deed, d.Enters p.ledger q.ledger ∧ post [d] o q) :
    Tells x p post :=
  ((ends_unique x p).and h).mono fun _ _ ⟨hends, d, henters, hpost⟩ => ⟨[d], .deed hends henters, hpost⟩

/-- **One action after the other.** -/
theorem bind (h : Tells x p post)
    (hok : ∀ ds a q, post ds (.ok a) q → Tells (f a) q fun ds' o r => post' (ds ++ ds') o r)
    (herr : ∀ ds i q, post ds (.error i) q → post' ds (.error i) q) : Tells (x >>= f) p post' := by
  refine Ends.bind h ?_ ?_
  · rintro a q ⟨ds, hcourse, hpost⟩
    refine Ends.mono (hok ds a q hpost) ?_
    rintro o r ⟨ds', hcourse', hpost'⟩
    exact ⟨ds ++ ds', hcourse.seq hcourse', hpost'⟩
  · rintro i q ⟨ds, hcourse, hpost⟩
    exact ⟨ds, hcourse.stop, herr ds i q hpost⟩

/-- **What comes after an observed action** goes on from however the action has ended. -/
theorem observe_bind {g : Except Interrupt α → ParserM σ β} (h : Tells x p post)
    (hnext : ∀ ds o q, post ds o q → Tells (g o) q fun ds' o' r => post' (ds ++ ds') o' r) :
    Tells (observe x >>= g) p post' := by
  refine ends_observe_bind h ?_
  rintro o q ⟨ds, hcourse, hpost⟩
  refine Ends.mono (hnext ds o q hpost) ?_
  rintro o' r ⟨ds', hcourse', hpost'⟩
  exact ⟨ds ++ ds', hcourse.observed.seq hcourse', hpost'⟩

/-- Looking at the state. -/
theorem get_bind {f : Parser σ → ParserM σ β} (h : Tells (f p) p post') : Tells (get >>= f) p post' := by
  have hget : Course (get : ParserM σ (Parser σ)) p [] (.ok p) p := .idle ⟨rfl, rfl⟩ rfl
  refine (ends_get_bind f).mpr (Ends.mono h ?_)
  rintro o q ⟨ds, hcourse, hpost⟩
  exact ⟨ds, hget.seq hcourse, hpost⟩

/-- Changing what is not in the ledger. -/
theorem modify_bind {g : Parser σ → Parser σ} {f : PUnit → ParserM σ β} (hg : (g p).ledger = p.ledger)
    (h : Tells (f ⟨⟩) (g p) post') : Tells (modify g >>= f) p post' := by
  have hmodify : Course (modify g : ParserM σ PUnit) p [] (.ok ⟨⟩) (g p) := .idle ⟨rfl, rfl⟩ hg
  refine (ends_modify_bind g f).mpr (Ends.mono h ?_)
  rintro o q ⟨ds, hcourse, hpost⟩
  exact ⟨ds, hmodify.seq hcourse, hpost⟩

end Tells

/-! ## Nothing is done -/

/-- **Nothing has been done** that can be seen from outside, and recovery keeps in mind what it did. -/
structure Idle (p q : Parser σ) : Prop where
  /-- The ledger is the same. -/
  ledger : q.ledger = p.ledger
  /-- Recovery keeps in mind what it did. -/
  recovery : q.recovery = p.recovery
  /-- The strategy is the same. -/
  strategy : q.strategy = p.strategy
  /-- The same speculations are under way. -/
  speculating : q.speculating = p.speculating
  /-- The input has only been read. -/
  kept : ∀ P : Stream σ → Prop, Stream.Stable P → P p.input → P q.input

namespace Idle

variable {p q r : Parser σ}

theorem refl (p : Parser σ) : p.Idle p := ⟨rfl, rfl, rfl, rfl, fun _ _ h => h⟩

/-- First nothing has been done, and then nothing. -/
theorem trans (h : p.Idle q) (h' : q.Idle r) : p.Idle r :=
  ⟨h'.ledger.trans h.ledger, h'.recovery.trans h.recovery, h'.strategy.trans h.strategy,
    h'.speculating.trans h.speculating, fun P hP hp => h'.kept P hP (h.kept P hP hp)⟩

/-- Tokens still carry their places. -/
theorem numbered (h : p.Idle q) (hp : p.input.Numbered) : q.input.Numbered :=
  h.kept _ Stream.stable_numbered hp

/-- A trial is still under way. -/
theorem isSpeculating (h : p.Idle q) : q.isSpeculating = p.isSpeculating := by
  simp only [Parser.isSpeculating, h.speculating]

end Idle

variable {p q : Parser σ}

/-- Two actions that do nothing do nothing together. -/
theorem ends_idle_bind {x : ParserM σ α} {f : α → ParserM σ β} (h : Ends x p fun _ q => p.Idle q)
    (hf : ∀ a q, p.Idle q → Ends (f a) q fun _ r => q.Idle r) : Ends (x >>= f) p fun _ r => p.Idle r :=
  h.bind (fun a q hq => (hf a q hq).mono fun _ _ hr => hq.trans hr) fun _ _ hq => hq

/-- The same, where the first action is observed. -/
theorem ends_idle_observe_bind {x : ParserM σ α} {f : Except Interrupt α → ParserM σ β}
    (h : Ends x p fun _ q => p.Idle q) (hf : ∀ o q, p.Idle q → Ends (f o) q fun _ r => q.Idle r) :
    Ends (observe x >>= f) p fun _ r => p.Idle r :=
  ends_observe_bind h fun o q hq => (hf o q hq).mono fun _ _ hr => hq.trans hr

/-- An operation of the input does nothing, and if it fails, the parse is given up. -/
theorem ends_onInput_idle {act : StreamM σ α}
    (h : ∀ P, Stream.Stable P → P p.input → Ends act p.input fun _ s => P s) :
    Ends (onInput act) p fun o q => p.Idle q ∧ (∃ s, q = { p with input := s }) ∧
      ∀ e, o ≠ .error (.recognition e) := by
  refine ends_onInput ((Ends.self act p.input).mono fun o s hs =>
    ⟨⟨rfl, rfl, rfl, rfl, fun P hP hp => ?_⟩, ⟨s, rfl⟩, ?_⟩)
  · cases o with
    | ok a => exact (h P hP hp).of_ok hs
    | error e => exact (h P hP hp).of_error hs
  · cases o <;> exact fun _ h => nomatch h

variable [TokenSource σ]

/-- **Looking ahead does nothing.** -/
theorem ends_ahead_idle (k : Nat) (p : Parser σ) : Ends (ahead k) p fun o q => p.Idle q ∧
    (∃ s, q = { p with input := s }) ∧ ∀ e, o ≠ .error (.recognition e) :=
  ends_onInput_idle fun _ hP hp => hP.ahead k hp

/-- Moving past a token does nothing by itself. -/
theorem ends_pass_idle (p : Parser σ) : Ends (onInput Stream.consume) p fun o q => p.Idle q ∧
    (∃ s, q = { p with input := s }) ∧ ∀ e, o ≠ .error (.recognition e) :=
  ends_onInput_idle fun _ hP hp => hP.consume hp

/-- Moving to a place does nothing. -/
theorem ends_seek_idle (i : Nat) (p : Parser σ) : Ends (onInput (Stream.seek i)) p fun o q => p.Idle q ∧
    (∃ s, q = { p with input := s }) ∧ ∀ e, o ≠ .error (.recognition e) :=
  ends_onInput_idle fun _ hP hp => hP.seek i hp

/-- Tokens that carry their places are not made up. -/
theorem answers_ahead_numbered (hp : p.input.Numbered) (k : Nat) :
    Answers (ahead k) p fun t _ => t.isConjured = false := by
  refine ends_onInput (Ends.mono (hp.answers_ahead k) fun o s hs => ?_)
  cases o with
  | ok t =>
      rintro _ ⟨⟩
      exact hs t rfl
  | error e => exact fun _ h => nomatch h

/-- Looking at the flag does nothing. -/
theorem ends_checkCancelled_idle (p : Parser σ) :
    Ends checkCancelled p fun o q => q = p ∧ ∀ e, o ≠ .error (.recognition e) := by
  refine (ends_checkCancelled p).mono ?_
  rintro _ _ ⟨rfl, ⟨-, rfl⟩ | ⟨-, rfl⟩⟩
  · exact ⟨rfl, nofun⟩
  · exact ⟨rfl, nofun⟩

omit [TokenSource σ] in
/-- Numbering an exception does nothing. -/
theorem ends_newException_idle (kind : ExceptionKind) (offending : Token) (expected : TokenSet) :
    Ends (do throw (.recognition (← newException kind offending expected)) : ParserM σ α) p
      fun o q => p.Idle q ∧ ∃ e, o = .error (.recognition e) :=
  ⟨⟨rfl, rfl, rfl, rfl, fun _ _ h => h⟩, _, rfl⟩

/-- Failing does nothing. -/
theorem ends_raiseMismatch_idle (expected : TokenSet) :
    Ends (raiseMismatch expected : ParserM σ α) p fun _ q => p.Idle q := by
  unfold raiseMismatch
  refine ends_idle_bind ((ends_ahead_idle 1 p).mono fun _ _ h => h.1) fun t q _ => ?_
  exact (ends_newException_idle _ _ _).mono fun _ _ h => h.1

/-- Failing does nothing. -/
theorem ends_raiseNoViableAlt_idle (depth : Nat) :
    Ends (raiseNoViableAlt depth : ParserM σ α) p fun _ q => p.Idle q := by
  unfold raiseNoViableAlt
  refine ends_idle_bind ((ends_ahead_idle 1 p).mono fun _ _ h => h.1) fun t q _ => ?_
  refine ends_idle_bind ((ends_ahead_idle _ q).mono fun _ _ h => h.1) fun u r _ => ?_
  exact (ends_newException_idle _ _ _).mono fun _ _ h => h.1

/-- Failing unless a condition holds does nothing. -/
theorem ends_require_idle (holds : Bool) (text : String) :
    Ends (require holds text) p fun _ q => p.Idle q := by
  unfold require
  cases holds with
  | true => exact .refl p
  | false =>
      refine ends_idle_bind ((ends_ahead_idle 1 p).mono fun _ _ h => h.1) fun t q _ => ?_
      exact (ends_newException_idle _ _ _).mono fun _ _ h => h.1

/-- Entering a rule does nothing but add its node. -/
theorem ends_enterRule_idle (r : RuleIndex) (p : Parser σ) :
    Ends (enterRule r) p fun o q => p.Idle q ∧ ∀ e, o ≠ .error (.recognition e) := by
  have hahead := ends_ahead_idle 1 p
  refine (enterRule_activates r p).mono fun o q hends => ?_
  cases hends with
  | calledOff | tooDeep => exact ⟨.refl p, nofun⟩
  | unmarked => exact ⟨⟨rfl, rfl, rfl, rfl, fun _ _ h => h⟩, nofun⟩
  | unread _ _ ahead =>
      obtain ⟨hidle, -, hi⟩ := hahead.of_error ahead
      exact ⟨hidle, fun e he => hi e (congrArg Except.error (Except.error.inj he))⟩
  | marked _ _ ahead =>
      obtain ⟨hidle, ⟨s, rfl⟩, -⟩ := hahead.of_ok ahead
      refine ⟨hidle.trans ⟨?_, rfl, rfl, rfl, fun _ _ h => h⟩, nofun⟩
      -- a node for a rule is no leaf and carries no exception, so the ledger does not change
      simp only [ledger, openRule, ParseTree.leaves_push, ParseTree.exceptions_push, ParseNode.leaf?,
        ParseNode.exception?, Option.toList_none, List.append_nil]
      rfl

/-- Leaving a rule does nothing but note where it ends. -/
theorem ends_exitRule_idle (p : Parser σ) :
    Ends exitRule p fun o q => p.Idle q ∧ ∀ e, o ≠ .error (.recognition e) := by
  refine (exitRule_retires p).mono fun o q hends => ⟨?_, hends.ne_recognition⟩
  cases hends with
  | outside => exact .refl p
  | unmarked => exact ⟨rfl, rfl, rfl, rfl, fun _ _ h => h⟩
  | marked =>
      refine ⟨?_, rfl, rfl, rfl, fun _ _ h => h⟩
      simp only [ledger, closeRule, ParseTree.leaves_modifyRule]
      rw [ParseTree.exceptions_modifyRule (by exact fun _ => rfl)]
      rfl

/-- Leaving a rule and handing on how its body has ended does nothing. -/
theorem ends_leave_idle (o : Except Interrupt Unit) (p : Parser σ) :
    Ends (do
      let exited ← observe exitRule
      release o
      release exited) p fun o' q => p.Idle q ∧ (∀ i, o = .error i → o' = .error i) ∧
        ∀ e, o' = .error (.recognition e) → o = .error (.recognition e) := by
  refine ends_observe_bind (ends_exitRule_idle p) ?_
  rintro exited q ⟨hidle, hexited⟩
  cases o with
  | ok _ => exact (ends_release exited).mpr ⟨hidle, (fun _ h => nomatch h), fun e he => absurd he (hexited e)⟩
  | error i => exact ⟨hidle, fun _ h => h, fun _ h => h⟩

/-! ## Nothing is done on trial -/

/-- Consuming on trial does nothing. -/
theorem ends_consume_trying (hp : p.isSpeculating = true) : Ends consume p fun _ q => p.Idle q := by
  unfold consume
  refine ends_idle_bind ((ends_ahead_idle 1 p).mono fun _ _ h => h.1) fun t q hq => ?_
  refine ends_idle_bind ((ends_pass_idle q).mono fun _ _ h => h.1) fun _ r hr => ?_
  rw [ends_get_bind, if_pos (by rw [hr.isSpeculating, hq.isSpeculating, hp])]
  exact .refl r

/-- Matching on trial does nothing. -/
theorem ends_expect_trying (hp : p.isSpeculating = true) (ty : TokenType) (follow : TokenSet) :
    Ends (expect ty follow) p fun _ q => p.Idle q := by
  unfold expect
  refine ends_idle_bind ((ends_ahead_idle 1 p).mono fun _ _ h => h.1) fun t q hq => ?_
  have htrial : q.isSpeculating = true := hq.isSpeculating.trans hp
  by_cases hty : (t.ty == ty) = true
  · simp only [hty, if_true]
    rw [ends_get_bind]
    simp only [htrial, if_true]
    exact ends_consume_trying htrial
  · simp only [hty, if_false, Bool.false_eq_true]
    rw [ends_get_bind]
    simp only [htrial, if_true]
    cases TokenSet.single? ty with
    | ok set => exact ends_raiseMismatch_idle set
    | error v => exact .refl q

end Parser

open TreeProjection.Parser

variable [TokenSource σ] {p : Parser σ}

/-- An operation on trial does nothing. -/
theorem Operation.ends_trying (op : Operation β) (hp : p.isSpeculating = true) :
    Ends op.run p fun _ q => p.Idle q := by
  cases op with
  | ahead k => exact (ends_ahead_idle k p).mono fun _ _ h => h.1
  | expect ty follow => exact ends_expect_trying hp ty follow
  | consume => exact ends_consume_trying hp
  | sync expecting =>
      change Ends (get >>= _) _ _
      rw [ends_get_bind, if_pos hp]
      exact .refl p
  | require holds text => exact ends_require_idle holds text
  | noViableAlt depth => exact ends_raiseNoViableAlt_idle depth
  | mismatch expected => exact ends_raiseMismatch_idle expected

/-- A trial does nothing, if its body does nothing on trial. -/
theorem Parser.ends_speculate_idle {body : ParserM σ Unit}
    (hbody : ∀ q : Parser σ, q.isSpeculating = true → Ends body q fun _ r => q.Idle r) (p : Parser σ) :
    Ends (speculate body) p fun o q => p.Idle q ∧ ∀ e, o ≠ .error (.recognition e) := by
  unfold speculate
  refine (ends_ahead_idle 1 p).bind ?_ fun i _ h =>
    ⟨h.1, fun e he => h.2.2 e (congrArg Except.error (Except.error.inj he))⟩
  rintro _ q ⟨hq, -, -⟩
  rw [ends_get_bind, ends_modify_bind]
  refine ends_observe_bind (hbody _ (by simp [isSpeculating])) ?_
  rintro o r hr
  rw [ends_modify_bind]
  -- with the trial over, as many speculations are under way as before
  have hover : q.Idle { r with
      speculating := r.speculating - 1
      frames := lastOf q.frames.length r.frames
      follow := lastOf q.follow.length r.follow } :=
    ⟨hr.ledger, hr.recovery, hr.strategy, by simp [hr.speculating], hr.kept⟩
  refine (ends_seek_idle q.index _).bind ?_ ?_
  · rintro _ t ⟨ht, -, -⟩
    have hidle := (hq.trans hover).trans ht
    match o with
    | .ok () => exact ⟨hidle, fun _ h => nomatch h⟩
    | .error (.recognition _) => exact ⟨hidle, fun _ h => nomatch h⟩
    | .error (.abort _) => exact ⟨hidle, fun _ h => nomatch h⟩
  · rintro i t ⟨ht, -, hi⟩
    exact ⟨(hq.trans hover).trans ht, fun e he => hi e (congrArg Except.error (Except.error.inj he))⟩

/-- A rule on trial does nothing, if its body does nothing on trial. -/
theorem Parser.ends_rule_trying {r : RuleIndex} {body : ParserM σ Unit}
    (hbody : ∀ q : Parser σ, q.isSpeculating = true → Ends body q fun _ q' => q.Idle q')
    (hp : p.isSpeculating = true) : Ends (rule r body) p fun _ q => p.Idle q := by
  unfold rule
  refine ends_idle_bind ((ends_enterRule_idle r p).mono fun _ _ h => h.1) fun _ q hq => ?_
  have htrial : q.isSpeculating = true := hq.isSpeculating.trans hp
  -- on trial a failure is not handled, and the rule is left in any case
  refine ends_idle_observe_bind (hbody q htrial) fun o q' hq' => ?_
  match o with
  | .ok _ => exact (ends_leave_idle _ q').mono fun _ _ h => h.1
  | .error (.abort _) => exact (ends_leave_idle _ q').mono fun _ _ h => h.1
  | .error (.recognition _) =>
      change Ends (get >>= _) _ _
      rw [ends_get_bind, if_pos (hq'.isSpeculating.trans htrial)]
      exact (ends_leave_idle _ q').mono fun _ _ h => h.1

omit [TokenSource σ] in
/-- Invoking a body that does nothing does nothing. -/
theorem Parser.ends_invoke_idle {follow : TokenSet} {body : ParserM σ α}
    (hbody : Ends body { p with follow := follow :: p.follow } fun _ q =>
      Idle { p with follow := follow :: p.follow } q) : Ends (invoke follow body) p fun _ q => p.Idle q := by
  unfold invoke
  rw [ends_modify_bind]
  refine ends_observe_bind hbody ?_
  rintro o q hq
  rw [ends_modify_bind, ends_release]
  exact ⟨hq.ledger, hq.recovery, hq.strategy, hq.speculating, hq.kept⟩

omit [TokenSource σ] in
/-- Running a body that does nothing for its exception does nothing. -/
theorem Parser.ends_attempt_idle {body : ParserM σ α} (hbody : Ends body p fun _ q => p.Idle q) :
    Ends (attempt body) p fun _ q => p.Idle q := by
  unfold attempt
  refine ends_idle_observe_bind hbody fun o q _ => ?_
  match o with
  | .ok _ => exact .refl q
  | .error (.recognition _) => exact .refl q
  | .error (.abort _) => exact .refl q

/-- **Nothing is done on trial**, whatever an ordinary recognizer does there and however it ends. -/
theorem Recognizer.Ordinary.ends_idle {r : Recognizer α} (h : r.Ordinary) (hp : p.isSpeculating = true) :
    Ends r.run p fun _ q => p.Idle q := by
  -- induction on the recognizer: an idle state is on trial again, so the hypothesis passes on to the rest
  induction r generalizing p with
  | pure a => exact .refl p
  | outOfSteps => exact .refl p
  | step op next ih =>
      exact ends_idle_bind (op.ends_trying hp) fun b q hq => ih b (h b) (hq.isSpeculating.trans hp)
  | direct d next ih => exact h.elim
  | rule r body next ihbody ihnext =>
      exact ends_idle_bind (ends_rule_trying (fun q hq => ihbody () h.1 hq) hp) fun u q hq =>
        ihnext u (h.2 u) (hq.isSpeculating.trans hp)
  | invoke follow body next ihbody ihnext =>
      exact ends_idle_bind (ends_invoke_idle (ihbody () h.1 (p := { p with follow := follow :: p.follow }) hp))
        fun b q hq => ihnext b (h.2 b) (hq.isSpeculating.trans hp)
  | speculate body next ihbody ihnext =>
      refine ends_idle_bind ((ends_speculate_idle (fun q hq => ihbody () h.1 hq) p).mono
        fun _ _ h => h.1) fun b q hq => ihnext b (h.2 b) (hq.isSpeculating.trans hp)
  | attempt body next ihbody ihnext =>
      exact ends_idle_bind (ends_attempt_idle (ihbody () h.1 hp)) fun b q hq =>
        ihnext b (h.2 b) (hq.isSpeculating.trans hp)

end TreeProjection
