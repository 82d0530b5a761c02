import TreeProjection.Host.Recording
import TreeProjection.Proofs.Forest
import TreeProjection.Proofs.Limiting
import TreeProjection.Proofs.Silence

/-! # The calls of a replay

A replay works through a stack of its own.  What it asks of the host is what a recursion on the tree asks: a rule
opens a region, then its children are told from left to right, then the region is closed; and the offsets whose errors
have been placed are handed from each leaf to the next.

* `Overheard` — a builder with the calls that it has answered.
* `Telling.tell` — the recursion on the tree.
* `RecordingBuilder.Call.Nested` — calls in which each region is closed inside of the one around it.
* `Projector.Follows` — an action of a replay makes the calls of a telling.
* `Projector.replay_retells` — a replay makes the calls of the recursion. -/

namespace TreeProjection

open ParseNode (View)
open RecordingBuilder (Call)

/-! ## Calls -/

/-- **A builder with the calls that it has answered**, in order. -/
structure Overheard (β : Type) where
  /-- The builder. -/
  builder : β
  /-- The calls. -/
  calls : List Call := []
  deriving DecidableEq, Repr

namespace Overheard

variable {β τ : Type} [TreeBuilder β τ]

/-- The builder has answered a call. -/
def answered (o : Overheard β) (call : Call) (builder : β) : Overheard β := ⟨builder, o.calls ++ [call]⟩

instance : TreeBuilder (Overheard β) τ where
  kind? o := TreeBuilder.kind? o.builder
  text o := TreeBuilder.text o.builder
  offset o := TreeBuilder.offset o.builder
  atEnd o := TreeBuilder.atEnd o.builder
  remaining o := TreeBuilder.remaining o.builder
  advance o := o.answered (.advance (TreeBuilder.text o.builder)) (TreeBuilder.advance o.builder)
  mark o :=
    let (marker, builder) := TreeBuilder.mark o.builder
    (marker, o.answered (.mark marker) builder)
  done o marker kind := (TreeBuilder.done o.builder marker kind).map (o.answered (.done marker kind))
  error o marker message := (TreeBuilder.error o.builder marker message).map (o.answered (.error marker message))
  rollback o marker := (TreeBuilder.rollback o.builder marker).map fun builder => { o with builder }
  finish o := TreeBuilder.finish o.builder

end Overheard

namespace RecordingBuilder.Call

/-- Whether a call opens a region. -/
def opens : Call → Bool
  | mark _ => true
  | _ => false

/-- A call that opens a region counts, one that closes it does not. -/
theorem countP_opens_region {marker : Nat} {close : Call} (calls : List Call) (hclose : close.opens = false) :
    (.mark marker :: calls ++ [close]).countP opens = calls.countP opens + 1 := by
  rw [List.cons_append, List.countP_cons_of_pos rfl, List.countP_append, List.countP_singleton, hclose]
  rfl

/-- **Each region is closed**, by a call with its own marker, and inside of the region around it. -/
inductive Nested : List Call → Prop where
  /-- No call. -/
  | nil : Nested []
  /-- A token is passed. -/
  | advance (text : String) {rest : List Call} (hrest : Nested rest) : Nested (.advance text :: rest)
  /-- A region is opened and closed as a node. -/
  | done (marker : Nat) (kind : Kind) {inside rest : List Call} (hinside : Nested inside) (hrest : Nested rest) :
      Nested (.mark marker :: inside ++ .done marker kind :: rest)
  /-- A region is opened and closed as an error element. -/
  | error (marker : Nat) (message : String) {inside rest : List Call} (hinside : Nested inside)
      (hrest : Nested rest) : Nested (.mark marker :: inside ++ .error marker message :: rest)

/-- First some regions, then others. -/
theorem Nested.append {cs cs' : List Call} (h : Nested cs) (h' : Nested cs') : Nested (cs ++ cs') := by
  induction h with
  | nil => exact h'
  | advance text _ ih => exact .advance text ih
  | done marker kind hinside _ _ ih =>
      simp only [List.cons_append, List.append_assoc] at ih ⊢
      exact .done marker kind hinside ih
  | error marker message hinside _ _ ih =>
      simp only [List.cons_append, List.append_assoc] at ih ⊢
      exact .error marker message hinside ih

end RecordingBuilder.Call

/-! ## The recursion on the tree -/

/-- What is told to a builder, until it refuses a call. -/
abbrev Telling (γ : Type) := EStateM Violation γ

namespace Telling

variable {γ τ : Type} [TreeBuilder γ τ]

/-- Open a region. -/
def mark : Telling γ Nat := modifyGet TreeBuilder.mark

/-- An answer, unless the contract is broken. -/
def given {α : Type} : Except Violation α → Telling γ α
  | .ok a => pure a
  | .error v => throw v

/-- Close a region as a node. -/
def done (marker : Nat) (kind : Kind) : Telling γ Unit := do
  set (← given (TreeBuilder.done (← get) marker kind))

/-- Close a region as an error element. -/
def error (marker : Nat) (message : String) : Telling γ Unit := do
  set (← given (TreeBuilder.error (← get) marker message))

/-- Close the region of a rule: as an error element if an exception ended the rule, and else as a node. -/
def close (elements : ElementTypes) (errors : ErrorIndex) (r : RuleNode) (marker : Nat) : Telling γ Unit :=
  match r.exception with
  | some x => error marker (Projector.failureMessage errors x)
  | none => do done marker (← given (elements.rule r.rule))

/-- Pass the token of a leaf, unless it is the end of the input. -/
def pass (t : Token) : Telling γ Unit := unless t.isEof do modify TreeBuilder.advance

/-- Tell of an error leaf, where the errors of some offsets have been placed. -/
def tellErrorLeaf (errors : ErrorIndex) (spent : List Nat) (t : Token) : Telling γ (List Nat) := do
  let offset := t.start?.getD 0
  if t.isConjured then
    let marker ← mark
    error marker t.text
    return spent
  else if offset ∈ spent then
    pass t
    return spent
  else
    match errors.messagesAt? offset with
    | some messages =>
      let marker ← mark
      pass t
      error marker messages
      return offset :: spent
    | none =>
      pass t
      return spent

mutual

/-- **Tell of a tree**, where the errors of some offsets have been placed; the answer is the offsets whose errors have
been placed after it. -/
def tell (elements : ElementTypes) (errors : ErrorIndex) (spent : List Nat) : View → Telling γ (List Nat)
  | .rule r children => do
    let marker ← mark
    let spent ← tellAll elements errors spent children
    close elements errors r marker
    return spent
  | .terminal t => do
    pass t
    return spent
  | .error t => tellErrorLeaf errors spent t

/-- Tell of trees from left to right. -/
def tellAll (elements : ElementTypes) (errors : ErrorIndex) (spent : List Nat) : List View → Telling γ (List Nat)
  | [] => pure spent
  | v :: rest => do
    let spent ← tell elements errors spent v
    tellAll elements errors spent rest

end

/-- Tell of a whole tree, if there is one. -/
def tellRoot (elements : ElementTypes) (errors : ErrorIndex) : Option View → Telling γ (List Nat)
  | some v => tell elements errors [] v
  | none => pure []

/-! ## What the recursion calls -/

section Calls

variable {β τ : Type} [TreeBuilder β τ] {o o' o'' : Overheard β} {spent spent' spent'' : List Nat}

/-- **Trees have been told**, and the offsets whose errors have been placed have become others: the new calls open one
region for each rule, for each made-up token and for each new offset. -/
def Told (o : Overheard β) (vs : List View) (spent spent' : List Nat) (o' : Overheard β) : Prop :=
  ∃ calls, o'.calls = o.calls ++ calls ∧ Call.Nested calls ∧
    calls.countP Call.opens + spent.length = (View.collectAll ParseNode.rule? vs).length +
      ((View.leavesOf vs).countP fun l => !l.1 && l.2.isConjured) + spent'.length

/-- Nothing has been told. -/
theorem Told.nil : Told o [] spent spent o := ⟨[], by simp, .nil, by simp [View.collectAll, View.leavesOf]⟩

/-- First a tree has been told, then others. -/
theorem Told.cons {v : View} {vs : List View} (h : Told o [v] spent spent' o') (h' : Told o' vs spent' spent'' o'') :
    Told o (v :: vs) spent spent'' o'' := by
  obtain ⟨calls, hcalls, hnested, hcount⟩ := h
  obtain ⟨calls', hcalls', hnested', hcount'⟩ := h'
  refine ⟨calls ++ calls', by rw [hcalls', hcalls, List.append_assoc], hnested.append hnested', ?_⟩
  simp only [View.collectAll, View.leavesOf, List.append_nil, List.length_append, List.countP_append] at hcount ⊢
  omega

/-- The opening of a region. -/
theorem answers_mark : Answers (mark : Telling (Overheard β) Nat) o fun marker o' =>
    o'.calls = o.calls ++ [.mark marker] := by
  rintro _ ⟨⟩
  rfl

/-- An answer, unless the contract is broken. -/
theorem answers_given {α γ : Type} {s : γ} (x : Except Violation α) :
    Answers (given x : Telling γ α) s fun a s' => x = .ok a ∧ s' = s := by
  cases x with
  | ok a =>
      rintro _ ⟨⟩
      exact ⟨rfl, rfl⟩
  | error v => exact fun _ h => nomatch h

/-- The closing of a region as a node. -/
theorem answers_done (marker : Nat) (kind : Kind) : Answers (done marker kind) o fun _ o' =>
    o'.calls = o.calls ++ [.done marker kind] := by
  unfold done
  change Ends _ o _
  rw [ends_get_bind]
  refine (answers_given _).bind ?_
  rintro o' o₁ ⟨ho, rfl⟩
  change (TreeBuilder.done o₁.builder marker kind).map _ = _ at ho
  cases hbuilder : TreeBuilder.done o₁.builder marker kind <;> rw [hbuilder] at ho <;> cases ho
  exact fun _ _ => rfl

/-- The closing of a region as an error element. -/
theorem answers_error (marker : Nat) (message : String) : Answers (error marker message) o fun _ o' =>
    o'.calls = o.calls ++ [.error marker message] := by
  unfold error
  change Ends _ o _
  rw [ends_get_bind]
  refine (answers_given _).bind ?_
  rintro o' o₁ ⟨ho, rfl⟩
  change (TreeBuilder.error o₁.builder marker message).map _ = _ at ho
  cases hbuilder : TreeBuilder.error o₁.builder marker message <;> rw [hbuilder] at ho <;> cases ho
  exact fun _ _ => rfl

/-- The closing of a rule's region is one call, behind those inside of the region. -/
theorem answers_close (elements : ElementTypes) (errors : ErrorIndex) (r : RuleNode) (marker : Nat) :
    Answers (close elements errors r marker) o fun _ o' => ∃ call, o'.calls = o.calls ++ [call] ∧
      call.opens = false ∧ ∀ inside, Call.Nested inside → Call.Nested (.mark marker :: inside ++ [call]) := by
  unfold close
  cases r.exception with
  | some x =>
      refine (answers_error marker _).mono fun _ o' h => ?_
      exact ⟨_, h, rfl, fun inside hinside => .error marker _ hinside .nil⟩
  | none =>
      refine (answers_given _).bind ?_
      rintro kind _ ⟨-, rfl⟩
      refine (answers_done marker kind).mono fun _ o' h => ?_
      exact ⟨_, h, rfl, fun inside hinside => .done marker kind hinside .nil⟩

/-- The passing of a leaf's token is one call, or none. -/
theorem answers_pass (t : Token) : Answers (pass t) o fun _ o' =>
    ∃ calls, o'.calls = o.calls ++ calls ∧ Call.Nested calls ∧ calls.countP Call.opens = 0 := by
  unfold pass
  by_cases heof : t.isEof = true
  · simp only [heof, if_true]
    exact .of_pure ⟨[], by simp, .nil, rfl⟩
  · simp only [heof, if_false, Bool.false_eq_true]
    exact fun _ _ => ⟨[_], rfl, .advance _ .nil, rfl⟩

/-- What is called for a leaf. -/
theorem told_leaf (matched : Bool) {t : Token} {v : View} (calls : List Call)
    (hv : v.collect ParseNode.rule? = [] ∧ v.leaves = [(matched, t)]) (hcalls : o'.calls = o.calls ++ calls)
    (hnested : Call.Nested calls) (hcount : calls.countP Call.opens + spent.length =
      (if !matched && t.isConjured then 1 else 0) + spent'.length) : Told o [v] spent spent' o' := by
  refine ⟨calls, hcalls, hnested, ?_⟩
  simp only [View.collectAll, View.leavesOf, hv.1, hv.2, List.append_nil, List.length_nil, List.countP_singleton]
  omega

/-- What is called for an error leaf. -/
theorem told_errorLeaf (errors : ErrorIndex) (t : Token) : Answers (tellErrorLeaf errors spent t) o fun spent' o' =>
    Told o [.error t] spent spent' o' := by
  unfold tellErrorLeaf
  by_cases hconjured : t.isConjured = true
  · simp only [hconjured, if_true]
    refine answers_mark.bind fun marker o₁ h₁ => ?_
    refine (answers_error marker t.text).bind fun _ o₂ h₂ => .of_pure ?_
    refine told_leaf false (.mark marker :: [] ++ [.error marker t.text]) ⟨rfl, rfl⟩ ?_ ?_ ?_
    · rw [h₂, h₁, List.append_assoc]
    · exact .error marker t.text .nil .nil
    · rw [Call.countP_opens_region [] rfl, hconjured, List.countP_nil]
      simp
  -- a token of the input: without messages it is passed
  have hpassed : Answers (do pass t; return spent : Telling (Overheard β) (List Nat)) o fun spent' o' =>
      Told o [.error t] spent spent' o' := by
    refine (answers_pass t).bind fun _ o₁ h₁ => .of_pure ?_
    obtain ⟨calls, hcalls, hnested, hcount⟩ := h₁
    refine told_leaf false calls ⟨rfl, rfl⟩ hcalls hnested ?_
    simp [hconjured, hcount]
  simp only [hconjured, if_false, Bool.false_eq_true]
  by_cases hspent : t.start?.getD 0 ∈ spent
  · simp only [hspent, if_true]
    exact hpassed
  simp only [hspent, if_false]
  cases errors.messagesAt? (t.start?.getD 0) with
  | none => exact hpassed
  | some messages =>
      refine answers_mark.bind fun marker o₁ h₁ => ?_
      refine (answers_pass t).bind fun _ o₂ h₂ => ?_
      obtain ⟨calls, hcalls, hnested, hcount⟩ := h₂
      refine (answers_error marker messages).bind fun _ o₃ h₃ => .of_pure ?_
      refine told_leaf false (.mark marker :: calls ++ [.error marker messages]) ⟨rfl, rfl⟩ ?_ ?_ ?_
      · rw [h₃, hcalls, h₁]
        simp
      · exact .error marker messages hnested .nil
      · rw [Call.countP_opens_region calls rfl, hcount, Bool.eq_false_iff.mpr hconjured, List.length_cons]
        simp only [Bool.and_false, Bool.false_eq_true, if_false]
        omega

mutual

/-- **What is called for a tree**: its regions are nested, and there is one for each rule. -/
theorem told_tell (elements : ElementTypes) (errors : ErrorIndex) : ∀ (v : View) (spent : List Nat) (o : Overheard β),
    Answers (tell elements errors spent v) o fun spent' o' => Told o [v] spent spent' o'
  | .rule r children, spent, o => by
      rw [tell]
      refine answers_mark.bind fun marker o₁ h₁ => ?_
      refine (told_tellAll elements errors children spent o₁).bind fun spent' o₂ h₂ => ?_
      obtain ⟨calls, hcalls, hnested, hcount⟩ := h₂
      refine (answers_close elements errors r marker).bind fun _ o₃ h₃ => .of_pure ?_
      obtain ⟨close, hclose, hopens, hregion⟩ := h₃
      refine ⟨.mark marker :: calls ++ [close], by rw [hclose, hcalls, h₁]; simp, hregion calls hnested, ?_⟩
      have hrules : (View.collectAll ParseNode.rule? [.rule r children]).length =
          (View.collectAll ParseNode.rule? children).length + 1 := by
        simp [View.collectAll, View.collect, ParseNode.rule?]
      rw [Call.countP_opens_region calls hopens, hrules, View.leavesOf_rule]
      omega
  | .terminal t, spent, o => by
      rw [tell]
      refine (answers_pass t).bind fun _ o₁ h₁ => .of_pure ?_
      obtain ⟨calls, hcalls, hnested, hcount⟩ := h₁
      exact told_leaf true calls ⟨rfl, rfl⟩ hcalls hnested (by simp [hcount])
  | .error t, spent, o => told_errorLeaf errors t

/-- What is called for trees. -/
theorem told_tellAll (elements : ElementTypes) (errors : ErrorIndex) :
    ∀ (vs : List View) (spent : List Nat) (o : Overheard β),
      Answers (tellAll elements errors spent vs) o fun spent' o' => Told o vs spent spent' o'
  | [], _, _ => .of_pure .nil
  | v :: rest, spent, o => by
      rw [tellAll]
      refine (told_tell elements errors v spent o).bind fun spent' o₁ h₁ => ?_
      exact (told_tellAll elements errors rest spent' o₁).mono fun spent'' o₂ h₂ => h₁.cons h₂

end

end Calls

end Telling

/-! ## A replay makes the calls of the recursion -/

/-- The offset whose errors have been placed at an error leaf that is a token of the input. -/
def ProjectionEvent.placed? : ProjectionEvent → Option Nat
  | .errorLeaf t (some _) => if t.isConjured then none else some (t.start?.getD 0)
  | _ => none

namespace Projector

variable {α δ ε ζ γ τ : Type} [TreeBuilder γ τ] {p q r : Projector γ}

/-- The offsets whose errors have been placed, the last one first, as the steps tell it. -/
def placed (p : Projector γ) : List Nat := (p.events.toList.filterMap ProjectionEvent.placed?).reverse

/-- What has been called has changed nothing but the builder and the counts. -/
structure Calls (p q : Projector γ) : Prop where
  /-- The errors of the parse. -/
  errors : q.errors = p.errors
  /-- The kinds. -/
  elements : q.host.elements = p.host.elements
  /-- Nothing sets the cancellation flag. -/
  calm : p.host.Calm → q.host.Calm
  /-- The regions open for rules. -/
  markers : q.markers = p.markers
  /-- The offsets whose errors have been placed. -/
  spent : q.spent = p.spent
  /-- The steps. -/
  events : q.events = p.events

/-- First one thing has been called, then another. -/
theorem Calls.trans (h : Calls p q) (h' : Calls q r) : Calls p r where
  errors := h'.errors.trans h.errors
  elements := h'.elements.trans h.elements
  calm hp := h'.calm (h.calm hp)
  markers := h'.markers.trans h.markers
  spent := h'.spent.trans h.spent
  events := h'.events.trans h.events

/-- One call has been answered, and perhaps counted. -/
theorem calls_counted (p : Projector γ) (b : γ) (stats : ProjectionStats) :
    Calls p { p with host := p.host.counted b, stats } :=
  ⟨rfl, rfl, fun h => h.counted b, rfl, rfl, rfl⟩

/-- **The end of an action and the end of a telling match**: both answer, and the builder is the same; or the builder
refuses a call, or a rule has no kind, and both end there. -/
inductive Matches (post : α → δ → Projector γ → Prop) :
    EStateM.Result Abort (Projector γ) α → EStateM.Result Violation γ δ → Prop where
  /-- Both answer. -/
  | answered {a : α} {d : δ} {q : Projector γ} (h : post a d q) : Matches post (.ok a q) (.ok d q.host.builder)
  /-- Both end at the same place. -/
  | refused {v : Violation} {q : Projector γ} : Matches post (.error (.broken v) q) (.error v q.host.builder)

/-- **An action makes the calls of a telling.** -/
def Follows (p : Projector γ) (x : ProjectorM γ α) (y : Telling γ δ) (post : α → δ → Projector γ → Prop) : Prop :=
  Matches post (x p) (y p.host.builder)

namespace Follows

variable {x : ProjectorM γ α} {y : Telling γ δ} {f : α → ProjectorM γ ε} {g : δ → Telling γ ζ}
  {mid : α → δ → Projector γ → Prop} {post : ε → ζ → Projector γ → Prop}

omit [TreeBuilder γ τ] in
/-- One action after the other. -/
theorem bind (h : Follows p x y mid) (hnext : ∀ a d q, mid a d q → Follows q (f a) (g d) post) :
    Follows p (x >>= f) (y >>= g) post := by
  unfold Follows at h ⊢
  change Matches post (EStateM.bind x f p) (EStateM.bind y g p.host.builder)
  unfold EStateM.bind
  generalize x p = ends at h ⊢
  generalize y p.host.builder = told at h ⊢
  cases h with
  | answered hmid => exact hnext _ _ _ hmid
  | refused => exact .refused

omit [TreeBuilder γ τ] in
/-- An action that calls nothing, and what comes after it. -/
theorem skip {z : Telling γ ζ} {a : α} (hx : x p = .ok a q) (hbuilder : q.host.builder = p.host.builder)
    (h : Follows q (f a) z post) : Follows p (x >>= f) z post := by
  unfold Follows at h ⊢
  change Matches post (EStateM.bind x f p) _
  unfold EStateM.bind
  rw [hx, ← hbuilder]
  exact h

omit [TreeBuilder γ τ] in
/-- What comes after an action calls nothing. -/
theorem before {post : ε → δ → Projector γ → Prop} (h : Follows p x y mid)
    (hnext : ∀ a d q, mid a d q → Follows q (f a) (pure d) post) : Follows p (x >>= f) y post := by
  rw [← bind_pure y]
  exact h.bind hnext

omit [TreeBuilder γ τ] in
/-- What is known of the telling is known of the action. -/
theorem and_answers {told : δ → γ → Prop} (h : Follows p x y mid) (htold : Answers y p.host.builder told) :
    Follows p x y fun a d q => mid a d q ∧ told d q.host.builder := by
  unfold Follows at h ⊢
  unfold Answers Ends at htold
  generalize x p = ends at h ⊢
  generalize y p.host.builder = told at h htold ⊢
  cases h with
  | answered hmid => exact .answered ⟨hmid, htold _ rfl⟩
  | refused => exact .refused

omit [TreeBuilder γ τ] in
/-- Both answer at once. -/
theorem of_pure {a : ε} {d : ζ} (h : post a d p) : Follows p (pure a) (pure d) post := .answered h

omit [TreeBuilder γ τ] in
/-- What comes after an action may be weaker. -/
theorem mono {post' : α → δ → Projector γ → Prop} (h : Follows p x y mid)
    (himp : ∀ a d q, mid a d q → post' a d q) : Follows p x y post' := by
  unfold Follows at h ⊢
  generalize x p = ends at h ⊢
  generalize y p.host.builder = told at h ⊢
  cases h with
  | answered hmid => exact .answered (himp _ _ _ hmid)
  | refused => exact .refused

end Follows

/-- The opening of a region. -/
theorem follows_mark : Follows p mark Telling.mark fun marker marker' q => marker = marker' ∧ Calls p q :=
  .answered (q := { p with host := p.host.counted (TreeBuilder.mark p.host.builder).2 })
    ⟨rfl, calls_counted p _ p.stats⟩

/-- The closing of a region, where the builder has answered or refused. -/
theorem follows_closed (answer : Except Violation γ) :
    Follows p (do
        let host ← orBroken (answer >>= fun b => .ok (p.host.counted b))
        set { p with host })
      (do set (← Telling.given answer)) fun _ _ q => Calls p q := by
  cases answer with
  | ok b => exact .answered (q := { p with host := p.host.counted b }) (calls_counted p b p.stats)
  | error v => exact .refused

/-- An answer that only a broken contract can keep from being given. -/
theorem follows_given (answer : Except Violation α) :
    Follows p (orBroken answer) (Telling.given answer) fun a d q => a = d ∧ p = q := by
  cases answer with
  | ok a => exact .answered ⟨rfl, rfl⟩
  | error v => exact .refused

/-- The closing of a region as a node. -/
theorem follows_done (marker : Nat) (kind : Kind) :
    Follows p (done marker kind) (Telling.done marker kind) fun _ _ q => Calls p q :=
  follows_closed (TreeBuilder.done p.host.builder marker kind)

/-- The closing of a region as an error element. -/
theorem follows_error (marker : Nat) (message : String) :
    Follows p (error marker message) (Telling.error marker message) fun _ _ q => Calls p q :=
  follows_closed (TreeBuilder.error p.host.builder marker message)

/-- The passing of a leaf's token. -/
theorem follows_advance (t : Token) : Follows p (advance t) (Telling.pass t) fun _ _ q => Calls p q := by
  unfold advance Telling.pass
  by_cases heof : t.isEof = true
  · simp only [heof, if_true]
    exact .of_pure ⟨rfl, rfl, id, rfl, rfl, rfl⟩
  · simp only [heof, if_false, Bool.false_eq_true]
    exact .answered (q := { p with
      host := p.host.advance
      stats := { p.stats with advances := p.stats.advances + 1 } }) (calls_counted p _ _)

/-- Where the flag is not set, a look at it finds nothing. -/
theorem checkCancelled_of_calm (h : p.host.Calm) : checkCancelled p = .ok () p := by
  change (if p.host.cancelled = true then throw (.error .cancelled) else pure () : ProjectorM γ Unit) p = _
  rw [h.cancelled]
  rfl

/-- **Trees have been replayed as they were told.** -/
structure Retold (p : Projector γ) (after : List Nat) (q : Projector γ) : Prop where
  /-- The errors of the parse. -/
  errors : q.errors = p.errors
  /-- The kinds. -/
  elements : q.host.elements = p.host.elements
  /-- Nothing sets the cancellation flag. -/
  calm : q.host.Calm
  /-- The regions open for rules. -/
  markers : q.markers = p.markers
  /-- The offsets whose errors have been placed. -/
  spent : q.spent = after
  /-- The steps tell of them. -/
  placed : p.spent = p.placed → q.spent = q.placed
  /-- None of them is placed twice. -/
  nodup : p.spent.Nodup → after.Nodup

/-- First some trees have been replayed, then others. -/
theorem Retold.trans {spent spent' : List Nat} (h : Retold p spent q) (h' : Retold q spent' r) :
    Retold p spent' r where
  errors := h'.errors.trans h.errors
  elements := h'.elements.trans h.elements
  calm := h'.calm
  markers := h'.markers.trans h.markers
  spent := h'.spent
  placed hp := h'.placed (h.placed hp)
  nodup hp := h'.nodup (by rw [h.spent]; exact h.nodup hp)

/-- What has been called, and then told as one step that places no errors. -/
theorem Calls.retold {e : ProjectionEvent} {stats : ProjectionStats} (h : Calls p q) (hp : p.host.Calm)
    (he : e.placed? = none) : Retold p p.spent { q with stats, events := q.events.push e } where
  errors := h.errors
  elements := h.elements
  calm := h.calm hp
  markers := h.markers
  spent := h.spent
  placed hp := by
    simp only [Projector.placed, Array.toList_push, List.filterMap_append, List.filterMap_cons, he] at hp ⊢
    rw [h.spent, hp, h.events]
    simp
  nodup := id

/-- What has been called, and then told as the step that places the errors of an offset. -/
theorem Calls.retold_placed {t : Token} {message : String} {stats : ProjectionStats} (h : Calls p q)
    (hp : p.host.Calm) (hreal : ¬ t.isConjured = true) (hnew : t.start?.getD 0 ∉ p.spent) :
    Retold p (t.start?.getD 0 :: p.spent) { q with
      spent := t.start?.getD 0 :: q.spent
      stats
      events := q.events.push (.errorLeaf t (some message)) } where
  errors := h.errors
  elements := h.elements
  calm := h.calm hp
  markers := h.markers
  spent := by rw [h.spent]
  placed hp := by
    have hplaced : ProjectionEvent.placed? (.errorLeaf t (some message)) = some (t.start?.getD 0) := by
      rw [ProjectionEvent.placed?, if_neg hreal]
    simp only [Projector.placed, Array.toList_push, List.filterMap_append, List.filterMap_cons, hplaced] at hp ⊢
    rw [h.spent, hp, h.events]
    simp
  nodup hp := List.nodup_cons.mpr ⟨hnew, hp⟩

/-- The replay of a matched token. -/
theorem follows_terminal (t : Token) (hp : p.host.Calm) :
    Follows p (terminal t) (do Telling.pass t; return p.spent) fun _ after q => Retold p after q := by
  unfold terminal
  refine (follows_advance t).bind fun _ _ q h => ?_
  exact .answered (q := { q with events := q.events.push (.advance t) }) (h.retold hp rfl)

/-- **The replay of an error leaf** makes the calls that the recursion makes for it. -/
theorem follows_errorLeaf (t : Token) (hp : p.host.Calm) :
    Follows p (errorLeaf t) (Telling.tellErrorLeaf p.errors p.spent t) fun _ after q => Retold p after q := by
  unfold errorLeaf Telling.tellErrorLeaf
  by_cases hconjured : t.isConjured = true
  · simp only [hconjured, if_true]
    refine follows_mark.bind ?_
    rintro marker _ p₁ ⟨rfl, h₁⟩
    refine (follows_error marker t.text).bind fun _ _ q h => ?_
    refine .answered (q := { q with stats := _, events := q.events.push (.errorLeaf t (some t.text)) }) ?_
    exact (h₁.trans h).retold hp (by rw [ProjectionEvent.placed?, if_pos hconjured])
  simp only [hconjured, if_false, Bool.false_eq_true]
  -- a token of the input: without messages it is passed
  have hpassed : Follows p (do advance t; tell (.errorLeaf t none)) (do Telling.pass t; return p.spent)
      fun _ after q => Retold p after q := by
    refine (follows_advance t).bind fun _ _ q h => ?_
    exact .answered (q := { q with events := q.events.push (.errorLeaf t none) }) (h.retold hp rfl)
  refine .skip (q := p) rfl rfl ?_
  by_cases hspent : t.start?.getD 0 ∈ p.spent
  · simp only [List.contains_iff_mem, hspent, if_true]
    exact hpassed
  simp only [List.contains_iff_mem, hspent, if_false]
  cases p.errors.messagesAt? (t.start?.getD 0) with
  | none => exact hpassed
  | some messages =>
      refine follows_mark.bind ?_
      rintro marker _ p₁ ⟨rfl, h₁⟩
      refine (follows_advance t).bind fun _ _ p₂ h₂ => ?_
      refine (follows_error marker messages).bind fun _ _ q h => ?_
      refine .answered (q := { q with
        spent := _, stats := _, events := q.events.push (.errorLeaf t (some messages)) }) ?_
      exact ((h₁.trans h₂).trans h).retold_placed hp hconjured hspent

/-- The opening of a rule's region. -/
theorem follows_enterRule (r : RuleNode) (hp : p.host.Calm) : Follows p (enterRule r) Telling.mark
    fun _ marker q => Retold { p with markers := marker :: p.markers } p.spent q := by
  unfold enterRule
  refine .skip (checkCancelled_of_calm hp) rfl ?_
  refine follows_mark.before ?_
  rintro marker _ q ⟨rfl, h⟩
  have hcalls : Calls { p with markers := marker :: p.markers } { q with markers := marker :: q.markers } :=
    ⟨h.errors, h.elements, h.calm, congrArg (marker :: ·) h.markers, h.spent, h.events⟩
  refine .answered (q := { q with
    markers := marker :: q.markers, stats := _, events := q.events.push (.ruleEnter r.rule) }) ?_
  exact hcalls.retold hp rfl

/-- The closing of a rule's region, which is the innermost one. -/
theorem follows_exitRule (r : RuleNode) {marker : Nat} {rest : List Nat} (hp : p.host.Calm)
    (hmarkers : p.markers = marker :: rest) :
    Follows p (exitRule r) (Telling.close p.host.elements p.errors r marker)
      fun _ _ q => Retold { p with markers := rest } p.spent q := by
  unfold exitRule Telling.close
  refine .skip (checkCancelled_of_calm hp) rfl ?_
  refine .skip (q := p) rfl rfl ?_
  rw [hmarkers]
  refine .skip (q := { p with markers := rest }) rfl rfl ?_
  cases r.exception with
  | some x =>
      refine .skip (q := { p with markers := rest }) rfl rfl ?_
      refine (follows_error marker (failureMessage p.errors x)).before fun _ _ q h => ?_
      refine .answered (q := { q with stats := _, events := q.events.push (.ruleError r.rule _) }) ?_
      exact h.retold hp rfl
  | none =>
      refine .skip (q := { p with markers := rest }) rfl rfl ?_
      refine (follows_given (p.host.elements.rule r.rule)).bind ?_
      rintro kind _ _ ⟨rfl, rfl⟩
      refine (follows_done marker kind).before fun _ _ q h => ?_
      refine .answered (q := { q with stats := _, events := q.events.push (.ruleDone r.rule) }) ?_
      exact h.retold hp rfl

mutual

/-- **The replay of a tree makes the calls of the recursion**, and has placed the same errors afterwards. -/
theorem follows_replayView : ∀ (v : View) (p : Projector γ), p.host.Calm →
    Follows p (replayView v) (Telling.tell p.host.elements p.errors p.spent v) fun _ after q => Retold p after q
  | .rule r children, p, hp => by
      rw [replayView, Telling.tell]
      refine (follows_enterRule r hp).bind fun _ marker p₁ h₁ => ?_
      have hinside := follows_replayViews children p₁ h₁.calm
      rw [h₁.errors, h₁.elements, h₁.spent] at hinside
      refine hinside.bind fun _ after p₂ h₂ => ?_
      have hclose : (Telling.close p₂.host.elements p₂.errors r marker : Telling γ Unit) =
          Telling.close p.host.elements p.errors r marker := by
        rw [h₂.errors, h₂.elements, h₁.errors, h₁.elements]
      have hexit := follows_exitRule r h₂.calm (h₂.markers.trans h₁.markers)
      rw [hclose] at hexit
      rw [← bind_pure (exitRule r)]
      refine hexit.bind fun _ _ q h => .of_pure ?_
      exact {
        errors := h.errors.trans (h₂.errors.trans h₁.errors)
        elements := h.elements.trans (h₂.elements.trans h₁.elements)
        calm := h.calm
        markers := h.markers
        spent := h.spent.trans h₂.spent
        placed := fun hplaced => h.placed (h₂.placed (h₁.placed hplaced))
        nodup := fun hnodup => h₂.nodup (by rw [h₁.spent]; exact h₁.nodup hnodup) }
  | .terminal t, p, hp => follows_terminal t hp
  | .error t, p, hp => follows_errorLeaf t hp

/-- The replay of trees makes the calls of the recursion. -/
theorem follows_replayViews : ∀ (vs : List View) (p : Projector γ), p.host.Calm →
    Follows p (replayViews vs) (Telling.tellAll p.host.elements p.errors p.spent vs)
      fun _ after q => Retold p after q
  | [], p, hp => .of_pure ⟨rfl, rfl, hp, rfl, rfl, id, id⟩
  | v :: rest, p, hp => by
      rw [replayViews, Telling.tellAll]
      refine (follows_replayView v p hp).bind fun _ after q h => ?_
      have hrest := follows_replayViews rest q h.calm
      rw [h.errors, h.elements, h.spent] at hrest
      exact hrest.mono fun _ _ _ h' => h.trans h'

end

variable {β σ : Type} [TreeBuilder β σ]

/-- **A replay makes the calls of the recursion.** Of a tree that was built node by node, in any order, the root holds
a tree; and on every builder the replay with its stack makes the calls that the recursion on this tree makes, up to the
first that is refused, if one is. If none is, the regions are nested, there is one for each rule, for each made-up token
and for each offset whose errors were placed at a token of the input, and at no offset were they placed twice. -/
theorem replay_retells {t : ParseTree} (ht : t.Built) (errors : ErrorIndex) (host : Supervised (Overheard β))
    (hcalm : host.Calm) (hcalls : host.builder.calls = []) :
    Option.Rel t.Holds t.root t.view? ∧
      Follows { host, errors } (replay t) (Telling.tellRoot host.elements errors t.view?) fun _ spent q =>
        Call.Nested q.host.builder.calls ∧
          q.host.builder.calls.countP Call.opens =
            (View.collectAll ParseNode.rule? t.view?.toList).length +
              ((View.leavesOf t.view?.toList).countP fun l => !l.1 && l.2.isConjured) + spent.length ∧
          q.placed = spent ∧ spent.Nodup := by
  cases hroot : t.root with
  | none =>
      have hview : t.view? = none := by rw [ParseTree.view?, hroot, Option.bind_none]
      rw [hview]
      refine ⟨.none, ?_⟩
      unfold replay
      rw [hroot]
      refine .of_pure ⟨by rw [hcalls]; exact .nil, by rw [hcalls]; rfl, rfl, List.nodup_nil⟩
  | some root =>
      obtain ⟨v, hholds, hsize⟩ := ht.exists_view hroot
      have hview := ParseTree.view?_of_holds hroot hholds hsize
      rw [hview, replay_eq_of_holds hroot hsize hholds]
      refine ⟨.some hholds, ?_⟩
      have hreplay := (follows_replayView v { host, errors } hcalm).and_answers
        (Telling.told_tell host.elements errors v [] host.builder)
      refine hreplay.before ?_
      rintro _ spent q ⟨hq, calls, hbuilder, hnested, hcount⟩
      -- the regions open for rules have been closed again
      have hmarkers : q.markers = [] := hq.markers
      refine .skip (q := q) rfl rfl ?_
      rw [hmarkers]
      rw [hcalls, List.nil_append] at hbuilder
      refine .of_pure ⟨by rw [hbuilder]; exact hnested, by rw [hbuilder]; exact hcount, ?_, hq.nodup List.nodup_nil⟩
      rw [← hq.spent, hq.placed rfl]

namespace Scattered

/-- The token `x`. -/
def x : Token := { Token.ofSpan ⟨1⟩ "x" ⟨0, 1⟩ with index := some 0 }

/-- What ends the inner rule. -/
def failure : RecognitionException := ⟨0, .inputMismatch, x, .single ⟨2⟩, ⟨1⟩⟩

/-- The inner rule is added before a leaf of the outer rule, and gets leaves of its own afterwards; both rules have
an error leaf at the same offset. -/
def tree : ParseTree :=
  let outer := (({} : ParseTree).push none (.rule { rule := ⟨0⟩ })).2
  let inner := (outer.push (some 0) (.rule { rule := ⟨1⟩ })).2
  let leaf := (inner.push (some 0) (.error x)).2
  let below := (leaf.push (some 1) (.error x)).2
  let madeUp := (below.push (some 1) (.error (.conjured ⟨2⟩ "<missing Y>"))).2
  madeUp.modifyRule 1 fun r => { r with stop := some 0, exception := some failure }

/-- It was built node by node. -/
theorem built : tree.Built :=
  .amend (.addError (.addError (.addError (.addRule (.addRule .empty none ⟨0⟩ none) (some 0) ⟨1⟩ none) (some 0) _)
    (some 1) _) (some 1) _) 1 (some 0) (some failure)

/-- Two errors at the offset of both leaves, one of them of the exception. -/
def errors : ErrorIndex := .ofReports [⟨x, 0, 0, "first", none⟩, ⟨x, 0, 0, "second", some failure⟩]

/-- A host with one token, whose calls are written down. -/
def host : Supervised (Overheard RecordingBuilder) where
  builder := ⟨{ cursor := { tokens := #[⟨⟨3, "x"⟩, 0, 0⟩], length := 1 } }, []⟩
  elements := ⟨2, 2⟩

/-- Nothing calls it off. -/
theorem calm : host.Calm := ⟨rfl, rfl, rfl⟩

end Scattered

/-- The inner rule comes first, and its leaf gets the errors of the offset; the leaf of the outer rule is passed. -/
theorem replay_retells_scattered :
    Scattered.tree.Built ∧ Scattered.host.Calm ∧ Scattered.host.builder.calls = [] ∧
      ∃ v q, Scattered.tree.view? = some v ∧ Scattered.tree.Holds 0 v ∧
        replay Scattered.tree { host := Scattered.host, errors := Scattered.errors } = .ok () q ∧
        Telling.tell Scattered.host.elements Scattered.errors [] v Scattered.host.builder =
          .ok [0] q.host.builder ∧
        q.host.builder.calls = [.mark 0, .mark 1, .mark 2, .advance "x", .error 2 "first\nsecond", .mark 3,
          .error 3 "<missing Y>", .error 1 "second", .advance "", .done 0 4] ∧
        Call.Nested q.host.builder.calls ∧ q.placed = [0] := by
  obtain ⟨hholds, hfollows⟩ := replay_retells Scattered.built Scattered.errors Scattered.host Scattered.calm rfl
  have hrun : ∃ u q, replay Scattered.tree { host := Scattered.host, errors := Scattered.errors } = .ok u q ∧
      q.host.builder.calls = [.mark 0, .mark 1, .mark 2, .advance "x", .error 2 "first\nsecond", .mark 3,
        .error 3 "<missing Y>", .error 1 "second", .advance "", .done 0 4] ∧ q.placed = [0] := by decide +kernel
  obtain ⟨_, q, hreplay, hcalls, hzero⟩ := hrun
  unfold Follows at hfollows
  rw [hreplay] at hfollows
  generalize htold : Telling.tellRoot Scattered.host.elements Scattered.errors Scattered.tree.view?
    Scattered.host.builder = told at hfollows
  cases hfollows with
  | answered hpost =>
      obtain ⟨hnested, -, hplaced, -⟩ := hpost
      rw [hzero] at hplaced
      subst hplaced
      change Option.Rel _ (some 0) _ at hholds
      cases hview : Scattered.tree.view? with
      | none =>
          rw [hview] at hholds
          cases hholds
      | some v =>
          rw [hview] at hholds htold
          cases hholds with
          | some hv =>
              exact ⟨Scattered.built, Scattered.calm, rfl, v, q, rfl, hv, hreplay, htold, hcalls, hnested, hzero⟩

end Projector

end TreeProjection
