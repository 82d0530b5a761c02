import TreeProjection.Recognition.Operations

/-! # How actions end

An action that may fail, begun in a state, ends in one way: with an answer or an error, and in a state.
`Ends x s post` says that this end is one that `post` allows.  The rules below take an action apart the way
it was put together, so that the end of a whole follows from the ends of its parts.

* `Ends` — the end of an action is allowed; `Answers` — its answer is, if it gives one.
* `Ends.bind`, `Ends.mono` — one action after the other, and a weaker demand.
* `Parser.ends_observe`, `Parser.ends_release`, `Parser.ends_onInput` — the ends of parser actions that look
  at how another action ended.
* `Parser.enterRule_activates`, `Parser.exitRule_retires` — the ways in which a rule is entered and left. -/

namespace TreeProjection

variable {ε τ α β : Type}

/-- **The end of an action is allowed.** `x`, begun in `s`, ends with an answer or an error, and in a state,
that together satisfy `post`. -/
def Ends (x : EStateM ε τ α) (s : τ) (post : Except ε α → τ → Prop) : Prop :=
  match x s with
  | .ok a s => post (.ok a) s
  | .error e s => post (.error e) s

namespace Ends

variable {x : EStateM ε τ α} {f : α → EStateM ε τ β} {s : τ}

/-- An end that is allowed stays allowed when more is allowed. -/
theorem mono {post post' : Except ε α → τ → Prop} (h : Ends x s post)
    (himp : ∀ o t, post o t → post' o t) : Ends x s post' := by
  unfold Ends at h ⊢
  split <;> rename_i hx <;> rw [hx] at h
  · exact himp _ _ h
  · exact himp _ _ h

/-- Two demands on one end are one demand. -/
theorem and {post post' : Except ε α → τ → Prop} (h : Ends x s post) (h' : Ends x s post') :
    Ends x s fun o t => post o t ∧ post' o t := by
  unfold Ends at h h' ⊢
  split <;> rename_i hx <;> rw [hx] at h h'
  · exact ⟨h, h'⟩
  · exact ⟨h, h'⟩

/-- Any number of demands on one end are one demand. -/
theorem all {ι : Sort _} {post : ι → Except ε α → τ → Prop} (h : ∀ i, Ends x s (post i)) :
    Ends x s fun o t => ∀ i, post i o t := by
  unfold Ends at h ⊢
  split <;> rename_i hx <;> rw [hx] at h <;> exact h

/-- The end of two actions is what the second makes of the end of the first. -/
theorem bind_iff {post : Except ε β → τ → Prop} : Ends (x >>= f) s post ↔
    Ends x s fun o t => match o with
      | .ok a => Ends (f a) t post
      | .error e => post (.error e) t := by
  unfold Ends
  change (match EStateM.bind x f s with
    | .ok a s => post (.ok a) s
    | .error e s => post (.error e) s) ↔ _
  unfold EStateM.bind
  cases x s <;> exact Iff.rfl

/-- **One action after the other.** An error of the first ends the whole; after an answer the second goes on
from where the first ended. -/
theorem bind {mid : Except ε α → τ → Prop} {post : Except ε β → τ → Prop} (h : Ends x s mid)
    (hok : ∀ a t, mid (.ok a) t → Ends (f a) t post)
    (herr : ∀ e t, mid (.error e) t → post (.error e) t) : Ends (x >>= f) s post := by
  rw [bind_iff]
  refine h.mono fun o t ho => ?_
  cases o with
  | ok a => exact hok a t ho
  | error e => exact herr e t ho

/-- After an answer the second action goes on from where the first ended. -/
theorem bind_of_ok {post : Except ε β → τ → Prop} {a : α} {t : τ} (hx : x s = .ok a t) :
    Ends (x >>= f) s post ↔ Ends (f a) t post := by
  rw [bind_iff]
  unfold Ends
  rw [hx]

/-- An error ends the whole. -/
theorem bind_of_error {post : Except ε β → τ → Prop} {e : ε} {t : τ} (hx : x s = .error e t) :
    Ends (x >>= f) s post ↔ post (.error e) t := by
  rw [bind_iff]
  unfold Ends
  rw [hx]

/-- What an action that ended with an answer is known to have satisfied. -/
theorem of_ok {post : Except ε α → τ → Prop} (h : Ends x s post) {a : α} {t : τ}
    (hx : x s = .ok a t) : post (.ok a) t := by
  unfold Ends at h
  rwa [hx] at h

/-- What an action that ended with an error is known to have satisfied. -/
theorem of_error {post : Except ε α → τ → Prop} (h : Ends x s post) {e : ε} {t : τ}
    (hx : x s = .error e t) : post (.error e) t := by
  unfold Ends at h
  rwa [hx] at h

/-- Every action ends in the way that it ends. -/
theorem self (x : EStateM ε τ α) (s : τ) :
    Ends x s fun o t => match o with
      | .ok a => x s = .ok a t
      | .error e => x s = .error e t := by
  unfold Ends
  cases x s <;> rfl

end Ends

/-- To run an action is to know whether it gives an answer of a certain kind. -/
instance decidableExistsAnswer {r : EStateM.Result ε τ α} {p : α → τ → Prop} [∀ a t, Decidable (p a t)] :
    Decidable (∃ a t, r = .ok a t ∧ p a t) :=
  match r with
  | .ok a t => decidable_of_iff (p a t) ⟨fun h => ⟨a, t, rfl, h⟩, by
      rintro ⟨_, _, ⟨⟩, h⟩
      exact h⟩
  | .error _ _ => .isFalse nofun

/-- Two actions that answer are two actions that answer, one after the other. -/
theorem bind_ok {x : EStateM ε τ α} {f : α → EStateM ε τ β} {s t u : τ} {a : α} {b : β}
    (hx : x s = .ok a t) (hf : f a t = .ok b u) : (x >>= f) s = .ok b u := by
  change EStateM.bind x f s = _
  unfold EStateM.bind
  rw [hx]
  exact hf

/-- A sequence whose first part fails fails in the same way. -/
theorem bind_error {x : EStateM ε τ α} (f : α → EStateM ε τ β) {s t : τ} {e : ε}
    (hx : x s = .error e t) : (x >>= f) s = .error e t := by
  change EStateM.bind x f s = _
  unfold EStateM.bind
  rw [hx]

/-- **What answers one after the other** answers both times. -/
theorem exists_of_bind_ok {x : EStateM ε τ α} {f : α → EStateM ε τ β} {s u : τ} {b : β}
    (h : (x >>= f) s = .ok b u) : ∃ a t, x s = .ok a t ∧ f a t = .ok b u := by
  change EStateM.bind x f s = _ at h
  unfold EStateM.bind at h
  cases hx : x s with
  | ok a t =>
      rw [hx] at h
      exact ⟨a, t, rfl, h⟩
  | error e t =>
      rw [hx] at h
      cases h

/-- **The answer of an action is allowed.** If `x`, begun in `s`, ends with an answer, then the answer and the
state satisfy `post`. -/
def Answers (x : EStateM ε τ α) (s : τ) (post : α → τ → Prop) : Prop :=
  Ends x s fun o t => ∀ a, o = .ok a → post a t

namespace Answers

variable {x : EStateM ε τ α} {f : α → EStateM ε τ β} {s : τ}

/-- An answer that is allowed stays allowed when more is allowed. -/
theorem mono {post post' : α → τ → Prop} (h : Answers x s post)
    (himp : ∀ a t, post a t → post' a t) : Answers x s post' :=
  Ends.mono h fun _ t ho a ha => himp a t (ho a ha)

/-- One action after the other. -/
theorem bind {mid : α → τ → Prop} {post : β → τ → Prop} (h : Answers x s mid)
    (hok : ∀ a t, mid a t → Answers (f a) t post) : Answers (x >>= f) s post :=
  Ends.bind h (fun a t hmid => hok a t (hmid a rfl)) fun _ _ _ _ hb => nomatch hb

/-- Two demands on one answer are one demand. -/
theorem and {post post' : α → τ → Prop} (h : Answers x s post) (h' : Answers x s post') :
    Answers x s fun a t => post a t ∧ post' a t :=
  Ends.mono (Ends.and h h') fun _ _ ho a ha => ⟨ho.1 a ha, ho.2 a ha⟩

/-- What an action that ended with an answer is known to have satisfied. -/
theorem of_ok {post : α → τ → Prop} (h : Answers x s post) {a : α} {t : τ} (hx : x s = .ok a t) :
    post a t :=
  Ends.of_ok h hx a rfl

/-- Answering changes nothing. -/
theorem of_pure {post : α → τ → Prop} {a : α} (h : post a s) :
    Answers (pure a : EStateM ε τ α) s post := by
  intro b hb
  cases hb
  exact h

end Answers

/-! ## Actions on the state alone -/

section Primitive

variable {post : Except ε α → τ → Prop} {s : τ}

/-- Answering changes nothing. -/
@[simp] theorem ends_pure (a : α) : Ends (pure a) s post ↔ post (.ok a) s := Iff.rfl

/-- Failing changes nothing. -/
@[simp] theorem ends_throw (e : ε) :
    Ends (throw e : EStateM ε τ α) s post ↔ post (.error e) s := Iff.rfl

/-- Looking at the state changes nothing. -/
@[simp] theorem ends_get {post : Except ε τ → τ → Prop} :
    Ends (get : EStateM ε τ τ) s post ↔ post (.ok s) s := Iff.rfl

/-- The state is replaced. -/
@[simp] theorem ends_set {post : Except ε PUnit → τ → Prop} (t : τ) :
    Ends (set t : EStateM ε τ PUnit) s post ↔ post (.ok ⟨⟩) t := Iff.rfl

/-- The state is changed. -/
@[simp] theorem ends_modify {post : Except ε PUnit → τ → Prop} (f : τ → τ) :
    Ends (modify f : EStateM ε τ PUnit) s post ↔ post (.ok ⟨⟩) (f s) := Iff.rfl

/-- An answer is handed on. -/
@[simp] theorem ends_pure_bind (b : β) (f : β → EStateM ε τ α) :
    Ends (pure b >>= f) s post ↔ Ends (f b) s post := Iff.rfl

/-- After a failure nothing happens. -/
@[simp] theorem ends_throw_bind (e : ε) (f : β → EStateM ε τ α) :
    Ends ((throw e : EStateM ε τ β) >>= f) s post ↔ post (.error e) s := Iff.rfl

/-- The state looked at is handed on. -/
@[simp] theorem ends_get_bind (f : τ → EStateM ε τ α) :
    Ends (get >>= f) s post ↔ Ends (f s) s post := Iff.rfl

/-- What comes next begins in the new state. -/
@[simp] theorem ends_set_bind (t : τ) (f : PUnit → EStateM ε τ α) :
    Ends (set t >>= f) s post ↔ Ends (f ⟨⟩) t post := Iff.rfl

/-- What comes next begins in the changed state. -/
@[simp] theorem ends_modify_bind (g : τ → τ) (f : PUnit → EStateM ε τ α) :
    Ends (modify g >>= f) s post ↔ Ends (f ⟨⟩) (g s) post := Iff.rfl

end Primitive

/-! ## Actions of parsers -/

namespace Parser

variable {σ : Type} {p : Parser σ}

/-- An observed action never fails. -/
theorem ends_observe {x : ParserM σ α}
    {post : Except Interrupt (Except Interrupt α) → Parser σ → Prop}
    (h : Ends x p fun o q => post (.ok o) q) : Ends (observe x) p post := by
  unfold Ends at h ⊢
  unfold observe
  cases hx : x p <;> rw [hx] at h <;> exact h

/-- **What comes after an observed action** goes on from however the action has ended. -/
theorem ends_observe_bind {x : ParserM σ α} {f : Except Interrupt α → ParserM σ β}
    {mid : Except Interrupt α → Parser σ → Prop} {post : Except Interrupt β → Parser σ → Prop}
    (h : Ends x p mid) (hnext : ∀ o q, mid o q → Ends (f o) q post) :
    Ends (observe x >>= f) p post := by
  have hobserved : Ends (observe x) p fun o q => ∃ o', o = .ok o' ∧ mid o' q :=
    ends_observe (h.mono fun o q hq => ⟨o, rfl, hq⟩)
  refine Ends.bind hobserved ?_ (by rintro e q ⟨_, ⟨⟩, -⟩)
  rintro o q ⟨_, ⟨⟩, hq⟩
  exact hnext o q hq

/-- A released end is the end. -/
@[simp] theorem ends_release (o : Except Interrupt α) {post : Except Interrupt α → Parser σ → Prop} :
    Ends (release o) p post ↔ post o p := by
  cases o <;> rfl

/-- An action of the input stream changes the input alone, and its failures end the parse. -/
theorem ends_onInput {x : StreamM σ α} {post : Except Interrupt α → Parser σ → Prop}
    (h : Ends x p.input fun o s => post (o.mapError Interrupt.abort) { p with input := s }) :
    Ends (onInput x) p post := by
  unfold Ends at h ⊢
  unfold onInput
  cases hx : x p.input <;> rw [hx] at h <;> exact h

/-! ### Entering and leaving rules -/

/-- A parser with a rule entered outside trials, the first token of which is at a place. -/
def openRule (p : Parser σ) (r : RuleIndex) (start : Option Nat) : Parser σ :=
  let (node, tree) := p.tree.push p.currentNode? (.rule { rule := r, start })
  { p with tree, frames := ⟨r, some node⟩ :: p.frames }

/-- A parser with the end of a rule set at the last token consumed. -/
def closeRule (p : Parser σ) (node : Nat) : Parser σ :=
  let stop := p.behind? 1 >>= Token.index
  { p with tree := p.tree.modifyRule node fun r =>
    { r with stop := stop.filter fun s => r.start.any (· ≤ s) } }

variable [TokenSource σ]

/-- Seeing whether the run has been called off changes nothing. -/
theorem ends_checkCancelled (p : Parser σ) : Ends checkCancelled p fun o q =>
    q = p ∧ ((TokenSource.isCancelled p.input.source = false ∧ o = .ok ()) ∨
      (TokenSource.isCancelled p.input.source = true ∧ o = .error (.abort (.error .cancelled)))) := by
  unfold checkCancelled
  rw [ends_get_bind]
  cases hcancelled : TokenSource.isCancelled p.input.source with
  | true => exact ⟨rfl, .inr ⟨rfl, rfl⟩⟩
  | false => exact ⟨rfl, .inl ⟨rfl, rfl⟩⟩

/-- **How entering a rule ends.** -/
inductive Activates (p : Parser σ) (r : RuleIndex) : Except Interrupt Unit → Parser σ → Prop where
  /-- The run has been called off. -/
  | calledOff (cancelled : TokenSource.isCancelled p.input.source = true) :
    Activates p r (.error (.abort (.error .cancelled))) p
  /-- As many rules as may be are active. -/
  | tooDeep (limit : p.recursionLimit.any (· ≤ p.frames.length) = true) :
    Activates p r (.error (.abort (.error .recursionLimitExceeded))) p
  /-- A trial is under way, so that the rule gets no node. -/
  | unmarked (limit : p.recursionLimit.any (· ≤ p.frames.length) = false) (trying : p.isSpeculating = true) :
    Activates p r (.ok ()) { p with frames := ⟨r, none⟩ :: p.frames }
  /-- There is no telling with which token the rule begins. -/
  | unread {i : Interrupt} {q : Parser σ} (limit : p.recursionLimit.any (· ≤ p.frames.length) = false)
    (acting : p.isSpeculating = false) (ahead : ahead 1 p = .error i q) : Activates p r (.error i) q
  /-- The rule gets a node that begins with the current token. -/
  | marked {t : Token} {q : Parser σ} (limit : p.recursionLimit.any (· ≤ p.frames.length) = false)
    (acting : p.isSpeculating = false) (ahead : ahead 1 p = .ok t q) :
    Activates p r (.ok ()) (q.openRule r t.index)

/-- **Entering a rule** ends in one of these ways. -/
theorem enterRule_activates (r : RuleIndex) (p : Parser σ) : Ends (enterRule r) p (p.Activates r) := by
  unfold enterRule
  refine (ends_checkCancelled p).bind ?_ ?_
  · rintro _ q ⟨rfl, -⟩
    rw [ends_get_bind]
    cases hlimit : q.recursionLimit.any (· ≤ q.frames.length) with
    | true => exact .tooDeep hlimit
    | false =>
        cases hacting : q.isSpeculating with
        | true => exact .unmarked hlimit hacting
        | false =>
            refine (Ends.self (ahead 1) q).bind ?_ ?_
            · exact fun t s hahead => .marked hlimit hacting hahead
            · exact fun i s hahead => .unread hlimit hacting hahead
  · rintro _ q ⟨rfl, ⟨-, ⟨⟩⟩ | ⟨hcancelled, ⟨⟩⟩⟩
    exact .calledOff hcancelled

/-- **How leaving a rule ends.** It may turn out then that the run has been called off. -/
inductive Retires (p : Parser σ) : Except Interrupt Unit → Parser σ → Prop where
  /-- No rule is active. -/
  | outside (frames : p.frames = []) : Retires p (.error (.abort (.broken .exitWithoutEnter))) p
  /-- The rule has no node. -/
  | unmarked {frame : Frame} {frames : List Frame} {o : Except Interrupt Unit} (active : p.frames = frame :: frames)
    (node : frame.node = none) (goes : o = .ok () ∨ o = .error (.abort (.error .cancelled))) :
    Retires p o { p with frames }
  /-- The rule's node is closed. -/
  | marked {frame : Frame} {frames : List Frame} {n : Nat} {o : Except Interrupt Unit}
    (active : p.frames = frame :: frames) (node : frame.node = some n)
    (goes : o = .ok () ∨ o = .error (.abort (.error .cancelled))) :
    Retires p o ({ p with frames }.closeRule n)

section

omit [TokenSource σ]

variable {q : Parser σ} {o : Except Interrupt Unit}

/-- Leaving a rule does not fail as recognition does. -/
theorem Retires.ne_recognition (h : p.Retires o q) (e : RecognitionException) : o ≠ .error (.recognition e) := by
  rintro rfl
  cases h with
  | unmarked _ _ goes => rcases goes with h | h <;> cases h
  | marked _ _ goes => rcases goes with h | h <;> cases h

/-- Where a rule is active it is the one that is left. -/
theorem Retires.of_active (h : p.Retires o q) {frame : Frame} {frames : List Frame} (hactive : p.frames = frame :: frames) :
    (o = .ok () ∨ o = .error (.abort (.error .cancelled))) ∧
      q = match frame.node with
        | none => { p with frames }
        | some n => ({ p with frames }).closeRule n := by
  cases h with
  | outside hnone =>
      rw [hactive] at hnone
      cases hnone
  | unmarked active node goes =>
      obtain ⟨rfl, rfl⟩ := List.cons.inj (hactive.symm.trans active)
      rw [node]
      exact ⟨goes, rfl⟩
  | marked active node goes =>
      obtain ⟨rfl, rfl⟩ := List.cons.inj (hactive.symm.trans active)
      rw [node]
      exact ⟨goes, rfl⟩

end

/-- **Leaving a rule** ends in one of these ways. -/
theorem exitRule_retires (p : Parser σ) : Ends exitRule p p.Retires := by
  have hcheck : ∀ q : Parser σ, Ends checkCancelled q fun o r =>
      r = q ∧ (o = .ok () ∨ o = .error (.abort (.error .cancelled))) := fun q =>
    (ends_checkCancelled q).mono fun _ _ h => ⟨h.1, h.2.imp And.right And.right⟩
  unfold exitRule
  rw [ends_get_bind]
  cases hactive : p.frames with
  | nil => exact .outside hactive
  | cons frame frames =>
      rw [ends_modify_bind]
      cases hnode : frame.node with
      | none =>
          refine (hcheck _).mono ?_
          rintro o _ ⟨rfl, ho⟩
          exact .unmarked hactive hnode ho
      | some n =>
          refine (hcheck _).mono ?_
          rintro o _ ⟨rfl, ho⟩
          exact .marked hactive hnode ho

end Parser

end TreeProjection
