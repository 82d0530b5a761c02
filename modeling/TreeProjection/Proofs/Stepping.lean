import Mathlib.Logic.Function.Iterate
import TreeProjection.Projection.Session
import TreeProjection.Proofs.Ending

/-! # How the steps of a replay end

A replay opens and closes regions and passes tokens.  Each of its steps ends in one of a few ways: the run has been called
off, the builder has refused something, or the step has been taken, and then it is known which state is left.  What a
replay builds, counts and tells, and why it fails, is shown by these cases.

* `Projector.passed` — the token of a leaf has been passed.
* `Projector.Settles` — the ways in which the closing of a region ends.
* `Projector.Opens`, `Projector.Closes` — those in which the region of a rule is opened and closed.
* `Projector.Places` — those in which an error leaf is replayed.
* `Session.drain_ends` — how passing the tokens that are left ends. -/

namespace TreeProjection

variable {β τ : Type} [TreeBuilder β τ]

namespace Projector

variable {p : Projector β} {t : Token}

/-! ## Calls of the host -/

/-- An answer that only a broken contract can keep from being given. -/
theorem answers_orBroken {α : Type} (x : Except Violation α) :
    Answers (orBroken x) p fun a q => x = .ok a ∧ q = p := by
  cases x with
  | ok a =>
      rintro _ ⟨⟩
      exact ⟨rfl, rfl⟩
  | error v => exact fun _ h => nomatch h

/-- A look at the flag. -/
theorem ends_checkCancelled (p : Projector β) : Ends checkCancelled p fun o q =>
    q = p ∧ (p.host.cancelled = false ∧ o = .ok () ∨ p.host.cancelled = true ∧ o = .error (.error .cancelled)) := by
  unfold checkCancelled
  rw [ends_get_bind]
  cases p.host.cancelled with
  | true => exact ⟨rfl, .inr ⟨rfl, rfl⟩⟩
  | false => exact ⟨rfl, .inl ⟨rfl, rfl⟩⟩

/-- What comes after a look at the flag. -/
theorem ends_checkCancelled_bind {α : Type} {x : ProjectorM β α} {post : Except Abort α → Projector β → Prop}
    (hcancelled : p.host.cancelled = true → post (.error (.error .cancelled)) p)
    (hrunning : p.host.cancelled = false → Ends x p post) : Ends (checkCancelled >>= fun _ => x) p post := by
  refine (ends_checkCancelled p).bind ?_ ?_
  · rintro _ _ ⟨rfl, ⟨hflag, -⟩ | ⟨-, ⟨⟩⟩⟩
    exact hrunning hflag
  · rintro _ _ ⟨rfl, ⟨-, ⟨⟩⟩ | ⟨hflag, ⟨⟩⟩⟩
    exact hcancelled hflag

/-- The state in which the token of a leaf has been passed, unless it is the end of the input. -/
def passed (p : Projector β) (t : Token) : Projector β :=
  if t.isEof then p
  else { p with host := p.host.advance, stats := { p.stats with advances := p.stats.advances + 1 } }

/-- Passing the token of a leaf. -/
theorem advance_eq (t : Token) (p : Projector β) : advance t p = .ok () (p.passed t) := by
  unfold advance passed
  by_cases heof : t.isEof = true
  · simp only [heof, if_true]
    rfl
  · simp only [heof, if_false, Bool.false_eq_true]
    rfl

@[simp] theorem passed_errors : (p.passed t).errors = p.errors := by unfold passed; split <;> rfl

@[simp] theorem passed_markers : (p.passed t).markers = p.markers := by unfold passed; split <;> rfl

@[simp] theorem passed_spent : (p.passed t).spent = p.spent := by unfold passed; split <;> rfl

@[simp] theorem passed_events : (p.passed t).events = p.events := by unfold passed; split <;> rfl

@[simp] theorem passed_elements : (p.passed t).host.elements = p.host.elements := by unfold passed; split <;> rfl

/-- The state in which a region has been opened. -/
def marked (p : Projector β) : Projector β :=
  { p with host := p.host.counted (TreeBuilder.mark p.host.builder).2 }

/-- Opening a region. -/
theorem mark_eq (p : Projector β) : mark p = .ok (TreeBuilder.mark p.host.builder).1 p.marked := rfl

/-- **How closing a region ends**: as the builder answers. -/
inductive Settles (p : Projector β) (answer : Except Violation β) : Except Abort Unit → Projector β → Prop where
  /-- The builder has closed the region. -/
  | closed {b : β} (h : answer = .ok b) : Settles p answer (.ok ()) { p with host := p.host.counted b }
  /-- It has refused to. -/
  | refused {v : Violation} (h : answer = .error v) : Settles p answer (.error (.broken v)) p

/-- Closing a region is asking the builder. -/
theorem ends_settles (answer : Except Violation β) : Ends (do
      let host ← orBroken (answer >>= fun b => .ok (p.host.counted b))
      set { p with host }) p (p.Settles answer) := by
  cases answer with
  | ok b => exact .closed rfl
  | error v => exact .refused rfl

/-- Closing a region as a node. -/
theorem done_settles (marker : Nat) (kind : Kind) (p : Projector β) :
    Ends (done marker kind) p (p.Settles (TreeBuilder.done p.host.builder marker kind)) :=
  ends_settles _

/-- Closing a region as an error element. -/
theorem error_settles (marker : Nat) (message : String) (p : Projector β) :
    Ends (error marker message) p (p.Settles (TreeBuilder.error p.host.builder marker message)) :=
  ends_settles _

/-! ## Rules -/

/-- **How opening the region of a rule ends.** -/
inductive Opens (p : Projector β) (r : RuleNode) : Except Abort Unit → Projector β → Prop where
  /-- The run has been called off. -/
  | calledOff (cancelled : p.host.cancelled = true) : Opens p r (.error (.error .cancelled)) p
  /-- The region is open, and is the innermost one of a rule. -/
  | opened (running : p.host.cancelled = false) : Opens p r (.ok ()) { p.marked with
      markers := (TreeBuilder.mark p.host.builder).1 :: p.markers
      stats := { p.stats with rulesEntered := p.stats.rulesEntered + 1 }
      events := p.events.push (.ruleEnter r.rule) }

/-- **Opening the region of a rule** ends in one of these ways. -/
theorem enterRule_opens (r : RuleNode) (p : Projector β) : Ends (enterRule r) p (p.Opens r) :=
  ends_checkCancelled_bind .calledOff .opened

/-- **How closing the region of a rule ends.** -/
inductive Closes (p : Projector β) (r : RuleNode) : Except Abort Unit → Projector β → Prop where
  /-- The run has been called off. -/
  | calledOff (cancelled : p.host.cancelled = true) : Closes p r (.error (.error .cancelled)) p
  /-- No region is open for a rule. -/
  | unopened (markers : p.markers = []) : Closes p r (.error (.broken .exitWithoutMarker)) p
  /-- The rule has no kind. -/
  | unknown {marker : Nat} {rest : List Nat} {v : Violation} (markers : p.markers = marker :: rest)
    (exception : r.exception = none) (unknown : p.host.elements.rule r.rule = .error v) :
    Closes p r (.error (.broken v)) { p with markers := rest }
  /-- The builder refuses to close the region as an error element. -/
  | unfailed {marker : Nat} {rest : List Nat} {e : RecognitionException} {v : Violation}
    (markers : p.markers = marker :: rest) (exception : r.exception = some e)
    (answer : TreeBuilder.error p.host.builder marker (failureMessage p.errors e) = .error v) :
    Closes p r (.error (.broken v)) { p with markers := rest }
  /-- An exception has ended the rule, and its region is an error element. -/
  | failed {marker : Nat} {rest : List Nat} {e : RecognitionException} {b : β} (running : p.host.cancelled = false)
    (markers : p.markers = marker :: rest) (exception : r.exception = some e)
    (answer : TreeBuilder.error p.host.builder marker (failureMessage p.errors e) = .ok b) :
    Closes p r (.ok ()) { p with
      host := p.host.counted b
      markers := rest
      stats := { p.stats with rulesErrored := p.stats.rulesErrored + 1 }
      events := p.events.push (.ruleError r.rule (failureMessage p.errors e)) }
  /-- The builder refuses to close the region as a node. -/
  | undone {marker : Nat} {rest : List Nat} {kind : Kind} {v : Violation} (markers : p.markers = marker :: rest)
    (exception : r.exception = none) (known : p.host.elements.rule r.rule = .ok kind)
    (answer : TreeBuilder.done p.host.builder marker kind = .error v) :
    Closes p r (.error (.broken v)) { p with markers := rest }
  /-- The region is a node of the rule's kind. -/
  | done {marker : Nat} {rest : List Nat} {kind : Kind} {b : β} (running : p.host.cancelled = false)
    (markers : p.markers = marker :: rest) (exception : r.exception = none)
    (known : p.host.elements.rule r.rule = .ok kind) (answer : TreeBuilder.done p.host.builder marker kind = .ok b) :
    Closes p r (.ok ()) { p with
      host := p.host.counted b
      markers := rest
      stats := { p.stats with rulesDone := p.stats.rulesDone + 1 }
      events := p.events.push (.ruleDone r.rule) }

/-- **Closing the region of a rule** ends in one of these ways. -/
theorem exitRule_closes (r : RuleNode) (p : Projector β) : Ends (exitRule r) p (p.Closes r) := by
  refine ends_checkCancelled_bind .calledOff fun hrunning => ?_
  rw [ends_get_bind]
  cases hmarkers : p.markers with
  | nil => exact .unopened hmarkers
  | cons marker rest =>
      simp only
      rw [ends_modify_bind]
      cases hexception : r.exception with
      | some e =>
          simp only
          rw [ends_get_bind]
          refine (error_settles marker _ { p with markers := rest }).bind ?_ ?_
          · rintro _ q (⟨hanswer⟩ | _)
            exact .failed hrunning hmarkers hexception hanswer
          · rintro _ q (_ | ⟨hanswer⟩)
            exact .unfailed hmarkers hexception hanswer
      | none =>
          simp only
          rw [ends_get_bind]
          cases hkind : p.host.elements.rule r.rule with
          | error v => exact .unknown hmarkers hexception hkind
          | ok kind =>
              refine (done_settles marker kind { p with markers := rest }).bind ?_ ?_
              · rintro _ q (⟨hanswer⟩ | _)
                exact .done hrunning hmarkers hexception hkind hanswer
              · rintro _ q (_ | ⟨hanswer⟩)
                exact .undone hmarkers hexception hkind hanswer

/-! ## Error leaves -/

/-- The texts that are to be placed at a token: those of its offset, unless they have been placed before. -/
def waiting? (p : Projector β) (t : Token) : Option String :=
  if p.spent.contains (t.start?.getD 0) then none else p.errors.messagesAt? (t.start?.getD 0)

/-- **How replaying an error leaf ends.** -/
inductive Places (p : Projector β) (t : Token) : Except Abort Unit → Projector β → Prop where
  /-- A token that was made up is an error element without extent. -/
  | conjured {b : β} (conjured : t.isConjured = true)
    (answer : TreeBuilder.error p.marked.host.builder (TreeBuilder.mark p.host.builder).1 t.text = .ok b) :
    Places p t (.ok ()) { p with
      host := p.marked.host.counted b
      stats := { p.stats with errorMarkers := p.stats.errorMarkers + 1, conjured := p.stats.conjured + 1 }
      events := p.events.push (.errorLeaf t (some t.text)) }
  /-- A token of the input is passed inside of an error element with the texts that are to be placed at it. -/
  | wrapped {message : String} {b : β} (real : t.isConjured = false) (waiting : p.waiting? t = some message)
    (answer : TreeBuilder.error (p.marked.passed t).host.builder (TreeBuilder.mark p.host.builder).1 message = .ok b) :
    Places p t (.ok ()) { p.marked.passed t with
      host := (p.marked.passed t).host.counted b
      spent := t.start?.getD 0 :: (p.marked.passed t).spent
      stats := { (p.marked.passed t).stats with errorMarkers := (p.marked.passed t).stats.errorMarkers + 1 }
      events := (p.marked.passed t).events.push (.errorLeaf t (some message)) }
  /-- Where no texts are to be placed, a token of the input is passed. -/
  | plain (real : t.isConjured = false) (waiting : p.waiting? t = none) :
    Places p t (.ok ()) { p.passed t with events := (p.passed t).events.push (.errorLeaf t none) }
  /-- The builder refuses to close the error element. -/
  | refused {q : Projector β} {message : String} {v : Violation} (inside : q = p.marked ∨ q = p.marked.passed t)
    (answer : TreeBuilder.error q.host.builder (TreeBuilder.mark p.host.builder).1 message = .error v) :
    Places p t (.error (.broken v)) q

/-- **Replaying an error leaf** ends in one of these ways. -/
theorem errorLeaf_places (t : Token) (p : Projector β) : Ends (errorLeaf t) p (p.Places t) := by
  unfold errorLeaf
  by_cases hconjured : t.isConjured = true
  · simp only [hconjured, if_true]
    refine (Ends.bind_of_ok (mark_eq p)).mpr ((error_settles _ _ _).bind ?_ ?_)
    · rintro _ q (⟨hanswer⟩ | _)
      exact .conjured hconjured hanswer
    · rintro _ q (_ | ⟨hanswer⟩)
      exact .refused (.inl rfl) hanswer
  · have hreal : t.isConjured = false := Bool.eq_false_iff.mpr hconjured
    simp only [hreal, if_false, Bool.false_eq_true]
    rw [ends_get_bind]
    have hlook : (if p.spent.contains (t.start?.getD 0) then none else p.errors.messagesAt? (t.start?.getD 0)) =
        p.waiting? t := rfl
    rw [hlook]
    cases hwaiting : p.waiting? t with
    | none => exact (Ends.bind_of_ok (advance_eq t p)).mpr (.plain hreal hwaiting)
    | some message =>
        refine (Ends.bind_of_ok (mark_eq p)).mpr ((Ends.bind_of_ok (advance_eq t p.marked)).mpr ?_)
        refine (error_settles _ _ _).bind ?_ ?_
        · rintro _ q (⟨hanswer⟩ | _)
          exact .wrapped hreal hwaiting hanswer
        · rintro _ q (_ | ⟨hanswer⟩)
          exact .refused (.inr rfl) hanswer

end Projector

/-! ## What is left -/

namespace Session

/-- **Passing the tokens that are left ends** when some tokens have been passed: as many as it may, or as many as there
are, or as many as there were before the run was found to have been called off. -/
theorem drain_ends (fuel passed : Nat) (p : Projector β) : Ends (drain fuel passed) p fun o q =>
    ∃ n ≤ fuel, q = { p with host := Supervised.advance^[n] p.host } ∧
      (o = .error (.error .cancelled) ∨
        o = .ok (passed + n) ∧ (n = fuel ∨ TreeBuilder.atEnd q.host.builder = true)) := by
  induction fuel generalizing passed p with
  | zero => exact ⟨0, Nat.le_refl _, rfl, .inr ⟨rfl, .inl rfl⟩⟩
  | succ fuel ih =>
      unfold drain
      rw [ends_get_bind]
      by_cases hend : TreeBuilder.atEnd p.host.builder = true
      · rw [if_pos hend]
        exact ⟨0, Nat.zero_le _, rfl, .inr ⟨rfl, .inr hend⟩⟩
      · rw [if_neg hend]
        refine Projector.ends_checkCancelled_bind (fun _ => ⟨0, Nat.zero_le _, rfl, .inl rfl⟩) fun _ => ?_
        rw [ends_modify_bind]
        refine (ih (passed + 1) { p with host := p.host.advance }).mono ?_
        rintro o q ⟨n, hle, hq, hends⟩
        refine ⟨n + 1, Nat.succ_le_succ hle, hq, hends.imp id ?_⟩
        rintro ⟨rfl, hn⟩
        exact ⟨congrArg Except.ok (Nat.add_right_comm _ _ _), hn.imp (congrArg (· + 1)) id⟩

end Session

end TreeProjection
