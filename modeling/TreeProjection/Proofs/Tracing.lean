import TreeProjection.Host.Green
import TreeProjection.Proofs.Stepping

/-! # Traces of one run after another

A tracer is kept across the runs of a session.  What a run tells it comes in the order of the replay, so that each rule
that is left is the innermost one that has been entered and not left; but a run that is given up while the tree is
replayed leaves rules open.  From then on whatever is replayed is told further in, by as much as rules have been left
open, and otherwise as by a tracer of its own.

* `ProjectionEvent.openAfter?` — the rules that are open after some steps.
* `Tracer.under` — a tracer among rules that have been left open before.
* `Tracer.shifts_tellAll` — it tells the same, further in.
* `Projector.tells_replayStack` — a replay leaves rules in the order in which they have been entered.
* `Session.After` — a session after some runs.
* `Session.project_traced_apart` — a run is traced as by itself, unless an earlier one has been given up halfway. -/

namespace TreeProjection

/-! ## Open rules -/

namespace ProjectionEvent

variable {rules rules' : List RuleIndex} {e : ProjectionEvent}

/-- Whether a step is one of a replay. -/
def isStep : ProjectionEvent → Bool
  | parseStart _ => false
  | parseEnd _ => false
  | _ => true

/-- **The open rules after a step.** There is no answer if a rule is left that is not the innermost open one. -/
def follow? (rules : List RuleIndex) : ProjectionEvent → Option (List RuleIndex)
  | ruleEnter r => some (r :: rules)
  | ruleDone r => if rules.head? = some r then some rules.tail else none
  | ruleError r _ => if rules.head? = some r then some rules.tail else none
  | _ => some rules

/-- The open rules after several steps. -/
def openAfter? (rules : List RuleIndex) (events : List ProjectionEvent) : Option (List RuleIndex) :=
  events.foldlM follow? rules

/-- **The open rules of a tracer after a step.** A rule that is not the innermost open one is not left. -/
def follow (rules : List RuleIndex) : ProjectionEvent → List RuleIndex
  | ruleEnter r => r :: rules
  | ruleDone r => if rules.head? = some r then rules.tail else rules
  | ruleError r _ => if rules.head? = some r then rules.tail else rules
  | _ => rules

/-- If just the innermost rules are left, these are the open rules. -/
theorem follow_eq (h : follow? rules e = some rules') : follow rules e = rules' := by
  cases e with
  | ruleDone r | ruleError r message =>
      rw [follow?] at h
      split at h
      · rename_i hhead
        rw [follow, if_pos hhead]
        exact Option.some.inj h
      · cases h
  | _ => exact Option.some.inj h

end ProjectionEvent

open ProjectionEvent

/-! ## Tracers among open rules -/

namespace Tracer

variable {u : Tracer} {base : List RuleIndex} {f g : Tracer → Tracer} {e : ProjectionEvent}

/-- A line that is told further in, by a number of rules. -/
def indented (depth : Nat) (line : String) : String := String.join (List.replicate depth "  ") ++ line

/-- **A tracer among rules that have been left open before**, with the lines that have been told before. -/
def under (u : Tracer) (base : List RuleIndex) (lines : Array String) : Tracer :=
  { u with rules := u.rules ++ base, lines }

/-- **Among open rules the same is told, further in.** -/
def Shifts (base : List RuleIndex) (f : Tracer → Tracer) (u : Tracer) : Prop :=
  ∃ new : Array String, (f u).lines = u.lines ++ new ∧
    ∀ lines, f (u.under base lines) = (f u).under base (lines ++ new.map (indented base.length))

/-- What tells nothing. -/
theorem Shifts.of_silent (hlines : (f u).lines = u.lines)
    (h : ∀ lines, f (u.under base lines) = (f u).under base lines) :
    Shifts base f u :=
  ⟨#[], by simpa using hlines, fun lines => by simpa using h lines⟩

/-- First one is told, then the other. -/
theorem Shifts.comp (hf : Shifts base f u) (hg : Shifts base g (f u)) : Shifts base (fun t => g (f t)) u := by
  obtain ⟨new, hlines, hunder⟩ := hf
  obtain ⟨more, hmore, hunder'⟩ := hg
  refine ⟨new ++ more, ?_, fun lines => ?_⟩
  · simp only [hmore, hlines, Array.append_assoc]
  · simp only [hunder, hunder', Array.map_append, Array.append_assoc]

/-- A line that is told in one way is told in another if the two are the same. -/
theorem Shifts.congr (h : Shifts base f u) (hhere : g u = f u)
    (hunder : ∀ lines, g (u.under base lines) = f (u.under base lines)) : Shifts base g u := by
  obtain ⟨new, hlines, hshift⟩ := h
  exact ⟨new, hhere ▸ hlines, fun lines => by rw [hunder, hshift, hhere]⟩

/-- **A line of its own** is indented by all rules that are open. -/
theorem shifts_addIndented (content : String) : Shifts base (·.addIndented content) u := by
  refine ⟨#[indented u.rules.length content], ?_, fun lines => ?_⟩
  · simp [addIndented, addLine, indented]
  · have hlength : (u.rules ++ base).length = base.length + u.rules.length := by
      rw [List.length_append, Nat.add_comm]
    simp only [addIndented, addLine, under, hlength, ← List.replicate_append_replicate, String.join_append,
      String.append_assoc]
    simp [indented]

/-- Lines of their own, one after the other. -/
theorem shifts_foldl {α : Type} (content : α → String) (xs : List α) :
    Shifts base (fun t => xs.foldl (fun t x => t.addIndented (content x)) t) u := by
  induction xs generalizing u with
  | nil => exact .of_silent rfl fun _ => rfl
  | cons x xs ih => exact (shifts_addIndented (content x)).comp ih

/-- The lines of an error are painted alike. -/
theorem addError_eq (t : Tracer) (head : Nat → String) (message : String) {red reset : String}
    (hred : t.palette.red = red) (hreset : t.palette.reset = reset) : t.addError head message =
      (Text.lines message).zipIdx.foldl (fun t line =>
        t.addIndented (red ++ "error" ++ reset ++ " " ++ head line.2 ++ ": " ++ line.1)) t := by
  unfold addError
  induction (Text.lines message).zipIdx generalizing t with
  | nil => rfl
  | cons line rest ih =>
      rw [List.foldl_cons, List.foldl_cons, painted, hred, hreset]
      exact ih _ hred hreset

/-- An error, on as many lines as its text has. -/
theorem shifts_addError (head : Nat → String) (message : String) : Shifts base (·.addError head message) u :=
  (shifts_foldl (fun line : String × Nat =>
    u.palette.red ++ "error" ++ u.palette.reset ++ " " ++ head line.2 ++ ": " ++ line.1)
      (Text.lines message).zipIdx).congr (u.addError_eq head message rfl rfl) fun lines =>
        (u.under base lines).addError_eq head message rfl rfl

/-- The innermost open rule is left. -/
theorem leave_of_head {r : RuleIndex} (hhead : u.rules.head? = some r) :
    u.leave r = { u with rules := u.rules.tail } := by
  rw [leave, if_pos hhead]

/-- **Leaving the innermost open rule.** -/
theorem shifts_leave {r : RuleIndex} (hhead : u.rules.head? = some r) : Shifts base (·.leave r) u := by
  obtain ⟨inner, hinner⟩ := List.head?_eq_some_iff.mp hhead
  refine .of_silent (by rw [leave_of_head hhead]) fun lines => ?_
  have hunder : (u.under base lines).rules.head? = some r := by simp [under, hinner]
  rw [leave_of_head hhead, leave_of_head hunder]
  simp [under, hinner]

/-- Leaving a rule changes nothing but the open rules. -/
theorem leave_follow (t : Tracer) (r : RuleIndex) : t.leave r = { t with rules := follow t.rules (.ruleDone r) } := by
  rw [leave, follow]
  split <;> rfl

/-- A line of its own leaves the open rules as they are. -/
theorem rules_addError (t : Tracer) (head : Nat → String) (message : String) :
    (t.addError head message).rules = t.rules := by
  unfold addError
  induction (Text.lines message).zipIdx generalizing t with
  | nil => rfl
  | cons line rest ih => exact ih _

/-- **The open rules of a tracer** after a step. -/
theorem rules_tell_eq (t : Tracer) (e : ProjectionEvent) : (t.tell e).rules = follow t.rules e := by
  cases e with
  | parseStart | parseEnd | ruleEnter => rfl
  | ruleDone r =>
      rw [tell, leave_follow]
      split <;> rfl
  | ruleError r message =>
      rw [tell, rules_addError, leave_follow]
      rfl
  | advance u =>
      rw [tell]
      split <;> rfl
  | errorLeaf u message =>
      cases message with
      | some message =>
          rw [tell, rules_addError]
          rfl
      | none =>
          rw [tell]
          split <;> rfl
  | drain n =>
      rw [tell]
      split <;> rfl

/-- They are those that follow, where just the innermost rules are left. -/
theorem rules_tell {rules : List RuleIndex} (h : follow? u.rules e = some rules) : (u.tell e).rules = rules :=
  (u.rules_tell_eq e).trans (follow_eq h)

/-- A line that is told in verbose traces alone. -/
theorem shifts_unless {p : Prop} [Decidable p] (content : String) :
    Shifts base (fun t => if p then t else t.addIndented content) u := by
  by_cases hp : p
  · simp only [hp, if_true]
    exact .of_silent rfl fun _ => rfl
  · simp only [hp, if_false]
    exact shifts_addIndented content

/-- **A step of a replay** is told further in. -/
theorem shifts_tell {rules : List RuleIndex} (he : e.isStep = true) (h : follow? u.rules e = some rules) :
    Shifts base (·.tell e) u := by
  cases e with
  | parseStart entry => cases he
  | parseEnd n => cases he
  | ruleEnter r =>
      have hopen : Shifts base (fun t : Tracer => { t with rules := r :: t.rules })
          (u.addIndented (u.painted u.palette.blue (u.language.ruleNameOrUnknown r))) :=
        .of_silent rfl fun _ => rfl
      exact ((shifts_addIndented _).comp hopen).congr rfl fun _ => rfl
  | ruleDone r =>
      rw [follow?] at h
      split at h
      -- the rule that is left is the innermost one, so that its line is as far in as its first one
      · rename_i hhead
        have hleave : Shifts base (·.leave r) u := shifts_leave hhead
        have hdone := hleave.comp (shifts_unless (p := u.verbosity = .standard)
          (u.painted u.palette.dim "done" ++ " " ++ u.language.ruleNameOrUnknown r))
        refine hdone.congr ?_ fun lines => ?_
        · rw [tell, leave_follow]
          rfl
        · rw [tell, leave_follow]
          rfl
      · cases h
  | ruleError r message =>
      rw [follow?] at h
      split at h
      · rename_i hhead
        have hadd : Shifts base _ (u.leave r) :=
          shifts_addError (fun i => if i = 0 then u.language.ruleNameOrUnknown r else "") message
        exact ((shifts_leave hhead).comp hadd).congr rfl fun _ => rfl
      · cases h
  | advance t => exact (shifts_unless (p := u.verbosity = .standard) _).congr rfl fun _ => rfl
  | errorLeaf t message =>
      cases message with
      | some message => exact (shifts_addError (fun _ => u.token t) message).congr rfl fun _ => rfl
      | none => exact (shifts_unless (p := u.verbosity = .standard) _).congr rfl fun _ => rfl
  | drain n => exact (shifts_unless (p := n = 0) _).congr rfl fun _ => rfl

/-- **The steps of a replay** are told further in, and leave the rules open that they have opened and not left. -/
theorem shifts_tellAll {es : List ProjectionEvent} {rules : List RuleIndex} (hes : ∀ e ∈ es, e.isStep = true)
    (h : openAfter? u.rules es = some rules) : Shifts base (·.tellAll es) u ∧ (u.tellAll es).rules = rules := by
  induction es generalizing u with
  | nil => exact ⟨.of_silent rfl fun _ => rfl, Option.some.inj h⟩
  | cons e rest ih =>
      obtain ⟨he, hrest⟩ := List.forall_mem_cons.mp hes
      rw [openAfter?, List.foldlM_cons] at h
      obtain ⟨inner, hinner, h⟩ := Option.bind_eq_some_iff.mp h
      have hrules := rules_tell hinner
      obtain ⟨hshifts, hopen⟩ := ih hrest (hrules ▸ h)
      exact ⟨(shifts_tell he hinner).comp hshifts, hopen⟩

end Tracer

/-! ## The order of a replay -/

namespace Projector

variable {β τ : Type} [TreeBuilder β τ] {α γ : Type} {before : List ProjectionEvent} {rules rules' : List RuleIndex}
  {p q : Projector β}

/-- **What a replay has told**: after what was told before it, steps after which some rules are open. -/
def Told (before : List ProjectionEvent) (rules : List RuleIndex) (p : Projector β) : Prop :=
  ∃ es, p.events.toList = before ++ es ∧ (∀ e ∈ es, e.isStep = true) ∧ openAfter? [] es = some rules

/-- Nothing more has been told. -/
theorem Told.of_events (h : Told before rules p) (hq : q.events = p.events) : Told before rules q := by
  obtain ⟨es, hes, hsteps, hopen⟩ := h
  exact ⟨es, hq ▸ hes, hsteps, hopen⟩

/-- One more step has been told. -/
theorem Told.push (h : Told before rules p) {e : ProjectionEvent} (he : e.isStep = true)
    (hfollow : follow? rules e = some rules') : Told before rules' { p with events := p.events.push e } := by
  obtain ⟨es, hes, hsteps, hopen⟩ := h
  refine ⟨es ++ [e], ?_, ?_, ?_⟩
  · rw [Array.toList_push, hes, List.append_assoc]
  · intro e' he'
    rcases List.mem_append.mp he' with he' | he'
    · exact hsteps e' he'
    · exact List.mem_singleton.mp he' ▸ he
  · have hsplit : openAfter? [] (es ++ [e]) = (openAfter? [] es).bind fun rules => openAfter? rules [e] :=
      List.foldlM_append
    rw [hsplit, hopen, Option.bind_some, openAfter?, List.foldlM_cons, hfollow]
    rfl

/-- **How an action ends that tells steps**: if it answers, then with some rules open. -/
def Tells (before : List ProjectionEvent) (rules : List RuleIndex) (o : Except Abort α) (q : Projector β) : Prop :=
  ∃ left, Told before left q ∧ ∀ a, o = .ok a → left = rules

/-- **An action that tells nothing.** -/
def Silent (act : ProjectorM β α) : Prop := ∀ p, Ends act p fun _ q => q.events = p.events

theorem silent_pure (a : α) : Silent (pure a : ProjectorM β α) := fun _ => rfl

theorem silent_throw (e : Abort) : Silent (throw e : ProjectorM β α) := fun _ => rfl

/-- A change that leaves out what has been told. -/
theorem silent_modify {f : Projector β → Projector β} (hf : ∀ p, (f p).events = p.events) :
    Silent (modify f : ProjectorM β Unit) := fun p => hf p

theorem silent_orBroken (x : Except Violation α) : Silent (orBroken x : ProjectorM β α) := by
  cases x with
  | ok a => exact silent_pure a
  | error v => exact silent_throw _

theorem silent_count (f : ProjectionStats → ProjectionStats) : Silent (count f : ProjectorM β Unit) :=
  silent_modify fun _ => rfl

theorem silent_mark : Silent (mark : ProjectorM β Nat) := fun _ => rfl

theorem silent_done (marker : Nat) (kind : Kind) : Silent (done marker kind : ProjectorM β Unit) := by
  refine fun p => (done_settles marker kind p).mono ?_
  rintro _ _ (_ | _) <;> rfl

/-- **First nothing is told, then something.** -/
theorem Silent.bind_tells {act : ProjectorM β α} {next : α → ProjectorM β γ} (h : Silent act)
    (hp : Told before rules p)
    (hnext : ∀ a q, Told before rules q → Ends (next a) q (Tells before rules')) :
    Ends (act >>= next) p (Tells before rules') :=
  (h p).bind (fun a q hq => hnext a q (hp.of_events hq)) fun _ _ hq => ⟨rules, hp.of_events hq, nofun⟩

/-- What tells nothing leaves the open rules as they are. -/
theorem Silent.tells {act : ProjectorM β α} (h : Silent act) (hp : Told before rules p) :
    Ends act p (Tells before rules) :=
  (h p).mono fun _ _ hq => ⟨rules, hp.of_events hq, fun _ _ => rfl⟩

/-- **First one part is told, then another.** -/
theorem tells_bind {act : ProjectorM β α} {next : α → ProjectorM β γ} (h : Ends act p (Tells before rules))
    (hnext : ∀ a q, Told before rules q → Ends (next a) q (Tells before rules')) :
    Ends (act >>= next) p (Tells before rules') := by
  refine Ends.bind h ?_ ?_
  · rintro a q ⟨left, hq, hleft⟩
    exact hnext a q (hleft a rfl ▸ hq)
  · rintro e q ⟨left, hq, -⟩
    exact ⟨left, hq, nofun⟩

/-- Telling a step. -/
theorem tells_tell {e : ProjectionEvent} (hp : Told before rules p) (he : e.isStep = true)
    (hfollow : follow? rules e = some rules') : Ends (tell e : ProjectorM β Unit) p (Tells before rules') :=
  ⟨rules', hp.push he hfollow, fun _ _ => rfl⟩

/-- **Entering a rule** opens it. -/
theorem tells_enterRule (r : RuleNode) (hp : Told before rules p) :
    Ends (enterRule r) p (Tells before (r.rule :: rules)) := by
  refine (enterRule_opens r p).mono fun o q hends => ?_
  cases hends with
  | calledOff => exact ⟨_, hp, nofun⟩
  | opened => exact ⟨_, (hp.push (e := .ruleEnter r.rule) rfl rfl).of_events rfl, fun _ _ => rfl⟩

/-- **Leaving a rule** leaves the innermost one. -/
theorem tells_exitRule (r : RuleNode) (hp : Told before (r.rule :: rules) p) :
    Ends (exitRule r) p (Tells before rules) := by
  refine (exitRule_closes r p).mono fun o q hends => ?_
  cases hends with
  | calledOff | unopened | unknown | unfailed | undone => exact ⟨_, hp.of_events rfl, nofun⟩
  | failed => exact ⟨_, (hp.push (e := .ruleError r.rule _) rfl (if_pos rfl)).of_events rfl, fun _ _ => rfl⟩
  | done => exact ⟨_, (hp.push (e := .ruleDone r.rule) rfl (if_pos rfl)).of_events rfl, fun _ _ => rfl⟩

/-- A matched token opens and leaves nothing. -/
theorem tells_terminal (t : Token) (hp : Told before rules p) : Ends (terminal t) p (Tells before rules) := by
  unfold terminal
  exact (Ends.bind_of_ok (advance_eq t p)).mpr (tells_tell (hp.of_events passed_events) rfl rfl)

/-- Nor does an error leaf. -/
theorem tells_errorLeaf (t : Token) (hp : Told before rules p) : Ends (errorLeaf t) p (Tells before rules) := by
  have hpassed : Told before rules (p.marked.passed t) := hp.of_events passed_events
  refine (errorLeaf_places t p).mono fun o q hends => ?_
  cases hends with
  | conjured => exact ⟨_, (hp.push (e := .errorLeaf t _) rfl rfl).of_events rfl, fun _ _ => rfl⟩
  | wrapped => exact ⟨_, (hpassed.push (e := .errorLeaf t _) rfl rfl).of_events rfl, fun _ _ => rfl⟩
  | plain => exact ⟨_, (hp.of_events passed_events).push (e := .errorLeaf t none) rfl rfl, fun _ _ => rfl⟩
  | refused inside =>
      rcases inside with rfl | rfl
      · exact ⟨_, hp.of_events rfl, nofun⟩
      · exact ⟨_, hpassed, nofun⟩

/-- The rules that are to be left for what is on a stack, innermost first. -/
def exits (stack : List Visit) : List RuleIndex :=
  stack.filterMap fun
    | .enter _ => none
    | .exit r => some r.rule

/-- **A replay leaves rules in the order in which they have been entered**: those that are open are those that are to
be left for what is on the stack. -/
theorem tells_replayStack (tree : ParseTree) (fuel : Nat) (stack : List Visit) (hp : Told before (exits stack) p) :
    Ends (replayStack tree fuel stack) p (Tells before []) := by
  induction fuel generalizing stack p with
  | zero =>
      cases stack with
      | nil => exact (silent_pure _).tells hp
      | cons visit rest => exact ⟨_, hp, by rintro _ ⟨⟩⟩
  | succ fuel ih =>
      cases stack with
      | nil => exact (silent_pure _).tells hp
      | cons visit rest =>
          cases visit with
          | exit r => exact tells_bind (tells_exitRule r hp) fun _ q hq => ih rest hq
          | enter id =>
              rw [replayStack]
              split
              · rename_i r _
                refine tells_bind (tells_enterRule r hp) fun _ q hq => ih _ ?_
                -- the children open nothing that is to be left by themselves
                have hexits : exits (r.children.toList.map .enter ++ .exit r :: rest) = r.rule :: exits rest := by
                  simp [exits, List.filterMap_append, List.filterMap_map]
                rwa [hexits]
              · exact tells_bind (tells_terminal _ hp) fun _ q hq => ih rest hq
              · exact tells_bind (tells_errorLeaf _ hp) fun _ q hq => ih rest hq
              · exact ⟨_, hp, by rintro _ ⟨⟩⟩

/-- Replaying a tree leaves nothing open. -/
theorem tells_replay (tree : ParseTree) (hp : Told before [] p) : Ends (replay tree) p (Tells before []) := by
  unfold replay
  cases tree.root with
  | none => exact (silent_pure _).tells hp
  | some root =>
      refine tells_bind (tells_replayStack tree _ [.enter root] hp) fun _ q hq => ?_
      rw [ends_get_bind]
      dsimp only
      split
      · exact (silent_pure _).tells hq
      · exact (silent_throw _).tells hq

end Projector

namespace Session

variable {β τ : Type} [TreeBuilder β τ] {before : List ProjectionEvent} {p : Projector β}

open Projector

/-- Passing the tokens that are left tells nothing. -/
theorem silent_drain (fuel passed : Nat) : Silent (drain fuel passed : ProjectorM β Nat) := by
  refine fun p => (drain_ends fuel passed p).mono ?_
  rintro _ _ ⟨n, -, rfl, -⟩
  rfl

/-- **A projection leaves nothing open** if it succeeds. -/
theorem tells_replayUnder (snapshot : Nat) (root : Kind) (tree : ParseTree) (hp : Told before [] p) :
    Ends (replayUnder snapshot root tree : ProjectorM β τ) p (Tells before []) := by
  unfold replayUnder
  rw [ends_get_bind]
  refine (silent_orBroken _ p).bind (fun host q _ => ?_) fun _ _ hq => ⟨[], hp.of_events hq, nofun⟩
  have hback : Told before [] { p with host } := hp
  rw [ends_set_bind]
  refine silent_mark.bind_tells hback fun marker q hq => tells_bind (tells_replay tree hq) fun _ q hq => ?_
  rw [ends_get_bind]
  refine (silent_drain _ _).bind_tells hq fun drained q hq => ?_
  refine tells_bind (tells_tell hq rfl rfl) fun _ q hq => (silent_count _).bind_tells hq fun _ q hq => ?_
  refine (silent_done _ _).bind_tells hq fun _ q hq => ?_
  rw [ends_get_bind]
  exact (silent_orBroken _).tells hq

end Session

/-! ## What a run tells -/

/-- **What a run may tell, and the rules that it leaves open**: nothing if it is refused; the start of the recognizer;
or its start and its end and then the steps of a replay. -/
inductive Reports : List ProjectionEvent → List RuleIndex → Prop where
  /-- The run is refused. -/
  | refused : Reports [] []
  /-- The recognizer gives the run up. -/
  | givenUp (entry : RuleIndex) : Reports [.parseStart entry] []
  /-- The tree is replayed. -/
  | replayed (entry : RuleIndex) (n : Nat) {es : List ProjectionEvent} {left : List RuleIndex}
      (steps : ∀ e ∈ es, e.isStep = true) (opened : openAfter? [] es = some left) :
      Reports (.parseStart entry :: .parseEnd n :: es) left

namespace Reports

variable {es : List ProjectionEvent} {left : List RuleIndex}

/-- The rules that a run leaves open. -/
theorem openAfter? (h : Reports es left) : openAfter? [] es = some left := by
  cases h with
  | refused => rfl
  | givenUp entry => rfl
  | replayed entry n steps opened => exact opened

/-- A run whose recognizer has not come to its end leaves no rule open. -/
theorem eq_nil_of_not_ended (h : Reports es left) (hnever : ∀ n, .parseEnd n ∉ es) : left = [] := by
  cases h with
  | refused => rfl
  | givenUp entry => rfl
  | replayed entry n steps opened => exact absurd (List.mem_cons_of_mem _ List.mem_cons_self) (hnever n)

end Reports

namespace Tracer

/-- **A tracer of its own**: nothing has been told. -/
def fresh (t : Tracer) : Tracer := { language := t.language, verbosity := t.verbosity, palette := t.palette }

/-- An error does not change how a tracer writes. -/
theorem fresh_addError (t : Tracer) (head : Nat → String) (message : String) :
    (t.addError head message).fresh = t.fresh := by
  unfold addError
  induction (Text.lines message).zipIdx generalizing t with
  | nil => rfl
  | cons line rest ih => exact ih _

/-- Leaving a rule does not change how a tracer writes. -/
theorem fresh_leave (t : Tracer) (r : RuleIndex) : (t.leave r).fresh = t.fresh := by
  rw [leave_follow]
  rfl

/-- A step does not change how a tracer writes. -/
theorem fresh_tell (t : Tracer) (e : ProjectionEvent) : (t.tell e).fresh = t.fresh := by
  cases e with
  | parseStart | parseEnd | ruleEnter => rfl
  | ruleDone r =>
      rw [tell]
      split
      · exact t.fresh_leave r
      · exact t.fresh_leave r
  | ruleError r message => rw [tell, fresh_addError, fresh_leave]
  | advance token =>
      rw [tell]
      split <;> rfl
  | errorLeaf token message =>
      cases message with
      | some message => rw [tell, fresh_addError]
      | none =>
          rw [tell]
          split <;> rfl
  | drain n =>
      rw [tell]
      split <;> rfl

/-- **A tracer writes alike all the time.** -/
theorem fresh_tellAll (t : Tracer) (es : List ProjectionEvent) : (t.tellAll es).fresh = t.fresh := by
  induction es generalizing t with
  | nil => rfl
  | cons e rest ih =>
      have hcons : t.tellAll (e :: rest) = (t.tell e).tellAll rest := rfl
      rw [hcons, ih, fresh_tell]

/-- Where no rule has been left open, nothing is told further in. -/
theorem map_indented_zero (lines : List String) : lines.map (indented 0) = lines := by
  refine List.map_id'' (fun line => ?_) lines
  rw [indented, List.replicate_zero, String.join_nil, String.empty_append]

/-- **The lines that a run adds**: its first two lines as by a tracer of its own, and the others further in, by as many
rules as have been left open before. -/
theorem lines_tellAll {es : List ProjectionEvent} {left : List RuleIndex} (h : Reports es left) (t : Tracer) :
    (t.tellAll es).lines.toList = t.lines.toList ++ ((t.fresh.tellAll es).lines.toList.take 2 ++
      ((t.fresh.tellAll es).lines.toList.drop 2).map (indented t.rules.length)) ∧
    (t.tellAll es).rules = left ++ t.rules := by
  cases h with
  | refused => exact ⟨(List.append_nil _).symm, rfl⟩
  | givenUp entry => exact ⟨Array.toList_push, rfl⟩
  | @replayed entry n es _ steps opened =>
      -- the two lines of the recognizer are not indented
      obtain ⟨start, hstart, hstart'⟩ : ∃ line, t.tell (.parseStart entry) = t.addLine line ∧
          t.fresh.tell (.parseStart entry) = t.fresh.addLine line := ⟨_, rfl, rfl⟩
      obtain ⟨stop, hstop, hstop'⟩ : ∃ line, (t.addLine start).tell (.parseEnd n) = (t.addLine start).addLine line ∧
          (t.fresh.addLine start).tell (.parseEnd n) = (t.fresh.addLine start).addLine line := ⟨_, rfl, rfl⟩
      obtain ⟨⟨new, hnew, hunder⟩, hrules⟩ : Shifts t.rules _ _ ∧ _ :=
        shifts_tellAll (u := (t.fresh.addLine start).addLine stop) steps opened
      have hsame : ((t.fresh.addLine start).addLine stop).under t.rules ((t.lines.push start).push stop) =
          (t.addLine start).addLine stop := rfl
      have hfresh : t.fresh.tellAll (.parseStart entry :: .parseEnd n :: es) =
          ((t.fresh.addLine start).addLine stop).tellAll es := by
        simp only [tellAll, List.foldl_cons, hstart', hstop']
      have hhere : t.tellAll (.parseStart entry :: .parseEnd n :: es) =
          ((t.addLine start).addLine stop).tellAll es := by
        simp only [tellAll, List.foldl_cons, hstart, hstop]
      have hunder' := hunder ((t.lines.push start).push stop)
      simp only at hnew hunder'
      have hlines : (((t.fresh.addLine start).addLine stop).tellAll es).lines.toList =
          start :: stop :: new.toList := by
        rw [hnew, Array.toList_append]
        rfl
      rw [hfresh, hhere, ← hsame, hunder', hlines]
      refine ⟨?_, congrArg (· ++ t.rules) hrules⟩
      show (((t.lines.push start).push stop) ++ new.map (indented t.rules.length)).toList = _
      simp

end Tracer

namespace Session

variable {β τ : Type} [TreeBuilder β τ] {s s' : Session} {g : Grammar} {entry : RuleIndex} {root : Kind}
  {host : Supervised β}

open Projector

/-- A recognizer that is given up has told of its start, and one that is not also of its end. -/
theorem events_runRecognizer (s : Session) (g : Grammar) (entry : RuleIndex) (host : Supervised β) :
    (s.runRecognizer g entry host).events =
      match (s.runRecognizer g entry host).outcome with
      | .ok (_, errors) => [.parseStart entry, .parseEnd errors.size]
      | .error _ => [.parseStart entry] := by
  unfold runRecognizer
  simp only
  cases (g.entry (stepsFor (TreeBuilder.remaining host.builder)) entry).run (s.parser g.language host) with
  | ok a p => rfl
  | error e p => cases e <;> rfl

/-- **A run does not look at who is told of it.** -/
theorem project_congr (hlimit : s.recursionLimit = s'.recursionLimit) :
    (s.project g entry root host).1.outcome = (s'.project g entry root host).1.outcome ∧
      (s.project g entry root host).1.events = (s'.project g entry root host).1.events := by
  have hrun : s.runRecognizer g entry host.mark.2 = s'.runRecognizer g entry host.mark.2 := by
    unfold runRecognizer parser
    rw [hlimit]
  unfold project
  cases g.language.checkEntry entry with
  | error e => exact ⟨rfl, rfl⟩
  | ok u =>
      simp only [hrun]
      cases (s'.runRecognizer g entry host.mark.2).outcome with
      | error a => exact ⟨rfl, rfl⟩
      | ok made =>
          simp only
          split <;> exact ⟨rfl, rfl⟩

/-- **What a run leaves of its session**: the tracer has been told of the steps of the run, the counts are those of the
run, and nothing else has changed. -/
theorem session_project (s : Session) (g : Grammar) (entry : RuleIndex) (root : Kind) (host : Supervised β) :
    (s.project g entry root host).2 =
      { s.traced (s.project g entry root host).1.events with stats := (s.project g entry root host).1.stats } := by
  have hnothing : s.tracer = s.tracer.map (·.tellAll []) := by
    cases s.tracer <;> rfl
  have hends := s.projects (τ := τ) g entry root host
  generalize s.project (τ := τ) g entry root host = made at hends ⊢
  cases hends with
  | refused =>
      show s = { s with tracer := s.tracer.map (·.tellAll []) }
      rw [← hnothing]
  | givenUp | stopped | finished => rfl

/-- The tracer is told of the steps of a run. -/
theorem traced_project (s : Session) (g : Grammar) (entry : RuleIndex) (root : Kind) (host : Supervised β) :
    (s.project g entry root host).2.tracer =
      s.tracer.map (·.tellAll (s.project g entry root host).1.events) :=
  congrArg Session.tracer (s.session_project g entry root host)

/-- **What a run tells.** It leaves no rule open if it succeeds, or if the recognizer gives it up. -/
theorem reports_project (s : Session) (g : Grammar) (entry : RuleIndex) (root : Kind) (host : Supervised β) :
    ∃ left, Reports (s.project g entry root host).1.events left ∧
      ((∃ tree, (s.project g entry root host).1.outcome = .ok tree) → left = []) := by
  have hevents := s.events_runRecognizer g entry host.mark.2
  have hstart : ∀ {t : ParseTree} {errors : ErrorIndex},
      (s.runRecognizer g entry host.mark.2).outcome = .ok (t, errors) →
        Told [.parseStart entry, .parseEnd errors.size] [] ((s.runRecognizer g entry host.mark.2).start errors) := by
    intro t errors houtcome
    rw [houtcome] at hevents
    exact ⟨[], by simp [Recognition.start, hevents], nofun, rfl⟩
  -- The projection ends in one of four ways, and the replay has begun in two of them.
  have hends := s.projects (τ := τ) g entry root host
  generalize s.project (τ := τ) g entry root host = made at hends ⊢
  cases hends with
  | refused => exact ⟨[], .refused, fun _ => rfl⟩
  | givenUp _ outcome =>
      rw [outcome] at hevents
      exact ⟨[], hevents ▸ .givenUp entry, fun _ => rfl⟩
  | stopped _ outcome replay =>
      obtain ⟨left, ⟨es, hes, hsteps, hopen⟩, -⟩ :=
        (tells_replayUnder host.mark.1 root _ (hstart outcome)).of_error replay
      exact ⟨left, hes ▸ .replayed entry _ hsteps hopen, fun ⟨_, hok⟩ => nomatch hok⟩
  | finished _ outcome replay =>
      obtain ⟨left, ⟨es, hes, hsteps, hopen⟩, hleft⟩ :=
        (tells_replayUnder host.mark.1 root _ (hstart outcome)).of_ok replay
      exact ⟨left, hes ▸ .replayed entry _ hsteps hopen, fun _ => hleft _ rfl⟩

/-- What running a recognizer alone tells, and that it leaves no rule open. -/
theorem reports_recognize (s : Session) (g : Grammar) (entry : RuleIndex) (host : Supervised β) :
    ∃ es, Reports es [] ∧ (s.recognize g entry host).2.tracer = s.tracer.map (·.tellAll es) := by
  unfold recognize
  cases g.language.checkEntry entry with
  | error e =>
      refine ⟨[], .refused, ?_⟩
      cases s.tracer <;> rfl
  | ok u =>
      have hevents := s.events_runRecognizer g entry host
      refine ⟨(s.runRecognizer g entry host).events, ?_, rfl⟩
      cases houtcome : (s.runRecognizer g entry host).outcome with
      | error a =>
          rw [houtcome] at hevents
          exact hevents ▸ .givenUp entry
      | ok made =>
          rw [houtcome] at hevents
          exact hevents ▸ .replayed entry made.2.size nofun rfl

end Session

/-! ## One run after another -/

/-- **A run leaves no rule open**: it has left every rule that it has entered. -/
def Projection.Closes {τ : Type} (r : Projection τ) : Prop := openAfter? [] r.events = some []

namespace Session

/-- A session that nothing has been done with, whose runs are traced. -/
def tracing (limit : Option Nat) (language : Language) (verbosity : Verbosity) (palette : Palette) : Session where
  recursionLimit := limit
  tracer := some { language, verbosity, palette }

/-- **A session after some runs**, of each of which something holds.  Between the runs the limit may be changed. -/
inductive After (P : (τ : Type) → Projection τ → Prop) (s : Session) : Session → Prop where
  /-- Nothing has been done. -/
  | nothing : After P s s
  /-- The limit has been changed. -/
  | limited {t : Session} (h : After P s t) (limit : Option Nat) : After P s { t with recursionLimit := limit }
  /-- A recognizer has been run alone. -/
  | recognize {t : Session} (h : After P s t) {β τ : Type} [TreeBuilder β τ] (g : Grammar) (entry : RuleIndex)
      (host : Supervised β) : After P s (t.recognize g entry host).2
  /-- A host has been projected onto. -/
  | project {t : Session} (h : After P s t) {β τ : Type} [TreeBuilder β τ] (g : Grammar) (entry : RuleIndex)
      (root : Kind) (host : Supervised β) (hP : P τ (t.project g entry root host).1) :
      After P s (t.project g entry root host).2

variable {P : (τ : Type) → Projection τ → Prop} {s : Session} {limit : Option Nat} {l : Language} {v : Verbosity}
  {c : Palette}

/-- **The tracer of a session after some runs** writes as before, and has no rule open if none of the runs has left one
open. -/
theorem After.tracer (h : After P (tracing limit l v c) s) : ∃ t : Tracer, s.tracer = some t ∧
    t.fresh = { language := l, verbosity := v, palette := c } ∧
    ((∀ τ r, P τ r → r.Closes) → t.rules = []) := by
  -- Each run adds lines to those before, and leaves open what it has opened and not left.
  induction h with
  | nothing => exact ⟨_, rfl, rfl, fun _ => rfl⟩
  | limited _ _ ih => exact ih
  | @recognize t _ β τ _ g entry host ih =>
      obtain ⟨t', ht', hfresh, hrules⟩ := ih
      obtain ⟨es, hes, htold⟩ := t.reports_recognize g entry host
      rw [ht'] at htold
      refine ⟨_, htold, (t'.fresh_tellAll es).trans hfresh, fun hP => ?_⟩
      rw [(t'.lines_tellAll hes).2, hrules hP]
      rfl
  | @project t _ β τ _ g entry root host hP ih =>
      obtain ⟨t', ht', hfresh, hrules⟩ := ih
      obtain ⟨left, hes, -⟩ := t.reports_project g entry root host
      have htold := t.traced_project g entry root host
      rw [ht'] at htold
      refine ⟨_, htold, (t'.fresh_tellAll _).trans hfresh, fun hclosed => ?_⟩
      have hleft : some left = some [] := hes.openAfter?.symm.trans (hclosed τ _ hP)
      rw [(t'.lines_tellAll hes).2, hrules hclosed, Option.some.inj hleft]
      rfl

/-- **A run is traced as by itself.**  Runs are made in one session, however each of them ends.  A further run ends as
in a session of its own.  Its first two lines are the same as there, and the others are further in, by as many rules as
earlier runs have left open; so if none of them has left a rule open, the run adds just the lines that it adds in a
session of its own.  A run that succeeds leaves no rule open, and neither does one that the recognizer gives up. -/
theorem project_traced_apart (h : After P (tracing limit l v c) s) {β τ : Type} [TreeBuilder β τ] (g : Grammar)
    (entry : RuleIndex) (root : Kind) (host : Supervised β) :
    let alone := (tracing s.recursionLimit l v c).project g entry root host
    let run := s.project g entry root host
    run.1.outcome = alone.1.outcome ∧
    (∃ t t' u : Tracer, s.tracer = some t ∧ run.2.tracer = some t' ∧ alone.2.tracer = some u ∧
      t'.lines.toList = t.lines.toList ++
        (u.lines.toList.take 2 ++ (u.lines.toList.drop 2).map (Tracer.indented t.rules.length)) ∧
      ((∀ τ r, P τ r → r.Closes) → t'.lines.toList = t.lines.toList ++ u.lines.toList)) ∧
    (((∃ tree, run.1.outcome = .ok tree) ∨ ∀ n, .parseEnd n ∉ run.1.events) → run.1.Closes) := by
  intro alone run
  obtain ⟨houtcome, hevents⟩ : run.1.outcome = alone.1.outcome ∧ run.1.events = alone.1.events :=
    project_congr rfl
  obtain ⟨t, ht, hfresh, hrules⟩ := h.tracer
  obtain ⟨left, hes, hleft⟩ := s.reports_project g entry root host
  have hrun : run.2.tracer = some (t.tellAll run.1.events) := by
    rw [traced_project, ht]
    rfl
  have halone : alone.2.tracer = some (t.fresh.tellAll run.1.events) := by
    rw [traced_project, hevents, hfresh]
    rfl
  -- The lines of the run by itself are those of a tracer that has written nothing.
  have hlines := (t.lines_tellAll hes).1
  refine ⟨houtcome, ⟨t, _, _, ht, hrun, halone, hlines, fun hclosed => ?_⟩, fun hend => ?_⟩
  · rw [hlines, hrules hclosed, List.length_nil, Tracer.map_indented_zero, List.take_append_drop]
  · have hnone : left = [] := by
      rcases hend with hok | hnever
      · exact hleft hok
      · exact hes.eq_nil_of_not_ended hnever
    rw [hnone] at hes
    exact hes.openAfter?

end Session

/-! ## Runs that are cut short -/

namespace CutShort

/-- A language of one token type and one rule. -/
def language : Language where
  name := "one"
  vocabulary := .ofNames [none, some "'x'"] [none, some "X"]
  rules := #[("main", ⟨0⟩)]
  elements := ⟨2, 1⟩

/-- The rule matches an `X`. -/
def grammar : Grammar where
  language := language
  entry _ _ := .asRule ⟨0⟩ fun _ => .expect ⟨1⟩ ∅

/-- The source `x`, for a run that a call of the builder may call off. -/
def host (cancelAt : Option Nat) : Supervised GreenBuilder where
  builder := .ofText ⟨[⟨3, "x"⟩], ""⟩ language
  elements := language.elements
  cancelAt := cancelAt

/-- A run of the rule over that source. -/
def run (s : Session) (cancelAt : Option Nat) : Projection HostTree × Session :=
  s.project grammar ⟨0⟩ .file (host cancelAt)

/-- A session whose runs are traced; no rule may be entered. -/
def opening : Session := .tracing (some 0) language .standard .plain

/-- The session after a run that enters a rule all the same, and one that is called off while the source is read. -/
def troubled : Session := (run { (run opening none).2 with recursionLimit := some 8 } (some 2)).2

/-- The lines of a session's tracer. -/
def lines (s : Session) : Option (List String) := s.tracer.map (·.lines.toList)

/-- Both runs have been given up by the recognizer, and the one after them adds the lines that it adds by itself. -/
theorem project_traced_apart_troubled :
    (run opening none).1.outcome.isOk = false ∧
    (run { (run opening none).2 with recursionLimit := some 8 } (some 2)).1.outcome.isOk = false ∧
    lines troubled = some ["parse main", "parse main"] ∧
    lines (run (.tracing (some 8) language .standard .plain) none).2 =
      some ["parse main", "recognized with 0 syntax errors", "main"] ∧
    ∃ t t' u : Tracer, troubled.tracer = some t ∧ (run troubled none).2.tracer = some t' ∧
      (run (.tracing (some 8) language .standard .plain) none).2.tracer = some u ∧
      t'.lines.toList = t.lines.toList ++ u.lines.toList := by
  have hfirst : (run opening none).1.Closes := by
    unfold Projection.Closes
    decide +kernel
  have hsecond : (run { (run opening none).2 with recursionLimit := some 8 } (some 2)).1.Closes := by
    unfold Projection.Closes
    decide +kernel
  have hafter : Session.After (fun _ r => r.Closes) opening troubled :=
    ((Session.After.nothing.project grammar ⟨0⟩ .file (host none) hfirst).limited (some 8)).project grammar ⟨0⟩ .file
      (host (some 2)) hsecond
  have hlimit : troubled.recursionLimit = some 8 := congrArg Session.recursionLimit (Session.session_project _ _ _ _ _)
  obtain ⟨-, ⟨t, t', u, ht, ht', hu, -, hlines⟩, -⟩ :=
    Session.project_traced_apart hafter grammar ⟨0⟩ .file (host none)
  rw [hlimit, ← run] at hu
  rw [← run] at ht'
  exact ⟨by decide +kernel, by decide +kernel, by decide +kernel, by decide +kernel, t, t', u, ht, ht', hu,
    hlines fun _ _ hclosed => hclosed⟩

/-- **A run that is given up halfway shifts the ones after it.**  The fourth call of the builder opens the region of the
rule, and sets the flag, which is found at the next one.  The rule is never left, and what the next run replays is told
one rule further in than by itself. -/
theorem cut_run_shifts_next :
    let fresh : Session := .tracing (some 8) language .standard .plain
    (run fresh (some 4)).1.outcome.isOk = false ∧
    lines (run fresh (some 4)).2 = some ["parse main", "recognized with 0 syntax errors", "main"] ∧
    lines (run fresh none).2 = some ["parse main", "recognized with 0 syntax errors", "main"] ∧
    lines (run (run fresh (some 4)).2 none).2 = some ["parse main", "recognized with 0 syntax errors", "main",
      "parse main", "recognized with 0 syntax errors", "  main"] := by
  decide +kernel

end CutShort

end TreeProjection
