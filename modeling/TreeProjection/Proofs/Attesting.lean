import TreeProjection.Proofs.Mishaps

/-! # What tells of a failure

A rule that has caught an exception keeps it at its node, and the listeners are told of it unless reports are held back.
So the tree and the reports tell of what has gone wrong: which exceptions rules have caught, each of them once, and what
was to be said of each.

* `Parser.Attested`, `Parser.Attests` — what an action leaves behind tells of its mishaps.
* `Recognizer.Ordinary.runs_attests` — what a recognizer leaves behind tells of its mishaps.
* `Recognizer.OrdinaryRule.attested` — the tree and the reports of a whole parse tell of its mishaps. -/

namespace TreeProjection

open ParseNode (View)
open TreeProjection.Parser

variable {σ α β : Type} [TokenSource σ]

omit [TokenSource σ] in
/-- What holds however an action ends holds unless it gives the parse up. -/
theorem Runs.of_ends {act : ParserM σ α} {p : Parser σ} {P : Parser σ → Prop} (h : Ends act p fun _ q => P q) :
    Runs act p (fun _ => True) fun _ q => P q :=
  h.mono fun o _ hq => match o with
    | .ok _ => hq
    | .error (.recognition _) => hq
    | .error (.abort _) => trivial

namespace Parser

variable {x : Tape} {p p₁ q r : Parser σ} {vs ws : List View} {rs rs' : List Report} {ms ms' : List (Mishap σ)} {i : Nat}

/-- The exception that an action has failed with. -/
def thrown : Except RecognitionException α → List RecognitionException
  | .ok _ => []
  | .error e => [e]

omit [TokenSource σ] in
/-- An action ends in one way. -/
theorem Ran.unique {act : ParserM σ α} {o o' : Except RecognitionException α} (h : Ran act p o q)
    (h' : Ran act p o' r) : o' = o ∧ r = q := by
  unfold Ran at h h'
  rw [h] at h'
  cases o <;> cases o' <;> cases h' <;> exact ⟨rfl, rfl⟩

/-- **What an action has left behind tells of its mishaps**: the numbers that it has taken, the trees `vs` that it has
added, and the reports `rs` that the listeners have been told of. -/
structure Attested (p : Parser σ) (ms : List (Mishap σ)) (o : Except RecognitionException α) (vs : List View)
    (rs : List Report) (q : Parser σ) : Prop where
  /-- Exceptions are numbered as they are raised. -/
  numbered : Ascending p.nextException (Mishap.numbers ms) q.nextException
  /-- What is caught, and what the action has failed with, has been raised outside trials, each exception once. -/
  caught : (ms.filterMap Mishap.caught? ++ thrown o).Sublist (ms.filterMap Mishap.acted?)
  /-- Rules are marked with what they have caught. -/
  marked : (View.collectAll ParseNode.exception? vs).Perm (ms.filterMap Mishap.caught?)
  /-- The listeners have been told of what was caught while reports were not held back, and of no other exception. -/
  told : rs.filter (·.exception.isSome) = ms.flatMap Mishap.told

namespace Attested

omit [TokenSource σ] in
/-- Nothing has gone wrong. -/
theorem nil (hnext : p.nextException ≤ q.nextException) (hvs : View.collectAll ParseNode.exception? vs = [])
    (hrs : ∀ e ∈ rs, e.exception = none) (a : α) : Attested p [] (.ok a) vs rs q where
  numbered := .nil hnext
  caught := List.Sublist.refl []
  marked := by rw [hvs]; exact .refl []
  told := List.filter_eq_nil_iff.mpr fun e he => by simp [hrs e he]

omit [TokenSource σ] in
/-- First one thing has happened, then another. -/
theorem append {a : α} {o : Except RecognitionException β} (h : Attested p ms (.ok a) vs rs q)
    (h' : Attested q ms' o ws rs' r) : Attested p (ms ++ ms') o (vs ++ ws) (rs ++ rs') r where
  numbered := by
    rw [Mishap.numbers_append]
    exact h.numbered.append h'.numbered
  caught := by
    have hfirst := h.caught
    rw [thrown, List.append_nil] at hfirst
    rw [List.filterMap_append, List.filterMap_append, List.append_assoc]
    exact hfirst.append h'.caught
  marked := by
    rw [View.collectAll_append, List.filterMap_append]
    exact h.marked.append h'.marked
  told := by rw [List.filter_append, List.flatMap_append, h.told, h'.told]

omit [TokenSource σ] in
/-- A failure is handed on. -/
theorem handed_on {e : RecognitionException} (h : Attested p ms (.error e : Except RecognitionException α) vs rs q) :
    Attested p ms (.error e : Except RecognitionException β) vs rs q :=
  ⟨h.numbered, h.caught, h.marked, h.told⟩

omit [TokenSource σ] in
/-- A failure is taken by someone who is not a rule. -/
theorem taken {o : Except RecognitionException α} (h : Attested p ms o vs rs q) (b : β) :
    Attested p ms (.ok b) vs rs q :=
  ⟨h.numbered, by
    rw [thrown, List.append_nil]
    exact (List.sublist_append_left _ _).trans h.caught, h.marked, h.told⟩

end Attested

omit [TokenSource σ] in
/-- What happens on trial leaves nothing behind but the numbers that have been taken. -/
theorem Tried.attested (h : Tried p ms q) (a : α) : Attested p ms (.ok a) [] [] q := by
  -- A trial raises exceptions and does nothing else, so that whatever counts other mishaps counts none.
  have hraised : ∀ {γ : Type} {g : Mishap σ → Option γ},
      (∀ e s, s.isSpeculating = true → g (.raised e s) = none) → ms.filterMap g = [] := by
    intro γ g hg
    refine List.filterMap_eq_nil_iff.mpr fun m hm => ?_
    obtain ⟨e, s, rfl, hs⟩ := h.trying m hm
    exact hg e s hs
  have hcaught : ms.filterMap Mishap.caught? = [] := hraised fun _ _ _ => rfl
  refine ⟨h.numbered, ?_, ?_, ?_⟩
  · rw [hcaught]
    exact List.nil_sublist _
  · rw [hcaught]
    exact .refl []
  · refine (List.flatMap_eq_nil_iff.mpr fun m hm => ?_).symm
    obtain ⟨e, s, rfl, -⟩ := h.trying m hm
    rfl

/-- **What an action has done tells of its mishaps**, and if it fails, it fails where the input stands. -/
def Attests (x : Tape) (p : Parser σ) (ms : List (Mishap σ)) (o : Except RecognitionException α) (q : Parser σ) : Prop :=
  ∃ vs rs, Step x p vs rs q ∧ (∀ e, o = .error e → e.anchor = x.token q.index) ∧ Attested p ms o vs rs q

/-- It is a step. -/
theorem Attests.acts {o : Except RecognitionException α} (h : Attests x p ms o q) : Acts x p o q := by
  obtain ⟨vs, rs, hstep, hanchor, -⟩ := h
  exact ⟨vs, rs, hstep, hanchor⟩

/-- A step in which nothing has gone wrong. -/
theorem Step.attests (h : Step x p vs rs q) (hvs : View.collectAll ParseNode.exception? vs = [])
    (hrs : ∀ e ∈ rs, e.exception = none) (a : α) : Attests x p [] (.ok a) q :=
  ⟨vs, rs, h, nofun, .nil h.nextException hvs hrs a⟩

/-- An operation that has failed has raised an exception. -/
theorem Failed.attests {e : RecognitionException} (h : Failed x p e q) (hp : Ready x p) :
    Attests x p [.raised e q] (.error e : Except RecognitionException α) q := by
  have hacting : q.isSpeculating = false := (h.step.ready hp).isSpeculating
  have hraised : [Mishap.raised e q].filterMap Mishap.acted? = [e] := by simp [Mishap.acted?, hacting]
  refine ⟨[], [], h.step, ?_, .single h.id.1 h.id.2, ?_, .refl [], rfl⟩
  · rintro _ ⟨⟩
    rw [h.anchor, h.index]
  · rw [hraised]
    exact List.Sublist.refl [e]

/-- **One action after the other.** -/
theorem attests_bind {act : ParserM σ α} {next : α → ParserM σ β} {f : α → Parser σ → List (Mishap σ)} (hp : Ready x p)
    (hl : 0 < p.listeners) (h : Runs act p (fun _ => True) (Attests x p ms))
    (hnext : ∀ a q, Ready x q → 0 < q.listeners → Runs (next a) q (fun _ => True) (Attests x q (f a q))) :
    Runs (act >>= next) p (fun _ => True) (Attests x p (ms ++ onward act p f)) := by
  refine (ran h).bind ?_ ?_
  · rintro a q ⟨⟨vs, rs, hstep, -, hvs⟩, hran⟩
    rw [hran.onward_ok]
    have hlisteners : q.listeners = p.listeners := congrArg Situation.listeners hstep.situation
    refine (hnext a q (hstep.ready hp) (by rwa [hlisteners])).mono ?_
    rintro o r ⟨ws, rs', hrest, hanchor, hws⟩
    exact ⟨vs ++ ws, rs ++ rs', hstep.trans hrest, hanchor, hvs.append hws⟩
  · rintro e q ⟨⟨vs, rs, hstep, hanchor, hvs⟩, hran⟩
    rw [hran.onward_error, List.append_nil]
    exact ⟨vs, rs, hstep, fun _ he => hanchor _ (congrArg _ (Except.error.inj he)), hvs.handed_on⟩

omit [TokenSource σ] in
/-- What was heard of a token tells of no exception. -/
theorem Heard.exception_eq_none {fits : Report → Prop} {t : Token} (h : Heard p fits rs)
    (hfits : ∀ e, fits e → OfToken t e) : ∀ e ∈ rs, e.exception = none := by
  cases h with
  | held h => exact fun _ he => absurd he List.not_mem_nil
  | made e h free listened =>
      intro e' he'
      obtain rfl := List.mem_singleton.mp he'
      exact (hfits e' h).2

end Parser

/-- **What an operation has done tells of its mishaps.** -/
theorem Operation.runs_attests {x : Tape} {p : Parser σ} (op : Operation β) (hp : Ready x p) :
    Runs op.run p (fun _ => True) (Attests x p (failing op.run p fun e q => [.raised e q])) := by
  -- An operation has one way to fail, by its own exception, and reports what belongs to no exception otherwise.
  have hfailed : ∀ {e : RecognitionException} {q : Parser σ}, Ran op.run p (.error e) q → Failed x p e q →
      Attests x p (failing op.run p fun e q => [.raised e q]) (.error e : Except RecognitionException β) q := by
    intro e q hran h
    have hrun : op.run p = .error (.recognition e) q := hran
    simp only [failing, hrun]
    exact h.attests hp
  have hwell : ∀ {b : β} {q : Parser σ} {vs : List View} {rs : List Report}, Ran op.run p (.ok b) q → Step x p vs rs q →
      View.collectAll ParseNode.exception? vs = [] → (∀ e ∈ rs, e.exception = none) →
        Attests x p (failing op.run p fun e q => [.raised e q]) (.ok b) q := by
    intro b q vs rs hran h hvs hrs
    have hrun : op.run p = .ok b q := hran
    simp only [failing, hrun]
    exact h.attests hvs hrs b
  have hnone : ∀ e ∈ ([] : List Report), e.exception = none := fun _ he => absurd he List.not_mem_nil
  cases op with
  | ahead k =>
      refine (ran (runs_ahead (.standing hp.standing) trivial k)).mono ?_
      rintro _ _ ⟨⟨rfl, s, hs, rfl⟩, hran⟩
      exact hwell hran (hp.reread hs) rfl hnone
  | expect ty follow =>
      refine (ran (runs_expect hp trivial ty follow fun _ _ _ _ => trivial)).mono ?_
      rintro o q ⟨hmatched, hran⟩
      cases hmatched with
      | here _ step => exact hwell hran step rfl hnone
      | dropped _ _ _ heard step => exact hwell hran step rfl (heard.exception_eq_none fun _ he => he.ofToken)
      | madeUp _ _ _ _ _ _ heard step => exact hwell hran step rfl (heard.exception_eq_none fun _ he => he.ofToken)
      | failed _ _ failed => exact hfailed hran failed
  | consume =>
      refine (ran (runs_consume hp trivial)).mono ?_
      rintro _ q ⟨⟨rfl, hstep, -⟩, hran⟩
      refine hwell hran hstep ?_ hnone
      cases p.recovery.inRecovery <;> rfl
  | sync expecting =>
      refine (ran (runs_sync hp trivial expecting fun _ _ _ _ => trivial)).mono ?_
      rintro _ q ⟨⟨rfl, hguarded⟩, hran⟩
      cases hguarded with
      | «open» step => exact hwell hran step rfl hnone
      | passed _ _ _ _ step _ heard _ errors =>
          exact hwell hran step (View.collectAll_exception_errors errors)
            (heard.exception_eq_none fun _ he => he.ofToken)
      | stayed _ _ _ step _ _ heard => exact hwell hran step rfl (heard.exception_eq_none fun _ he => he.ofToken)
  | require holds text =>
      refine (ran (runs_require hp trivial holds text)).mono ?_
      rintro _ q ⟨⟨rfl, -, rfl⟩ | ⟨e, rfl, hraised, -⟩, hran⟩
      · exact hwell hran hp.refl rfl hnone
      · exact hfailed hran hraised
  | noViableAlt depth =>
      refine (ran (runs_raiseNoViableAlt hp trivial depth)).mono ?_
      rintro _ q ⟨⟨e, rfl, hraised, -⟩, hran⟩
      exact hfailed hran hraised
  | mismatch expected =>
      refine (ran (runs_raiseMismatch hp trivial expected)).mono ?_
      rintro _ q ⟨⟨e, rfl, hraised, -⟩, hran⟩
      exact hfailed hran hraised

namespace Parser

variable {x : Tape} {p p₁ q r : Parser σ} {vs ws : List View} {rs rs' : List Report} {ms ms' : List (Mishap σ)} {i : Nat}

/-! ### Rules -/

omit [TokenSource σ] in
/-- What the listeners have been told of a failure, if anyone listens. -/
theorem Heard.eq_told {e : RecognitionException} (h : Heard p (· = p.failureReport e) rs) (hl : 0 < p.listeners) :
    rs = p.told e := by
  cases h with
  | held h =>
      have hheld : p.recovery.inRecovery = true := h.resolve_right (by omega)
      simp only [told, hheld, if_true]
  | made e' h free listened =>
      subst h
      simp only [told, free, Bool.false_eq_true, if_false]

/-- **Announcing a failure** tells the listeners of it. -/
theorem runs_announce_told (hp : Ready x p) (hl : 0 < p.listeners) {e : RecognitionException}
    (he : e.anchor = x.token p.index) : Runs (announce e) p (fun _ => True) fun _ q =>
      p.nextException ≤ q.nextException ∧ q.reports = p.reports ++ p.told e := by
  unfold announce
  obtain ⟨c, r₀, hc, hr₀⟩ := hp.inRule
  refine Runs.of_modify ?_
  simp only [hc]
  have hready : Ready x { p with tree := p.tree.modifyRule c fun r => { r with exception := some e } } :=
    ⟨hp.standing, hp.noted, hp.denied, hp.acting, c, _, hc, ParseTree.getElem?_modifyRule_self hr₀ _⟩
  refine (runs_reportError_due hready he).mono ?_
  rintro _ q ⟨rfl, rs, hreported⟩
  have hheard : Heard p (· = p.failureReport e) rs := hreported.heard.of_same rfl rfl
  have hreports := hreported.step.reports
  rw [hheard.eq_told hl] at hreports
  exact ⟨hreported.step.nextException, hreports⟩

/-- **Handling a failure** tells the listeners of it, and of nothing else. -/
theorem runs_handleRecognition_told (hp : Ready x p) (hl : 0 < p.listeners) {e : RecognitionException}
    (he : e.anchor = x.token p.index) {r : RuleIndex} (hr : p.currentRule? = some r) :
    Runs (handleRecognition e) p (fun _ => True) fun o q => o = .ok () ∧
      p.nextException ≤ q.nextException ∧ q.reports = p.reports ++ p.told e := by
  rw [handleRecognition_eq]
  refine ((runs_announce hp he hr).and (runs_announce_told hp hl he)).bind ?_ (by rintro e q ⟨⟨⟨⟩, -⟩, -⟩)
  rintro _ s ⟨⟨-, -, hfits⟩, hnext, hreports⟩
  refine hfits.runs_recover.mono ?_
  rintro _ q ⟨rfl, hhappens⟩
  cases hhappens with
  | recovering _ _ _ _ _ recovered =>
      have hstep := recovered.skipped.step
      exact ⟨rfl, Nat.le_trans hnext hstep.nextException, by rw [hstep.reports, hreports, List.append_nil]⟩

/-- **How a rule goes on after its body**: the listeners are told of its failure, if it has failed. -/
theorem runs_rule_told (h : p.input.Facing x i) (hacting : p.speculating = 0) (hnoted : p.strategy.noted = false)
    (hdenied : p.strategy.denied = [])
    (hl : 0 < p.listeners) {r : RuleIndex} {body : ParserM σ Unit}
    (hbody : ∀ p₁, Ready x p₁ → 0 < p₁.listeners → Runs body p₁ (fun _ => True) (Acts x p₁)) :
    Runs (rule r body) p (fun _ => True) fun _ q => ∀ p₁ o q₀, enterRule r p = .ok () p₁ → Ran body p₁ o q₀ →
      q₀.nextException ≤ q.nextException ∧ q.reports = q₀.reports ++ (thrown o).flatMap q₀.told := by
  have henter : Runs (enterRule r) p (fun _ => True) fun o q => o = .ok () ∧ Entered x i r p q :=
    runs_enterRule h hacting hnoted hdenied trivial r
  -- leaving the rule, once its body has ended and its failure has been told of
  have hleave : ∀ (p₁ q₀ q₁ : Parser σ) (o : Except RecognitionException Unit), enterRule r p = .ok () p₁ →
      Ran body p₁ o q₀ → q₀.nextException ≤ q₁.nextException →
      q₁.reports = q₀.reports ++ (thrown o).flatMap q₀.told → Runs (do
        let exited ← observe exitRule
        release (.ok ())
        release exited) q₁ (fun _ => True) fun _ q => ∀ p₁ o q₀, enterRule r p = .ok () p₁ → Ran body p₁ o q₀ →
          q₀.nextException ≤ q.nextException ∧ q.reports = q₀.reports ++ (thrown o).flatMap q₀.told := by
    intro p₁ q₀ q₁ o hfrom hran hnext hreports
    refine Runs.mono (.of_ends (ends_leave_kept (.ok ()) q₁)) ?_
    rintro _ q ⟨hleft, hsame⟩ p₂ o' q₂ hfrom' hran'
    obtain ⟨-, rfl⟩ : () = () ∧ p₁ = p₂ := EStateM.Result.ok.inj (hfrom.symm.trans hfrom')
    obtain ⟨rfl, rfl⟩ := hran.unique hran'
    exact ⟨hleft ▸ hnext, hsame.trans hreports⟩
  unfold rule
  refine (ran henter).bind ?_ (by rintro e q ⟨⟨⟨⟩, -⟩, -⟩)
  rintro _ p₁ ⟨⟨-, hentered⟩, hfrom⟩
  have hlisteners : p₁.listeners = p.listeners := congrArg Situation.listeners hentered.situation
  refine (ran (hbody p₁ hentered.ready (by rwa [hlisteners]))).of_observe ?_ ?_ ?_
  · rintro _ q₀ ⟨-, hran⟩
    exact hleave p₁ q₀ q₀ _ hfrom hran (Nat.le_refl _) (List.append_nil _).symm
  · rintro e q₀ ⟨⟨vs, rs, hstep, hanchor⟩, hran⟩
    have hready := hstep.ready hentered.ready
    have hheard : 0 < q₀.listeners := by
      rw [show q₀.listeners = p₁.listeners from congrArg Situation.listeners hstep.situation]
      rwa [hlisteners]
    have hrule : q₀.currentRule? = some r := by
      simp only [currentRule?, hstep.frames, hentered.frames, List.head?_cons, Option.map_some]
    refine Runs.of_get ?_
    rw [if_neg (by simp [hready.isSpeculating])]
    refine (runs_handleRecognition_told hready hheard (hanchor e rfl) hrule).of_observe ?_ (by rintro e q ⟨⟨⟩, -⟩)
      fun a q _ => runs_leaveRule_of_abort trivial a
    rintro _ q₁ ⟨-, hnext, hreports⟩
    exact hleave p₁ q₀ q₁ _ hfrom hran hnext (by simpa [thrown] using hreports)
  · exact fun a q _ => runs_leaveRule_of_abort trivial a

/-- **A rule tells of the mishaps of its body**, and of catching the exception that the body has failed with. -/
theorem Attested.of_ruleEnd {body : ParserM σ Unit} {node : RuleNode} (hp : Ready x p₁) (hmoves : Moves x p₁ vs rs q)
    (hafter : ∀ o q₀, Ran body p₁ o q₀ →
      q₀.nextException ≤ q.nextException ∧ q.reports = q₀.reports ++ (thrown o).flatMap q₀.told)
    (h : RuleEnd x (fun o vs rs q₀ => Step x p₁ vs rs q₀ ∧ Ran body p₁ o q₀ ∧ Attested p₁ ms o vs rs q₀) q node vs rs) :
    Attested p₁ (ms ++ catching body p₁) (.ok ()) [.rule node vs] rs q := by
  have hrule : ∀ vs : List View, View.collectAll ParseNode.exception? [.rule node vs] =
      node.exception.toList ++ View.collectAll ParseNode.exception? vs := fun vs => by
    rw [View.collectAll, View.collect, View.collectAll, List.append_nil]
    rfl
  cases h with
  | well vs rs q₀ h exception recovery index =>
      obtain ⟨hstep, hran, hattested⟩ := h
      have hrun : body p₁ = .ok () q₀ := hran
      have hnone : catching body p₁ = [] := by simp only [catching, failing, hrun]
      obtain ⟨hnext, -⟩ := hafter _ _ hran
      rw [hnone, List.append_nil]
      refine ⟨?_, hattested.caught, ?_, hattested.told⟩
      · simpa using hattested.numbered.append (.nil hnext)
      · rw [hrule, exception]
        exact hattested.marked
  | failed e vs ws rs rs' q₀ h exception heard inRecovery resumed errors =>
      obtain ⟨hstep, hran, hattested⟩ := h
      have hrun : body p₁ = .error (.recognition e) q₀ := hran
      have hacting : q₀.isSpeculating = false := (hstep.ready hp).isSpeculating
      have hone : catching body p₁ = [.caught e q₀] := by
        simp only [catching, failing, hrun, hacting, Bool.false_eq_true, if_false]
      obtain ⟨hnext, hreports⟩ := hafter _ _ hran
      -- what has been reported since the body has failed
      have htold : rs' = q₀.told e := by
        have hsame := hmoves.reports.symm.trans hreports
        rw [hstep.reports, ← List.append_assoc, List.append_cancel_left_eq] at hsame
        simpa [thrown] using hsame
      have hall : (q₀.told e).filter (·.exception.isSome) = q₀.told e := by
        refine List.filter_eq_self.mpr fun e' he' => ?_
        rw [exception_of_mem_told he']
        rfl
      rw [hone]
      refine ⟨?_, ?_, ?_, ?_⟩
      · have hsame : Mishap.numbers (ms ++ [.caught e q₀]) = Mishap.numbers ms := by
          simp [Mishap.numbers, List.filterMap_cons, Mishap.raised?]
        rw [hsame]
        simpa using hattested.numbered.append (.nil hnext)
      · simpa [thrown, List.filterMap_cons, Mishap.caught?, Mishap.acted?] using hattested.caught
      · rw [hrule, exception, View.collectAll_append, View.collectAll_exception_errors errors, List.append_nil,
          List.filterMap_append]
        exact (hattested.marked.cons e).trans (List.perm_append_singleton e _).symm
      · rw [List.filter_append, hattested.told, htold, hall, List.flatMap_append, List.flatMap_singleton]
        rfl

/-- **A rule, wherever it is entered**, tells of its mishaps. -/
theorem runs_rule_attested (h : p.input.Facing x i) (hacting : p.speculating = 0) (hnoted : p.strategy.noted = false)
    (hdenied : p.strategy.denied = [])
    (hl : 0 < p.listeners) {r : RuleIndex} {body : ParserM σ Unit} {f : Parser σ → List (Mishap σ)}
    (hbody : ∀ p₁, Ready x p₁ → 0 < p₁.listeners → Runs body p₁ (fun _ => True) (Attests x p₁ (f p₁))) :
    Runs (rule r body) p (fun _ => True) fun o q => o = .ok () ∧ ∃ p₁ node vs rs, Entered x i r p p₁ ∧
      q.frames = p.frames ∧ p₁.tree.Opened p.tree.nodes.size node vs q.tree ∧ Moves x p₁ vs rs q ∧
      Attested p (onward (enterRule r) p fun _ p₁ => f p₁ ++ catching body p₁) (.ok ()) [.rule node vs] rs q := by
  have hlisteners : ∀ p₁ : Parser σ, Entered x i r p p₁ → 0 < p₁.listeners := fun p₁ h₁ => by
    rw [show p₁.listeners = p.listeners from congrArg Situation.listeners h₁.situation]
    exact hl
  -- Two views of the same run are put together: what is told afterwards, and how the rule has ended.
  have htold := runs_rule_told (r := r) h hacting hnoted hdenied hl fun p₁ hp₁ hl₁ =>
    (hbody p₁ hp₁ hl₁).mono fun _ _ hq => hq.acts
  refine ((runs_rule_entered h hacting hnoted hdenied trivial
    (fun p₁ o vs rs q₀ => Step x p₁ vs rs q₀ ∧ Ran body p₁ o q₀ ∧ Attested p₁ (f p₁) o vs rs q₀)
    fun p₁ _ h₁ => (ran (hbody p₁ h₁.ready (hlisteners p₁ h₁))).mono ?_).and htold).mono ?_
  · rintro o q₀ ⟨⟨vs, rs, hstep, hanchor, hvs⟩, hran⟩
    exact ⟨vs, rs, hstep, ⟨hstep, hran, hvs⟩, hanchor, trivial, fun _ _ _ _ _ => trivial⟩
  · rintro _ q ⟨⟨rfl, p₁, node, vs, rs, hfrom, hentered, -, hframes, hopen, hmoves, hend⟩, hafter⟩
    refine ⟨rfl, p₁, node, vs, rs, hentered, hframes, hopen, hmoves, ?_⟩
    have hentering : Ran (enterRule r) p (.ok ()) p₁ := hfrom
    have hattested := Attested.of_ruleEnd hentered.ready hmoves (fun o q₀ => hafter p₁ o q₀ hfrom) hend
    rw [hentering.onward_ok]
    exact ⟨hentered.nextException ▸ hattested.numbered, hattested.caught, hattested.marked, hattested.told⟩

end Parser

/-- **What a recognizer leaves behind tells of its mishaps.** -/
theorem Recognizer.Ordinary.runs_attests {x : Tape} {p : Parser σ} {r : Recognizer α} (h : r.Ordinary)
    (hp : Ready x p) (hl : 0 < p.listeners) : Runs r.run p (fun _ => True) (Attests x p (r.mishaps p)) := by
  have hnone : ∀ e ∈ ([] : List Report), e.exception = none := fun _ he => absurd he List.not_mem_nil
  induction r generalizing p with
  | pure a => exact hp.refl.attests rfl hnone a
  | outOfSteps => trivial
  | step op next ih => exact attests_bind hp hl (op.runs_attests hp) fun b q hq hlq => ih b (h b) hq hlq
  | direct d next ih => exact h.elim
  | rule r body next ihbody ihnext =>
      refine attests_bind hp hl ?_ fun u q hq hlq => ihnext u (h.2 u) hq hlq
      refine (runs_rule_attested (.standing hp.standing) hp.acting hp.noted hp.denied hl
        fun p₁ hp₁ hl₁ => ihbody () h.1 hp₁ hl₁).mono ?_
      rintro _ q ⟨rfl, p₁, node, vs, rs, hentered, hframes, hopen, hmoves, hattested⟩
      exact ⟨_, rs, hmoves.step_of_opened hp hentered hframes hopen, nofun, hattested⟩
  | invoke follow body next ihbody ihnext =>
      refine attests_bind hp hl ?_ fun b q hq hlq => ihnext b (h.2 b) hq hlq
      refine (runs_invoke (ihbody () h.1 (hp.invoked follow) hl)).mono ?_
      rintro o _ ⟨q, ⟨vs, rs, hbody, hanchor, hattested⟩, rfl⟩
      exact ⟨vs, rs, hbody.of_invoke, hanchor,
        ⟨hattested.numbered, hattested.caught, hattested.marked, hattested.told⟩⟩
  | speculate body next ihbody ihnext =>
      refine attests_bind hp hl ?_ fun b q hq hlq => ihnext b (h.2 b) hq hlq
      -- a trial leaves the parser as it was, apart from the numbers that have been taken
      have htried : Runs (Parser.speculate (body ()).run) p (fun _ => True) fun _ q =>
          Tried p (onward (ahead 1) p fun _ q => (body ()).mishaps { q with speculating := q.speculating + 1 }) q :=
        .of_ends (ends_speculate_tried (fun q hq => (h.1.ends_idle hq).and (h.1.ends_tried hq)) p)
      refine ((runs_speculate hp.standing trivial (fun _ => True) fun p₁ hp₁ _ _ =>
        (h.1.runs_trying hp₁ trivial).mono fun _ _ hq => ⟨hq, trivial⟩).and htried).mono ?_
      rintro _ _ ⟨⟨b, s, n, rfl, hs, hn, rfl, -⟩, htried⟩
      exact ⟨[], [], hp.aside hs p.recovery hn, nofun, htried.attested b⟩
  | attempt body next ihbody ihnext =>
      refine attests_bind hp hl ?_ fun b q hq hlq => ihnext b (h.2 b) hq hlq
      -- what the body fails with has been raised, and no rule catches it
      refine (runs_attempt (ihbody () h.1 hp hl)).mono ?_
      rintro _ q ⟨b, rfl, vs, rs, hstep, -, hattested⟩
      exact ⟨vs, rs, hstep, nofun, hattested.taken b⟩

/-- **The tree and the reports of a whole parse tell of its mishaps.** -/
theorem Recognizer.OrdinaryRule.attested {x : Tape} {p : Parser σ} {e : Recognizer Unit} (h : e.OrdinaryRule)
    (hreads : p.input.Reads x) (hstarted : p.input.started = false) (hacting : p.speculating = 0)
    (hnoted : p.strategy.noted = false) (hdenied : p.strategy.denied = []) (hframes : p.frames = [])
    (htree : p.tree = {}) (hreports : p.reports = []) (hl : 0 < p.listeners) :
    Runs e.run p (fun _ => True) fun _ q => ∃ v, q.tree.view? = some v ∧
      Attested p (e.mishaps p) (.ok ()) [v] q.reports q := by
  obtain ⟨r, body, rfl, hbody⟩ := h
  rw [run_rule_pure]
  refine (ran (runs_rule_attested (.fresh hreads hstarted rfl) hacting hnoted hdenied hl
    fun p₁ hp₁ hl₁ => hbody.runs_attests hp₁ hl₁)).mono ?_
  rintro _ q ⟨⟨rfl, p₁, node, vs, rs, hentered, -, hopen, hmoves, hattested⟩, hran⟩
  obtain ⟨hroot, hsize, hshows⟩ := hentered.shows_of_opened hframes htree hopen
  have hheard : q.reports = rs := by
    rw [hmoves.reports, hentered.reports, hreports, List.nil_append]
  refine ⟨.rule node vs, ?_, ?_⟩
  · rw [ParseTree.view?, hroot, Option.bind_some]
    exact ParseTree.viewAt_of_shows _ _ _ hshows (Nat.le_of_eq hsize.symm)
  · rw [Recognizer.mishaps, hran.onward_ok, Recognizer.mishaps, List.append_nil, hheard]
    exact hattested

end TreeProjection
