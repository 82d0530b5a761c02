import TreeProjection.Proofs.Ordinary

/-! # Errors that leave something in the tree

An error that is reported leaves something in the tree at its place: the rule that failed, the token that was passed
over, or the token that was made up.  All operations see to that but one: a loop's guard may report a token and
leave it to a caller, which is then to be found in what the surrounding rule does next.

* `ParseNode.View.Marks` — something in a tree shows an error at a place.
* `Parser.Settled` — every report has something in the trees.
* `Recognizer.Settles` — a recognizer that does not fail leaves something for each of its reports.
* `Recognizer.settles_guarded` — a guarded loop, together with the token that is matched after it. -/

namespace TreeProjection

open ParseNode (View)

/-! ## Marks of errors -/

namespace ParseNode.View

mutual

/-- **Something in a tree that begins at place `s` shows an error at place `a`**: a rule that an exception ended
somewhere around the place, or an error leaf at the place. -/
def Marks (a s : Nat) : ParseNode.View → Prop
  | rule r children => (r.exception.isSome = true ∧ s ≤ a ∧ a ≤ s + (read children).length) ∨
      MarksAny a s children
  | terminal _ => False
  | error _ => s = a

/-- Something in one of several trees shows an error at a place. -/
def MarksAny (a s : Nat) : List ParseNode.View → Prop
  | [] => False
  | v :: rest => Marks a s v ∨ MarksAny a (s + (read [v]).length) rest

end

variable {a s : Nat}

/-- Something in trees one after the other shows an error. -/
theorem marksAny_append (vs ws : List ParseNode.View) : MarksAny a s (vs ++ ws) ↔
    MarksAny a s vs ∨ MarksAny a (s + (read vs).length) ws := by
  induction vs generalizing s with
  | nil => simp [MarksAny]
  | cons v vs ih =>
      have hread : (read (v :: vs)).length = (read [v]).length + (read vs).length := by
        rw [← List.length_append, ← read_append]
        rfl
      rw [List.cons_append, MarksAny, MarksAny, ih, hread, Nat.add_assoc, or_assoc]

end ParseNode.View

open TreeProjection.Parser

variable {σ : Type} [TokenSource σ] {x : Tape} {p q : Parser σ} {vs ws : List View}
  {rs rs' : List Report} {i j : Nat}

/-- How many tokens there are between two places, where nothing is hidden. -/
theorem Tape.Plain.length_between (h : x.Plain) (hj : j ≤ x.size) :
    (x.between i j).length = j - i := by
  rw [h.between hj, List.length_map, List.length_range']

/-- Where nothing is hidden, the input moves on by the tokens that are added. -/
theorem Parser.Moves.index_eq (h : Moves x p vs rs q) (hplain : x.Plain) :
    q.index = p.index + (View.read vs).length := by
  have hle := h.index_le
  rw [h.read, hplain.length_between h.standing.le_size]
  omega

/-- **Every report has something in the trees**, which begin at a place, at the place where it is anchored. -/
def Parser.Settled (x : Tape) (i : Nat) (vs : List View) (rs : List Report) : Prop :=
  ∀ r ∈ rs, ∃ a, a ≤ x.size ∧ r.anchor = x.token a ∧ View.MarksAny a i vs

namespace Parser.Settled

/-- Without reports there is nothing to see to. -/
theorem nil (vs : List View) : Settled x i vs [] := fun _ h => nomatch h

/-- First some trees, then others. -/
theorem append (h : Settled x i vs rs) (h' : Settled x (i + (View.read vs).length) ws rs') :
    Settled x i (vs ++ ws) (rs ++ rs') := by
  intro r hr
  rcases List.mem_append.mp hr with hr | hr
  · obtain ⟨a, ha, hanchor, hmarks⟩ := h r hr
    exact ⟨a, ha, hanchor, (View.marksAny_append vs ws).mpr (.inl hmarks)⟩
  · obtain ⟨a, ha, hanchor, hmarks⟩ := h' r hr
    exact ⟨a, ha, hanchor, (View.marksAny_append vs ws).mpr (.inr hmarks)⟩

omit [TokenSource σ] in
/-- An error leaf comes first, and what is reported is reported of the token there. -/
theorem of_leaf (hi : i ≤ x.size) {t : Token} {fits : Report → Prop} (hheard : Heard p fits rs)
    (hanchor : ∀ r, fits r → r.anchor = x.token i) : Settled x i (.error t :: ws) rs := by
  cases hheard with
  | held h => exact nil _
  | made r h =>
      intro r' hr'
      rw [List.mem_singleton.mp hr']
      exact ⟨i, hi, hanchor r h, .inl rfl⟩

end Parser.Settled

namespace Recognizer

variable {α β : Type}

/-- **A recognizer has ended**, and if it has not failed, every report has something in the tree. -/
def Ended (x : Tape) (p : Parser σ) (o : Except RecognitionException α) (q : Parser σ) : Prop :=
  ∃ vs rs, Step x p vs rs q ∧ (∀ e, o = .error e → e.anchor = x.token q.index) ∧
    ∀ a, o = .ok a → Settled x p.index vs rs

/-- **A recognizer settles its reports**, wherever it begins. -/
def Settles (σ : Type) [TokenSource σ] (x : Tape) (r : Recognizer α) : Prop :=
  ∀ p : Parser σ, Ready x p → Runs r.run p (fun _ => True) (Ended x p)

/-- What comes after a step whose reports are settled. -/
theorem Ended.after {r : Parser σ} {o : Except RecognitionException α} (hplain : x.Plain)
    (hstep : Step x p vs rs q) (hsettled : Settled x p.index vs rs) (h : Ended x q o r) :
    Ended x p o r := by
  obtain ⟨ws, rs', hrest, hanchor, hrest'⟩ := h
  refine ⟨vs ++ ws, rs ++ rs', hstep.trans hrest, hanchor, fun a ha => hsettled.append ?_⟩
  rw [← hstep.index_eq hplain]
  exact hrest' a ha

/-- A step without a report. -/
theorem ended_of_step {o : Except RecognitionException α} (h : Step x p vs [] q)
    (hanchor : ∀ e, o = .error e → e.anchor = x.token q.index) : Ended x p o q :=
  ⟨vs, [], h, hanchor, fun _ _ => .nil vs⟩

/-- What has failed has nothing to see to. -/
theorem ended_of_failed {e : RecognitionException} (h : Failed x p e q) :
    Ended x p (.error e : Except RecognitionException α) q := by
  refine ended_of_step h.step ?_
  rintro _ ⟨⟩
  rw [h.anchor, h.index]

/-- Whether reports are settled does not depend on what is answered. -/
theorem runs_forget {act : ParserM σ α} {fair : List Report → Prop} (h : Runs act q fair (Ended x p)) :
    Runs (act >>= fun _ => Pure.pure ()) q fair (Ended x p : Except _ Unit → _ → _) := by
  refine h.bind ?_ ?_
  · rintro a r ⟨vs, rs, hstep, -, hsettled⟩
    exact ⟨vs, rs, hstep, (by rintro _ ⟨⟩), fun _ _ => hsettled a rfl⟩
  · rintro e r ⟨vs, rs, hstep, hanchor, -⟩
    exact ⟨vs, rs, hstep, fun _ he => hanchor _ (congrArg _ (Except.error.inj he)), (by rintro _ ⟨⟩)⟩

/-! ## Settling, operation by operation -/

/-- Answering. -/
theorem settles_pure (a : α) : Settles σ x (.pure a) := fun _ hp => ended_of_step hp.refl (by rintro _ ⟨⟩)

/-- Giving up. -/
theorem settles_outOfSteps : Settles σ x (.outOfSteps : Recognizer α) := fun _ _ => trivial

/-- **One recognizer after the other.** -/
theorem Settles.bind {r : Recognizer α} {f : α → Recognizer β} (hplain : x.Plain)
    (h : Settles σ x r) (hf : ∀ a, Settles σ x (f a)) : Settles σ x (r.bind f) := by
  intro p hp
  rw [run_bind]
  refine Runs.bind (h p hp) (fun a q ho => ?_) fun e q ho => ?_
  · obtain ⟨vs, rs, hstep, -, hsettled⟩ := ho
    exact (hf a q (hstep.ready hp)).mono fun _ _ hr => hr.after hplain hstep (hsettled a rfl)
  · obtain ⟨vs, rs, hstep, hanchor, -⟩ := ho
    exact ⟨vs, rs, hstep, fun _ he => hanchor _ (congrArg _ (Except.error.inj he)), (by rintro _ ⟨⟩)⟩

/-- Looking ahead. -/
theorem settles_typeAhead (k : Nat) : Settles σ x (typeAhead k) := by
  intro p hp
  refine (runs_ahead (.standing hp.standing) trivial k).bind ?_ (by rintro e q ⟨⟨⟩, -⟩)
  rintro _ _ ⟨⟨⟩, s, hs, rfl⟩
  exact ended_of_step (hp.reread hs) (by rintro _ ⟨⟩)

/-- Failing. -/
theorem settles_noViableAlt (depth : Nat) : Settles σ x (noViableAlt depth : Recognizer α) := by
  intro p hp
  refine (runs_raiseNoViableAlt hp trivial depth).bind (fun a => nomatch a) ?_
  rintro e q ⟨_, ⟨⟩, hfailed, -⟩
  exact ended_of_failed hfailed

/-- What is matched instead of the current token leaves an error leaf before it. -/
theorem ended_of_matched {ty : TokenType} {follow : TokenSet} {o : Except RecognitionException Token}
    (hp : Ready x p) (h : Matched x p ty follow q o) : Ended x p o q := by
  cases h with
  | here type step => exact ended_of_step step (by rintro _ ⟨⟩)
  | dropped type next rs heard step =>
      exact ⟨_, rs, step, (by rintro _ ⟨⟩), fun _ _ =>
        .of_leaf hp.standing.le_size heard fun _ h => h.anchor⟩
  | madeUp type t _ _ _ rs heard step =>
      exact ⟨_, rs, step, (by rintro _ ⟨⟩), fun _ _ =>
        .of_leaf hp.standing.le_size heard fun _ h => h.anchor⟩
  | failed type e failed => exact ended_of_failed failed

/-- **Matching a token.** -/
theorem settles_expect (ty : TokenType) (follow : TokenSet) : Settles σ x (expect ty follow) := by
  intro p hp
  exact runs_forget ((runs_expect hp trivial ty follow fun _ _ _ _ => trivial).mono fun _ _ =>
    ended_of_matched hp)

/-- Invoking a body. -/
theorem settles_within {follow : TokenSet} {body : Unit → Recognizer β}
    (h : Settles σ x (body ())) : Settles σ x (within follow body) := by
  intro p hp
  refine (runs_invoke (h _ (hp.invoked follow))).bind ?_ ?_
  · rintro a _ ⟨q, ⟨vs, rs, hstep, -, hsettled⟩, rfl⟩
    exact ⟨vs, rs, hstep.of_invoke, (by rintro _ ⟨⟩), fun _ _ => hsettled a rfl⟩
  · rintro e _ ⟨q, ⟨vs, rs, hstep, hanchor, -⟩, rfl⟩
    exact ⟨vs, rs, hstep.of_invoke, fun _ he => hanchor _ (congrArg _ (Except.error.inj he)), (by rintro _ ⟨⟩)⟩

/-- Trying an ordinary body reports nothing. -/
theorem settles_trial {body : Unit → Recognizer Unit} (h : (body ()).Ordinary) :
    Settles σ x (trial body) := by
  intro p hp
  refine (runs_speculate hp.standing trivial (fun _ => True) fun p₁ hp₁ _ _ =>
    (h.runs_trying hp₁ trivial).mono fun _ _ hq => ⟨hq, trivial⟩).bind ?_ ?_
  · rintro b _ ⟨_, s, n, -, hs, hn, rfl, -⟩
    exact ended_of_step (hp.aside hs p.recovery hn) (by rintro _ ⟨⟩)
  · rintro e _ ⟨_, _, _, ⟨⟩, -⟩

omit [TokenSource σ] in
/-- **A rule.** If its body fails, the node of the rule shows all that was reported inside. -/
theorem settled_ruleEnd {node : RuleNode} (hindex : q.index = i + (View.read vs).length)
    (hle : q.index ≤ x.size)
    (hanchored : ∀ r ∈ rs, ∃ a, i ≤ a ∧ a ≤ q.index ∧ r.anchor = x.token a)
    (h : RuleEnd x (fun o vs rs _ => ∀ a, o = .ok a → Settled x i vs rs) q node vs rs) :
    Settled x i [.rule node vs] rs := by
  cases h with
  | well vs rs q₀ h exception recovery index =>
      intro r hr
      obtain ⟨a, ha, hanchor, hmarks⟩ := h () rfl r hr
      exact ⟨a, ha, hanchor, .inl (.inr hmarks)⟩
  | failed e vs ws rs rs' q₀ h exception heard inRecovery =>
      intro r hr
      obtain ⟨a, hia, haq, hanchor⟩ := hanchored r hr
      refine ⟨a, Nat.le_trans haq hle, hanchor, .inl (.inl ⟨?_, hia, ?_⟩)⟩
      · rw [exception]
        rfl
      · rw [← hindex]
        exact haq

/-- **A rule settles what its body settles.** -/
theorem settles_asRule {r : RuleIndex} {body : Unit → Recognizer Unit} (hplain : x.Plain)
    (h : Settles σ x (body ())) : Settles σ x (asRule r body) := by
  intro p hp
  refine (runs_rule hp trivial (fun o vs rs _ => ∀ a, o = .ok a → Settled x p.index vs rs)
    fun p₁ h₁ => ?_).bind ?_ (by rintro e q ⟨⟨⟩, -⟩)
  · refine (h p₁ h₁.ready).mono ?_
    rintro o q ⟨vs, rs, hstep, hanchor, hsettled⟩
    rw [h₁.index] at hsettled
    exact ⟨vs, rs, hstep, hsettled, hanchor, trivial, fun _ _ _ _ _ => trivial⟩
  · rintro _ q ⟨-, node, vs, rs, rfl, hstep, hend⟩
    have hindex := hstep.index_eq hplain
    rw [View.read_rule] at hindex
    exact ⟨_, rs, hstep, (by rintro _ ⟨⟩), fun _ _ =>
      settled_ruleEnd hindex hstep.standing.le_size hstep.anchored hend⟩

/-- A loop without a guard. -/
theorem settles_repeatWhile {body : Unit → Recognizer Bool} (hplain : x.Plain)
    (h : Settles σ x (body ())) (rounds : Nat) : Settles σ x (repeatWhile body rounds) := by
  induction rounds with
  | zero => exact settles_outOfSteps
  | succ rounds ih =>
      refine h.bind hplain fun again => ?_
      cases again with
      | true => exact ih
      | false => exact settles_pure ()

/-! ## Guarded loops -/

/-- **How a loop's guard ends**: its report is settled, or it is left to what comes next, with the token at which
it was made still ahead. -/
theorem runs_sync_settled (hp : Ready x p) {set : TokenSet} :
    Runs (sync set).run p (fun _ => True) fun o q => o = .ok () ∧
      ((∃ vs rs, Step x p vs rs q ∧ Settled x p.index vs rs) ∨
        (∃ rs, Step x p [] rs q ∧ q.index = p.index ∧ set.contains (x.type p.index) = false ∧
          ∀ r ∈ rs, r.anchor = x.token p.index)) := by
  refine (runs_sync hp trivial set fun _ _ _ _ => trivial).bind ?_ (by rintro e q ⟨⟨⟩, -⟩)
  rintro _ q ⟨-, hguarded⟩
  refine ⟨rfl, ?_⟩
  cases hguarded with
  | «open» step => exact .inl ⟨[], [], step, .nil _⟩
  | passed free type vs rs step inRecovery heard leads =>
      obtain ⟨ws, rfl⟩ := leads
      exact .inl ⟨_, rs, step, .of_leaf hp.standing.le_size heard fun _ h => h.anchor⟩
  | stayed free type rs step index inRecovery heard =>
      refine .inr ⟨rs, step, index, type, fun r hr => ?_⟩
      cases heard with
      | held => cases hr
      | made r' h =>
          rw [List.mem_singleton.mp hr]
          exact h.anchor

/-- A token that is matched where another one is ahead leaves an error leaf for what was reported of that. -/
theorem Ended.of_owed {ty : TokenType} {follow : TokenSet} {r : Parser σ}
    {o : Except RecognitionException Token} (hq : Ready x q) (hstep : Step x p [] rs q)
    (hindex : q.index = p.index) (hne : x.type p.index ≠ ty)
    (howed : ∀ r ∈ rs, r.anchor = x.token p.index) (h : Matched x q ty follow r o) :
    Ended x p o r := by
  have hle : p.index ≤ x.size := hindex ▸ hq.standing.le_size
  have hleaf : ∀ {vs t} {rs' : List Report}, Step x q (.error t :: vs) rs' r →
      Heard q (Mending x q ty follow) rs' → Settled x p.index (.error t :: vs) (rs ++ rs') := by
    intro vs t rs' _ hheard r hr
    rcases List.mem_append.mp hr with hr | hr
    · exact ⟨p.index, hle, howed r hr, .inl rfl⟩
    · refine Settled.of_leaf hle hheard (fun r h => ?_) r hr
      rw [h.anchor, hindex]
  -- the leaf that was owed comes first, whichever way the token is matched after all
  cases h with
  | here type step => exact absurd (hindex ▸ type) hne
  | dropped type next rs' heard step =>
      exact ⟨_, _, hstep.trans step, (by rintro _ ⟨⟩), fun _ _ => hleaf step heard⟩
  | madeUp type t _ _ _ rs' heard step =>
      exact ⟨_, _, hstep.trans step, (by rintro _ ⟨⟩), fun _ _ => hleaf step heard⟩
  | failed type e failed =>
      refine ⟨_, _, hstep.trans failed.step, ?_, (by rintro _ ⟨⟩)⟩
      rintro _ ⟨⟩
      rw [failed.anchor, failed.index]

/-- **A guarded loop settles its reports together with the token that is matched after it**, if the loop ends at
the tokens that its guard would pass over, and its guard lets that token through. -/
theorem settles_guarded {set : TokenSet} {body : TokenType → Recognizer Bool} {ty : TokenType}
    {follow : TokenSet} (hplain : x.Plain) (hbody : ∀ t, Settles σ x (body t))
    (hend : ∀ t, set.contains t = false → body t = .pure false) (hty : set.contains ty = true)
    (rounds : Nat) :
    Settles σ x ((repeatWhile (fun _ => (sync set).bind fun _ => (typeAhead 1).bind body)
      rounds).bind fun _ => expect ty follow) := by
  -- induction on the rounds: what a round leaves owed is paid by the token that ends the loop
  induction rounds with
  | zero => exact settles_outOfSteps
  | succ rounds ih =>
      intro p hp
      rw [repeatWhile, bind_assoc, bind_assoc, run_bind]
      refine (runs_sync_settled hp).bind ?_ (by rintro e q ⟨⟨⟩, -⟩)
      rintro _ q ⟨-, ⟨vs, rs, hstep, hsettled⟩ | ⟨rs, hstep, hindex, hout, howed⟩⟩
      · -- nothing is owed, so the round and the rest of the loop settle their own reports
        have hround : Settles σ x (((typeAhead 1).bind body).bind fun again =>
            (if again then repeatWhile (fun _ => (sync set).bind fun _ =>
              (typeAhead 1).bind body) rounds else .pure ()).bind fun _ => expect ty follow) := by
          refine ((settles_typeAhead 1).bind hplain hbody).bind hplain fun again => ?_
          cases again with
          | true => exact ih
          | false => exact settles_expect ty follow
        exact (hround q (hstep.ready hp)).mono fun _ _ hr => hr.after hplain hstep hsettled
      · -- the token is still ahead, so the loop ends here
        have hq := hstep.ready hp
        have hlook : Runs (typeAhead 1).run q (fun _ => True) fun o r =>
            o = .ok (x.type q.index) ∧ Step x q [] [] r ∧ r.index = q.index := by
          refine (runs_ahead (.standing hq.standing) trivial 1).bind ?_ (by rintro e r ⟨⟨⟩, -⟩)
          rintro _ _ ⟨⟨⟩, s, hs, rfl⟩
          exact ⟨rfl, hq.reread hs, hs.cursor⟩
        rw [bind_assoc, run_bind]
        refine hlook.bind ?_ ?_
        · rintro _ r ⟨⟨⟩, hahead, hindex'⟩
          rw [hend _ (hindex ▸ hout)]
          have hne : x.type p.index ≠ ty := by
            rintro rfl
            rw [hout] at hty
            cases hty
          have hr := hahead.ready hq
          exact runs_forget ((runs_expect hr trivial ty follow fun _ _ _ _ => trivial).mono fun _ _ =>
            .of_owed hr (hstep.trans_silent hahead) (hindex'.trans hindex) hne howed)
        · rintro e r ⟨⟨⟩, -⟩

/-- **Recognizers that are put together as grammars are settle their reports.** -/
theorem composed_settles (hplain : x.Plain) : Composed (Settles σ x) where
  outOfSteps := settles_outOfSteps
  pure := settles_pure
  bind h hf := h.bind hplain hf
  typeAhead := settles_typeAhead
  expect := settles_expect
  noViableAlt := settles_noViableAlt
  asRule _ _ h := settles_asRule hplain h
  within _ _ h := settles_within h
  trial hord _ := settles_trial hord
  repeatWhile h := settles_repeatWhile hplain h
  guarded _ _ _ hbody hend hty := settles_guarded hplain hbody hend hty

/-- **The outermost rule settles its reports** if its body does. -/
theorem runs_rule_settled (hp : Fresh x p) (hplain : x.Plain) {r : RuleIndex} {body : ParserM σ Unit}
    (h : ∀ p₁, Entered x (x.stop 0) r p p₁ → Runs body p₁ (fun _ => True) (Ended x p₁)) :
    Runs (Parser.rule r body) p (fun _ => True) fun o q => o = .ok () ∧
      ∃ node vs, Whole x q node vs ∧ Settled x 0 [.rule node vs] q.reports := by
  refine (runs_rule_fresh hp trivial (fun o vs rs _ => ∀ a, o = .ok a → Settled x 0 vs rs)
    fun p₁ h₁ => ?_).mono ?_
  · refine (h p₁ h₁).mono ?_
    rintro o q ⟨vs, rs, hstep, hanchor, hsettled⟩
    rw [h₁.index, hplain.stop, Nat.zero_min] at hsettled
    exact ⟨vs, rs, hstep, hsettled, hanchor, trivial, fun _ _ _ _ _ => trivial⟩
  · rintro _ q ⟨rfl, p₁, node, vs, rs, h₁, hrule, hwhole, hmoves, hreports, hend⟩
    have hstart : p₁.index = 0 := by rw [h₁.index, hplain.stop, Nat.zero_min]
    have hindex := hmoves.index_eq hplain
    have hanchored := hmoves.anchored
    rw [hstart] at hindex hanchored
    rw [hreports]
    exact ⟨rfl, node, vs, hwhole, settled_ruleEnd hindex hmoves.standing.le_size hanchored hend⟩

/-- **A whole parse settles its reports**, those of its outermost rule included. -/
theorem runs_settled {e : Recognizer Unit} {r : RuleIndex} {body : Unit → Recognizer Unit}
    (hp : Fresh x p) (hplain : x.Plain) (he : e = .rule r body .pure) (h : Settles σ x (body ())) :
    Runs e.run p (fun _ => True) fun o q => o = .ok () ∧ ∃ node vs, Whole x q node vs ∧
      Settled x 0 [.rule node vs] q.reports := by
  rw [he, run_rule_pure]
  exact runs_rule_settled hp hplain fun p₁ h₁ => h p₁ h₁.ready

end Recognizer

end TreeProjection
