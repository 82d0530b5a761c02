import TreeProjection.Proofs.Bursts
import TreeProjection.Proofs.Consumed

/-! # Reports in the order of the input

Each report is placed at a token further on than the one before, unless both are placed at the end of the input.  What
keeps them apart is that reports are held back until a token has been matched: the match moves the input past the token
of the last report, except at the end, which is never passed.

* `Report.Precedes` — one report is placed before another, or both at the end.
* `Parser.Spaced` — reports are in order, and as long as none are held back, the input is past them.
* `Recognizer.Ordinary.runs_spaced` — an ordinary recognizer keeps it so.
* `Recognizer.OrdinaryRule.one_report_per_mistake` — how often a parse reports. -/

namespace TreeProjection

open ParseNode (View)
open TreeProjection.Parser

variable {σ α β : Type} [TokenSource σ] {x : Tape} {p q : Parser σ} {vs : List View} {rs : List Report}

/-- **One report is placed before another**, or both are placed at the end of the input. -/
def Report.Precedes (r r' : Report) : Prop :=
  ∃ i j, r.anchor.index = some i ∧ r'.anchor.index = some j ∧
    (i < j ∨ i = j ∧ r.anchor.isEof = true ∧ r'.anchor.isEof = true)

namespace Parser

/-- **The reports so far are spaced**: they are in order, none is placed further on than the input stands, and unless
reports are held back, none but at the end is placed where it stands. -/
structure Spaced (x : Tape) (p : Parser σ) : Prop where
  /-- The reports are in order. -/
  ordered : p.reports.Pairwise Report.Precedes
  /-- Each report is placed at a token that the input has come to. -/
  placed : ∀ r ∈ p.reports, ∃ a, a ≤ p.index ∧ r.anchor = x.token a ∧
    (p.recovery.inRecovery = false → a < p.index ∨ x.size ≤ a)

/-- Where a walk goes on after a token of the tape. -/
theorem Walk.stop_succ_le {i j : Nat} {matched : Bool} {ls : List (Bool × Token)}
    (h : Walk x i ((matched, x.token i) :: ls) j) : x.stop (i + 1) ≤ j := by
  generalize ht : x.token i = t at h
  cases h with
  | made conjured _ =>
      rw [← ht, x.isConjured_token] at conjured
      exact absurd conjured Bool.false_ne_true
  | token _ _ _ h => exact h.le

/-- Past a token of the tape the input stands further on, unless the token is the end. -/
theorem lt_or_size_le {i j : Nat} (hj : x.stop (i + 1) ≤ j) : i < j ∨ x.size ≤ i := by
  rcases Nat.lt_or_ge i x.size with hlt | hge
  · exact .inl (Nat.lt_of_lt_of_le (x.le_stop hlt) hj)
  · exact .inr hge

namespace Spaced

/-- **A report at the current token** keeps the order, unless reports are held back. -/
theorem report (h : Spaced x p) (hp : Ready x p) (hfree : p.recovery.inRecovery = false) {r : Report}
    (hr : r.anchor = x.token p.index) : (p.reports ++ [r]).Pairwise Report.Precedes := by
  refine List.pairwise_append.mpr ⟨h.ordered, List.pairwise_singleton _ _, fun s hs s' hs' => ?_⟩
  rw [List.mem_singleton.mp hs']
  obtain ⟨a, ha, hanchor, hpast⟩ := h.placed s hs
  -- both places are seen at the end of the tape at the latest, where several reports may be
  have hend := hp.standing.le_size
  refine ⟨min a x.size, min p.index x.size, by rw [hanchor, x.token_index], by rw [hr, x.token_index], ?_⟩
  rw [hanchor, hr, x.token_isEof, x.token_isEof, decide_eq_true_iff, decide_eq_true_iff]
  have := hpast hfree
  omega

omit [TokenSource σ] in
/-- **The input has moved on, or reports are held back**, and what has been reported was reported of the token that
was current. -/
theorem moved (h : Spaced x p) (hordered : q.reports.Pairwise Report.Precedes)
    (hreports : q.reports = p.reports ++ rs) (hplaced : ∀ r ∈ rs, r.anchor = x.token p.index)
    (hle : p.index ≤ q.index)
    (hfree : q.recovery.inRecovery = false → p.index < q.index ∨ x.size ≤ p.index) : Spaced x q := by
  refine ⟨hordered, fun r hr => ?_⟩
  have hpassed : ∀ a, a ≤ p.index → q.recovery.inRecovery = false → a < q.index ∨ x.size ≤ a := by
    intro a ha hq
    have := hfree hq
    omega
  rw [hreports] at hr
  -- old reports are placed before the new ones, and the input has moved past them all
  rcases List.mem_append.mp hr with hr | hr
  · obtain ⟨a, ha, hanchor, -⟩ := h.placed r hr
    exact ⟨a, Nat.le_trans ha hle, hanchor, hpassed a ha⟩
  · exact ⟨p.index, hle, hplaced r hr, hpassed _ (Nat.le_refl _)⟩

/-- The same, where a hook has reported. -/
theorem heard (h : Spaced x p) (hp : Ready x p) {fits : Report → Prop} (hheard : Heard p fits rs)
    (hfits : ∀ r, fits r → r.anchor = x.token p.index) (hreports : q.reports = p.reports ++ rs)
    (hle : p.index ≤ q.index)
    (hfree : q.recovery.inRecovery = false → p.index < q.index ∨ x.size ≤ p.index) : Spaced x q := by
  cases hheard with
  | held _ =>
      refine h.moved ?_ hreports (fun _ h => absurd h List.not_mem_nil) hle hfree
      rw [hreports, List.append_nil]
      exact h.ordered
  | made r hr free _ =>
      have hanchor := hfits r hr
      refine h.moved (hreports ▸ h.report hp free hanchor) hreports (fun s hs => ?_) hle hfree
      rw [List.mem_singleton.mp hs, hanchor]

omit [TokenSource σ] in
/-- Nothing has been reported, and reports are held back if they were. -/
theorem silent (h : Spaced x p) (hreports : q.reports = p.reports) (hle : p.index ≤ q.index)
    (hfree : q.recovery.inRecovery = false → p.recovery.inRecovery = false) : Spaced x q := by
  refine ⟨hreports ▸ h.ordered, fun r hr => ?_⟩
  rw [hreports] at hr
  obtain ⟨a, ha, hanchor, hpast⟩ := h.placed r hr
  refine ⟨a, Nat.le_trans ha hle, hanchor, fun hq => ?_⟩
  exact (hpast (hfree hq)).imp_left fun hlt => Nat.lt_of_lt_of_le hlt hle

/-- An action that has failed has reported nothing. -/
theorem failed (h : Spaced x p) {e : RecognitionException} (hq : Failed x p e q) : Spaced x q := by
  refine h.silent ?_ (Nat.le_of_eq hq.index.symm) fun hfree => ?_
  · rw [hq.step.reports, List.append_nil]
  · rwa [hq.recovery] at hfree

/-- **Matching a token** keeps reports spaced. -/
theorem matched (h : Spaced x p) (hp : Ready x p) {ty : TokenType} {follow : TokenSet}
    {o : Except RecognitionException Token} (hmatched : Matched x p ty follow q o) : Spaced x q := by
  have hanchor : ∀ r, Mending x p ty follow r → r.anchor = x.token p.index := fun r hr => hr.anchor
  cases hmatched with
  | here type step index recovery =>
      have hreports := step.reports
      refine h.moved ?_ hreports (fun _ h => absurd h List.not_mem_nil) step.index_le fun _ =>
        lt_or_size_le (Nat.le_of_eq index.symm)
      rw [hreports, List.append_nil]
      exact h.ordered
  | dropped type next rs heard step recovery =>
      -- recovery is over although something has been reported, so that the dropped token has to be behind
      exact h.heard hp heard hanchor step.reports step.index_le fun _ => lt_or_size_le step.walk.stop_succ_le
  | madeUp type t conjured made viable rs heard step index recovery =>
      refine h.heard hp heard hanchor step.reports step.index_le fun hfree => ?_
      rw [recovery] at hfree
      cases hfree
  | failed type e failed => exact h.failed failed

/-- **Guarding a loop** keeps reports spaced. -/
theorem guarded (h : Spaced x p) (hp : Ready x p) {expecting : TokenSet}
    (hguarded : Guarded x p expecting q) : Spaced x q := by
  cases hguarded with
  | «open» step index recovery free =>
      refine h.silent ?_ step.index_le fun hfree => ?_
      · rw [step.reports, List.append_nil]
      · rwa [recovery] at hfree
  | passed free type vs rs step inRecovery heard leads =>
      exact h.heard hp heard (fun r hr => hr.anchor) step.reports step.index_le fun hfree =>
        absurd (hfree.symm.trans inRecovery) Bool.false_ne_true
  | stayed free type rs step index inRecovery heard =>
      exact h.heard hp heard (fun r hr => hr.anchor) step.reports step.index_le fun hfree =>
        absurd (hfree.symm.trans inRecovery) Bool.false_ne_true

end Spaced

/-- **An action has ended**, and reports are spaced. -/
def EndsSpaced (x : Tape) (p : Parser σ) (o : Except RecognitionException α) (q : Parser σ) : Prop :=
  Acts x p o q ∧ Spaced x q

/-- **How the body of a rule ends** whose parser had heard `before`. -/
structure BodySpaced (x : Tape) (before : List Report) (o : Except RecognitionException Unit) (_ : List View)
    (rs : List Report) (q : Parser σ) : Prop where
  /-- The parser is in the rule. -/
  ready : Ready x q
  /-- What has been reported. -/
  reports : q.reports = before ++ rs
  /-- Reports are spaced. -/
  spaced : Spaced x q
  /-- A failure is placed where the input stands. -/
  anchor : ∀ e, o = .error e → e.anchor = x.token q.index

/-- A body that ends so lets its rule be a step. -/
theorem EndsSpaced.bodyEnd {o : Except RecognitionException Unit} {before : List Report} (hp : Ready x p)
    (hbefore : p.reports = before) (h : EndsSpaced x p o q) :
    ∃ vs rs, BodyEnd x p (List.Pairwise Report.Precedes) (BodySpaced x before) o q vs rs := by
  subst hbefore
  obtain ⟨⟨vs, rs, hstep, hanchor⟩, hspaced⟩ := h
  have hq := hstep.ready hp
  refine ⟨vs, rs, hstep, ⟨hq, hstep.reports, hspaced, hanchor⟩, hanchor, hspaced.ordered, ?_⟩
  intro e he hfree r hr
  exact hspaced.report hq hfree (hr.anchor.trans (hanchor e he))

/-- **A rule** keeps reports spaced if its body does. -/
theorem Spaced.of_ruleEnd {before : List Report} {node : RuleNode} (hreports : q.reports = before ++ rs)
    (h : RuleEnd x (BodySpaced x before) q node vs rs) : Spaced x q := by
  cases h with
  | well vs rs q₀ h exception recovery index =>
      refine h.spaced.silent (hreports.trans h.reports.symm) (Nat.le_of_eq index.symm) fun hfree => ?_
      rwa [recovery] at hfree
  | failed e vs ws rs rs' q₀ h exception heard inRecovery resumed =>
      -- the failure is reported where the body stopped, and reports are held back from then on
      refine h.spaced.heard h.ready heard (fun r hr => hr.anchor.trans (h.anchor e rfl)) ?_ resumed.index_le
        fun hfree => absurd (hfree.symm.trans inRecovery) Bool.false_ne_true
      rw [hreports, h.reports, List.append_assoc]

/-- Entering a rule keeps reports spaced. -/
theorem Spaced.entered {i : Nat} {r : RuleIndex} {p₁ : Parser σ} (h : Spaced x p) (h₁ : Entered x i r p p₁)
    (hi : p.index ≤ i) : Spaced x p₁ := by
  refine h.silent h₁.reports (by rwa [h₁.index]) fun hfree => ?_
  rwa [h₁.recovery] at hfree

end Parser

/-- **An operation keeps reports spaced.** -/
theorem Operation.runs_spaced (op : Operation β) (hp : Ready x p) (h : Spaced x p) :
    Runs op.run p (List.Pairwise Report.Precedes) (EndsSpaced x p) := by
  -- All that operations report is placed at the current token.
  have hmade : p.recovery.inRecovery = false → ∀ r, r.anchor = x.token p.index →
      (p.reports ++ [r]).Pairwise Report.Precedes := fun hfree r hr => h.report hp hfree hr
  cases op with
  | ahead k =>
      refine (runs_ahead (.standing hp.standing) h.ordered k).mono ?_
      rintro _ _ ⟨rfl, s, hs, rfl⟩
      exact ⟨(hp.reread hs).acts _, h.silent rfl (Nat.le_of_eq hs.cursor.symm) id⟩
  | expect ty follow =>
      exact (runs_expect hp h.ordered ty follow fun _ hfree r hr => hmade hfree r hr.anchor).mono
        fun _ _ hq => ⟨hq.acts, h.matched hp hq⟩
  | consume =>
      refine (runs_consume hp h.ordered).mono ?_
      rintro _ q ⟨rfl, hstep, hrecovery, -⟩
      refine ⟨hstep.acts _, h.silent ?_ hstep.index_le fun hfree => ?_⟩
      · rw [hstep.reports, List.append_nil]
      · rwa [hrecovery] at hfree
  | sync expecting =>
      refine (runs_sync hp h.ordered expecting fun _ hfree r hr => hmade hfree r hr.anchor).mono ?_
      rintro _ q ⟨rfl, hguarded⟩
      refine ⟨?_, h.guarded hp hguarded⟩
      cases hguarded with
      | «open» step => exact step.acts _
      | passed _ _ _ _ step => exact step.acts _
      | stayed _ _ _ step => exact step.acts _
  | require holds text =>
      refine (runs_require hp h.ordered holds text).mono ?_
      rintro _ q (⟨rfl, -, rfl⟩ | ⟨e, rfl, hfailed, -⟩)
      · exact ⟨hp.refl.acts _, h⟩
      · exact ⟨hfailed.acts, h.failed hfailed⟩
  | noViableAlt depth =>
      refine (runs_raiseNoViableAlt hp h.ordered depth).mono ?_
      rintro _ q ⟨e, rfl, hfailed, -⟩
      exact ⟨hfailed.acts, h.failed hfailed⟩
  | mismatch expected =>
      refine (runs_raiseMismatch hp h.ordered expected).mono ?_
      rintro _ q ⟨e, rfl, hfailed, -⟩
      exact ⟨hfailed.acts, h.failed hfailed⟩

/-- **Every ordinary recognizer keeps reports spaced.** -/
theorem Recognizer.Ordinary.runs_spaced {r : Recognizer α} (h : r.Ordinary) (hp : Ready x p)
    (hspaced : Spaced x p) : Runs r.run p (List.Pairwise Report.Precedes) (EndsSpaced x p) := by
  induction r generalizing p with
  | pure a => exact ⟨hp.refl.acts a, hspaced⟩
  | outOfSteps => exact hspaced.ordered
  | step op next ih =>
      refine (op.runs_spaced hp hspaced).bind ?_ ?_
      · rintro b q ⟨⟨vs, rs, hstep, -⟩, hq⟩
        exact (ih b (h b) (hstep.ready hp) hq).mono fun _ _ hr => ⟨hr.1.after hstep, hr.2⟩
      · rintro e q ⟨⟨vs, rs, hstep, hanchor⟩, hq⟩
        exact ⟨⟨vs, rs, hstep, fun _ he => hanchor _ (congrArg _ (Except.error.inj he))⟩, hq⟩
  | direct d next ih => exact h.elim
  | rule r body next ihbody ihnext =>
      refine (runs_rule hp hspaced.ordered (BodySpaced x p.reports) fun p₁ h₁ => ?_).bind ?_
        (by rintro e q ⟨⟨⟩, -⟩)
      · exact (ihbody () h.1 h₁.ready (hspaced.entered h₁ (Nat.le_refl _))).mono fun _ _ hq =>
          hq.bodyEnd h₁.ready h₁.reports
      · rintro u q ⟨-, node, vs, rs, -, hstep, hend⟩
        exact (ihnext u (h.2 u) (hstep.ready hp) (.of_ruleEnd hstep.reports hend)).mono fun _ _ hr =>
          ⟨hr.1.after hstep, hr.2⟩
  | invoke follow body next ihbody ihnext =>
      have hinvoked : Spaced x { p with follow := follow :: p.follow } :=
        hspaced.silent rfl (Nat.le_refl _) id
      refine (runs_invoke (ihbody () h.1 (hp.invoked follow) hinvoked)).bind ?_ ?_
      · rintro b _ ⟨q, ⟨⟨vs, rs, hbody, -⟩, hq⟩, rfl⟩
        have hstep := hbody.of_invoke
        exact (ihnext b (h.2 b) (hstep.ready hp) (hq.silent rfl (Nat.le_refl _) id)).mono fun _ _ hr =>
          ⟨hr.1.after hstep, hr.2⟩
      · rintro e _ ⟨q, ⟨⟨vs, rs, hbody, hanchor⟩, hq⟩, rfl⟩
        exact ⟨⟨vs, rs, hbody.of_invoke, fun _ he => hanchor _ (congrArg _ (Except.error.inj he))⟩,
          hq.silent rfl (Nat.le_refl _) id⟩
  | speculate body next ihbody ihnext =>
      refine (runs_speculate hp.standing hspaced.ordered (fun _ => True)
        fun p₁ hp₁ _ hfair₁ => (Ordinary.runs_trying h.1 hp₁ hfair₁).mono
          fun _ _ hq => ⟨hq, trivial⟩).bind ?_ ?_
      · rintro b _ ⟨_, s, n, -, hs, hn, rfl, -⟩
        -- a trial reports nothing and is gone back on
        have hstep := hp.aside hs p.recovery hn (k := p.syntaxErrors)
        have hback := hspaced.silent (q := { p with input := s, nextException := n }) rfl
          (Nat.le_of_eq hs.cursor.symm) id
        exact (ihnext b (h.2 b) (hstep.ready hp) hback).mono fun _ _ hr => ⟨hr.1.after hstep, hr.2⟩
      · rintro e _ ⟨_, _, _, ⟨⟩, -⟩
  | attempt body next ihbody ihnext =>
      refine (runs_attempt (ihbody () h.1 hp hspaced)).bind ?_ (by rintro e q ⟨_, ⟨⟩, -⟩)
      rintro b q ⟨_, -, ⟨vs, rs, hstep, -⟩, hq⟩
      exact (ihnext b (h.2 b) (hstep.ready hp) hq).mono fun _ _ hr => ⟨hr.1.after hstep, hr.2⟩

/-! ## Whole parses -/

/-- **From its outermost rule on**, an ordinary recognizer reports in the order of the input. -/
theorem Recognizer.OrdinaryRule.runs_spaced {e : Recognizer Unit} (h : e.OrdinaryRule) (hreads : p.input.Reads x)
    (hstarted : p.input.started = false) (hindex : p.index = 0) (hp : p.Earnest) (hframes : p.frames = [])
    (htree : p.tree = {}) (hreports : p.reports = []) : Ends e.run p fun _ q => q.reports.Pairwise Report.Precedes := by
  have hspaced : Spaced x p := ⟨hreports ▸ .nil, by rw [hreports]; exact fun _ h => absurd h List.not_mem_nil⟩
  have hstart : p.input.Facing x (x.stop 0) := .fresh hreads hstarted rfl
  have hbefore : p.index ≤ x.stop 0 := by
    rw [hindex]
    exact Nat.zero_le _
  obtain ⟨r, body, rfl, hbody⟩ := h
  rw [run_rule_pure]
  have hruns := runs_rule_entry (r := r) hstart hp.acting hp.noted hp.denied hframes htree hspaced.ordered
    fun p₁ h₁ => (hbody.runs_spaced h₁.ready (hspaced.entered h₁ hbefore)).mono fun _ _ hq =>
      hq.bodyEnd h₁.ready h₁.reports
  refine Ends.mono hruns fun o q hq => ?_
  rcases o with (e | a) | u
  · cases hq.1
  · exact hq
  · obtain ⟨-, p₁, node, vs, rs, h₁, -, -, -, -, hmoves, hend⟩ := hq
    exact (Spaced.of_ruleEnd (hmoves.reports.trans (by rw [h₁.reports])) hend).ordered

namespace Misplaced

/-- Matches two tokens. -/
def recognizer : Recognizer Unit :=
  .asRule ⟨0⟩ fun _ => (Recognizer.expect ⟨1⟩ ∅).bind fun _ => .expect ⟨2⟩ ∅

/-- Both tokens, each with one before it that does not belong there. -/
def source : ListedTokens where
  rest := [{ ty := ⟨3⟩, text := "c" }, { ty := ⟨1⟩, text := "a" }, { ty := ⟨3⟩, text := "c" },
    { ty := ⟨2⟩, text := "b" }]
  last := .endOfInput 4

/-- The recognizer is a rule made of ordinary operations. -/
theorem ordinaryRule_recognizer : recognizer.OrdinaryRule :=
  Recognizer.ordinaryRule_asRule ((Recognizer.ordinary_expect _ _).bind fun _ => Recognizer.ordinary_expect _ _)

end Misplaced

end TreeProjection
