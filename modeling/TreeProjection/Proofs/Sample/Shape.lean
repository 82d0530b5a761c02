import TreeProjection.Proofs.Ordinary
import TreeProjection.Sample.Grammar

/-! # The shape of the sample recognizers

The recognizers of the sample grammar are put together from the operations of grammars, each inside its rule, and
what can be shown of recognizers along the way they are put together holds of all of them.

* `Sample.contains_firstExpr`, `Sample.contains_blockLoop` and the like — what is in the sets of the grammar.
* `Sample.composed_block`, `Sample.composed_expr` and the like — the rules one by one.
* `Sample.composed_entry`, `Sample.composed_body` — every rule of the grammar, and its body.
* `Sample.ordinaryRule` — every recognizer of the grammar is ordinary, and runs inside one rule.
* `Sample.lexemeDriven_stepsFor` — every recognizer of the grammar decides on types alone. -/

namespace TreeProjection

namespace Sample

open Recognizer

variable {t : TokenType}

/-- What an expression may begin with. -/
def exprHeads : List TokenType := [int, string, ident, lparen]

/-- What a statement may begin with. -/
def statementHeads : List TokenType := [var, ret, lbrace, ident]

theorem contains_firstExpr : firstExpr.contains t = true ↔ t ∈ exprHeads :=
  TokenSet.contains_ofList (by decide) t

theorem contains_firstStatement : firstStatement.contains t = true ↔ t ∈ statementHeads :=
  TokenSet.contains_ofList (by decide) t

theorem contains_scriptLoop :
    scriptLoop.contains t = true ↔ t ∈ statementHeads ++ [func, .eof] := by
  rw [← TokenSet.contains_ofList (by decide) t]
  rfl

theorem contains_blockLoop : blockLoop.contains t = true ↔ t ∈ statementHeads ++ [rbrace] := by
  rw [← TokenSet.contains_ofList (by decide) t]
  rfl

/-- What a set lets through of which all members of another one are members. -/
theorem not_contains_of {s s' : TokenSet} {heads heads' : List TokenType}
    (hs : s.contains t = true ↔ t ∈ heads) (hs' : s'.contains t = true ↔ t ∈ heads')
    (hsub : heads' ⊆ heads) (hout : s.contains t = false) : s'.contains t = false := by
  rw [Bool.eq_false_iff, ne_eq, hs']
  intro ht
  rw [hs.mpr (hsub ht)] at hout
  cases hout

/-! ## The rules of the grammar -/

section Composed

variable {P : {α : Type} → Recognizer α → Prop} (h : Composed P)
include h

/-- A list of parts with signs between them. -/
theorem composed_signed {signs follow : TokenSet} {part : Unit → Recognizer Unit}
    (hpart : P (part ())) (rounds : Nat) : P (signed signs follow part rounds) := by
  refine h.bind (h.within _ hpart) fun _ => h.repeatWhile ?_ rounds
  refine h.bind (h.typeAhead 1) fun sign => ?_
  split
  · exact h.bind (h.expect _ _) fun _ => h.bind (h.within _ hpart) fun _ => h.pure _
  · exact h.pure _

mutual

/-- Sums. -/
theorem composed_expr : ∀ n, P (expr n)
  | 0 => h.outOfSteps
  | n + 1 => h.asRule _ (composed_signed h (composed_term n) n)

/-- Products. -/
theorem composed_term : ∀ n, P (term n)
  | 0 => h.outOfSteps
  | n + 1 => h.asRule _ (composed_signed h (composed_primary n) n)

/-- Factors. -/
theorem composed_primary : ∀ n, P (primary n)
  | 0 => h.outOfSteps
  | n + 1 => by
      refine h.asRule _ (h.bind (h.typeAhead 1) fun ty => ?_)
      -- a number; a string; a name, with or without arguments; a parenthesis; anything else
      split
      · exact h.expect _ _
      · split
        · exact h.expect _ _
        · split
          · refine h.bind (h.expect _ _) fun _ => h.bind (h.typeAhead 1) fun ty => ?_
            split
            · refine h.bind (h.expect _ _) fun _ => h.bind (h.typeAhead 1) fun ty => ?_
              split
              · exact h.bind (h.within _ (composed_args n)) fun _ => h.expect _ _
              · exact h.expect _ _
            · exact h.pure _
          · split
            · exact h.bind (h.expect _ _) fun _ =>
                h.bind (h.within _ (composed_expr n)) fun _ => h.expect _ _
            · exact h.noViableAlt 1

/-- Arguments. -/
theorem composed_args : ∀ n, P (args n)
  | 0 => h.outOfSteps
  | n + 1 => h.asRule _ (composed_signed h (composed_expr n) n)

end

/-- Assignments. -/
theorem composed_assignment : ∀ n, P (assignment n)
  | 0 => h.outOfSteps
  | n + 1 => h.bind (h.expect _ _) fun _ => h.bind (h.expect _ _) fun _ =>
      h.bind (h.within _ (composed_expr h n)) fun _ => h.expect _ _

mutual

/-- Blocks. -/
theorem composed_block : ∀ n, P (block n)
  | 0 => h.outOfSteps
  | n + 1 => by
      refine h.asRule _ (h.bind (h.expect _ _) fun _ =>
        h.guarded blockLoop rbrace ruleEnd (fun ty => ?_) (fun ty hout => ?_)
          (contains_blockLoop.mpr (by decide)) n)
      · split
        · exact h.bind (h.within _ (composed_statement n)) fun _ => h.pure _
        · exact h.pure _
      · rw [if_neg]
        · rfl
        · rw [not_contains_of contains_blockLoop contains_firstStatement
            (List.subset_append_left _ _) hout]
          exact Bool.false_ne_true

/-- Statements. -/
theorem composed_statement : ∀ n, P (statement n)
  | 0 => h.outOfSteps
  | n + 1 => by
      refine h.asRule _ (h.bind (h.typeAhead 1) fun ty => ?_)
      -- a definition; a return; a block; what a trial tells an assignment from; anything else
      split
      · exact h.bind (h.expect _ _) fun _ => composed_assignment h n
      · split
        · refine h.bind (h.expect _ _) fun _ => h.bind (h.typeAhead 1) fun ty => ?_
          split
          · exact h.bind (h.within _ (composed_expr h n)) fun _ => h.expect _ _
          · exact h.expect _ _
        · split
          · exact h.within _ (composed_block n)
          · split
            · refine h.bind (h.trial ?_ ?_) fun isAssignment => ?_
              · exact (ordinary_expect _ _).bind fun _ => ordinary_expect _ _
              · exact h.bind (h.expect _ _) fun _ => h.expect _ _
              · split
                · exact composed_assignment h n
                · refine h.bind (h.typeAhead 2) fun ty => ?_
                  split
                  · exact h.bind (h.within _ (composed_expr h n)) fun _ => h.expect _ _
                  · exact h.noViableAlt 2
            · exact h.noViableAlt 1

end

/-- Parameters. -/
theorem composed_params (n : Nat) : P (params n) := by
  refine h.asRule _ (h.bind (h.expect _ _) fun _ => h.repeatWhile ?_ n)
  refine h.bind (h.typeAhead 1) fun ty => ?_
  split
  · exact h.bind (h.expect _ _) fun _ => h.bind (h.expect _ _) fun _ => h.pure _
  · exact h.pure _

/-- Functions. -/
theorem composed_function (n : Nat) : P (function n) := by
  refine h.asRule _ (h.bind (h.expect _ _) fun _ => h.bind (h.expect _ _) fun _ =>
    h.bind (h.expect _ _) fun _ => h.bind (h.typeAhead 1) fun ty => ?_)
  split
  · exact h.bind (h.within _ (composed_params h n)) fun _ => h.bind (h.expect _ _) fun _ =>
      h.within _ (composed_block h n)
  · exact h.bind (h.expect _ _) fun _ => h.within _ (composed_block h n)

/-- Whole sources. -/
theorem composed_script (n : Nat) : P (script n) := by
  refine h.asRule _ (h.guarded scriptLoop .eof ruleEnd (fun ty => ?_)
    (fun ty hout => ?_) (contains_scriptLoop.mpr (by decide)) n)
  · split
    · exact h.bind (h.within _ (composed_function h n)) fun _ => h.pure _
    · split
      · exact h.bind (h.within _ (composed_statement h n)) fun _ => h.pure _
      · exact h.pure _
  · rw [if_neg, if_neg]
    · rfl
    · rw [not_contains_of contains_scriptLoop contains_firstStatement
        (List.subset_append_left _ _) hout]
      exact Bool.false_ne_true
    · rintro rfl
      rw [contains_scriptLoop.mpr (by decide)] at hout
      cases hout

/-- **Every rule of the grammar.** -/
theorem composed_entry (n : Nat) (r : RuleIndex) : P (grammar.entry n r) := by
  unfold grammar
  simp only
  repeat' split
  · exact composed_script h n
  · exact composed_function h n
  · exact composed_params h n
  · exact composed_block h n
  · exact composed_statement h n
  · exact composed_expr h n
  · exact composed_term h n
  · exact composed_primary h n
  · exact composed_args h n

end Composed

/-- **Every recognizer of the grammar is a rule**, if it is granted a step, and so is its body put together. -/
theorem composed_body {P : {α : Type} → Recognizer α → Prop} (h : Composed P) (n : Nat)
    (r : RuleIndex) :
    ∃ r' body, grammar.entry (n + 1) r = .rule r' body .pure ∧ P (body ()) := by
  have hrule : ∃ r' body, grammar.entry (n + 1) r = .rule r' body .pure := by
    unfold grammar
    simp only
    repeat' split
    all_goals exact ⟨_, _, rfl⟩
  obtain ⟨r', body, hbody⟩ := hrule
  exact ⟨r', body, hbody, (composed_entry h.withBody (n + 1) r).2 r' body _ hbody⟩

/-- **Every recognizer of the grammar is ordinary**, and runs inside one rule, if it is granted a step. -/
theorem ordinaryRule (n : Nat) (r : RuleIndex) : (grammar.entry (n + 1) r).OrdinaryRule :=
  composed_body composed_ordinary n r

/-- The same for the steps that are granted for an input. -/
theorem ordinaryRule_stepsFor (tokens : Nat) (r : RuleIndex) :
    (grammar.entry (stepsFor tokens) r).OrdinaryRule := ordinaryRule _ r

/-- **Every recognizer of the grammar decides on types alone.** -/
theorem lexemeDriven_stepsFor (tokens : Nat) (r : RuleIndex) :
    (grammar.entry (stepsFor tokens) r).LexemeDriven := composed_entry composed_lexemeDriven _ r

end Sample

end TreeProjection
