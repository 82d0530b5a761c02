import TreeProjection.Proofs.Layering
import TreeProjection.Proofs.Safety

/-! # Regions that have been dropped

A region is known by the place of its opening entry.  A rollback cuts the record at such a place, and the regions that
are opened next get the numbers of those that were dropped.  So a dropped region is refused **for as long as its number
is not given out again**, and no longer: once it is, the old number stands for the new region.

* `BuilderCall.numbers` — the numbers that are given out while calls are made.
* `GreenBuilder.Nested` — open regions have been opened one after the other, at places of the record;
  `GreenBuilder.Nested.runAll` — whatever is called.
* `GreenBuilder.not_mem_openMarkers_runAll` — a region that is not open stays so until its number is given out.
* `GreenBuilder.refuses_dropped` — the three calls that name a region refuse one that was dropped. -/

namespace TreeProjection

namespace BuilderCall

/-- The number that a call gives out, if it opens a region. -/
def number? (b : GreenBuilder) : BuilderCall → Option Nat
  | mark => some b.mark.1
  | _ => none

/-- **The numbers that calls give out**, one after the other, until a call is refused. -/
def numbers (b : GreenBuilder) : List BuilderCall → List Nat
  | [] => []
  | call :: rest =>
      match call.run b with
      | .ok b' => (call.number? b).toList ++ numbers b' rest
      | .error _ => []

variable {b b' c : GreenBuilder} {call : BuilderCall} {rest : List BuilderCall}

/-- The calls that come after an answered one give out their numbers after it. -/
theorem numbers_cons (hok : call.run b = .ok b') :
    numbers b (call :: rest) = (call.number? b).toList ++ numbers b' rest := by
  rw [numbers, hok]

/-- What is answered in two parts is answered in the first one, and then in the second. -/
theorem exists_of_bind {α β : Type} {x : Except Violation α} {f : α → Except Violation β} {y : β}
    (hok : (x >>= f) = .ok y) : ∃ a, x = .ok a ∧ f a = .ok y := by
  cases x with
  | error v => cases hok
  | ok a => exact ⟨a, rfl, hok⟩

/-- **Calls that are answered**: first the first one, and then the others. -/
theorem runAll_cons (hok : runAll b (call :: rest) = .ok c) :
    ∃ b', call.run b = .ok b' ∧ runAll b' rest = .ok c := by
  rw [runAll, List.foldlM_cons] at hok
  exact exists_of_bind hok

end BuilderCall

namespace GreenBuilder

variable {b b' c : GreenBuilder} {marker target : Nat} {call : BuilderCall} {calls : List BuilderCall}

/-! ## Open regions and their numbers -/

/-- **Open regions are nested**: each was opened after those that it is in, at a place of the record. -/
structure Nested (b : GreenBuilder) : Prop where
  /-- Those further in have the higher numbers. -/
  decreasing : b.openMarkers.Pairwise (· > ·)
  /-- They are known by places of the record. -/
  recorded : ∀ marker ∈ b.openMarkers, marker < b.events.size

/-- Passing a token does not make the record shorter. -/
theorem size_le_advance (b : GreenBuilder) : b.events.size ≤ b.advance.events.size := by
  unfold advance
  split
  · simp
  · exact Nat.le_refl _

/-- Closing a region makes the record longer by one entry. -/
theorem size_close {closing : Closing} (hok : b.close marker closing = .ok b') :
    b'.events.size = b.events.size + 1 := by
  unfold close at hok
  split at hok
  · split at hok
    · cases hok
      simp [recordClosing]
    · cases hok
  · cases hok

/-- **What a rollback does**: it drops the open regions down to the one that is named, which is open, and cuts the
record where that one was opened. -/
theorem rollback_eq_ok (hok : b.rollback target = .ok b') :
    target ∈ b.openMarkers ∧ b'.openMarkers = (b.openMarkers.dropWhile (· != target)).tail ∧
      b'.events = b.events.take target := by
  unfold rollback at hok
  split at hok
  · rename_i hopen
    split at hok
    · cases hok
      exact ⟨by simpa using hopen, rfl, rfl⟩
    · cases hok
  · cases hok

/-- In a decreasing list, what comes after an element is smaller. -/
theorem lt_of_mem_tail_dropWhile {markers : List Nat} (hsorted : markers.Pairwise (· > ·))
    (htarget : target ∈ markers) :
    ∀ marker ∈ (markers.dropWhile (· != target)).tail, marker < target := by
  induction markers with
  | nil => cases htarget
  | cons m rest ih =>
      rw [List.pairwise_cons] at hsorted
      by_cases hm : m = target
      · subst hm
        simpa using hsorted.1
      · have hrest : target ∈ rest := by simpa [Ne.symm hm] using htarget
        have hdrop : (m :: rest).dropWhile (· != target) = rest.dropWhile (· != target) := by
          simp [hm]
        rw [hdrop]
        exact ih hsorted.2 hrest

namespace Nested

/-- No region is open at first. -/
theorem ofText (h : HostText) (l : Language) : (GreenBuilder.ofText h l).Nested where
  decreasing := .nil
  recorded := nofun

/-- **After a rollback** all open regions have been opened before the one that was dropped. -/
theorem lt_of_rollback (hb : b.Nested) (hok : b.rollback target = .ok b') :
    ∀ marker ∈ b'.openMarkers, marker < target := by
  obtain ⟨htarget, hopen, -⟩ := rollback_eq_ok hok
  rw [hopen]
  exact lt_of_mem_tail_dropWhile hb.decreasing htarget

/-- Closing a region leaves the others nested. -/
theorem close {closing : Closing} (hb : b.Nested) (hok : b.close marker closing = .ok b') : b'.Nested := by
  have hopen := openMarkers_close hok
  have hsize := size_close hok
  constructor
  · have hsorted := hb.decreasing
    rw [hopen] at hsorted
    exact hsorted.of_cons
  · intro m hm
    have hlt := hb.recorded m (by simp [hopen, hm])
    omega

/-- Dropping regions leaves the others nested. -/
theorem rollback (hb : b.Nested) (hok : b.rollback target = .ok b') : b'.Nested := by
  obtain ⟨htarget, hopen, hevents⟩ := rollback_eq_ok hok
  constructor
  · rw [hopen]
    exact hb.decreasing.sublist ((List.tail_sublist _).trans (List.dropWhile_sublist _))
  · intro m hm
    -- the record is cut at the place of the region, and what is open still was opened before
    have hlt := hb.lt_of_rollback hok m hm
    have hsize := hb.recorded target htarget
    simp only [hevents, Array.take_eq_extract, Array.size_extract]
    omega

/-- **Every call** leaves open regions nested. -/
theorem run (hb : b.Nested) (hok : call.run b = .ok b') : b'.Nested := by
  cases call with
  | advance =>
      cases hok
      show b.advance.Nested
      constructor
      · simpa using hb.decreasing
      · intro m hm
        have hlt := hb.recorded m (by simpa using hm)
        have hle := b.size_le_advance
        omega
  | mark =>
      -- the number that is given out is the length of the record, beyond those of the regions that are open
      cases hok
      constructor
      · exact hb.decreasing.cons hb.recorded
      · intro m hm
        have hsize : (TreeBuilder.mark b).2.events.size = b.events.size + 1 := Array.size_push _
        rcases List.mem_cons.mp hm with rfl | hm
        · exact hsize ▸ Nat.lt_succ_self _
        · have hlt := hb.recorded m hm
          omega
  | done marker kind => exact hb.close hok
  | error marker message => exact hb.close hok
  | rollback marker => exact hb.rollback hok

/-- **Whatever is called**, open regions are nested. -/
theorem runAll (hb : b.Nested) (hok : BuilderCall.runAll b calls = .ok c) : c.Nested := by
  induction calls generalizing b with
  | nil =>
      cases hok
      exact hb
  | cons call rest ih =>
      obtain ⟨b', hcall, hrest⟩ := BuilderCall.runAll_cons hok
      exact ih (hb.run hcall) hrest

end Nested

/-! ## Numbers that are not given out -/

/-- **A call opens no region** but the one whose number it gives out. -/
theorem not_mem_openMarkers_run (hopen : marker ∉ b.openMarkers) (hok : call.run b = .ok b')
    (hnumber : marker ∉ call.number? b) : marker ∉ b'.openMarkers := by
  cases call with
  | advance =>
      cases hok
      show marker ∉ b.advance.openMarkers
      simpa using hopen
  | mark =>
      cases hok
      intro hmem
      rcases List.mem_cons.mp hmem with rfl | hmem
      · exact hnumber rfl
      · exact hopen hmem
  | done m kind =>
      rw [openMarkers_close hok] at hopen
      exact fun hmem => hopen (List.mem_cons_of_mem _ hmem)
  | error m message =>
      rw [openMarkers_close hok] at hopen
      exact fun hmem => hopen (List.mem_cons_of_mem _ hmem)
  | rollback m =>
      obtain ⟨-, hleft, -⟩ := rollback_eq_ok hok
      rw [hleft]
      intro hmem
      exact hopen ((List.dropWhile_sublist _).mem (List.mem_of_mem_tail hmem))

/-- **A region that is not open stays so** until its number is given out. -/
theorem not_mem_openMarkers_runAll (hopen : marker ∉ b.openMarkers) (hok : BuilderCall.runAll b calls = .ok c)
    (hnumbers : marker ∉ BuilderCall.numbers b calls) : marker ∉ c.openMarkers := by
  induction calls generalizing b with
  | nil =>
      cases hok
      exact hopen
  | cons call rest ih =>
      obtain ⟨b', hcall, hrest⟩ := BuilderCall.runAll_cons hok
      rw [BuilderCall.numbers_cons hcall, List.mem_append, Option.mem_toList, not_or] at hnumbers
      exact ih (not_mem_openMarkers_run hopen hcall hnumbers.1) hrest hnumbers.2

/-! ## Refusals -/

/-- **A region that is not open cannot be closed.** -/
theorem close_of_not_mem (hopen : marker ∉ b.openMarkers) (closing : Closing) :
    b.close marker closing = .error (.closedOutOfOrder marker b.openMarkers.head?) := by
  unfold close
  split
  · rename_i m rest hmarkers
    rw [hmarkers] at hopen ⊢
    have hne : m ≠ marker := fun heq => hopen (by simp [heq])
    rw [if_neg hne]
    rfl
  · rename_i hmarkers
    rw [hmarkers]
    rfl

/-- **A region that is not open cannot be dropped.** -/
theorem rollback_of_not_mem (hopen : marker ∉ b.openMarkers) :
    b.rollback marker = .error (.rollbackNotOpen marker) := by
  unfold rollback
  rw [if_neg (by simpa using hopen)]

variable {h : HostText} {l : Language} {before after : List BuilderCall}

/-- **A dropped region is refused until its number is given out again.**  Whatever has been called before a region is
dropped, and whatever is called afterwards: neither that region nor one that was opened after it can be closed or
dropped, unless a later region has got its number. -/
theorem refuses_dropped (hbefore : BuilderCall.runAll (ofText h l) before = .ok b)
    (hdrop : b.rollback target = .ok b') (hle : target ≤ marker)
    (hafter : BuilderCall.runAll b' after = .ok c) (hnumbers : marker ∉ BuilderCall.numbers b' after) :
    (∀ kind, TreeBuilder.done c marker kind = .error (.closedOutOfOrder marker c.openMarkers.head?)) ∧
      (∀ message, TreeBuilder.error c marker message =
        .error (.closedOutOfOrder marker c.openMarkers.head?)) ∧
      TreeBuilder.rollback c marker = .error (.rollbackNotOpen marker) := by
  have hnested := (Nested.ofText h l).runAll hbefore
  have hdropped : marker ∉ b'.openMarkers := fun hmem =>
    Nat.not_lt.mpr hle (hnested.lt_of_rollback hdrop marker hmem)
  have hopen := not_mem_openMarkers_runAll hdropped hafter hnumbers
  exact ⟨fun kind => close_of_not_mem hopen _, fun message => close_of_not_mem hopen _, rollback_of_not_mem hopen⟩

/-- Three regions are dropped at once, one of them closed before.  Later regions get numbers on both sides of it. -/
theorem refuses_dropped_call : ∃ b b' c,
    BuilderCall.runAll (ofText (Sample.cut "x = 1 ;") Sample.language)
      [.mark, .advance, .mark, .advance, .mark, .mark, .done 5 .file] = .ok b ∧
    b.rollback 2 = .ok b' ∧ 2 ≤ 4 ∧
    BuilderCall.runAll b' [.advance, .mark, .advance, .done 3 .file, .mark] = .ok c ∧
    4 ∉ BuilderCall.numbers b' [.advance, .mark, .advance, .done 3 .file, .mark] ∧
    TreeBuilder.done c 4 .file = .error (.closedOutOfOrder 4 (some 6)) ∧
    TreeBuilder.error c 4 "late" = .error (.closedOutOfOrder 4 (some 6)) ∧
    TreeBuilder.rollback c 4 = .error (.rollbackNotOpen 4) := by
  have hrun : (do
      let b ← BuilderCall.runAll (ofText (Sample.cut "x = 1 ;") Sample.language)
        [.mark, .advance, .mark, .advance, .mark, .mark, .done 5 .file]
      let b' ← b.rollback 2
      let c ← BuilderCall.runAll b' [.advance, .mark, .advance, .done 3 .file, .mark]
      return (BuilderCall.numbers b' [.advance, .mark, .advance, .done 3 .file, .mark], c.openMarkers.head?)) =
      .ok ([3, 6], some 6) := by decide +kernel
  obtain ⟨b, hbefore, hrun⟩ := BuilderCall.exists_of_bind hrun
  obtain ⟨b', hdrop, hrun⟩ := BuilderCall.exists_of_bind hrun
  obtain ⟨c, hafter, hrun⟩ := BuilderCall.exists_of_bind hrun
  obtain ⟨hnumbers, hinnermost⟩ := Prod.mk.inj (Except.ok.inj hrun)
  have hnot : 4 ∉ BuilderCall.numbers b' [.advance, .mark, .advance, .done 3 .file, .mark] := by
    rw [hnumbers]
    decide
  obtain ⟨hdone, herror, hrollback⟩ := refuses_dropped hbefore hdrop (by decide : 2 ≤ 4) hafter hnot
  rw [hinnermost] at hdone herror
  exact ⟨b, b', c, hbefore, hdrop, by decide, hafter, hnot, hdone .file, herror "late", hrollback⟩

/-- **A dropped region is not refused for good.**  Two regions are opened one inside of the other and dropped, and two
more are opened.  The inner one of these has the number of the inner one of those, which closes it and drops it. -/
theorem number_given_out_again : ∃ b b' c closed dropped,
    BuilderCall.runAll (ofText (Sample.cut "x") Sample.language) [.mark, .mark] = .ok b ∧
    b.openMarkers = [1, 0] ∧ b.rollback 0 = .ok b' ∧ b'.openMarkers = [] ∧
    BuilderCall.runAll b' [.mark, .mark] = .ok c ∧ c.openMarkers = [1, 0] ∧
    TreeBuilder.done c 1 .file = .ok closed ∧ closed.openMarkers = [0] ∧
    TreeBuilder.rollback c 1 = .ok dropped ∧ dropped.openMarkers = [0] :=
  ⟨_, _, _, _, _, rfl, rfl, rfl, rfl, rfl, rfl, rfl, rfl, rfl, rfl⟩

end GreenBuilder

end TreeProjection
